import Xltop.Master.Runs
import Xltop.Master.Attribution
import Xltop.Master.Conservation

/-!
# The totals of the daemon

For every configuration and every run of events, the totals in the table are
those of the calls of `x_update`, and they agree across the levels of both
trees.
-/

namespace Xltop.Master

open Xltop.Text
open Xltop.Hash
open Xltop.Rate

variable {R : Type*} [Field R] [LinearOrder R] [FloorRing R]

/-- In every reachable state, a live consumer and a live provider have a
`k_node` exactly when a call covered them, and its total is the sum of the
deltas of exactly those calls.  All of them were made when both nodes had been
created. -/
theorem attribution {env : Env R} {cfg : Config R} {m₀ : Daemon R}
    (hboot : Daemon.boot env cfg = some m₀) (events : List (Event R))
    {x0 x1 : XNode} (hx0 : (m₀.run env events).Live x0) (h0 : x0.which = 0)
    (hx1 : (m₀.run env events).Live x1) (h1 : x1.which = 1) :
    ((∃ k, (m₀.run env events).kLookup x0 x1 = some k) ↔
        ∃ call ∈ m₀.history env events, call.Covers x0 x1) ∧
      (∀ k, (m₀.run env events).kLookup x0 x1 = some k →
        k.kSum = delivered (m₀.history env events) x0 x1) ∧
      ∀ call ∈ m₀.history env events, call.Covers x0 x1 →
        call.tree.Live x0 ∧ call.tree.Live x1 := by
  have hattributed := Attributed.run (stateOk_xStateInit cfg.hint)
    (kLookup_xStateInit cfg.hint) (reached_steps hboot events)
  exact ⟨hattributed.exists_iff hx0 h0 hx1 h1, fun _ hk => hattributed.kSum_eq hk,
    fun call hcall hcovers => hattributed.created call hcall hcovers⟩

/-- After one message, the host and the server have a `k_node`. -/
theorem attribution_sample :
    (∃ k, (sampleDaemon.run sampleEnv [sampleServMsg]).kLookup
        sampleHost sampleServ = some k) ∧
      ∃ call ∈ sampleDaemon.history sampleEnv [sampleServMsg],
        call.Covers sampleHost sampleServ := by
  have hhost : (sampleDaemon.run sampleEnv [sampleServMsg]).Live sampleHost := by
    decide +kernel
  have hserv : (sampleDaemon.run sampleEnv [sampleServMsg]).Live sampleServ := by
    decide +kernel
  have hsample := attribution boot_sample [sampleServMsg] hhost rfl hserv rfl
  have hexists : ∃ k, (sampleDaemon.run sampleEnv [sampleServMsg]).kLookup
      sampleHost sampleServ = some k :=
    Option.isSome_iff_exists.1 (by decide +kernel)
  exact ⟨hexists, hsample.1.1 hexists⟩

/-- In every reachable state, the total of a filesystem or of the provider root
is the sum over its children for every consumer, and for every provider the
total of all consumers is the sum over the clusters and the sum over the
hosts. -/
theorem conservation {env : Env R} {cfg : Config R} {m₀ : Daemon R}
    (hboot : Daemon.boot env cfg = some m₀) (events : List (Event R)) :
    (∀ x0 x1, (m₀.run env events).Live x1 →
      x1.xType = .fs ∨ x1 = (m₀.run env events).xAll 1 →
      kSumOr (m₀.run env events).toXState x0 x1 =
        (((m₀.run env events).children x1).map
          (kSumOr (m₀.run env events).toXState x0)).sum) ∧
      ∀ x1, kSumOr (m₀.run env events).toXState ((m₀.run env events).xAll 0) x1 =
          (((m₀.run env events).nodes .clus).map fun x0 =>
            kSumOr (m₀.run env events).toXState x0 x1).sum ∧
        kSumOr (m₀.run env events).toXState ((m₀.run env events).xAll 0) x1 =
          (((m₀.run env events).nodes .host).map fun x0 =>
            kSumOr (m₀.run env events).toXState x0 x1).sum := by
  have hsteps := reached_steps hboot events
  have hstate := (stateOk_xStateInit cfg.hint).run hsteps
  have hconserved := Conserved.run (stateOk_xStateInit cfg.hint)
    (kLookup_xStateInit cfg.hint) hsteps
  refine ⟨fun x0 x1 hx1 htype => hconserved.children x0 hx1 ?_, fun x1 =>
    ⟨hconserved.clus x1, hconserved.hosts x1⟩⟩
  rcases htype with hfs | hroot
  · exact .inl hfs
  · exact .inr (by rw [hroot, hstate.tree.all_type]; rfl)

/-- The one server of the sample carries the total of its filesystem. -/
theorem conservation_sample :
    kSumOr (sampleDaemon.run sampleEnv [sampleServMsg]).toXState sampleHost
        ((sampleDaemon.run sampleEnv [sampleServMsg]).xAll 1) =
      (((sampleDaemon.run sampleEnv [sampleServMsg]).children
        ((sampleDaemon.run sampleEnv [sampleServMsg]).xAll 1)).map
          (kSumOr (sampleDaemon.run sampleEnv [sampleServMsg]).toXState
            sampleHost)).sum :=
  (conservation boot_sample [sampleServMsg]).1 sampleHost _ (by decide +kernel)
    (.inr rfl)

end Xltop.Master
