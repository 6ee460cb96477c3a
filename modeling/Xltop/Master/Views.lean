import Xltop.Core.NBuf
import Xltop.Heap.TopK
import Xltop.Master.Moves
import Xltop.Master.Shape

/-!
# Two views of a server

A GET of a server prints its statistics with the hosts, and so does the top
query from the root of the consumers three levels down.  The first walk stops
at nodes of type host, the second one counts levels; both skip what lies below
a missing pair.  Each host is three levels below the root, so both find the
same pairs, with the same values.
-/

namespace Xltop.Master

open Xltop.Buffer
open Xltop.Heap
open Xltop.Rate
open Xltop.Text

variable {R : Type*}

/-! ## Lines -/

/-- `PRI_STATS_FMT("%f")` of three statistics. -/
def statsText (printf : R → CString) (v : Stats R) : CString :=
  printf (v 0) ++ lit " " ++ printf (v 1) ++ lit " " ++ printf (v 2)

/-- `PRI_K_NODE_FMT"\\n"`, where `printf` is the format `%f`. -/
def kNodeText (printf : R → CString) (k : KNode XNode R) : CString :=
  k.kX0.xType.name ++ lit ":" ++ k.kX0.xName ++ lit " " ++
    k.kX1.xType.name ++ lit ":" ++ k.kX1.xName ++ lit " " ++ printf k.kT ++ lit " " ++
    statsText printf k.kPending ++ lit " " ++ statsText printf k.kRate ++ lit " " ++
    statsText printf k.kSum ++ lit "\n"

/-- Statistics printed one after the other. -/
def printKNodes (printf : R → CString) (nb : NBuf) (ks : List (KNode XNode R)) : NBuf :=
  (ks.map (kNodeText printf)).foldl nBufPrintf nb

/-! ## Fresh values -/

variable [Field R] [LinearOrder R] [FloorRing R]

namespace XState

variable (σ : XState R)

/-- The statistics of a list of pairs, brought up to date. -/
def freshValues (c : KConf R) (now : R) (pairs : List (XNode × XNode)) :
    List (KNode XNode R) :=
  pairs.filterMap fun p => (σ.kLookup p.1 p.2).map fun k => kFreshen c k now

/-- The statistics have the same values once they are brought up to date. -/
def SameAt (c : KConf R) (now : R) (σ' : XState R) : Prop :=
  ∀ x0 x1, (σ'.kLookup x0 x1).map (fun k => kFreshen c k now) =
    (σ.kLookup x0 x1).map fun k => kFreshen c k now

variable {σ} {σ' σ₂ : XState R} {c : KConf R} {now : R}

theorem SameAt.refl : σ.SameAt c now σ :=
  fun _ _ => rfl

theorem SameAt.trans (h : σ.SameAt c now σ') (h' : σ'.SameAt c now σ₂) :
    σ.SameAt c now σ₂ :=
  fun x0 x1 => (h' x0 x1).trans (h x0 x1)

variable [IsStrictOrderedRing R]

theorem SameAt.freshen (htick : 0 < c.kTick) (x0 x1 : XNode) :
    σ.SameAt c now (σ.kModify x0 x1 fun k => kFreshen c k now) := by
  intro y0 y1
  rw [kLookup_freshen, Option.map_map]
  refine congrArg (Option.map · _) (funext fun k => ?_)
  rw [Function.comp_apply]
  split
  · exact kFreshen_self htick k now
  · rfl

end XState

open XState

/-- An existing pair is brought up to date, and its value is put away. -/
def visit {β : Type*} (put : β → KNode XNode R → β) (c : KConf R) (now : R)
    (s : XState R × β) (p : XNode × XNode) : XState R × β :=
  match s.1.kLookup p.1 p.2 with
  | none => s
  | some k =>
      (s.1.kModify p.1 p.2 fun k => kFreshen c k now, put s.2 (kFreshen c k now))

section Folds

variable {β : Type*} {put : β → KNode XNode R → β} {σ : XState R} {c : KConf R} {now : R}

theorem Reads.visit (s : XState R × β) (p : XNode × XNode) :
    Reads c s.1 (visit put c now s p).1 := by
  rw [Master.visit]
  cases s.1.kLookup p.1 p.2 with
  | none => exact .refl
  | some k => exact .freshen p.1 p.2 now

variable (put) in
/-- A list of pairs puts its values away. -/
theorem foldl_visit [IsStrictOrderedRing R] (htick : 0 < c.kTick)
    (pairs : List (XNode × XNode)) {s : XState R × β} (hs : σ.SameAt c now s.1) :
    (pairs.foldl (visit put c now) s).2 = (σ.freshValues c now pairs).foldl put s.2 ∧
      σ.SameAt c now (pairs.foldl (visit put c now) s).1 := by
  induction pairs generalizing s with
  | nil => exact ⟨rfl, hs⟩
  | cons p pairs ih =>
      have hvalue := hs p.1 p.2
      rw [List.foldl_cons, freshValues, List.filterMap_cons, ← hvalue, Master.visit]
      cases s.1.kLookup p.1 p.2 with
      | none => exact ih hs
      | some k => exact ih (hs.trans (.freshen htick p.1 p.2))

/-- `serv_get_r` visits the pairs that the top walk reaches, when the depth is
that of the hosts. -/
theorem servGetR_eq (h : StateOk σ) {d0 fuel : ℕ} {x0 : XNode} (sx : XNode)
    (hwhich : x0.which = 0) (hrank : x0.xType.rank = d0) (hfuel : d0 < fuel)
    {s : XState R × List (KNode XNode R)} (hs : Reads c σ s.1) :
    servGetR c now fuel s x0 sx = (σ.topPairs d0 0 x0 sx).foldl
      (visit (fun ks k => ks ++ [k]) c now) s := by
  induction d0 generalizing fuel x0 s with
  | zero =>
      obtain ⟨fuel, rfl⟩ := Nat.exists_eq_succ_of_ne_zero hfuel.ne'
      have hhost : x0.xType = .host := by
        revert hwhich hrank
        rw [XNode.which]
        cases x0.xType <;> decide
      rw [servGetR]
      cases hk : s.1.kLookup x0 sx with
      | none =>
          rw [topPairs_eq_nil (hasPair_iff.not.2 (not_not.2 ((hs.pairs x0 sx).1 hk)))]
          rfl
      | some k =>
          have hpair : σ.HasPair x0 sx := hasPair_iff.2 (mt (hs.pairs x0 sx).2 (by simp [hk]))
          simp only [hhost, if_true]
          rw [topPairs_zero hpair, List.foldl_cons, List.foldl_nil, Master.visit, hk]
  | succ d0 ih =>
      obtain ⟨fuel, rfl⟩ := Nat.exists_eq_succ_of_ne_zero (Nat.ne_of_gt (Nat.zero_lt_of_lt hfuel))
      have hhost : x0.xType ≠ .host := fun heq => by
        rw [heq] at hrank
        cases hrank
      have hchildren : s.1.children x0 = σ.children x0 :=
        congrArg (fun t : XTree => t.children x0) hs.tree
      rw [servGetR]
      cases hk : s.1.kLookup x0 sx with
      | none =>
          rw [topPairs_eq_nil (hasPair_iff.not.2 (not_not.2 ((hs.pairs x0 sx).1 hk)))]
          rfl
      | some k =>
          have hpair : σ.HasPair x0 sx := hasPair_iff.2 (mt (hs.pairs x0 sx).2 (by simp [hk]))
          simp only [hhost, if_false]
          rw [topPairs_consumer hpair, hchildren]
          refine foldl_visits .visit (fun child hchild s hs => ?_) hs
          have hparent := (h.tree.linked.mem_children x0 child).1 hchild
          have hrank' := h.tree.rank_of_parent hparent
          exact ih ((h.tree.which_of_parent hparent).symm.trans hwhich) (by omega)
            (Nat.lt_of_succ_lt_succ hfuel) hs

end Folds

/-! ## The two views -/

section Views

variable [IsStrictOrderedRing R] {env : Env R} {m : Daemon R} {now : R} {s : XNode}

/-- The pairs of a server with the hosts. -/
abbrev hostPairs (m : Daemon R) (s : XNode) : List (XNode × XNode) :=
  m.topPairs 3 0 (m.xAll 0) s

variable (now) in
/-- What a GET prints from a state in which nothing but reads has happened. -/
theorem servGetCb_snd (h : StateOk m.toXState) (htick : 0 < env.conf.kTick) {m' : Daemon R}
    (hreads : Reads env.conf m.toXState m'.toXState)
    (hsame : m.toXState.SameAt env.conf now m'.toXState) :
    (m'.servGetCb env s now).2 = m.freshValues env.conf now (hostPairs m s) ∧
      Reads env.conf m.toXState (m'.servGetCb env s now).1.toXState ∧
      m.toXState.SameAt env.conf now (m'.servGetCb env s now).1.toXState := by
  have hall : m'.xAll 0 = m.xAll 0 := congrArg (fun t : XTree => t.xAll 0) hreads.tree
  have htype : (m.xAll 0).xType = .u := by rw [h.tree.all_type, if_pos rfl]
  have hwalk : servGetR env.conf now nrXTypes (m'.toXState, []) (m'.xAll 0) s =
      (hostPairs m s).foldl (visit (fun ks k => ks ++ [k]) env.conf now) (m'.toXState, []) := by
    rw [hall]
    exact servGetR_eq h s (by rw [XNode.which, htype]; rfl) (by rw [htype]; rfl) (by decide)
      hreads
  obtain ⟨hvalues, hsame'⟩ := foldl_visit (fun ks k => ks ++ [k]) htick (hostPairs m s)
    (s := (m'.toXState, [])) hsame
  have hreads' : Reads env.conf m'.toXState
      (servGetR env.conf now nrXTypes (m'.toXState, []) (m'.xAll 0) s).1 :=
    .servGetR nrXTypes (m'.toXState, []) (m'.xAll 0) s
  rw [Daemon.servGetCb]
  refine ⟨?_, hreads.trans hreads', ?_⟩
  · change (servGetR env.conf now nrXTypes (m'.toXState, []) (m'.xAll 0) s).2 = _
    rw [hwalk, hvalues, List.foldl_append_eq_append (f := fun k : KNode XNode R => [k]),
      ← List.flatMap_def, List.flatMap_singleton', List.nil_append]
  · change m.toXState.SameAt env.conf now
      (servGetR env.conf now nrXTypes (m'.toXState, []) (m'.xAll 0) s).1
    rw [hwalk]
    exact hsame'

/-- A top query for all hosts of a server. -/
structure HostQuery (m : Daemon R) (s : XNode) (q : Daemon.TopQuery) : Prop where
  x0 : m.xLookupStr q.x0 = some (m.xAll 0)
  x1 : m.xLookupStr q.x1 = some s
  d0 : q.d0 = 3
  d1 : q.d1 = 0
  limit : q.limit = Daemon.topLimitMax
  owner : q.owner = none

/-- The heap of such a query. -/
abbrev hostHeap (env : Env R) (m : Daemon R) (s : XNode) (q : Daemon.TopQuery) (now : R) :
    KHeap (KNode XNode R) :=
  (m.freshValues env.conf now (hostPairs m s)).foldl (kHeapAdd (kTopCmp q.sort))
    (kHeapInit Daemon.topLimitMax)

variable (now) in
theorem topQueryCb_snd (htick : 0 < env.conf.kTick) {q : Daemon.TopQuery}
    (hq : HostQuery m s q) {m' : Daemon R}
    (hreads : Reads env.conf m.toXState m'.toXState)
    (hsame : m.toXState.SameAt env.conf now m'.toXState) :
    (m'.topQueryCb env q now).2 =
        some (kHeapArray (kHeapOrder (kTopCmp q.sort) (hostHeap env m s q now))) ∧
      Reads env.conf m.toXState (m'.topQueryCb env q now).1.toXState ∧
      m.toXState.SameAt env.conf now (m'.topQueryCb env q now).1.toXState := by
  have hstr : ∀ str, m'.xLookupStr str = m.xLookupStr str := fun str =>
    congrArg (fun t : XTree => t.xLookupStr str) hreads.tree
  rw [Daemon.topQueryCb, hstr, hstr, hq.x0, hq.x1]
  simp only [hq.d0, hq.d1, hq.limit, hq.owner, Option.map_none, min_self, OfNat.ofNat_ne_zero,
    if_false]
  have hwalk : kHeapTop env.conf (kTopCmp q.sort) now 3 0 none
      (m'.toXState, kHeapInit Daemon.topLimitMax) (m.xAll 0) s = _ :=
    kHeapTop_eq 3 0 (m.xAll 0) s hreads
  obtain ⟨hvalues, hsame'⟩ := foldl_visit (kHeapAdd (kTopCmp q.sort)) htick
    (hostPairs m s) (s := (m'.toXState, kHeapInit Daemon.topLimitMax)) hsame
  have hreads' : Reads env.conf m'.toXState (kHeapTop env.conf (kTopCmp q.sort) now 3 0 none
      (m'.toXState, kHeapInit Daemon.topLimitMax) (m.xAll 0) s).1 :=
    .kHeapTop 3 0 none (m'.toXState, kHeapInit Daemon.topLimitMax) (m.xAll 0) s
  refine ⟨?_, hreads.trans hreads', ?_⟩
  · rw [hwalk]
    exact congrArg (fun h => some (kHeapArray (kHeapOrder (kTopCmp q.sort) h))) hvalues
  · rw [hwalk]
    exact hsame'

/-- Two views of a server agree: if at most as many `k_node`s as the limit of a
query allows are to be printed, the GET of the server and the top query from
the root of the consumers, three levels down, print the same ones with the same
values, also when one of them runs after the other at the same time.  Where a
body has room for the lines, these are the lines of both. -/
theorem server_views_agree {cfg : Config R} {m₀ : Daemon R}
    (hboot : Daemon.boot env cfg = some m₀) (events : List (Event R))
    {q : Daemon.TopQuery} (hq : HostQuery (m₀.run env events) s q)
    (hfew : ((m₀.run env events).servGetCb env s now).2.length ≤ Daemon.topLimitMax) :
    let m := m₀.run env events
    ∃ printed, (m.topQueryCb env q now).2 = some printed ∧
      printed.Perm (m.servGetCb env s now).2 ∧
      ((m.servGetCb env s now).1.topQueryCb env q now).2 = some printed ∧
      ((m.topQueryCb env q now).1.servGetCb env s now).2 = (m.servGetCb env s now).2 ∧
      ∀ printf nb, nb.Check →
        nb.nbEnd + (printed.map (kNodeText printf)).flatten.length < nb.nbSize →
        (printKNodes printf nb printed).data =
            nb.data ++ (printed.map (kNodeText printf)).flatten ∧
          (printKNodes printf nb (m.servGetCb env s now).2).data =
            nb.data ++ ((m.servGetCb env s now).2.map (kNodeText printf)).flatten := by
  intro m
  have htick := kTick_pos_of_boot hboot
  have hok := (reached_ok hboot events).state
  obtain ⟨hget, hgetReads, hgetSame⟩ := servGetCb_snd now (m := m) (s := s) hok htick
    .refl .refl
  obtain ⟨htop, htopReads, htopSame⟩ := topQueryCb_snd now htick hq .refl .refl
  have hcmp := kTopCmp_comparison (X := XNode) (R := R) q.sort
  have hinit : Keeps (kTopCmp q.sort) Daemon.topLimitMax 0
      (kHeapInit Daemon.topLimitMax : KHeap (KNode XNode R)) := keeps_init _
  have hkeeps := hinit.foldl_kHeapAdd hcmp
    (m.freshValues env.conf now (hostPairs m s))
  have hperm : (kHeapArray (kHeapOrder (kTopCmp q.sort) (hostHeap env m s q now))).Perm
      (m.servGetCb env s now).2 := by
    rw [hget] at hfew ⊢
    rw [← Multiset.coe_eq_coe, hkeeps.kHeapOrder_of_card_le hcmp (by simpa using hfew), add_zero]
  refine ⟨_, htop, hperm, (topQueryCb_snd now htick hq hgetReads hgetSame).1,
    ((servGetCb_snd now hok htick htopReads htopSame).1).trans hget.symm,
    fun printf nb hcheck hroom => ⟨(printedAll_foldl hcheck _ hroom).bytes,
      (printedAll_foldl hcheck _ ?_).bytes⟩⟩
  rwa [← (hperm.map (kNodeText printf)).flatten.length_eq]

end Views

/-- The query for all hosts to the server of the sample. -/
def sampleHostQuery : Daemon.TopQuery where
  x0 := lit "u:ALL"
  x1 := lit "serv:oss1"
  d0 := 3
  d1 := 0
  limit := 4096
  sort := kTopSpecInit
  owner := none

theorem server_views_agree_sample :
    let m := sampleDaemon.run sampleEnv sampleBusy
    (m.servGetCb sampleEnv sampleServ 12).2.length = 2 ∧
      ∃ printed, (m.topQueryCb sampleEnv sampleHostQuery 12).2 = some printed ∧
        printed.Perm (m.servGetCb sampleEnv sampleServ 12).2 := by
  intro m
  have htwo : (m.servGetCb sampleEnv sampleServ 12).2.length = 2 := by decide +kernel
  obtain ⟨printed, htop, hperm, -⟩ := server_views_agree (s := sampleServ)
    boot_sample sampleBusy (q := sampleHostQuery)
    ⟨by decide +kernel, by decide +kernel, rfl, rfl, rfl, rfl⟩ (by rw [htwo]; decide)
  exact ⟨htwo, printed, htop, hperm⟩

end Xltop.Master
