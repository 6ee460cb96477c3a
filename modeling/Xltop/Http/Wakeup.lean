import Xltop.Http.Callback

/-!
# Wakeups

A connection that stays open asks for an event, and one that does not ask to
write has nothing to write and cannot go on with the bytes it has.
-/

namespace Xltop.Http

open Xltop.Buffer
open Xltop.Text

/-- The bytes at hand hold everything that is still missing of the request: its
remaining lines and its body. -/
inductive HoldsRest : BotzX → List Byte → Prop where
  | body {x : BotzX} {data : List Byte} (hwait : x.xQBodyWait = true)
      (hlen : x.xQBodyLen ≤ data.length) : HoldsRest x data
  | last {x : BotzX} {line rest : List Byte} (hwait : x.xQBodyWait = false)
      (hline : 10 ∉ line) (hready : (x.read line).xQReady = true) :
      HoldsRest x (line ++ 10 :: rest)
  | line {x : BotzX} {line rest : List Byte} (hwait : x.xQBodyWait = false)
      (hline : 10 ∉ line) (hrest : HoldsRest (x.read line) rest) :
      HoldsRest x (line ++ 10 :: rest)

theorem Waiting.not_holdsRest {x : BotzX} {data : List Byte} (h : Waiting x data) :
    ¬ HoldsRest x data := by
  intro hrest
  cases hrest with
  | body hwait hlen =>
      rw [Waiting, if_pos hwait] at h
      omega
  | last hwait =>
      rw [Waiting, if_neg (ne_true_of_eq_false hwait)] at h
      exact h (by simp)
  | line hwait =>
      rw [Waiting, if_neg (ne_true_of_eq_false hwait)] at h
      exact h (by simp)

variable {S : Type*}

/-- In every state that an open connection reaches, and for every further
callback: the branch without a response is not taken; if the connection stays
open, it asks for an event; and if it does not ask to write, no byte waits to
be written and the rest of the current request is not in the buffer. -/
theorem no_stuck_connection (app : App S) (block : Fin 3 → ℕ → Byte) (s : S)
    (stream : List Byte) (turns : List Turn) (t : Turn) {exit : Exit} {w : World S}
    (hopen : ((blListenCb block s stream).run app turns).closed = false)
    (hcall : ((blListenCb block s stream).run app turns).callback app t = (exit, w)) :
    exit ≠ .requestNotResponse ∧
      (w.closed = false →
        (w.conn.events.evRead = true ∨ w.conn.events.evWrite = true) ∧
          (w.conn.events.evWrite = false →
            w.queue = [] ∧ ¬ HoldsRest w.conn.cX w.conn.cQBuf.data)) := by
  have hreached := reached_run (fun _ => blListenCb_ok app block s stream) turns
  have hcalled := callback_spec (hreached.ok hopen) hopen t
  rw [hcall] at hcalled
  refine ⟨hcalled.exit, fun hstays => ?_⟩
  have hserved := hcalled.stays hstays
  refine ⟨hserved.mask, fun hquiet => ?_⟩
  obtain ⟨hqueue, hanswer⟩ := hserved.quiet hquiet
  exact ⟨hqueue, (hserved.ok.reading hanswer).2.not_holdsRest⟩

theorem no_stuck_connection_sample :
    (sampleStart.callback sampleApp (sampleTurn 9)).1 ≠ .requestNotResponse ∧
      ((sampleStart.callback sampleApp (sampleTurn 9)).2.closed = false →
        ((sampleStart.callback sampleApp (sampleTurn 9)).2.conn.events.evRead = true ∨
          (sampleStart.callback sampleApp (sampleTurn 9)).2.conn.events.evWrite = true) ∧
          ((sampleStart.callback sampleApp (sampleTurn 9)).2.conn.events.evWrite = false →
            (sampleStart.callback sampleApp (sampleTurn 9)).2.queue = [] ∧
              ¬ HoldsRest (sampleStart.callback sampleApp (sampleTurn 9)).2.conn.cX
                (sampleStart.callback sampleApp (sampleTurn 9)).2.conn.cQBuf.data)) :=
  no_stuck_connection sampleApp (fun _ _ => 0) () sampleStream [] (sampleTurn 9) rfl rfl

end Xltop.Http
