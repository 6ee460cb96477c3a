import Xltop.Http.Lookup

/-!
# Handling a request

`bx_handle` with an application that has a state: the look-up asks the
`o_lookup` of an entry for what is not in the table, and keeps the entries that
it is given there.

What a path means is written down over places, which are the entries that were
there before the first request and whatever is created below them.  A table
only remembers places, and so it changes nothing in the responses.
-/

namespace Xltop.Http

open Function
open Xltop.Text

/-- What an `o_lookup` returns: NULL, `BOTZ_RESPONSE_READY`, or a call of
`botz_new_entry` for the component. -/
inductive Looked (O D : Type*) where
  | null
  | responseReady
  | newEntry (ops : O) (data : D)

/-- The functions of each `struct botz_entry_ops`, `none` for NULL, over the
state of the application.  They get `e_data` of the entry; `oLookup` also gets
`p_name` and `p_rest`. -/
structure Ops (O D S : Type*) where
  oLookup : O → Option (S → Option D → CString → Option CString → Request → Response →
    Looked O D × S × Response)
  oMethod : O → Method → Option (S → Option D → Request → Response → S × Response)

/-- The response with a status. -/
def Response.withStatus (r : Response) (status : Int32) : Response :=
  { r with rStatus := status }

variable {O D S : Type*} (env : EntryEnv O) (app : Ops O D S) (q : Request)

namespace BotzListen

/-- The body of the loop of `bx_lookup`, `none` when it reads an `e_ops` that is
NULL. -/
def lookUp (bl : BotzListen O D) (s : S) (r : Response) (p : BotzLookup) :
    Option (Option BotzEntry × BotzListen O D × S × Response) :=
  match bl.btLookup1 env p.pName p.pEntry with
  | some e => some (some e, bl.link env (some e) p.pEntry, s, r)
  | none =>
      match bl.eOps p.pEntry with
      | none => none
      | some ops =>
          match app.oLookup ops with
          | none => some (none, bl, s, r.withStatus 404)
          | some f =>
              match f s (bl.eData p.pEntry) p.pName p.pRest q r with
              | (.null, s, r) => some (none, bl, s, r.withStatus 404)
              | (.responseReady, s, r) => some (none, bl, s, r)
              | (.newEntry ops data, s, r) =>
                  match bl.botzNewEntry env p.pName (some ops) (some data) with
                  | (none, bl) => some (none, bl, s, r.withStatus 404)
                  | (some e, bl) => some (some e, bl.link env (some e) p.pEntry, s, r)

/-- The loop of `bx_lookup`. -/
def handleLoop (bl : BotzListen O D) (s : S) (r : Response) (pEntry : Option BotzEntry)
    (pRest : Option CString) : Option (Option BotzEntry × BotzListen O D × S × Response) :=
  match _hwalk : bl.bpWalk pEntry pRest with
  | .stopped pEntry => some (pEntry, bl, s, r)
  | .component p =>
      match lookUp env app q bl s r p with
      | none => none
      | some (e, bl, s, r) => handleLoop bl s r e p.pRest
termination_by refSize pRest
decreasing_by exact refSize_bpWalk_lt _ _hwalk

/-- `bx_handle` of a request with a path, `none` when it reads an `e_ops` that
is NULL. -/
def handle (bl : BotzListen O D) (s : S) (r : Response) (path : CString) :
    Option (BotzListen O D × S × Response) :=
  match handleLoop env app q bl s r (some bl.blRootEntry) (some path) with
  | none => none
  | some (none, bl, s, r) => some (bl, s, r)
  | some (some e, bl, s, r) =>
      match bl.eOps e with
      | none => none
      | some ops =>
          match app.oMethod ops q.qMethod with
          | none => some (bl, s, r.withStatus 403)
          | some f =>
              let (s, r) := f s (bl.eData e) q r
              some (bl, s, r)

end BotzListen

/-! ## Places -/

/-- An entry that was there before the first request, and what has been created
below it, the last first. -/
abbrev Place (O D : Type*) := BotzEntry × List (O × D)

/-- The entries that an application creates: for each operations and data, those
below them by name. -/
abbrev Creates (O D : Type*) := O → Option D → CString → Option (O × D)

section Places

variable (bl₀ : BotzListen O D) (created : Creates O D)

def placeOps : Place O D → Option O
  | (e, []) => bl₀.eOps e
  | (_, (ops, _) :: _) => some ops

def placeData : Place O D → Option D
  | (e, []) => bl₀.eData e
  | (_, (_, data) :: _) => some data

def placeUp : Place O D → Option (Place O D)
  | (e, []) => (bl₀.eParent e).map fun p => (p, [])
  | (e, _ :: above) => some (e, above)

/-- The entry that was below a place before the first request. -/
def placeStatic (v : Place O D) (name : CString) : Option BotzEntry :=
  if v.2 = [] then bl₀.child v.1 name else none

def placeChild (v : Place O D) (name : CString) : Option (Place O D) :=
  match placeStatic bl₀ v name with
  | some c => some (c, [])
  | none =>
      ((placeOps bl₀ v).bind fun ops => created ops (placeData bl₀ v) name).map fun new =>
        (v.1, new :: v.2)

/-- Where `bp_walk` stops. -/
inductive PlaceWalked (O D : Type*) where
  | stopped (v : Option (Place O D))
  | component (v : Place O D) (name : CString) (rest : Option CString)

/-- `bp_walk` over places. -/
def placeWalk (v : Option (Place O D)) (rest : Option CString) : PlaceWalked O D :=
  match v, rest with
  | none, _ => .stopped none
  | some v, none => .stopped (some v)
  | some v, some s =>
      match _hcut : pathsep (some s) with
      | (none, _) => .stopped (some v)
      | (some name, rest) =>
          if name = lit "." then placeWalk (some v) rest
          else if name = lit ".." then placeWalk (placeUp bl₀ v) rest
          else .component v name rest
termination_by refSize rest
decreasing_by all_goals exact refSize_pathsep_lt ‹_›

theorem refSize_placeWalk_lt {v : Option (Place O D)} {rest rest' : Option CString}
    {w : Place O D} {name : CString}
    (h : placeWalk bl₀ v rest = .component w name rest') :
    refSize rest' < refSize rest := by
  fun_induction placeWalk bl₀ v rest with
  | case1 => cases h
  | case2 => cases h
  | case3 => cases h
  | case4 v s rest hcut ih => exact (ih h).trans (refSize_pathsep_lt hcut)
  | case5 v s rest hcut _ ih => exact (ih h).trans (refSize_pathsep_lt hcut)
  | case6 v s name rest hcut =>
      cases h
      exact refSize_pathsep_lt hcut

/-- What a component below a place means: the place that it leads to if there is
one, and the state and the response then. -/
def routeStep (s : S) (r : Response) (v : Place O D) (name : CString) (rest : Option CString) :
    Option (Place O D) × S × Response :=
  match placeChild bl₀ created v name with
  | some c => (some c, s, r)
  | none =>
      match (placeOps bl₀ v).bind app.oLookup with
      | none => (none, s, r.withStatus 404)
      | some f =>
          match f s (placeData bl₀ v) name rest q r with
          | (.responseReady, s, r) => (none, s, r)
          | (_, s, r) => (none, s, r.withStatus 404)

/-- What a path means. -/
def routeLoop (s : S) (r : Response) (v : Option (Place O D)) (rest : Option CString) :
    Option (Place O D) × S × Response :=
  match _hwalk : placeWalk bl₀ v rest with
  | .stopped v => (v, s, r)
  | .component v name rest =>
      let (v, s, r) := routeStep app q bl₀ created s r v name rest
      routeLoop s r v rest
termination_by refSize rest
decreasing_by exact refSize_placeWalk_lt bl₀ _hwalk

/-- Where a path leads: to a place, or to a component that is not there. -/
inductive Landing (O D : Type*) where
  | nowhere
  | place (v : Place O D)
  | beyond (v : Place O D) (name : CString) (rest : Option CString)

/-- The path does not depend on the request, on the state or on the response. -/
def landing (v : Option (Place O D)) (rest : Option CString) : Landing O D :=
  match _hwalk : placeWalk bl₀ v rest with
  | .stopped none => .nowhere
  | .stopped (some v) => .place v
  | .component v name rest =>
      match placeChild bl₀ created v name with
      | some c => landing (some c) rest
      | none => .beyond v name rest
termination_by refSize rest
decreasing_by exact refSize_placeWalk_lt bl₀ _hwalk

/-- The response to a request by its path alone. -/
def route (s : S) (r : Response) (path : CString) : S × Response :=
  match routeLoop app q bl₀ created s r (some (bl₀.blRootEntry, [])) (some path) with
  | (none, s, r) => (s, r)
  | (some v, s, r) =>
      match (placeOps bl₀ v).bind fun ops => app.oMethod ops q.qMethod with
      | none => (s, r.withStatus 403)
      | some f => f s (placeData bl₀ v) q r

end Places

/-! ## Tables remember places -/

/-- What the application creates does not depend on anything but the operations
and the data of the entry, and costs nothing else. -/
structure Creating (app : Ops O D S) (created : Creates O D) (s : S) : Prop where
  nothing : ∀ {ops}, app.oLookup ops = none → ∀ data name, created ops data name = none
  creates : ∀ {ops f}, app.oLookup ops = some f → ∀ {data name new},
    created ops data name = some new → ∀ rest q r,
      f s data name rest q r = (.newEntry new.1 new.2, s, r)
  responds : ∀ {ops f}, app.oLookup ops = some f → ∀ {data name},
    created ops data name = none → ∀ rest q r new data',
      (f s data name rest q r).1 ≠ .newEntry new data'

/-- A table that was `bl₀` before the first request; `place` says what each of
its entries stands for. -/
structure Remembers (env : EntryEnv O) (bl₀ : BotzListen O D) (created : Creates O D)
    (place : BotzEntry → Place O D) (bl : BotzListen O D) : Prop where
  ok : bl.EntriesOk env
  root : place bl.blRootEntry = (bl₀.blRootEntry, [])
  mem : ∀ e ∈ bl.blEntryTable.toList, (place e).1 ∈ bl₀.blEntryTable.toList
  ops : ∀ e ∈ bl.blEntryTable.toList, bl.eOps e = placeOps bl₀ (place e)
  data : ∀ e ∈ bl.blEntryTable.toList, bl.eData e = placeData bl₀ (place e)
  parent : ∀ e ∈ bl.blEntryTable.toList, (bl.eParent e).map place = placeUp bl₀ (place e)
  child : ∀ e ∈ bl.blEntryTable.toList, ∀ {p}, bl.eParent e = some p →
    placeChild bl₀ created (place p) e.eName = some (place e)
  static : ∀ e ∈ bl.blEntryTable.toList, ∀ {name c}, placeStatic bl₀ (place e) name = some c →
    bl.child e name ≠ none

/-- Every entry has operations before the first request. -/
structure Populated (env : EntryEnv O) (bl₀ : BotzListen O D) : Prop where
  ok : bl₀.EntriesOk env
  ops : ∀ e ∈ bl₀.blEntryTable.toList, bl₀.eOps e ≠ none

section Remembers

open BotzListen

variable {env} {app} {q} {bl₀ bl : BotzListen O D} {created : Creates O D}
  {place : BotzEntry → Place O D}

theorem remembers_start (h : Populated env bl₀) :
    Remembers env bl₀ created (fun e => (e, [])) bl₀ where
  ok := h.ok
  root := rfl
  mem _ he := he
  ops _ _ := rfl
  data _ _ := rfl
  parent _ _ := rfl
  child e he p hp := by
    have hchild : placeStatic bl₀ (p, []) e.eName = some e :=
      h.ok.child_eq_some.2 ⟨he, rfl, hp⟩
    rw [placeChild, hchild]
  static e _ name c hc := fun hnone => by
    have hchild : bl₀.child e name = some c := hc
    rw [hnone] at hchild
    cases hchild

/-- `bp_walk` stops where it stops over places. -/
theorem Remembers.walk (h : Remembers env bl₀ created place bl) {pEntry : Option BotzEntry}
    (hmem : ∀ e, pEntry = some e → e ∈ bl.blEntryTable.toList) (pRest : Option CString) :
    match bl.bpWalk pEntry pRest with
    | .stopped e => placeWalk bl₀ (pEntry.map place) pRest = .stopped (e.map place) ∧
        ∀ e', e = some e' → e' ∈ bl.blEntryTable.toList
    | .component p => placeWalk bl₀ (pEntry.map place) pRest =
        .component (place p.pEntry) p.pName p.pRest := by
  fun_induction bpWalk bl pEntry pRest with
  | case1 =>
      refine ⟨?_, fun _ he => absurd he.symm (Option.some_ne_none _)⟩
      rw [placeWalk.eq_def]
      rfl
  | case2 e => exact ⟨by rw [placeWalk.eq_def]; rfl, hmem⟩
  | case3 e s rest hcut =>
      refine ⟨?_, hmem⟩
      rw [placeWalk.eq_def]
      simp only [Option.map_some]
      split
      · rfl
      · next hcut' => rw [hcut] at hcut'; cases hcut'
  | case4 e s rest hcut ih =>
      have hnext := ih hmem
      have hwalk : placeWalk bl₀ ((some e).map place) (some s) =
          placeWalk bl₀ ((some e).map place) rest := by
        conv_lhs => rw [placeWalk.eq_def]
        simp only [Option.map_some]
        split
        · next hcut' => rw [hcut] at hcut'; cases hcut'
        · next hcut' =>
            rw [hcut] at hcut'
            cases hcut'
            rw [if_pos rfl]
      rw [hwalk]
      exact hnext
  | case5 e s rest hcut hdot ih =>
      have he := hmem e rfl
      have hnext := ih fun p hp => h.ok.parent_mem hp
      have hwalk : placeWalk bl₀ ((some e).map place) (some s) =
          placeWalk bl₀ ((bl.eParent e).map place) rest := by
        rw [h.parent e he]
        conv_lhs => rw [placeWalk.eq_def]
        simp only [Option.map_some]
        split
        · next hcut' => rw [hcut] at hcut'; cases hcut'
        · next hcut' =>
            rw [hcut] at hcut'
            cases hcut'
            rw [if_neg hdot, if_pos rfl]
      rw [hwalk]
      exact hnext
  | case6 e s name rest hcut hdot hup =>
      rw [placeWalk.eq_def]
      simp only [Option.map_some]
      split
      · next hcut' => rw [hcut] at hcut'; cases hcut'
      · next hcut' =>
          rw [hcut] at hcut'
          cases hcut'
          rw [if_neg hdot, if_neg hup]

section New

variable {e : BotzEntry} {name : CString} {new : O × D}

/-- The table with an entry that an `o_lookup` has created below `e`. -/
abbrev created₁ (bl : BotzListen O D) (env : EntryEnv O) (e : BotzEntry) (name : CString)
    (new : O × D) : BotzListen O D :=
  { EntriesOk.added bl env e name with
    eOps := update bl.eOps ⟨bl.mallocs, name⟩ (some new.1)
    eData := update bl.eData ⟨bl.mallocs, name⟩ (some new.2) }

theorem link_created (e : BotzEntry) (name : CString) (new : O × D)
    (hblock : env.block bl.mallocs ≠ none) :
    ∃ bl₁, bl.botzNewEntry env name (some new.1) (some new.2) =
        (some ⟨bl.mallocs, name⟩, bl₁) ∧
      bl₁.link env (some ⟨bl.mallocs, name⟩) e = created₁ bl env e name new := by
  obtain ⟨block, hblock⟩ := Option.ne_none_iff_exists'.1 hblock
  refine ⟨(bl.botzNewEntry env name (some new.1) (some new.2)).2, ?_, ?_⟩
  · rw [botzNewEntry, hblock]
  · simp [botzNewEntry, hblock, BotzListen.link, btAddEntry, key]

/-- What stands for a new entry. -/
def placeNew (place : BotzEntry → Place O D) (bl : BotzListen O D) (e : BotzEntry)
    (name : CString) (new : O × D) : BotzEntry → Place O D :=
  update place ⟨bl.mallocs, name⟩ ((place e).1, new :: (place e).2)

theorem Remembers.static_none (h : Remembers env bl₀ created place bl)
    (he : e ∈ bl.blEntryTable.toList) (hnone : bl.child e name = none) :
    placeStatic bl₀ (place e) name = none := by
  cases hstatic : placeStatic bl₀ (place e) name with
  | none => rfl
  | some c => exact absurd hnone (h.static e he hstatic)

/-- A place that was not remembered yet is remembered from now on. -/
theorem Remembers.create (h : Remembers env bl₀ created place bl)
    (he : e ∈ bl.blEntryTable.toList) (hnone : bl.child e name = none)
    (hnew : (placeOps bl₀ (place e)).bind
      (fun ops => created ops (placeData bl₀ (place e)) name) = some new) :
    Remembers env bl₀ created (placeNew place bl e name new)
        (created₁ bl env e name new) ∧
      bl.Extends (created₁ bl env e name new) ∧
      (∀ x ∈ bl.blEntryTable.toList, placeNew place bl e name new x = place x) ∧
      (⟨bl.mallocs, name⟩ : BotzEntry) ∈ (created₁ bl env e name new).blEntryTable.toList := by
  have hold {x : BotzEntry} (hx : x ∈ bl.blEntryTable.toList) :
      placeNew place bl e name new x = place x := update_of_ne (h.ok.ne_new hx) ..
  have hself : placeNew place bl e name new ⟨bl.mallocs, name⟩ =
      ((place e).1, new :: (place e).2) := update_self ..
  have hok : (created₁ bl env e name new).EntriesOk env :=
    (h.ok.added_ok he hnone).with_ops _ _
  have hgrows : bl.Grows (created₁ bl env e name new) := by
    have hgrows : bl.Grows (EntriesOk.added bl env e name) := h.ok.extends_added.toGrows
    exact ⟨hgrows.mallocs, hgrows.root, hgrows.parent, hgrows.mem⟩
  have hparent {x : BotzEntry} (hx : x ∈ bl.blEntryTable.toList) :
      (created₁ bl env e name new).eParent x = bl.eParent x :=
    update_of_ne (h.ok.ne_new hx) ..
  have hparentNew : (created₁ bl env e name new).eParent ⟨bl.mallocs, name⟩ = some e :=
    update_self ..
  have hmem {x : BotzEntry} : x ∈ (created₁ bl env e name new).blEntryTable.toList ↔
      x = ⟨bl.mallocs, name⟩ ∨ x ∈ bl.blEntryTable.toList := EntriesOk.mem_added
  refine ⟨⟨hok, (hold h.ok.root_mem).trans h.root, ?_, ?_, ?_, ?_, ?_, ?_⟩,
    ⟨hgrows, ?_, ?_⟩, fun x hx => hold hx, hmem.2 (.inl rfl)⟩
  · intro x hx
    rcases hmem.1 hx with rfl | hx
    · rw [hself]
      exact h.mem e he
    · rw [hold hx]
      exact h.mem x hx
  · intro x hx
    rcases hmem.1 hx with rfl | hx
    · rw [hself]
      exact update_self ..
    · rw [hold hx, ← h.ops x hx]
      exact update_of_ne (h.ok.ne_new hx) ..
  · intro x hx
    rcases hmem.1 hx with rfl | hx
    · rw [hself]
      exact update_self ..
    · rw [hold hx, ← h.data x hx]
      exact update_of_ne (h.ok.ne_new hx) ..
  · intro x hx
    rcases hmem.1 hx with rfl | hx
    · rw [hparentNew, hself, Option.map_some, hold he]
      rfl
    · rw [hparent hx, hold hx, ← h.parent x hx]
      cases hp : bl.eParent x with
      | none => rfl
      | some p => rw [Option.map_some, Option.map_some, hold (h.ok.parent_mem hp)]
  · intro x hx p hp
    rcases hmem.1 hx with rfl | hx
    · obtain rfl := Option.some.inj (hparentNew.symm.trans hp)
      rw [hold he, hself, placeChild, h.static_none he hnone, hnew]
      rfl
    · rw [hparent hx] at hp
      rw [hold hx, hold (h.ok.parent_mem hp)]
      exact h.child x hx hp
  · intro x hx name' c hc
    rcases hmem.1 hx with rfl | hx
    · rw [hself, placeStatic, if_neg (List.cons_ne_nil _ _)] at hc
      cases hc
    · rw [hold hx] at hc
      obtain ⟨d, hd⟩ := Option.ne_none_iff_exists'.1 (h.static x hx hc)
      rw [h.ok.child_mono hok hgrows hd]
      exact Option.some_ne_none d
  · intro x hx
    exact update_of_ne (fun heq => Nat.lt_irrefl _ (heq ▸ hx)) ..
  · intro x hx
    exact update_of_ne (fun heq => Nat.lt_irrefl _ (heq ▸ hx)) ..

end New

/-- What is known of a table when a look-up has gone on. -/
structure Remembered (env : EntryEnv O) (bl₀ : BotzListen O D) (created : Creates O D)
    (place : BotzEntry → Place O D) (bl : BotzListen O D) (e : Option BotzEntry)
    (place' : BotzEntry → Place O D) (bl' : BotzListen O D) : Prop
    extends Remembers env bl₀ created place' bl' where
  grown : bl.Extends bl'
  places : ∀ x ∈ bl.blEntryTable.toList, place' x = place x
  found : ∀ x, e = some x → x ∈ bl'.blEntryTable.toList

theorem Remembers.stay (h : Remembers env bl₀ created place bl) {e : Option BotzEntry}
    (hmem : ∀ x, e = some x → x ∈ bl.blEntryTable.toList) :
    Remembered env bl₀ created place bl e place bl :=
  ⟨h, .refl bl, fun _ _ => rfl, hmem⟩

theorem Remembers.ops_ne_none (h : Remembers env bl₀ created place bl)
    (hpop : Populated env bl₀) {e : BotzEntry} (he : e ∈ bl.blEntryTable.toList) :
    bl.eOps e ≠ none := by
  rw [h.ops e he]
  have hmem := h.mem e he
  rcases hplace : place e with ⟨e₀, _ | ⟨new, above⟩⟩
  · rw [hplace] at hmem
    exact hpop.ops e₀ hmem
  · exact Option.some_ne_none _

/-- The body of the loop of `bx_lookup` does what the component means.  The state
changes only when the look-up is over. -/
theorem Remembers.lookUp (h : Remembers env bl₀ created place bl) (hpop : Populated env bl₀)
    (hblock : ∀ n, env.block n ≠ none) {s : S} (hcreating : Creating app created s)
    (r : Response) {p : BotzLookup} (hp : p.pEntry ∈ bl.blEntryTable.toList) :
    ∃ e bl' s' r' place', bl.lookUp env app q s r p = some (e, bl', s', r') ∧
      routeStep app q bl₀ created s r (place p.pEntry) p.pName p.pRest =
        (e.map place', s', r') ∧
      Remembered env bl₀ created place bl e place' bl' ∧ (e ≠ none → s' = s) := by
  rw [BotzListen.lookUp, h.ok.btLookup1_eq, routeStep]
  have hover : Remembered env bl₀ created place bl none place bl := h.stay fun _ he => nomatch he
  cases hchild : bl.child p.pEntry p.pName with
  | some c =>
      obtain ⟨hc, hname, hparent⟩ := h.ok.child_eq_some.1 hchild
      have hplace := h.child c hc hparent
      rw [hname] at hplace
      rw [hplace]
      refine ⟨some c, bl, s, r, place, ?_, rfl,
        h.stay fun x hx => Option.some.inj hx ▸ hc, fun _ => rfl⟩
      simp only [h.ok.link_child hchild]
  | none =>
      obtain ⟨ops, hops⟩ := Option.ne_none_iff_exists'.1 (h.ops_ne_none hpop hp)
      have hopsPlace := (h.ops _ hp).symm.trans hops
      rw [placeChild, h.static_none hp hchild, hopsPlace, hops, h.data _ hp]
      simp only [Option.bind_some]
      cases happ : app.oLookup ops with
      | none =>
          rw [hcreating.nothing happ]
          exact ⟨none, bl, s, _, place, rfl, rfl, hover, fun hne => absurd rfl hne⟩
      | some f =>
          cases hnew : created ops (placeData bl₀ (place p.pEntry)) p.pName with
          | none =>
              have hother := hcreating.responds happ hnew p.pRest q r
              simp only [Option.map_none]
              generalize f s (placeData bl₀ (place p.pEntry)) p.pName p.pRest q r = answer
                at hother ⊢
              obtain ⟨looked, s', r'⟩ := answer
              cases looked with
              | null => exact ⟨none, bl, s', _, place, rfl, rfl, hover, fun hne => absurd rfl hne⟩
              | responseReady =>
                  exact ⟨none, bl, s', _, place, rfl, rfl, hover, fun hne => absurd rfl hne⟩
              | newEntry new data => exact absurd rfl (hother new data)
          | some new =>
              obtain ⟨bl₁, hmade, hlink⟩ :=
                link_created p.pEntry p.pName new (hblock bl.mallocs)
              have hcreated : (placeOps bl₀ (place p.pEntry)).bind (fun ops =>
                  created ops (placeData bl₀ (place p.pEntry)) p.pName) = some new := by
                rw [hopsPlace]
                exact hnew
              obtain ⟨hremembers, hext, hplaces, hmem⟩ := h.create hp hchild hcreated
              simp only [hcreating.creates happ hnew, hmade, hlink, Option.map_some]
              refine ⟨_, _, s, r, _, rfl, ?_,
                ⟨hremembers, hext, hplaces, fun x hx => Option.some.inj hx ▸ hmem⟩, fun _ => rfl⟩
              rw [placeNew, Option.map_some, update_self]

section Loops

variable {s : S} {r : Response} {pEntry e : Option BotzEntry} {pRest : Option CString}
  {p : BotzLookup} {v w : Option (Place O D)} {u : Place O D} {name : CString}
  {rest rest' : Option CString}

theorem handleLoop_stopped (hwalk : bl.bpWalk pEntry pRest = .stopped e) :
    bl.handleLoop env app q s r pEntry pRest = some (e, bl, s, r) := by
  rw [BotzListen.handleLoop]
  split
  · next hwalk' =>
      cases hwalk.symm.trans hwalk'
      rfl
  · next hwalk' => cases hwalk.symm.trans hwalk'

theorem handleLoop_component {e : Option BotzEntry} {bl₁ : BotzListen O D} {s₁ : S}
    {r₁ : Response} (hwalk : bl.bpWalk pEntry pRest = .component p)
    (hlook : bl.lookUp env app q s r p = some (e, bl₁, s₁, r₁)) :
    bl.handleLoop env app q s r pEntry pRest =
      bl₁.handleLoop env app q s₁ r₁ e p.pRest := by
  rw [BotzListen.handleLoop]
  split
  · next hwalk' => cases hwalk.symm.trans hwalk'
  · next hwalk' =>
      cases hwalk.symm.trans hwalk'
      rw [hlook]

theorem routeLoop_stopped (hwalk : placeWalk bl₀ v rest = .stopped w) :
    routeLoop app q bl₀ created s r v rest = (w, s, r) := by
  rw [routeLoop]
  split
  · next hwalk' =>
      cases hwalk.symm.trans hwalk'
      rfl
  · next hwalk' => cases hwalk.symm.trans hwalk'

theorem routeLoop_component {s₁ : S} {r₁ : Response}
    (hwalk : placeWalk bl₀ v rest = .component u name rest')
    (hstep : routeStep app q bl₀ created s r u name rest' = (w, s₁, r₁)) :
    routeLoop app q bl₀ created s r v rest =
      routeLoop app q bl₀ created s₁ r₁ w rest' := by
  rw [routeLoop]
  split
  · next hwalk' => cases hwalk.symm.trans hwalk'
  · next hwalk' =>
      cases hwalk.symm.trans hwalk'
      rw [hstep]

theorem bpWalk_none (bl : BotzListen O D) (pRest : Option CString) :
    bl.bpWalk none pRest = .stopped none := by
  rw [bpWalk]

theorem placeWalk_none (bl₀ : BotzListen O D) (rest : Option CString) :
    placeWalk bl₀ none rest = .stopped none := by
  rw [placeWalk]

theorem routeStep_found {c : Place O D} (hchild : placeChild bl₀ created u name = some c) :
    routeStep app q bl₀ created s r u name rest = (some c, s, r) := by
  rw [routeStep, hchild]

/-- A component that is not there ends the look-up. -/
theorem routeStep_missing (hchild : placeChild bl₀ created u name = none) :
    ∃ s' r', routeStep app q bl₀ created s r u name rest = (none, s', r') := by
  rw [routeStep, hchild]
  dsimp only
  split
  · exact ⟨_, _, rfl⟩
  · split <;> exact ⟨_, _, rfl⟩

theorem routeLoop_landing (s : S) (r : Response) (v : Option (Place O D))
    (rest : Option CString) :
    routeLoop app q bl₀ created s r v rest =
      match landing bl₀ created v rest with
      | .nowhere => (none, s, r)
      | .place v => (some v, s, r)
      | .beyond v name rest => routeStep app q bl₀ created s r v name rest := by
  fun_induction landing bl₀ created v rest with
  | case1 v rest hwalk => exact routeLoop_stopped hwalk
  | case2 v rest w hwalk => exact routeLoop_stopped hwalk
  | case3 v rest u name rest' hwalk c hchild ih =>
      rw [routeLoop_component hwalk (routeStep_found hchild), ih]
  | case4 v rest u name rest' hwalk hchild =>
      obtain ⟨s', r', hstep⟩ : ∃ s' r',
          routeStep app q bl₀ created s r u name rest' = (none, s', r') :=
        routeStep_missing hchild
      rw [routeLoop_component hwalk hstep, routeLoop_stopped (placeWalk_none bl₀ rest')]
      exact hstep.symm

theorem landing_place (hwalk : placeWalk bl₀ v rest = .stopped (some u)) :
    landing bl₀ created v rest = .place u := by
  rw [landing]
  split
  · next hwalk' => cases hwalk.symm.trans hwalk'
  · next hwalk' =>
      cases hwalk.symm.trans hwalk'
      rfl
  · next hwalk' => cases hwalk.symm.trans hwalk'

theorem landing_component (hwalk : placeWalk bl₀ v rest = .component u name rest') :
    landing bl₀ created v rest =
      match placeChild bl₀ created u name with
      | some c => landing bl₀ created (some c) rest'
      | none => .beyond u name rest' := by
  rw [landing]
  split
  · next hwalk' => cases hwalk.symm.trans hwalk'
  · next hwalk' => cases hwalk.symm.trans hwalk'
  · next hwalk' =>
      cases hwalk.symm.trans hwalk'
      rfl

end Loops

/-- What holds of the place of a landing. -/
def Landing.Forall (P : Place O D → Prop) : Landing O D → Prop
  | .nowhere => True
  | .place v => P v
  | .beyond v _ _ => P v

section Keeps

variable {P : Place O D → Prop} {v : Option (Place O D)} {rest : Option CString}

theorem placeWalk_keeps (rest : Option CString) (hup : ∀ {v w}, P v → placeUp bl₀ v = some w → P w)
    (hv : ∀ w, v = some w → P w) :
    match placeWalk bl₀ v rest with
    | .stopped v => ∀ w, v = some w → P w
    | .component v _ _ => P v := by
  fun_induction placeWalk bl₀ v rest with
  | case1 rest => exact hv
  | case2 v => exact hv
  | case3 v s rest hcut => exact hv
  | case4 v s rest hcut ih => exact ih hv
  | case5 v s rest hcut hdot ih => exact ih fun w hw => hup (hv v rfl) hw
  | case6 v s name rest hcut hdot hdots => exact hv v rfl

/-- A path does not leave what its parents and children stay in. -/
theorem landing_keeps (hup : ∀ {v w}, P v → placeUp bl₀ v = some w → P w)
    (hchild : ∀ {v name w}, P v → placeChild bl₀ created v name = some w → P w)
    (hv : ∀ w, v = some w → P w) : (landing bl₀ created v rest).Forall P := by
  fun_induction landing bl₀ created v rest with
  | case1 v rest hwalk => trivial
  | case2 v rest w hwalk =>
      have hkept := placeWalk_keeps rest hup hv
      rw [hwalk] at hkept
      exact hkept w rfl
  | case3 v rest u name rest' hwalk c hfound ih =>
      have hkept := placeWalk_keeps rest hup hv
      rw [hwalk] at hkept
      exact ih fun w hw => Option.some.inj hw ▸ hchild hkept hfound
  | case4 v rest u name rest' hwalk hnone =>
      have hkept := placeWalk_keeps rest hup hv
      rw [hwalk] at hkept
      exact hkept

/-- A component that a path leads to is not there. -/
theorem placeChild_of_beyond {u : Place O D} {name : CString} {rest' : Option CString}
    (h : landing bl₀ created v rest = .beyond u name rest') :
    placeChild bl₀ created u name = none := by
  fun_induction landing bl₀ created v rest with
  | case1 v rest hwalk => cases h
  | case2 v rest w hwalk => cases h
  | case3 v rest w name rest hwalk c hfound ih => exact ih h
  | case4 v rest w name rest hwalk hnone =>
      cases h
      exact hnone

end Keeps

/-! ### Paths by their components -/

section Components

variable {v w : Place O D} {rest : Option CString} {name : CString} {names : List CString}

theorem placeWalk_end (hrest : refTokens isSlash rest = []) :
    placeWalk bl₀ (some v) rest = .stopped (some v) := by
  cases rest with
  | none => rw [placeWalk]
  | some s =>
      rw [placeWalk.eq_3]
      split
      · rfl
      · next hcut =>
          rw [refTokens_pathsep, hcut] at hrest
          cases hrest

theorem placeWalk_name (bl₀ : BotzListen O D) (v : Place O D)
    (hrest : refTokens isSlash rest = name :: names) (hdot : name ≠ lit ".")
    (hdots : name ≠ lit "..") :
    ∃ rest', placeWalk bl₀ (some v) rest = .component v name rest' ∧
      refTokens isSlash rest' = names ∧ (names = [] → rest' = none) := by
  cases rest with
  | none => cases hrest
  | some s =>
      rw [refTokens_pathsep] at hrest
      have hnone := pathsep_snd_eq_none (some s)
      rw [placeWalk.eq_3]
      split
      · next rest' hcut =>
          rw [hcut] at hrest
          cases (pathsep_fst_eq_none (congrArg Prod.fst hcut)).symm.trans (congrArg Prod.snd hcut)
          cases hrest
      · next name' rest' hcut =>
          rw [hcut] at hrest hnone
          obtain ⟨rfl, hnames⟩ := List.cons.inj hrest
          rw [if_neg hdot, if_neg hdots]
          exact ⟨rest', rfl, hnames, fun hnil => hnone.2 (hnames.trans hnil)⟩

theorem landing_end (hrest : refTokens isSlash rest = []) :
    landing bl₀ created (some v) rest = .place v :=
  landing_place (placeWalk_end hrest)

theorem landing_child {bl₀ : BotzListen O D} (created : Creates O D)
    (hrest : refTokens isSlash rest = name :: names) (hdot : name ≠ lit ".")
    (hdots : name ≠ lit "..") (hchild : placeChild bl₀ created v name = some w) :
    ∃ rest', landing bl₀ created (some v) rest = landing bl₀ created (some w) rest' ∧
      refTokens isSlash rest' = names := by
  obtain ⟨rest', hwalk, hnames, -⟩ := placeWalk_name bl₀ v hrest hdot hdots
  rw [landing_component hwalk, hchild]
  exact ⟨rest', rfl, hnames⟩

theorem landing_missing {bl₀ : BotzListen O D} (created : Creates O D)
    (hrest : refTokens isSlash rest = [name]) (hdot : name ≠ lit ".")
    (hdots : name ≠ lit "..") (hchild : placeChild bl₀ created v name = none) :
    landing bl₀ created (some v) rest = .beyond v name none := by
  obtain ⟨rest', hwalk, -, hnone⟩ := placeWalk_name bl₀ v hrest hdot hdots
  rw [landing_component hwalk, hchild, hnone rfl]

end Components

/-- The loop of `bx_lookup` does what the path means. -/
theorem Remembers.handleLoop (h : Remembers env bl₀ created place bl)
    (hpop : Populated env bl₀) (hblock : ∀ n, env.block n ≠ none) {s : S}
    (hcreating : Creating app created s) (r : Response) {pEntry : Option BotzEntry}
    (hmem : ∀ e, pEntry = some e → e ∈ bl.blEntryTable.toList) (pRest : Option CString) :
    ∃ e bl' s' r' place', bl.handleLoop env app q s r pEntry pRest = some (e, bl', s', r') ∧
      routeLoop app q bl₀ created s r (pEntry.map place) pRest = (e.map place', s', r') ∧
      Remembered env bl₀ created place bl e place' bl' := by
  induction hsize : refSize pRest using Nat.strong_induction_on
    generalizing bl place r pEntry pRest with
  | _ size ih =>
      subst hsize
      have hwalked := h.walk hmem pRest
      cases hwalk : bl.bpWalk pEntry pRest with
      | stopped e =>
          rw [hwalk] at hwalked
          exact ⟨e, bl, s, r, place, handleLoop_stopped hwalk, routeLoop_stopped hwalked.1,
            h.stay hwalked.2⟩
      | component p =>
          rw [hwalk] at hwalked
          obtain ⟨e, bl₁, s₁, r₁, place₁, hlook, hstep, hnext, hstate⟩ :=
            h.lookUp hpop hblock hcreating (q := q) r (h.ok.component_mem hmem hwalk)
          rw [handleLoop_component hwalk hlook, routeLoop_component hwalked hstep]
          cases e with
          | none =>
              exact ⟨none, bl₁, s₁, r₁, place₁, handleLoop_stopped (bpWalk_none bl₁ p.pRest),
                routeLoop_stopped (placeWalk_none bl₀ p.pRest), hnext⟩
          | some e =>
              obtain rfl := hstate (Option.some_ne_none e)
              obtain ⟨e', bl', s', r', place', hloop, hroute, hlast⟩ :=
                ih _ (bl.refSize_bpWalk_lt hwalk) hnext.toRemembers r₁ hnext.found p.pRest rfl
              exact ⟨e', bl', s', r', place', hloop, hroute, hlast.toRemembers,
                hnext.grown.trans hlast.grown, fun x hx =>
                  (hlast.places x (hnext.grown.mem hx)).trans (hnext.places x hx), hlast.found⟩

/-- A request is answered by its path alone, and the table still remembers
places: whatever was created for earlier requests changes no response. -/
theorem Remembers.handle (h : Remembers env bl₀ created place bl) (hpop : Populated env bl₀)
    (hblock : ∀ n, env.block n ≠ none) {s : S} (hcreating : Creating app created s)
    (r : Response) (path : CString) :
    ∃ bl' place', bl.handle env app q s r path =
        some (bl', (route app q bl₀ created s r path).1, (route app q bl₀ created s r path).2) ∧
      Remembered env bl₀ created place bl none place' bl' := by
  obtain ⟨e, bl', s', r', place', hloop, hroute, hlast⟩ := h.handleLoop hpop hblock hcreating
    (q := q) r (fun e he => Option.some.inj he ▸ h.ok.root_mem) (some path)
  rw [Option.map_some, h.root] at hroute
  have hremembered : Remembered env bl₀ created place bl none place' bl' :=
    ⟨hlast.toRemembers, hlast.grown, hlast.places, fun _ hx => nomatch hx⟩
  refine ⟨bl', place', ?_, hremembered⟩
  rw [BotzListen.handle, route, hloop, hroute]
  cases e with
  | none => rfl
  | some e =>
      have he := hlast.found e rfl
      obtain ⟨ops, hops⟩ := Option.ne_none_iff_exists'.1 (hlast.ops_ne_none hpop he)
      have hopsPlace := (hlast.ops e he).symm.trans hops
      simp only [Option.map_some, hops, hopsPlace, Option.bind_some]
      cases app.oMethod ops q.qMethod with
      | none => rfl
      | some f => simp only [hlast.data e he]

end Remembers

/-! ## The look-up without a state -/

/-- The application as `bx_lookup` sees it in one state. -/
def Ops.entryApp (env : EntryEnv O) (app : Ops O D S) (s : S) : EntryApp O D where
  oLookup ops := (app.oLookup ops).map fun f bl p q r =>
    match f s (bl.eData p.pEntry) p.pName p.pRest q r with
    | (.null, _, r) => (.null, bl, p, r)
    | (.responseReady, _, r) => (.responseReady, bl, p, r)
    | (.newEntry ops data, _, r) =>
        match bl.botzNewEntry env p.pName (some ops) (some data) with
        | (none, bl) => (.null, bl, p, r)
        | (some e, bl) => (.entry e, bl, p, r)
  pRest h bl p q r := by
    obtain ⟨f, -, rfl⟩ := Option.map_eq_some_iff.1 h
    dsimp only
    split
    · exact le_rfl
    · exact le_rfl
    · split <;> exact le_rfl

section Stateless

open BotzListen

variable {env} {app} {q} {created : Creates O D}

theorem bxLookupLoop_none (entries : EntryApp O D) (bl : BotzListen O D) (x : BotzX)
    (pRest : Option CString) :
    bl.bxLookupLoop env entries x none pRest = some (none, bl, x) := by
  rw [bxLookupLoop]
  split
  · next hwalk =>
      cases (bpWalk_none bl pRest).symm.trans hwalk
      rfl
  · next hwalk => cases (bpWalk_none bl pRest).symm.trans hwalk

/-- The look-up finds the entry and the response that `bx_lookup` finds. -/
theorem handleLoop_eq_bxLookupLoop {s : S} (hcreating : Creating app created s)
    (bl : BotzListen O D) (x : BotzX) (pEntry : Option BotzEntry) (pRest : Option CString) :
    ((bl.handleLoop env app x.xQ s x.xR pEntry pRest).map fun a => (a.1, a.2.1, a.2.2.2)) =
      (bl.bxLookupLoop env (app.entryApp env s) x pEntry pRest).map fun a =>
        (a.1, a.2.1, a.2.2.xR) := by
  induction hsize : refSize pRest using Nat.strong_induction_on
    generalizing bl x pEntry pRest with
  | _ size ih =>
      subst hsize
      cases hwalk : bl.bpWalk pEntry pRest with
      | stopped e =>
          rw [handleLoop_stopped hwalk, bxLookupLoop]
          split
          · next hwalk' =>
              cases hwalk.symm.trans hwalk'
              rfl
          · next hwalk' => cases hwalk.symm.trans hwalk'
      | component p =>
          have hlt := bl.refSize_bpWalk_lt hwalk
          have hover (bl : BotzListen O D) (x : BotzX) (s' : S) :
              ((bl.handleLoop env app x.xQ s' x.xR none p.pRest).map fun a =>
                (a.1, a.2.1, a.2.2.2)) =
              (bl.bxLookupLoop env (app.entryApp env s) x none p.pRest).map fun a =>
                (a.1, a.2.1, a.2.2.xR) := by
            rw [handleLoop_stopped (bpWalk_none bl p.pRest), bxLookupLoop_none]
            rfl
          rw [bxLookupLoop]
          split
          · next hwalk' => cases hwalk.symm.trans hwalk'
          next p' hwalk' =>
          cases hwalk.symm.trans hwalk'
          cases hfind : bl.btLookup1 env p.pName p.pEntry with
          | some e =>
              have hlook : bl.lookUp env app x.xQ s x.xR p =
                  some (some e, bl.link env (some e) p.pEntry, s, x.xR) := by
                rw [BotzListen.lookUp, hfind]
              rw [handleLoop_component hwalk hlook]
              exact ih _ hlt _ x (some e) p.pRest rfl
          | none =>
              cases hops : bl.eOps p.pEntry with
              | none =>
                  have hlook : bl.lookUp env app x.xQ s x.xR p = none := by
                    rw [BotzListen.lookUp, hfind, hops]
                  rw [BotzListen.handleLoop]
                  split
                  · next hwalk' => cases hwalk.symm.trans hwalk'
                  · next hwalk' =>
                      cases hwalk.symm.trans hwalk'
                      rw [hlook]
                      rfl
              | some ops =>
                  dsimp only
                  split
                  · next happ =>
                      have happ' : app.oLookup ops = none := Option.map_eq_none_iff.1 happ
                      have hlook : bl.lookUp env app x.xQ s x.xR p =
                          some (none, bl, s, x.xR.withStatus 404) := by
                        simp only [BotzListen.lookUp, hfind, hops, happ']
                      rw [handleLoop_component hwalk hlook]
                      exact hover bl { x with xR := x.xR.withStatus 404 } s
                  · next f' happ =>
                      obtain ⟨f, happ', rfl⟩ := Option.map_eq_some_iff.1 happ
                      cases hnew : created ops (bl.eData p.pEntry) p.pName with
                      | none =>
                          have hother := hcreating.responds happ' hnew p.pRest x.xQ x.xR
                          cases hf : f s (bl.eData p.pEntry) p.pName p.pRest x.xQ x.xR with
                          | mk looked answer =>
                          obtain ⟨s', r'⟩ := answer
                          rw [hf] at hother
                          cases looked with
                          | null =>
                              have hlook : bl.lookUp env app x.xQ s x.xR p =
                                  some (none, bl, s', r'.withStatus 404) := by
                                simp only [BotzListen.lookUp, hfind, hops, happ', hf]
                              rw [handleLoop_component hwalk hlook]
                              simp only [hf]
                              exact hover bl { x with xR := r'.withStatus 404 } s'
                          | responseReady =>
                              have hlook : bl.lookUp env app x.xQ s x.xR p =
                                  some (none, bl, s', r') := by
                                simp only [BotzListen.lookUp, hfind, hops, happ', hf]
                              rw [handleLoop_component hwalk hlook]
                              simp only [hf]
                              exact hover bl { x with xR := r', xRReady := true } s'
                          | newEntry new data => exact absurd rfl (hother new data)
                      | some new =>
                          have hf := hcreating.creates happ' hnew p.pRest x.xQ x.xR
                          cases hmade : bl.botzNewEntry env p.pName (some new.1)
                            (some new.2) with
                          | mk made bl₁ =>
                          cases made with
                          | none =>
                              have hlook : bl.lookUp env app x.xQ s x.xR p =
                                  some (none, bl₁, s, x.xR.withStatus 404) := by
                                simp only [BotzListen.lookUp, hfind, hops, happ', hf, hmade]
                              rw [handleLoop_component hwalk hlook]
                              simp only [hf, hmade]
                              exact hover bl₁ { x with xR := x.xR.withStatus 404 } s
                          | some e =>
                              have hlook : bl.lookUp env app x.xQ s x.xR p =
                                  some (some e, bl₁.link env (some e) p.pEntry, s, x.xR) := by
                                simp only [BotzListen.lookUp, hfind, hops, happ', hf, hmade]
                              rw [handleLoop_component hwalk hlook]
                              simp only [hf, hmade]
                              exact ih _ hlt _ x (some e) p.pRest rfl

end Stateless

end Xltop.Http
