import Xltop.Core.Split
import Xltop.Http.Entries
import Xltop.Library.Cursor

/-!
# Path resolution

The table of entries is a tree: each entry has a parent, and the root is its
own.  Look-up follows the components of a path through this tree, however the
path is spelt and whatever chains the entries are in.
-/

namespace Xltop.Http

open Function
open Xltop.Cursor
open Xltop.Hash
open Xltop.Paths
open Xltop.Text

/-! ## Components -/

/-- The step of a component. -/
def stepOf (name : CString) : Step CString :=
  if name = lit "." then .stay else if name = lit ".." then .up else .down name

/-- The components of a path. -/
def components (path : CString) : List CString :=
  tokens isSlash path

/-- The steps of a path. -/
def pathSteps (path : CString) : List (Step CString) :=
  (components path).map stepOf

/-- The steps that `p_rest` has still to give. -/
def restSteps (pRest : Option CString) : List (Step CString) :=
  (refTokens isSlash pRest).map stepOf

theorem refTokens_dropSlashes (s : CString) :
    refTokens isSlash (match s.dropWhile isSlash with
      | [] => none
      | c :: rest => some (c :: rest)) = tokens isSlash s := by
  induction s with
  | nil => rfl
  | cons c s ih =>
      by_cases hc : isSlash c = true
      · rw [List.dropWhile_cons_of_pos hc, ih]
        have hcut : tokens isSlash (c :: s) = [] ++ refTokens isSlash (some s) := by
          rw [tokens_strsep, strsep, List.takeWhile_cons_of_neg (by simp [hc]),
            List.dropWhile_cons_of_neg (by simp [hc]), if_pos rfl]
        rw [hcut]
        rfl
      · rw [List.dropWhile_cons_of_neg hc]
        rfl

/-- `pathsep` gives the next component. -/
theorem refTokens_pathsep (s : Option CString) :
    refTokens isSlash s = (pathsep s).1.toList ++ refTokens isSlash (pathsep s).2 := by
  have hcut := refTokens_strsepNe isSlash s
  rw [pathsep]
  split
  · next rest hnone =>
      have hrest := strsepNe_fst_eq_none (congrArg Prod.fst hnone)
      rw [hrest, hnone] at hcut
      exact hcut
  · next rest hempty =>
      have hmem : [] ∈ refTokens isSlash s := by
        rw [hcut, hempty]
        exact List.mem_cons_self
      cases s with
      | none => cases hmem
      | some s => exact absurd rfl (of_decide_eq_true (List.mem_filter.1 hmem).2)
  · next n rest _ htoken =>
      rw [hcut, htoken]
      cases rest with
      | none => rfl
      | some rest =>
          exact congrArg (fun tail => n :: tail) (refTokens_dropSlashes rest).symm

theorem pathsep_fst_eq_none {s : Option CString} (h : (pathsep s).1 = none) :
    (pathsep s).2 = none := by
  rw [pathsep] at h ⊢
  split at h
  · rfl
  · rfl
  · cases h

/-- `pathsep` skips the slashes behind a component, so that it leaves NULL when
nothing else is behind it. -/
theorem pathsep_snd_eq_none (s : Option CString) :
    (pathsep s).2 = none ↔ refTokens isSlash (pathsep s).2 = [] := by
  rw [pathsep]
  split
  · exact iff_of_true rfl rfl
  · exact iff_of_true rfl rfl
  · next n rest _ hcut =>
      cases rest with
      | none => exact iff_of_true rfl rfl
      | some rest =>
          rw [Option.bind_some]
          have hfirst := List.head?_dropWhile_not isSlash rest
          cases hdrop : rest.dropWhile isSlash with
          | nil => exact iff_of_true rfl rfl
          | cons c tail =>
              rw [hdrop] at hfirst
              have hc : isSlash c = false := by simpa using hfirst
              refine iff_of_false (Option.some_ne_none _) ?_
              change tokens isSlash (c :: tail) ≠ []
              rw [tokens_strsep, List.takeWhile_cons_of_pos (by simpa using hc), if_neg (by simp)]
              simp

/-- The calls of `pathsep` walk over the components. -/
theorem pathsep_walks : Walks pathsep (fun _ => True) (refTokens isSlash) where
  item {s} _ := by
    rw [refTokens_pathsep]
    cases hname : (pathsep s).1 with
    | none => rw [pathsep_fst_eq_none hname]; rfl
    | some name => rfl
  left_next {s} _ := by
    have hcut := refTokens_pathsep s
    rw [hcut]
    cases hname : (pathsep s).1 with
    | none => rw [pathsep_fst_eq_none hname]; rfl
    | some name => rfl
  valid_next _ := trivial

/-- Call number `n` of `pathsep` returns component number `n`, which is a run
between slashes that cannot be made longer, or NULL behind the last one; and it
leaves NULL exactly when the component it returns is the last one. -/
theorem pathsep_segments (s : CString) (n : ℕ) :
    let name := (pathsep (after pathsep (some s) n)).1
    name = (components s)[n]? ∧
      (∀ segment, name = some segment ↔
        ∃ front back, TokenAt isSlash s n front segment back) ∧
      (name.isSome →
        (after pathsep (some s) (n + 1) = none ↔ (components s).length = n + 1)) := by
  intro name
  have hname : name = (components s)[n]? := pathsep_walks.item_after trivial n
  refine ⟨hname, fun segment => ?_, fun hsome => ?_⟩
  · rw [hname]
    exact getElem?_tokens
  · have hrest : refTokens isSlash (after pathsep (some s) (n + 1)) =
        (components s).drop (n + 1) := pathsep_walks.left_after trivial (n + 1)
    have hmore : n < (components s).length := by
      obtain ⟨segment, hsegment⟩ := Option.isSome_iff_exists.1 hsome
      exact (List.getElem?_eq_some_iff.1 (hname ▸ hsegment)).1
    rw [after, pathsep_snd_eq_none, ← after, hrest, List.drop_eq_nil_iff]
    omega

theorem restSteps_none {s : Option CString} (h : (pathsep s).1 = none) : restSteps s = [] := by
  rw [restSteps, refTokens_pathsep, h, pathsep_fst_eq_none h]
  rfl

theorem restSteps_cons {s rest : Option CString} {n : CString}
    (h : pathsep s = (some n, rest)) : restSteps s = stepOf n :: restSteps rest := by
  rw [restSteps, refTokens_pathsep, h]
  rfl

/-! ## The tree of entries -/

variable {O D : Type*} {env : EntryEnv O}

namespace BotzListen

variable (bl : BotzListen O D)

/-- The child of an entry with a name, among all entries of the table. -/
def child (e : BotzEntry) (name : CString) : Option BotzEntry :=
  bl.blEntryTable.toList.find? fun c => bl.key c = (name, some e)

/-- Where a path leads in the tree of entries. -/
def resolve (pEntry : Option BotzEntry) (path : List (Step CString)) : Option BotzEntry :=
  pEntry.bind fun e => walk bl.eParent bl.child e path

@[simp]
theorem resolve_none (path : List (Step CString)) : bl.resolve none path = none :=
  rfl

@[simp]
theorem resolve_nil (pEntry : Option BotzEntry) : bl.resolve pEntry [] = pEntry := by
  cases pEntry <;> rfl

theorem resolve_cons (e : BotzEntry) (step : Step CString) (rest : List (Step CString)) :
    bl.resolve (some e) (step :: rest) =
      bl.resolve (move bl.eParent bl.child e step) rest :=
  rfl

theorem resolve_append (pEntry : Option BotzEntry) (path rest : List (Step CString)) :
    bl.resolve pEntry (path ++ rest) = bl.resolve (bl.resolve pEntry path) rest := by
  cases pEntry with
  | none => rfl
  | some e => exact walk_append e path rest

/-- A `.` leads nowhere else. -/
theorem resolve_filter_dot (pEntry : Option BotzEntry) (names : List CString) :
    bl.resolve pEntry ((names.filter fun name => name ≠ lit ".").map stepOf) =
      bl.resolve pEntry (names.map stepOf) := by
  induction names generalizing pEntry with
  | nil => rfl
  | cons name names ih =>
      cases pEntry with
      | none => rfl
      | some e =>
          by_cases hdot : name = lit "."
          · rw [List.filter_cons_of_neg (by simpa using hdot), ih, List.map_cons, resolve_cons,
              stepOf, if_pos hdot]
            rfl
          · rw [List.filter_cons_of_pos (by simpa using hdot), List.map_cons, List.map_cons,
              resolve_cons, resolve_cons, ih]

/-- Where `bp_walk` stops the path ends. -/
theorem resolve_of_stopped {pEntry r : Option BotzEntry} {pRest : Option CString}
    (h : bl.bpWalk pEntry pRest = .stopped r) :
    bl.resolve pEntry (restSteps pRest) = r := by
  fun_induction bpWalk bl pEntry pRest with
  | case1 => exact Walked.stopped.inj h
  | case2 => exact Walked.stopped.inj h
  | case3 e s rest hcut =>
      rw [restSteps_none (congrArg Prod.fst hcut), resolve_nil]
      exact Walked.stopped.inj h
  | case4 e s rest hcut ih =>
      rw [restSteps_cons hcut, resolve_cons, ← ih h]
      rfl
  | case5 e s rest hcut hdot ih =>
      rw [restSteps_cons hcut, resolve_cons, ← ih h]
      rfl
  | case6 => cases h

/-- `bp_walk` takes the steps before the next name. -/
theorem steps_of_component {pEntry : Option BotzEntry} {pRest : Option CString}
    {p : BotzLookup} (h : bl.bpWalk pEntry pRest = .component p) :
    ∃ path, restSteps pRest = path ++ .down p.pName :: restSteps p.pRest ∧
      bl.resolve pEntry path = some p.pEntry := by
  fun_induction bpWalk bl pEntry pRest with
  | case1 => cases h
  | case2 => cases h
  | case3 => cases h
  | case4 e s rest hcut ih =>
      obtain ⟨path, hpath, hresolve⟩ := ih h
      exact ⟨.stay :: path, by rw [restSteps_cons hcut, hpath]; rfl, hresolve⟩
  | case5 e s rest hcut hdot ih =>
      obtain ⟨path, hpath, hresolve⟩ := ih h
      exact ⟨.up :: path, by rw [restSteps_cons hcut, hpath]; rfl, hresolve⟩
  | case6 e s name rest hcut hdot hdotdot =>
      cases h
      refine ⟨[], ?_, rfl⟩
      rw [restSteps_cons hcut, stepOf, if_neg hdot, if_neg hdotdot, List.nil_append]

/-! ## Tables that are trees -/

/-- What holds of the entries after `botz_listen_init` and any calls of
`botz_add`. -/
structure EntriesOk (env : EntryEnv O) (bl : BotzListen O D) : Prop where
  keyed : bl.blEntryTable.Keyed bl.key (entryHash env bl.blEntryTable.tShift)
  hashed : ∀ e ∈ bl.blEntryTable.toList, bl.eHashed e = true
  older : ∀ e ∈ bl.blEntryTable.toList, e.malloc < bl.mallocs
  parent_older : ∀ {e p}, bl.eParent e = some p → e.malloc < bl.mallocs
  parent_mem : ∀ {e p}, bl.eParent e = some p → p ∈ bl.blEntryTable.toList
  parented : ∀ e ∈ bl.blEntryTable.toList, bl.eParent e ≠ none
  root : bl.eParent bl.blRootEntry = some bl.blRootEntry
  root_mem : bl.blRootEntry ∈ bl.blEntryTable.toList

/-- The tree of `bl` is part of the tree of `bl'`. -/
structure Grows (bl bl' : BotzListen O D) : Prop where
  mallocs : bl.mallocs ≤ bl'.mallocs
  root : bl'.blRootEntry = bl.blRootEntry
  parent : ∀ {e p}, bl.eParent e = some p → bl'.eParent e = some p
  mem : ∀ {e}, e ∈ bl.blEntryTable.toList → e ∈ bl'.blEntryTable.toList

/-- The entries of `bl` have their operations and data in `bl'` too. -/
structure Extends (bl bl' : BotzListen O D) : Prop extends Grows bl bl' where
  ops : ∀ {e}, e.malloc < bl.mallocs → bl'.eOps e = bl.eOps e
  data : ∀ {e}, e.malloc < bl.mallocs → bl'.eData e = bl.eData e

section Order

variable {bl} {bl₁ bl₂ : BotzListen O D}

theorem Grows.refl (bl : BotzListen O D) : bl.Grows bl :=
  ⟨le_rfl, rfl, id, id⟩

theorem Grows.trans (h : bl.Grows bl₁) (h' : bl₁.Grows bl₂) : bl.Grows bl₂ where
  mallocs := h.mallocs.trans h'.mallocs
  root := h'.root.trans h.root
  parent hp := h'.parent (h.parent hp)
  mem he := h'.mem (h.mem he)

theorem Extends.refl (bl : BotzListen O D) : bl.Extends bl :=
  ⟨.refl bl, fun _ => rfl, fun _ => rfl⟩

theorem Extends.trans (h : bl.Extends bl₁) (h' : bl₁.Extends bl₂) : bl.Extends bl₂ where
  toGrows := h.toGrows.trans h'.toGrows
  ops he := (h'.ops (he.trans_le h.mallocs)).trans (h.ops he)
  data he := (h'.data (he.trans_le h.mallocs)).trans (h.data he)

end Order

namespace EntriesOk

variable {bl}

theorem btLookup1_eq (h : bl.EntriesOk env) (name : CString) (e : BotzEntry) :
    bl.btLookup1 env name e = bl.child e name :=
  (h.keyed.find?_toList _).symm

/-- The child with a name is the only entry with this name and parent. -/
theorem child_eq_some (h : bl.EntriesOk env) {e c : BotzEntry} {name : CString} :
    bl.child e name = some c ↔
      c ∈ bl.blEntryTable.toList ∧ c.eName = name ∧ bl.eParent c = some e := by
  rw [child, h.keyed.find?_toList]
  constructor
  · intro hfound
    have hkey := HashTable.lookup_key hfound
    exact ⟨h.keyed.lookup_mem hfound, congrArg Prod.fst hkey, congrArg Prod.snd hkey⟩
  · rintro ⟨hmem, rfl, hparent⟩
    have hkey : bl.key c = (c.eName, some e) := by rw [key, hparent]
    rw [← hkey]
    exact h.keyed.mem_toList.1 hmem

/-- Nothing is done to an entry that was found. -/
theorem link_child (h : bl.EntriesOk env) {e c : BotzEntry} {name : CString}
    (hc : bl.child e name = some c) : bl.link env (some c) e = bl := by
  obtain ⟨hmem, -, hparent⟩ := h.child_eq_some.1 hc
  simp [link, hparent, h.hashed c hmem]

theorem child_mono {bl' : BotzListen O D} (h : bl.EntriesOk env) (h' : bl'.EntriesOk env)
    (hgrows : bl.Grows bl') {e c : BotzEntry} {name : CString}
    (hc : bl.child e name = some c) : bl'.child e name = some c := by
  obtain ⟨hmem, hname, hparent⟩ := h.child_eq_some.1 hc
  exact h'.child_eq_some.2 ⟨hgrows.mem hmem, hname, hgrows.parent hparent⟩

theorem resolve_mono {bl' : BotzListen O D} (h : bl.EntriesOk env) (h' : bl'.EntriesOk env)
    (hgrows : bl.Grows bl') {pEntry : Option BotzEntry} {path : List (Step CString)}
    {e : BotzEntry} (he : bl.resolve pEntry path = some e) :
    bl'.resolve pEntry path = some e := by
  obtain ⟨e₀, rfl, hwalk⟩ := Option.bind_eq_some_iff.1 he
  exact walk_mono hgrows.parent (h.child_mono h' hgrows) hwalk

/-- Where a path leads there is an entry. -/
theorem mem_resolve (h : bl.EntriesOk env) {e₀ e : BotzEntry}
    (he₀ : e₀ ∈ bl.blEntryTable.toList) {path : List (Step CString)}
    (he : bl.resolve (some e₀) path = some e) : e ∈ bl.blEntryTable.toList :=
  walk_induction (P := fun e => e ∈ bl.blEntryTable.toList) (fun _ hp => h.parent_mem hp)
    (fun _ hc => (h.child_eq_some.1 hc).1) he₀ he

/-- Another number is on no entry. -/
theorem burn (h : bl.EntriesOk env) :
    EntriesOk env { bl with mallocs := bl.mallocs + 1 } where
  keyed := h.keyed
  hashed := h.hashed
  older e he := Nat.lt_succ_of_lt (h.older e he)
  parent_older hp := Nat.lt_succ_of_lt (h.parent_older hp)
  parent_mem := h.parent_mem
  parented := h.parented
  root := h.root
  root_mem := h.root_mem

section New

variable (h : bl.EntriesOk env) {e : BotzEntry} {name : CString}

/-- The table with a new entry below `e`. -/
abbrev added (bl : BotzListen O D) (env : EntryEnv O) (e : BotzEntry) (name : CString) :
    BotzListen O D :=
  { bl with
    mallocs := bl.mallocs + 1
    eHashed := update bl.eHashed ⟨bl.mallocs, name⟩ true
    eParent := update bl.eParent ⟨bl.mallocs, name⟩ (some e)
    eOps := update bl.eOps ⟨bl.mallocs, name⟩ (some env.botzDefaultOps)
    eData := update bl.eData ⟨bl.mallocs, name⟩ none
    blEntryTable := bl.blEntryTable.addHead
      (entryHash env bl.blEntryTable.tShift (name, some e)) ⟨bl.mallocs, name⟩ }

include h in
theorem ne_new {x : BotzEntry} (hx : x ∈ bl.blEntryTable.toList) : x ≠ ⟨bl.mallocs, name⟩ :=
  fun heq => Nat.lt_irrefl _ (heq ▸ h.older x hx)

theorem parent_new : (added bl env e name).eParent ⟨bl.mallocs, name⟩ = some e :=
  update_self ..

theorem mem_added {x : BotzEntry} : x ∈ (added bl env e name).blEntryTable.toList ↔
    x = ⟨bl.mallocs, name⟩ ∨ x ∈ bl.blEntryTable.toList := by
  rw [(HashTable.toList_addHead _ _ _).mem_iff, List.mem_cons]

include h in
theorem extends_added : bl.Extends (added bl env e name) where
  mallocs := Nat.le_succ _
  root := rfl
  parent {x p} hp := by
    have hne : x ≠ ⟨bl.mallocs, name⟩ := fun heq =>
      Nat.lt_irrefl _ (heq ▸ h.parent_older hp)
    exact (update_of_ne hne ..).trans hp
  mem hx := mem_added.2 (.inr hx)
  ops {x} hx := update_of_ne (fun heq => Nat.lt_irrefl _ (heq ▸ hx)) ..
  data {x} hx := update_of_ne (fun heq => Nat.lt_irrefl _ (heq ▸ hx)) ..

include h in
theorem added_ok (he : e ∈ bl.blEntryTable.toList) (hnone : bl.child e name = none) :
    (added bl env e name).EntriesOk env := by
  have hkeys : ∀ x ∈ bl.blEntryTable.toList, (added bl env e name).key x = bl.key x :=
    fun x hx => congrArg (Prod.mk x.eName) (update_of_ne (h.ne_new hx) ..)
  have hnew : (added bl env e name).key ⟨bl.mallocs, name⟩ = (name, some e) :=
    congrArg (Prod.mk name) (update_self ..)
  have hkeyed := h.keyed.congr hkeys
  have hfresh : bl.blEntryTable.lookup (added bl env e name).key
      (entryHash env bl.blEntryTable.tShift) (name, some e) = none := by
    rw [← hkeyed.find?_toList, List.find?_eq_none]
    intro x hx
    rw [hkeys x hx]
    exact List.find?_eq_none.1 hnone x hx
  rw [← hnew] at hfresh
  have hadd := hkeyed.addHead hfresh
  rw [hnew] at hadd
  refine ⟨hadd, fun x hx => ?_, fun x hx => ?_, fun {x p} hp => ?_, fun {x p} hp => ?_,
    fun x hx => ?_, ?_, ?_⟩
  · rcases mem_added.1 hx with rfl | hx
    · exact update_self ..
    · exact (update_of_ne (h.ne_new hx) ..).trans (h.hashed x hx)
  · rcases mem_added.1 hx with rfl | hx
    · exact Nat.lt_succ_self _
    · exact Nat.lt_succ_of_lt (h.older x hx)
  · rcases eq_or_ne x ⟨bl.mallocs, name⟩ with rfl | hne
    · exact Nat.lt_succ_self _
    · exact Nat.lt_succ_of_lt (h.parent_older ((update_of_ne hne ..).symm.trans hp))
  · rcases eq_or_ne x ⟨bl.mallocs, name⟩ with rfl | hne
    · rw [parent_new, Option.some.injEq] at hp
      exact mem_added.2 (.inr (hp ▸ he))
    · exact mem_added.2 (.inr (h.parent_mem ((update_of_ne hne ..).symm.trans hp)))
  · rcases mem_added.1 hx with rfl | hx
    · rw [parent_new]
      exact Option.some_ne_none e
    · have hold : (added bl env e name).eParent x = bl.eParent x :=
        update_of_ne (h.ne_new hx) ..
      rw [hold]
      exact h.parented x hx
  · exact h.extends_added.parent h.root
  · exact mem_added.2 (.inr h.root_mem)

theorem link_new {block : UInt64} (hblock : env.block bl.mallocs = some block) :
    (bl.botzNewEntry env name none none).2.link env
      (bl.botzNewEntry env name none none).1 e = added bl env e name := by
  simp [botzNewEntry, hblock, link, btAddEntry, key]

end New

/-- The component of a path that look-up creates. -/
theorem create (h : bl.EntriesOk env) {e : BotzEntry} (he : e ∈ bl.blEntryTable.toList)
    {name : CString} (hnone : bl.child e name = none) {made : Option BotzEntry}
    {bl' : BotzListen O D}
    (hmade : bl.botzNewEntry env name none none = (made, bl')) :
    (bl'.link env made e).EntriesOk env ∧ bl.Extends (bl'.link env made e) ∧
      (∀ c, made = some c → (bl'.link env made e).child e name = some c) ∧
      ((∀ n, env.block n ≠ none) → made ≠ none) := by
  cases hblock : env.block bl.mallocs with
  | none =>
      rw [botzNewEntry, hblock] at hmade
      obtain ⟨rfl, rfl⟩ := Prod.mk.inj hmade
      exact ⟨h.burn, ⟨⟨Nat.le_succ _, rfl, id, id⟩, fun _ => rfl, fun _ => rfl⟩,
        fun c hc => (by cases hc), fun hblocks => absurd hblock (hblocks _)⟩
  | some block =>
      have hlink : (bl.botzNewEntry env name none none).2.link env
          (bl.botzNewEntry env name none none).1 e = added bl env e name := link_new hblock
      rw [hmade] at hlink
      obtain rfl : made = some ⟨bl.mallocs, name⟩ := by
        rw [botzNewEntry, hblock] at hmade
        exact (Prod.mk.inj hmade).1.symm
      rw [hlink]
      refine ⟨h.added_ok he hnone, h.extends_added, fun c hc => ?_,
        fun _ => Option.some_ne_none _⟩
      rw [(h.added_ok he hnone).child_eq_some, ← Option.some.inj hc]
      exact ⟨mem_added.2 (.inl rfl), rfl, parent_new⟩

/-- The step of `p_name`. -/
theorem resolve_component {pEntry : Option BotzEntry} {pRest : Option CString}
    {p : BotzLookup} (hwalk : bl.bpWalk pEntry pRest = .component p) :
    bl.resolve pEntry (restSteps pRest) =
      bl.resolve (bl.child p.pEntry p.pName) (restSteps p.pRest) := by
  obtain ⟨path, hpath, hresolve⟩ := bl.steps_of_component hwalk
  rw [hpath, resolve_append, hresolve]
  rfl

/-- `botz_lookup` without `L_CREATE` follows the path. -/
theorem botzLookupLoop_static (h : bl.EntriesOk env) (pEntry : Option BotzEntry)
    (pRest : Option CString) :
    botzLookupLoop env false bl pEntry pRest = (bl.resolve pEntry (restSteps pRest), bl) := by
  induction hsize : refSize pRest using Nat.strong_induction_on generalizing pEntry pRest with
  | _ size ih =>
      subst hsize
      rw [botzLookupLoop]
      split
      · next r hwalk => rw [bl.resolve_of_stopped hwalk]
      · next p hwalk =>
          have hlt := bl.refSize_bpWalk_lt hwalk
          rw [resolve_component hwalk, h.btLookup1_eq]
          cases hc : bl.child p.pEntry p.pName with
          | none => exact ih _ hlt none p.pRest rfl
          | some c =>
              change botzLookupLoop env false (bl.link env (some c) p.pEntry) _ _ = _
              rw [h.link_child hc]
              exact ih _ hlt (some c) p.pRest rfl

/-- The turn of the loop of `botz_lookup` for one component, with `L_CREATE`. -/
theorem lookupLoop_component (h : bl.EntriesOk env) {pEntry : Option BotzEntry}
    {pRest : Option CString} {p : BotzLookup}
    (hwalk : bl.bpWalk pEntry pRest = .component p) (hp : p.pEntry ∈ bl.blEntryTable.toList) :
    ∃ made bl₁, botzLookupLoop env true bl pEntry pRest =
        botzLookupLoop env true bl₁ made p.pRest ∧
      bl₁.EntriesOk env ∧ bl.Extends bl₁ ∧
      (∀ c, made = some c → bl₁.child p.pEntry p.pName = some c) ∧
      ((∀ n, env.block n ≠ none) → made ≠ none) := by
  have hloop := botzLookupLoop.eq_1 env true bl pEntry pRest
  split at hloop
  · next r hstopped =>
      rw [hwalk] at hstopped
      cases hstopped
  · next p' hwalk' =>
      obtain rfl : p' = p := Walked.component.inj (hwalk'.symm.trans hwalk)
      rw [h.btLookup1_eq] at hloop
      cases hc : bl.child p'.pEntry p'.pName with
      | none =>
          rw [hc] at hloop
          exact ⟨_, _, hloop, h.create hp hc rfl⟩
      | some c =>
          rw [hc] at hloop
          change _ = botzLookupLoop env true (bl.link env (some c) p'.pEntry) _ _ at hloop
          rw [h.link_child hc] at hloop
          exact ⟨_, _, hloop, h, .refl _, fun c' hc' => hc.trans hc',
            fun _ => Option.some_ne_none c⟩

theorem component_mem (h : bl.EntriesOk env) {pEntry : Option BotzEntry}
    (hmem : ∀ e, pEntry = some e → e ∈ bl.blEntryTable.toList) {pRest : Option CString}
    {p : BotzLookup} (hwalk : bl.bpWalk pEntry pRest = .component p) :
    p.pEntry ∈ bl.blEntryTable.toList := by
  obtain ⟨path, -, hresolve⟩ := bl.steps_of_component hwalk
  cases pEntry with
  | none => cases hresolve
  | some e => exact h.mem_resolve (hmem e rfl) hresolve

/-- `botz_lookup` with `L_CREATE` adds what is missing on the path. -/
theorem botzLookupLoop_create (h : bl.EntriesOk env) {pEntry : Option BotzEntry}
    (hmem : ∀ e, pEntry = some e → e ∈ bl.blEntryTable.toList) (pRest : Option CString)
    {found : Option BotzEntry} {bl' : BotzListen O D}
    (hfound : botzLookupLoop env true bl pEntry pRest = (found, bl')) :
    bl'.EntriesOk env ∧ bl.Extends bl' ∧
      ∀ e, found = some e → bl'.resolve pEntry (restSteps pRest) = some e := by
  induction hsize : refSize pRest using Nat.strong_induction_on
    generalizing bl pEntry pRest with
  | _ size ih =>
      subst hsize
      cases hwalk : bl.bpWalk pEntry pRest with
      | stopped r =>
          rw [botzLookupLoop] at hfound
          split at hfound
          · next r' hstopped =>
              obtain ⟨rfl, rfl⟩ := Prod.mk.inj hfound
              exact ⟨h, .refl _, fun e he => (bl.resolve_of_stopped hstopped).trans he⟩
          · next p hcomponent =>
              rw [hwalk] at hcomponent
              cases hcomponent
      | component p =>
          have hlt := bl.refSize_bpWalk_lt hwalk
          obtain ⟨path, hpath, hresolve⟩ := bl.steps_of_component hwalk
          obtain ⟨made, bl₁, hloop, hok₁, hext₁, hchild, -⟩ :=
            h.lookupLoop_component hwalk (h.component_mem hmem hwalk)
          obtain ⟨hok, hext, hrest⟩ := ih _ hlt hok₁
            (fun c hc => (hok₁.child_eq_some.1 (hchild c hc)).1) p.pRest
            (hloop.symm.trans hfound) rfl
          refine ⟨hok, hext₁.trans hext, fun e he => ?_⟩
          have hmade := hrest e he
          obtain ⟨c, rfl, -⟩ := Option.bind_eq_some_iff.1 hmade
          have hc := hok₁.child_mono hok hext.toGrows (hchild c rfl)
          rw [hpath, resolve_append, h.resolve_mono hok (hext₁.trans hext).toGrows hresolve,
            resolve_cons, move, hc, hmade]

theorem stopped_ne_none (h : bl.EntriesOk env) {e : BotzEntry}
    (he : e ∈ bl.blEntryTable.toList) {pRest : Option CString} {r : Option BotzEntry}
    (hstopped : bl.bpWalk (some e) pRest = .stopped r) : r ≠ none := by
  generalize hentry : some e = pEntry at hstopped
  fun_induction bpWalk bl pEntry pRest generalizing e with
  | case1 => cases hentry
  | case2 => exact Walked.stopped.inj hstopped ▸ Option.some_ne_none _
  | case3 => exact Walked.stopped.inj hstopped ▸ Option.some_ne_none _
  | case4 e' s rest hcut ih => exact ih he hentry hstopped
  | case5 e' s rest hcut hdot ih =>
      obtain rfl := Option.some.inj hentry
      obtain ⟨parent, hparent⟩ := Option.ne_none_iff_exists'.1 (h.parented e he)
      exact ih (h.parent_mem hparent) hparent.symm hstopped
  | case6 => cases hstopped

/-- It finds an entry unless `malloc` fails. -/
theorem botzLookupLoop_ne_none (h : bl.EntriesOk env) (hblock : ∀ n, env.block n ≠ none)
    {e : BotzEntry} (he : e ∈ bl.blEntryTable.toList) (pRest : Option CString) :
    (botzLookupLoop env true bl (some e) pRest).1 ≠ none := by
  induction hsize : refSize pRest using Nat.strong_induction_on generalizing bl e pRest with
  | _ size ih =>
      subst hsize
      cases hwalk : bl.bpWalk (some e) pRest with
      | stopped r =>
          rw [botzLookupLoop]
          split
          · next r' hstopped => exact h.stopped_ne_none he hstopped
          · next p hcomponent =>
              rw [hwalk] at hcomponent
              cases hcomponent
      | component p =>
          have hlt := bl.refSize_bpWalk_lt hwalk
          obtain ⟨made, bl₁, hloop, hok₁, -, hchild, hmade⟩ :=
            h.lookupLoop_component hwalk
              (h.component_mem (fun e' he' => Option.some.inj he' ▸ he) hwalk)
          obtain ⟨c, rfl⟩ := Option.ne_none_iff_exists'.1 (hmade hblock)
          rw [hloop]
          exact ih _ hlt hok₁ (hok₁.child_eq_some.1 (hchild c rfl)).1 p.pRest rfl

/-- `bx_lookup` finds what the path leads to without asking the application. -/
theorem bxLookupLoop_found (h : bl.EntriesOk env) (app : EntryApp O D) (x : BotzX)
    {pEntry : Option BotzEntry} (pRest : Option CString) {e : BotzEntry}
    (he : bl.resolve pEntry (restSteps pRest) = some e) :
    bxLookupLoop env app bl x pEntry pRest = some (some e, bl, x) := by
  induction hsize : refSize pRest using Nat.strong_induction_on generalizing pEntry pRest with
  | _ size ih =>
      subst hsize
      rw [bxLookupLoop]
      split
      · next r hwalk => rw [← bl.resolve_of_stopped hwalk, he]
      · next p hwalk =>
          have hlt := bl.refSize_bpWalk_lt hwalk
          rw [resolve_component hwalk] at he
          obtain ⟨c, hc, -⟩ := Option.bind_eq_some_iff.1 he
          rw [hc] at he
          rw [h.btLookup1_eq, hc]
          change bxLookupLoop env app (bl.link env (some c) p.pEntry) x _ _ = _
          rw [h.link_child hc]
          exact ih _ hlt p.pRest he rfl

/-- What `botz_lookup` returns and leaves with `L_CREATE`. -/
theorem lookup_create (h : bl.EntriesOk env) (path : Option CString) :
    (bl.botzLookup env path true).2.EntriesOk env ∧
      bl.Extends (bl.botzLookup env path true).2 ∧
      ∀ e, (bl.botzLookup env path true).1 = some e →
        ∃ s, path = some s ∧
          (bl.botzLookup env path true).2.resolve (some bl.blRootEntry) (pathSteps s) =
            some e := by
  cases path with
  | none => exact ⟨h, .refl _, fun e he => by cases he⟩
  | some s =>
      obtain ⟨hok, hext, hresolve⟩ := h.botzLookupLoop_create
        (fun e (he : some bl.blRootEntry = some e) => Option.some.inj he ▸ h.root_mem)
        (some s) rfl
      exact ⟨hok, hext, fun e he => ⟨s, rfl, hresolve e he⟩⟩

end EntriesOk

end BotzListen

/-! ## The calls of `botz_add` -/

/-- The arguments of a call of `botz_add`. -/
structure AddCall (O D : Type*) where
  path : Option CString
  ops : Option O
  data : Option D

namespace BotzListen

variable (bl : BotzListen O D)

/-- The entry that a call of `botz_add` resolves to. -/
def addedEntry (env : EntryEnv O) (call : AddCall O D) : Option BotzEntry :=
  (bl.botzLookup env call.path true).1

/-- The calls of `botz_add`, in order. -/
def addAll (env : EntryEnv O) (calls : List (AddCall O D)) : BotzListen O D :=
  calls.foldl (fun bl call => (bl.botzAdd env call.path call.ops call.data).2) bl

namespace EntriesOk

variable {bl}

theorem with_ops (h : bl.EntriesOk env) (eOps : BotzEntry → Option O)
    (eData : BotzEntry → Option D) :
    EntriesOk env { bl with eOps := eOps, eData := eData } where
  keyed := h.keyed
  hashed := h.hashed
  older := h.older
  parent_older := h.parent_older
  parent_mem := h.parent_mem
  parented := h.parented
  root := h.root
  root_mem := h.root_mem

/-- What one call of `botz_add` does. -/
theorem add (h : bl.EntriesOk env) (call : AddCall O D) {bl' : BotzListen O D}
    (hbl' : (bl.botzAdd env call.path call.ops call.data).2 = bl') :
    bl'.EntriesOk env ∧ bl.Grows bl' ∧
      (∀ e, e.malloc < bl.mallocs → bl.addedEntry env call ≠ some e →
        bl'.eOps e = bl.eOps e ∧ bl'.eData e = bl.eData e) ∧
      ∀ e, bl.addedEntry env call = some e →
        bl'.eOps e = call.ops ∧ bl'.eData e = call.data ∧
          ∃ s, call.path = some s ∧
            bl'.resolve (some bl'.blRootEntry) (pathSteps s) = some e := by
  obtain ⟨hok, hext, hresolve⟩ := h.lookup_create call.path
  rw [botzAdd] at hbl'
  rw [addedEntry]
  cases hlookup : bl.botzLookup env call.path true with
  | mk found bl₁ =>
      rw [hlookup] at hok hext hresolve hbl'
      cases found with
      | none =>
          obtain rfl : bl₁ = bl' := hbl'
          exact ⟨hok, hext.toGrows, fun e he _ => ⟨hext.ops he, hext.data he⟩,
            fun e he => by cases he⟩
      | some e₀ =>
          subst hbl'
          refine ⟨hok.with_ops _ _, ⟨hext.mallocs, hext.root, hext.parent, hext.mem⟩,
            fun e he hne => ?_, fun e he => ?_⟩
          · have hne : e ≠ e₀ := fun heq => hne (congrArg some heq.symm)
            exact ⟨(update_of_ne hne ..).trans (hext.ops he),
              (update_of_ne hne ..).trans (hext.data he)⟩
          · cases he
            obtain ⟨s, hs, hes⟩ := hresolve e₀ rfl
            rw [← hext.root] at hes
            exact ⟨update_self .., update_self .., s, hs, hes⟩

/-- What the calls of `botz_add` do to the tree, and to an entry that no call
resolves to. -/
theorem addAll (h : bl.EntriesOk env) (calls : List (AddCall O D)) :
    (bl.addAll env calls).EntriesOk env ∧ bl.Grows (bl.addAll env calls) ∧
      ∀ e, e.malloc < bl.mallocs →
        (∀ before call after, calls = before ++ call :: after →
          (bl.addAll env before).addedEntry env call ≠ some e) →
        (bl.addAll env calls).eOps e = bl.eOps e ∧
          (bl.addAll env calls).eData e = bl.eData e := by
  induction calls generalizing bl with
  | nil => exact ⟨h, .refl _, fun _ _ _ => ⟨rfl, rfl⟩⟩
  | cons call calls ih =>
      obtain ⟨hok, hgrows, hkept, -⟩ := h.add call rfl
      obtain ⟨hok', hgrows', hkept'⟩ := ih hok
      refine ⟨hok', hgrows.trans hgrows', fun e he hnone => ?_⟩
      obtain ⟨hops, hdata⟩ := hkept e he (hnone [] call calls rfl)
      obtain ⟨hops', hdata'⟩ := hkept' e (he.trans_le hgrows.mallocs)
        fun before call' after hsplit =>
          hnone (call :: before) call' after (congrArg (List.cons call) hsplit)
      exact ⟨hops'.trans hops, hdata'.trans hdata⟩

end EntriesOk

section Init

/-- The root, which is its own parent. -/
abbrev rootEntry : BotzEntry :=
  ⟨0, []⟩

/-- The table with the root alone. -/
abbrev rooted (env : EntryEnv O) (nrEntries : UInt64) : BotzListen O D where
  mallocs := 1
  eHashed := update (fun _ => false) rootEntry true
  eParent := update (fun _ => none) rootEntry (some rootEntry)
  eOps := update (fun _ => none) rootEntry (some env.botzDefaultOps)
  eData := fun _ => none
  blEntryTable :=
    let t := hashTableInit nrEntries
    t.addHead (entryHash env t.tShift ([], some rootEntry)) rootEntry
  blRootEntry := rootEntry

theorem botzListenInit_eq (nrEntries : UInt64) :
    botzListenInit env nrEntries =
      (env.block 0).map fun _ => (rooted env nrEntries : BotzListen O D) := by
  rw [botzListenInit, botzNewEntry]
  cases env.block 0 with
  | none => rfl
  | some block => simp [btAddEntry, key]

theorem mem_rooted {nrEntries : UInt64} {e : BotzEntry} :
    e ∈ (rooted env nrEntries : BotzListen O D).blEntryTable.toList ↔ e = rootEntry := by
  rw [(HashTable.toList_addHead _ _ _).mem_iff, HashTable.toList_init, List.mem_singleton]

theorem parent_root {nrEntries : UInt64} :
    (rooted env nrEntries : BotzListen O D).eParent rootEntry = some rootEntry := by
  simp

theorem parent_rooted {nrEntries : UInt64} {e p : BotzEntry}
    (h : (rooted env nrEntries : BotzListen O D).eParent e = some p) :
    e = rootEntry ∧ p = rootEntry := by
  rcases eq_or_ne e rootEntry with rfl | he
  · rw [parent_root, Option.some.injEq] at h
    exact ⟨rfl, h.symm⟩
  · simp [he] at h

/-- After `botz_listen_init` the root is the only entry. -/
theorem entriesOk_init {nrEntries : UInt64} {bl₀ : BotzListen O D}
    (h : botzListenInit env nrEntries = some bl₀) : bl₀.EntriesOk env := by
  rw [botzListenInit_eq] at h
  obtain ⟨block, -, rfl⟩ := Option.map_eq_some_iff.1 h
  have hkey : (rooted env nrEntries : BotzListen O D).key rootEntry = ([], some rootEntry) :=
    congrArg (Prod.mk []) parent_root
  have hempty : (hashTableInit nrEntries : HashTable BotzEntry).Keyed
      (rooted env nrEntries : BotzListen O D).key
      (entryHash env (hashTableInit nrEntries : HashTable BotzEntry).tShift) :=
    HashTable.keyed_init nrEntries
  have hadd := hempty.addHead (a := rootEntry) rfl
  rw [hkey] at hadd
  refine ⟨hadd, fun e he => ?_, fun e he => ?_, fun hp => ?_, fun hp => ?_,
    fun e he => ?_, parent_root, ?_⟩
  · simp [mem_rooted.1 he]
  · rw [mem_rooted.1 he]
    exact Nat.zero_lt_one
  · rw [(parent_rooted hp).1]
    exact Nat.zero_lt_one
  · exact mem_rooted.2 (parent_rooted hp).2
  · rw [mem_rooted.1 he, parent_root]
    exact Option.some_ne_none rootEntry
  · exact mem_rooted.2 rfl

end Init

end BotzListen

/-- Path resolution: with any calls of `botz_add`, `botz_lookup` follows the
components of a path from the root through the tree of entries.  Every spelling
of an added path leads to its entry, dots or not, and this entry has the
operations and data of the last call that resolved to it.  `bx_lookup` finds
what `botz_lookup` finds. -/
theorem path_resolution (env : EntryEnv O) (app : EntryApp O D) {nrEntries : UInt64}
    {bl₀ : BotzListen O D} (hinit : botzListenInit env nrEntries = some bl₀)
    (calls : List (AddCall O D)) :
    let bl := bl₀.addAll env calls
    (bl.eParent bl.blRootEntry = some bl.blRootEntry ∧
      ∀ e c name, bl.child e name = some c ↔
        c ∈ bl.blEntryTable.toList ∧ c.eName = name ∧ bl.eParent c = some e) ∧
    (∀ path, bl.botzLookup env (some path) false =
      (walk bl.eParent bl.child bl.blRootEntry (pathSteps path), bl)) ∧
    (∀ call e, bl.addedEntry env call = some e → ∀ later,
      (∀ path s, call.path = some s →
        ((components path).filter fun name => name ≠ lit ".") =
          ((components s).filter fun name => name ≠ lit ".") →
        ((bl.addAll env (call :: later)).botzLookup env (some path) false).1 = some e) ∧
      ((∀ before call' after, later = before ++ call' :: after →
          (bl.addAll env (call :: before)).addedEntry env call' ≠ some e) →
        (bl.addAll env (call :: later)).eOps e = call.ops ∧
          (bl.addAll env (call :: later)).eData e = call.data)) ∧
    (∀ call s, call.path = some s → (∀ n, env.block n ≠ none) →
      bl.addedEntry env call ≠ none) ∧
    ∀ x path e, x.xQ.qPath = some path → (bl.botzLookup env (some path) false).1 = some e →
      bl.bxLookup env app x = some (some e, bl, x) := by
  intro bl
  have hok : bl.EntriesOk env := ((BotzListen.entriesOk_init hinit).addAll calls).1
  refine ⟨⟨hok.root, fun e c name => hok.child_eq_some⟩,
    fun path => hok.botzLookupLoop_static _ _, fun call e he later => ?_,
    fun call s hs hblock => ?_, fun x path e hpath he => ?_⟩
  · obtain ⟨hok₁, hgrows₁, -, hadded⟩ := hok.add call rfl
    obtain ⟨hops, hdata, s, hs, hresolve⟩ := hadded e he
    obtain ⟨hok₂, hgrows₂, hkept⟩ := hok₁.addAll later
    have hmem := hok₁.mem_resolve hok₁.root_mem hresolve
    refine ⟨fun path s' hs' hsame => ?_, fun hnone => ?_⟩
    · obtain rfl := Option.some.inj (hs.symm.trans hs')
      rw [pathSteps, ← BotzListen.resolve_filter_dot, ← hsame, BotzListen.resolve_filter_dot,
        ← hgrows₂.root] at hresolve
      have hstatic := hok₂.botzLookupLoop_static
        (some (bl.addAll env (call :: later)).blRootEntry) (some path)
      exact (congrArg Prod.fst hstatic).trans (hok₁.resolve_mono hok₂ hgrows₂ hresolve)
    · obtain ⟨hops', hdata'⟩ := hkept e (hok₁.older e hmem) hnone
      exact ⟨hops'.trans hops, hdata'.trans hdata⟩
  · rw [BotzListen.addedEntry, hs]
    exact hok.botzLookupLoop_ne_none hblock hok.root_mem (some s)
  · have hstatic := hok.botzLookupLoop_static (some bl.blRootEntry) (some path)
    rw [BotzListen.bxLookup, hpath]
    exact hok.bxLookupLoop_found app x (some path) ((congrArg Prod.fst hstatic).symm.trans he)

/-- An environment in which every `malloc` succeeds. -/
def entrySampleEnv : EntryEnv ℕ where
  block n := some (64 * (n.toUInt64 + 1))
  botzDefaultOps := 0

/-- An application without `o_lookup`. -/
def entrySampleApp : EntryApp ℕ ℕ where
  oLookup _ := none
  pRest h := nomatch h

/-- A path that is added with a dot, and found with other slashes, after
another path was added again. -/
theorem path_resolution_sample :
    let bl : BotzListen ℕ ℕ := BotzListen.addAll (.rooted entrySampleEnv 16) entrySampleEnv
      [⟨some (lit "top"), some 1, none⟩]
    let bl' := bl.addAll entrySampleEnv
      [⟨some (lit "fs/./work"), some 2, some 5⟩, ⟨some (lit "top"), some 3, none⟩]
    (bl'.botzLookup entrySampleEnv (some (lit "//fs/work/")) false).1 = some ⟨3, lit "work"⟩ ∧
      bl'.eOps ⟨3, lit "work"⟩ = some 2 ∧ bl'.eData ⟨3, lit "work"⟩ = some 5 := by
  intro bl bl'
  have hinit : (botzListenInit entrySampleEnv 16 : Option (BotzListen _ ℕ)) = _ :=
    BotzListen.botzListenInit_eq 16
  obtain ⟨-, -, hadded, -, -⟩ := path_resolution entrySampleEnv entrySampleApp hinit
    [⟨some (lit "top"), some 1, none⟩]
  have he : bl.addedEntry entrySampleEnv ⟨some (lit "fs/./work"), some 2, some 5⟩ =
      some ⟨3, lit "work"⟩ := by
    decide +kernel
  obtain ⟨hpaths, hfields⟩ := hadded _ _ he [⟨some (lit "top"), some 3, none⟩]
  refine ⟨hpaths _ _ rfl (by decide +kernel), hfields fun before call' after hsplit => ?_⟩
  cases before with
  | nil =>
      obtain rfl := (List.cons.inj hsplit).1
      decide +kernel
  | cons call'' before => cases before <;> cases hsplit

end Xltop.Http
