import Xltop.Client.Poll
import Xltop.Core.Words
import Mathlib.Algebra.Ring.Int.Defs
import Mathlib.Data.Int.Order.Basic

/-!
# Filesystems and clusters of the client

When it starts, `xltop` asks the master for the names of all filesystems and all
clusters, and starts a watcher for each name that is new.  To tell a new name
from a known one, it looks at the pointer to the next node of the hash chain
after the look-up, which has put the name in by then.
-/

namespace Xltop.Client

open Xltop.Hash
open Xltop.Text

/-! ## The code -/

/-- A `struct ev_periodic`, and how often it has been started. -/
structure Watcher (D : Type*) where
  offset : D
  interval : D
  starts : ℕ

/-- `ev_periodic_init` and `ev_periodic_start` -/
def Watcher.start {D : Type*} (w : Watcher D) (offset interval : D) : Watcher D :=
  ⟨offset, interval, w.starts + 1⟩

/-- A `struct xl_fs`, without the load of its servers. -/
structure XlFs (D : Type*) where
  fW : Watcher D
  fName : CString

/-- A `struct xl_clus`, without its jobs. -/
structure XlClus (D : Type*) where
  cW : Watcher D
  cName : CString

/-- The table of filesystems, `fs_list` by name, and `nr_fs`. -/
structure FsState (D : Type*) where
  xlFs : HashTable (XlFs D)
  fsList : List CString
  nrFs : ℕ

section Code

variable {D : Type*} [Zero D] [One D] [Add D] [Neg D] [LT D] [DecidableLT D]

/-- After `xl_hash_init`. -/
def fsInit (D : Type*) (hint : UInt64) : FsState D where
  xlFs := hashTableInit hint
  fsList := []
  nrFs := 0

/-- `_xl_lookup` with `create`, as far as the table goes; a new entry is all zero
but for its name. -/
def xlLookup {α : Type*} (key : α → CString) (new : CString → α) (t : HashTable α)
    (name : CString) : HashTable α :=
  match t.lookup key strHash name with
  | some _ => t
  | none => t.addHead (strHash name) (new name)

omit [LT D] [DecidableLT D] in
def xlFsAdd (fsStatusInterval : D) (s : FsState D) (name : CString) : FsState D :=
  let t := xlLookup XlFs.fName (fun name => ⟨⟨0, 0, 0⟩, name⟩) s.xlFs name
  if (t.next XlFs.fName strHash name).isSome then { s with xlFs := t }
  else
    { xlFs := t.modify XlFs.fName strHash name fun f =>
        { f with fW := f.fW.start 0 fsStatusInterval }
      fsList := name :: s.fsList
      nrFs := s.nrFs + 1 }

omit [LT D] [DecidableLT D] in
/-- `xl_fs_init` with the lines of the reply. -/
def xlFsInit (fsStatusInterval : D) (s : FsState D) (lines : List CString) : FsState D :=
  lines.foldl (fun s m =>
    match (split 1 (some m)).1 with
    | [name] => xlFsAdd fsStatusInterval s name
    | _ => s) s

variable (strtod : CString → D) (fmod : D → D → D)
  (info : CString → Option (List CString))

omit [LT D] [DecidableLT D] in
/-- `c_int` and `c_off` after the loop over the lines of an `_info` reply. -/
def clusTimes (lines : List CString) : D × D :=
  lines.foldl (fun (cInt, cOff) m =>
    match (split 2 (some m)).1 with
    | [k, v] =>
        if k = lit "interval:" then (strtod v, cOff)
        else if k = lit "offset:" then (cInt, strtod v)
        else (cInt, cOff)
    | _ => (cInt, cOff)) (-1, -1)

/-- `xl_clus_add`, and whether it returns 0; `info` gives the lines of the reply
to the `_info` request of a cluster, or `none` when the request fails. -/
def xlClusAdd (t : HashTable (XlClus D)) (name : CString) : HashTable (XlClus D) × Bool :=
  let t := xlLookup XlClus.cName (fun name => ⟨⟨0, 0, 0⟩, name⟩) t name
  if (t.next XlClus.cName strHash name).isSome then (t, true)
  else
    match info name with
    | none => (t.erase XlClus.cName strHash name, false)
    | some lines =>
        let (cInt, cOff) := clusTimes strtod lines
        if cInt < 0 ∨ cOff < 0 then (t.erase XlClus.cName strHash name, false)
        else
          (t.modify XlClus.cName strHash name fun c =>
            { c with cW := c.cW.start (fmod (cOff + 1) cInt) cInt }, true)

/-- `xl_clus_init` with the lines of the reply. -/
def xlClusInit (t : HashTable (XlClus D)) : List CString → HashTable (XlClus D) × Bool
  | [] => (t, true)
  | m :: lines =>
      match (split 1 (some m)).1 with
      | [name] =>
          let (t, ok) := xlClusAdd strtod fmod info t name
          if ok then xlClusInit t lines else (t, false)
      | _ => xlClusInit t lines

end Code

/-! ## Names in a table -/

section Enrolled

variable {α : Type*} {key : α → CString} {new : CString → α} {starts : α → ℕ}

/-- A table after `names` have been looked up, where the watchers of `started`
have been started. -/
structure Enrolled (key : α → CString) (starts : α → ℕ) (index : CString → ℕ)
    (t : HashTable α) (names started : List CString) : Prop where
  keyed : t.Keyed key strHash
  slot : ∀ name, t.slot (strHash name) = index name
  found : ∀ name, t.lookup key strHash name ≠ none ↔ name ∈ names
  starts : ∀ {name a}, t.lookup key strHash name = some a →
    starts a = if name ∈ started then 1 else 0
  nodup : started.Nodup
  subset : started ⊆ names
  /-- All are started as long as no two share a chain. -/
  all : (∀ name ∈ names, name ∈ started) ↔ (names.map index).Nodup

variable {index : CString → ℕ} {t : HashTable α} {names started : List CString}
  {name : CString}

theorem Enrolled.init (key : α → CString) (starts : α → ℕ) (hint : UInt64) :
    Enrolled key starts (fun name => (hashTableInit hint : HashTable α).slot (strHash name))
      (hashTableInit hint) [] [] where
  keyed := HashTable.keyed_init hint
  slot _ := rfl
  found name := iff_of_false (fun h => h rfl) List.not_mem_nil
  starts h := by cases h
  nodup := List.nodup_nil
  subset := List.Subset.refl _
  all := iff_of_true (fun _ h => absurd h List.not_mem_nil) List.nodup_nil

/-- A new name, whether its watcher is started or not. -/
theorem Enrolled.lookup_addHead (h : Enrolled key starts index t names started)
    (hkey : ∀ name, key (new name) = name) (hname : name ∉ names) :
    xlLookup key new t name = t.addHead (strHash name) (new name) ∧
      (xlLookup key new t name).Keyed key strHash ∧
      (∀ y, (xlLookup key new t name).lookup key strHash y =
        if y = name then some (new name) else t.lookup key strHash y) := by
  have hnone : t.lookup key strHash name = none := by
    by_contra hne
    exact hname ((h.found name).1 hne)
  have hadd : xlLookup key new t name = t.addHead (strHash name) (new name) := by
    rw [xlLookup, hnone]
  have hkeyed := h.keyed.addHead (a := new name) (by rwa [hkey])
  have hlookup := HashTable.lookup_addHead key strHash t (new name)
  rw [hkey] at hkeyed hlookup
  rw [hadd]
  exact ⟨rfl, hkeyed, hlookup⟩

/-- The pointer to the next node is NULL when no name shares the chain. -/
theorem Enrolled.next_isSome (h : Enrolled key starts index t names started)
    (hkey : ∀ name, key (new name) = name) (hname : name ∉ names) :
    ((xlLookup key new t name).next key strHash name).isSome ↔
      index name ∈ names.map index := by
  obtain ⟨hadd, -, -⟩ := h.lookup_addHead hkey hname
  have hnext : (t.addHead (strHash (key (new name))) (new name)).next key strHash
      (key (new name)) = (t.tTable (t.slot (strHash (key (new name))))).head? :=
    HashTable.next_addHead strHash t (new name)
  rw [hkey] at hnext
  rw [hadd, hnext, Option.isSome_iff_ne_none, ne_eq, h.keyed.head?_eq_none, List.mem_map]
  push Not
  simp only [h.slot, h.found]
  exact exists_congr fun _ => and_comm

/-- The name shares its chain with an earlier one: nothing is started. -/
theorem Enrolled.skip (h : Enrolled key starts index t names started)
    (hkey : ∀ name, key (new name) = name) (hnew : ∀ name, starts (new name) = 0)
    (hname : name ∉ names) (hshared : index name ∈ names.map index) :
    Enrolled key starts index (xlLookup key new t name) (names ++ [name]) started := by
  obtain ⟨hadd, hkeyed, hlookup⟩ := h.lookup_addHead hkey hname
  have hnot : name ∉ started := fun hmem => hname (h.subset hmem)
  refine
    { keyed := hkeyed
      slot := fun y => ?_
      found := fun y => ?_
      starts := fun {y a} ha => ?_
      nodup := h.nodup
      subset := List.Subset.trans h.subset (List.subset_append_left _ _)
      all := ?_ }
  · rw [hadd]
    exact h.slot y
  · rw [hlookup, List.mem_append, List.mem_singleton, ← h.found]
    by_cases hy : y = name
    · simp [hy]
    · simp [hy]
  · rw [hlookup] at ha
    split at ha
    · next hy =>
        rw [← Option.some.inj ha, hnew, hy, if_neg hnot]
    · exact h.starts ha
  · apply iff_of_false
    · intro hall
      exact hnot (hall name (by simp))
    · intro hnodup
      rw [List.map_append, List.nodup_append] at hnodup
      exact hnodup.2.2 _ hshared _ (by simp) rfl

/-- The name has its chain to itself: its watcher is started. -/
theorem Enrolled.start (h : Enrolled key starts index t names started)
    (hkey : ∀ name, key (new name) = name) (hnew : ∀ name, starts (new name) = 0)
    (hname : name ∉ names) (halone : index name ∉ names.map index) {f : α → α}
    (hf : ∀ a, key (f a) = key a) (hstarts : ∀ a, starts (f a) = starts a + 1) :
    Enrolled key starts index ((xlLookup key new t name).modify key strHash name f)
      (names ++ [name]) (name :: started) := by
  obtain ⟨hadd, hkeyed, hlookup⟩ := h.lookup_addHead hkey hname
  have hnot : name ∉ started := fun hmem => hname (h.subset hmem)
  have hmodify : ∀ y, ((xlLookup key new t name).modify key strHash name f).lookup key strHash y =
      if y = name then some (f (new name)) else t.lookup key strHash y := by
    intro y
    rw [HashTable.lookup_modify key strHash _ hf, hlookup, hlookup, if_pos rfl]
    by_cases hy : y = name
    · rw [if_pos hy, if_pos hy, Option.map_some]
    · rw [if_neg hy, if_neg hy, if_neg hy]
  refine
    { keyed := hkeyed.modify hf name
      slot := fun y => ?_
      found := fun y => ?_
      starts := fun {y a} ha => ?_
      nodup := List.nodup_cons.2 ⟨hnot, h.nodup⟩
      subset := ?_
      all := ?_ }
  · rw [hadd]
    exact h.slot y
  · rw [hmodify, List.mem_append, List.mem_singleton, ← h.found]
    by_cases hy : y = name
    · simp [hy]
    · simp [hy]
  · rw [hmodify] at ha
    by_cases hy : y = name
    · rw [if_pos hy] at ha
      rw [← Option.some.inj ha, hstarts, hnew, if_pos (hy ▸ List.mem_cons_self)]
    · rw [if_neg hy] at ha
      simp only [h.starts ha, List.mem_cons, or_iff_right hy]
  · apply List.cons_subset.2
    exact ⟨by simp, List.Subset.trans h.subset (List.subset_append_left _ _)⟩
  · have hself : name ∈ name :: started := List.mem_cons_self
    have hrest : (∀ y ∈ names, y ∈ name :: started) ↔ ∀ y ∈ names, y ∈ started := by
      apply forall₂_congr
      intro y hy
      exact ⟨fun hmem => (List.mem_cons.1 hmem).resolve_left fun heq => hname (heq ▸ hy),
        List.mem_cons_of_mem _⟩
    rw [List.forall_mem_append, List.forall_mem_singleton, and_iff_left hself, hrest, h.all,
      List.map_append, List.map_singleton, List.nodup_append]
    constructor
    · intro hnodup
      refine ⟨hnodup, List.nodup_singleton _, fun i hi j hj heq => ?_⟩
      rw [List.mem_singleton] at hj
      exact halone (hj ▸ heq ▸ hi)
    · exact fun hnodup => hnodup.1

end Enrolled

section Registered

variable {D : Type*} [Zero D]

/-- No two of the names share a chain of the table. -/
def Spread {α : Type*} (t : HashTable α) (names : List CString) : Prop :=
  (names.map fun name => t.slot (strHash name)).Nodup

/-! ## Filesystems -/

/-- Every filesystem is on the list once, its watcher is started, and the number
is right. -/
structure FsRegistered (s : FsState D) (names : List CString) : Prop where
  once : ∀ name ∈ names, s.fsList.count name = 1
  started : ∀ name ∈ names,
    ∃ f, s.xlFs.lookup XlFs.fName strHash name = some f ∧ 0 < f.fW.starts
  number : s.nrFs = names.length

/-- The list is of the filesystems whose watchers are started. -/
structure FsEnrolled (index : CString → ℕ) (s : FsState D) (names : List CString) : Prop where
  table : Enrolled XlFs.fName (fun f => f.fW.starts) index s.xlFs names s.fsList
  number : s.nrFs = s.fsList.length

theorem xlFsAdd_enrolled (fsStatusInterval : D) {index : CString → ℕ} {s : FsState D}
    {names : List CString} (h : FsEnrolled index s names) {name : CString}
    (hname : name ∉ names) :
    FsEnrolled index (xlFsAdd fsStatusInterval s name) (names ++ [name]) := by
  have hnext : ((xlLookup XlFs.fName (fun name => ⟨⟨0, 0, 0⟩, name⟩) s.xlFs name).next
      XlFs.fName strHash name).isSome ↔ index name ∈ names.map index :=
    h.table.next_isSome (fun _ => rfl) hname
  rw [xlFsAdd]
  by_cases hshared : index name ∈ names.map index
  · rw [if_pos (hnext.2 hshared)]
    exact ⟨h.table.skip (fun _ => rfl) (fun _ => rfl) hname hshared, h.number⟩
  · rw [if_neg (mt hnext.1 hshared)]
    refine ⟨h.table.start (fun _ => rfl) (fun _ => rfl) hname hshared (fun _ => rfl)
      fun _ => rfl, ?_⟩
    exact congrArg (· + 1) h.number

theorem foldl_xlFsAdd_enrolled (fsStatusInterval : D) {index : CString → ℕ} {s : FsState D}
    {done : List CString} (h : FsEnrolled index s done) {names : List CString}
    (hnodup : (done ++ names).Nodup) :
    FsEnrolled index (names.foldl (xlFsAdd fsStatusInterval) s) (done ++ names) := by
  induction names generalizing s done with
  | nil =>
      rw [List.append_nil]
      exact h
  | cons name names ih =>
      rw [List.append_cons] at hnodup ⊢
      have hname : name ∉ done := fun hmem =>
        (List.nodup_append.1 (List.nodup_append.1 hnodup).1).2.2 name hmem name (by simp) rfl
      exact ih (xlFsAdd_enrolled fsStatusInterval h hname) hnodup

/-- A line that is a name is that name. -/
theorem split_name {name : CString} (h : IsWord name) :
    (split 1 (some name)).1 = [name] := by
  rw [split_fst]
  change (words name).take 1 = [name]
  rw [words_word h]
  rfl

theorem xlFsInit_names (fsStatusInterval : D) (s : FsState D) {names : List CString}
    (hwords : ∀ name ∈ names, IsWord name) :
    xlFsInit fsStatusInterval s names = names.foldl (xlFsAdd fsStatusInterval) s := by
  rw [xlFsInit]
  apply List.foldl_ext
  intro s name hname
  rw [split_name (hwords name hname)]

omit [Zero D] in
theorem FsEnrolled.registered_iff {index : CString → ℕ} {s : FsState D}
    {names : List CString} (h : FsEnrolled index s names) (hnodup : names.Nodup) :
    FsRegistered s names ↔ (names.map index).Nodup := by
  rw [← h.table.all]
  constructor
  · intro hreg name hname
    exact List.count_pos_iff.1 (hreg.once name hname ▸ Nat.one_pos)
  · intro hall
    have hperm : s.fsList.Perm names :=
      (List.perm_ext_iff_of_nodup h.table.nodup hnodup).2 fun name =>
        ⟨fun hmem => h.table.subset hmem, hall name⟩
    refine
      { once := fun name hname => List.count_eq_one_of_mem h.table.nodup (hall name hname)
        started := fun name hname => ?_
        number := h.number.trans hperm.length_eq }
    obtain ⟨f, hf⟩ := Option.ne_none_iff_exists'.1 ((h.table.found name).2 hname)
    refine ⟨f, hf, ?_⟩
    rw [h.table.starts hf, if_pos (hall name hname)]
    exact Nat.one_pos

theorem fs_registered_iff (fsStatusInterval : D) (hint : UInt64) {names : List CString}
    (hwords : ∀ name ∈ names, IsWord name) (hnodup : names.Nodup) :
    FsRegistered (xlFsInit fsStatusInterval (fsInit D hint) names) names ↔
      Spread (fsInit D hint).xlFs names := by
  have hstart : FsEnrolled (fun name => (fsInit D hint).xlFs.slot (strHash name))
      (fsInit D hint) [] := ⟨.init _ _ hint, rfl⟩
  have hrun := foldl_xlFsAdd_enrolled fsStatusInterval hstart hnodup
  rw [xlFsInit_names fsStatusInterval _ hwords]
  exact hrun.registered_iff hnodup

/-! ## Clusters -/

variable [One D] [Add D] [Neg D] [LT D] [DecidableLT D] (strtod : CString → D) (fmod : D → D → D)
  (info : CString → Option (List CString))

omit [LT D] [DecidableLT D] in
/-- Every cluster has its watcher started exactly once. -/
def ClusRegistered (t : HashTable (XlClus D)) (names : List CString) : Prop :=
  ∀ name ∈ names, ∃ c, t.lookup XlClus.cName strHash name = some c ∧ c.cW.starts = 1

/-- The `_info` request of a cluster succeeds, and gives its two times. -/
def InfoOk (name : CString) : Prop :=
  ∃ lines, info name = some lines ∧
    ¬ ((clusTimes strtod lines).1 < 0 ∨ (clusTimes strtod lines).2 < 0)

theorem xlClusAdd_enrolled {index : CString → ℕ} {t : HashTable (XlClus D)}
    {names started : List CString}
    (h : Enrolled XlClus.cName (fun c => c.cW.starts) index t names started) {name : CString}
    (hname : name ∉ names) (hinfo : InfoOk strtod info name) :
    (xlClusAdd strtod fmod info t name).2 = true ∧
      ∃ started', Enrolled XlClus.cName (fun c => c.cW.starts) index
        (xlClusAdd strtod fmod info t name).1 (names ++ [name]) started' := by
  have hnext : ((xlLookup XlClus.cName (fun name => ⟨⟨0, 0, 0⟩, name⟩) t name).next
      XlClus.cName strHash name).isSome ↔ index name ∈ names.map index :=
    h.next_isSome (fun _ => rfl) hname
  rw [xlClusAdd]
  simp only
  by_cases hshared : index name ∈ names.map index
  · rw [if_pos (hnext.2 hshared)]
    exact ⟨rfl, started, h.skip (fun _ => rfl) (fun _ => rfl) hname hshared⟩
  · obtain ⟨lines, hlines, htimes⟩ := hinfo
    rw [if_neg (mt hnext.1 hshared)]
    simp only [hlines]
    rw [if_neg htimes]
    exact ⟨rfl, name :: started,
      h.start (fun _ => rfl) (fun _ => rfl) hname hshared (fun _ => rfl) fun _ => rfl⟩

/-- The loop of `xl_clus_init` goes through to the end. -/
theorem xlClusInit_enrolled {index : CString → ℕ} {t : HashTable (XlClus D)}
    {done started : List CString}
    (h : Enrolled XlClus.cName (fun c => c.cW.starts) index t done started)
    {names : List CString} (hwords : ∀ name ∈ names, IsWord name)
    (hinfo : ∀ name ∈ names, InfoOk strtod info name) (hnodup : (done ++ names).Nodup) :
    ∃ started', Enrolled XlClus.cName (fun c => c.cW.starts) index
      (xlClusInit strtod fmod info t names).1 (done ++ names) started' := by
  induction names generalizing t done started with
  | nil =>
      rw [List.append_nil]
      exact ⟨started, h⟩
  | cons name names ih =>
      rw [List.forall_mem_cons] at hwords hinfo
      rw [List.append_cons] at hnodup ⊢
      have hname : name ∉ done := fun hmem =>
        (List.nodup_append.1 (List.nodup_append.1 hnodup).1).2.2 name hmem name (by simp) rfl
      obtain ⟨hok, started', hstep⟩ := xlClusAdd_enrolled strtod fmod info h hname hinfo.1
      rw [xlClusInit, split_name hwords.1]
      simp only [hok, if_true]
      exact ih hstep hwords.2 hinfo.2 hnodup

omit [Zero D] [One D] [Add D] [Neg D] [LT D] [DecidableLT D] in
theorem Enrolled.clusRegistered_iff {index : CString → ℕ} {t : HashTable (XlClus D)}
    {names started : List CString}
    (h : Enrolled XlClus.cName (fun c => c.cW.starts) index t names started) :
    ClusRegistered t names ↔ (names.map index).Nodup := by
  rw [← h.all]
  apply forall₂_congr
  intro name hname
  obtain ⟨c, hc⟩ := Option.ne_none_iff_exists'.1 ((h.found name).2 hname)
  have hstarts : c.cW.starts = if name ∈ started then 1 else 0 := h.starts hc
  constructor
  · rintro ⟨c', hc', hone⟩
    rw [hc, Option.some.injEq] at hc'
    by_contra hnot
    rw [← hc', hstarts, if_neg hnot] at hone
    cases hone
  · intro hmem
    exact ⟨c, hc, hstarts.trans (if_pos hmem)⟩

theorem clus_registered_iff (hint : UInt64) {names : List CString}
    (hwords : ∀ name ∈ names, IsWord name) (hnodup : names.Nodup)
    (hinfo : ∀ name ∈ names, InfoOk strtod info name) :
    ClusRegistered (xlClusInit strtod fmod info (hashTableInit hint) names).1 names ↔
      Spread (hashTableInit hint : HashTable (XlClus D)) names := by
  obtain ⟨started, hrun⟩ := xlClusInit_enrolled strtod fmod info
    (.init XlClus.cName (fun c => c.cW.starts) hint) hwords hinfo hnodup
  exact hrun.clusRegistered_iff

/-- All filesystems and all clusters are registered exactly when no two
filesystems and no two clusters share a chain of their table. -/
theorem registered_once_iff (fsStatusInterval : D) (hintFs hintClus : UInt64)
    {fss cluss : List CString} (hfss : ∀ name ∈ fss, IsWord name) (hfssNodup : fss.Nodup)
    (hcluss : ∀ name ∈ cluss, IsWord name) (hclussNodup : cluss.Nodup)
    (hinfo : ∀ name ∈ cluss, InfoOk strtod info name) :
    FsRegistered (xlFsInit fsStatusInterval (fsInit D hintFs) fss) fss ∧
        ClusRegistered (xlClusInit strtod fmod info (hashTableInit hintClus) cluss).1 cluss ↔
      Spread (fsInit D hintFs).xlFs fss ∧
        Spread (hashTableInit hintClus : HashTable (XlClus D)) cluss :=
  and_congr (fs_registered_iff fsStatusInterval hintFs hfss hfssNodup)
    (clus_registered_iff strtod fmod info hintClus hcluss hclussNodup hinfo)

/-- Two filesystems and two clusters. -/
theorem registered_once_sample :
    FsRegistered (xlFsInit 30 (fsInit ℤ 2) [lit "share", lit "work"])
          [lit "share", lit "work"] ∧
        ClusRegistered (xlClusInit strtol (fun x y => x % y)
          (fun _ => some [lit "interval: 120", lit "offset: 0"])
          (hashTableInit 2) [lit "ranger", lit "ls4"]).1 [lit "ranger", lit "ls4"] ↔
      Spread (fsInit ℤ 2).xlFs [lit "share", lit "work"] ∧
        Spread (hashTableInit 2 : HashTable (XlClus ℤ)) [lit "ranger", lit "ls4"] := by
  have hfss : ∀ name ∈ [lit "share", lit "work"],
      name ≠ [] ∧ ∀ c ∈ name, isSpace c = false := by decide +kernel
  have hcluss : ∀ name ∈ [lit "ranger", lit "ls4"],
      name ≠ [] ∧ ∀ c ∈ name, isSpace c = false := by decide +kernel
  exact registered_once_iff strtol (fun x y => x % y)
    (fun _ => some [lit "interval: 120", lit "offset: 0"]) 30 2 2
    (fun name hname => ⟨(hfss name hname).1, (hfss name hname).2⟩) (by decide)
    (fun name hname => ⟨(hcluss name hname).1, (hcluss name hname).2⟩) (by decide)
    fun _ _ => ⟨_, rfl, by decide +kernel⟩

/-- Both names select chain 5 of 16. -/
theorem shared_chain_not_registered :
    ¬ FsRegistered (xlFsInit 30 (fsInit ℤ 2) [lit "share", lit "corral"])
      [lit "share", lit "corral"] := by
  have hfss : ∀ name ∈ [lit "share", lit "corral"],
      name ≠ [] ∧ ∀ c ∈ name, isSpace c = false := by decide +kernel
  have hiff := fs_registered_iff (30 : ℤ) 2
    (fun name hname => ⟨(hfss name hname).1, (hfss name hname).2⟩)
    (by decide : [lit "share", lit "corral"].Nodup)
  rw [hiff, Spread]
  decide +kernel

end Registered

end Xltop.Client
