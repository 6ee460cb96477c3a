import Xltop.Client.Mirror
import Xltop.Core.Scanf
import Xltop.Core.Split
import Xltop.Master.Views

/-!
# Lines of a top query

The client takes the lines that the master prints for a top query apart again
and keeps one record for each.  A type is known by its first letter, and ends at
the first `:` or `=`; the name has the rest.  A line that fails has been stored
in part, in a record that is not counted.
-/

namespace Xltop.Client

open Function
open Xltop.Buffer
open Xltop.Heap
open Xltop.Master
open Xltop.Rate
open Xltop.Text

/-- An entry of `top_k`, a `struct xl_k` that may be read in part; a type of -1 is
none. -/
structure TopEntry (D : Type*) where
  kX : Fin 2 → Option CString
  kType : Fin 2 → Option XType
  kT : D
  kPending : Stats D
  kRate : Stats D
  kSum : Stats D

def xStrType (s : CString) : Option XType :=
  XType.all.find? fun type => type.name = s

/-- The `switch` of `xl_sep`. -/
def xlType : CString → Option XType
  | 104 :: _ => some .host
  | 106 :: _ => some .job
  | 99 :: _ => some .clus
  | 117 :: _ => some .u
  | 115 :: _ => some .serv
  | 102 :: _ => some .fs
  | 118 :: _ => some .v
  | sType => xStrType sType

/-- `:` or `=`. -/
def isSep (c : Byte) : Bool :=
  c == 58 || c == 61

/-- `xl_sep`: the type and the name that it stores. -/
def xlSep (s : CString) : Option XType × Option CString :=
  let (sType, name) := strsep isSep (some s)
  (xlType (sType.getD []), name)

/-- `xl_sep(s, &k->k_type[i], &k->k_x[i])` -/
def TopEntry.sep {D : Type*} (i : Fin 2) (s : CString) (k : TopEntry D) : TopEntry D :=
  { k with
    kX := update k.kX i (xlSep s).2
    kType := update k.kType i (xlSep s).1 }

/-- `top_k` and `top_k_length`. -/
structure TopK (D : Type*) where
  topK : ℕ → TopEntry D
  topKLength : ℕ

namespace TopK

variable {D : Type*}

/-- A store to `top_k[top_k_length]`, none if this is not one of the `limit`
records that were allocated. -/
def store (limit : ℕ) (t : TopK D) (f : TopEntry D → TopEntry D) : Option (TopK D) :=
  if t.topKLength < limit then
    some { t with topK := update t.topK t.topKLength (f (t.topK t.topKLength)) }
  else none

/-- The loop of `top_msg_cb` over both words, and whether it ends without a
return. -/
def xlSeps (limit : ℕ) : List (Fin 2 × CString) → TopK D → Option (TopK D × Bool)
  | [], t => some (t, true)
  | (i, s) :: words, t =>
      (t.store limit (TopEntry.sep i s)).bind fun t =>
        if (xlSep s).1 = none ∨ (xlSep s).2 = none then some (t, false)
        else xlSeps limit words t

end TopK

namespace TopEntry

variable {D : Type*}

def setT (k : TopEntry D) (d : D) : TopEntry D :=
  { k with kT := d }

def setPending (i : Fin nrStats) (k : TopEntry D) (d : D) : TopEntry D :=
  { k with kPending := update k.kPending i d }

def setRate (i : Fin nrStats) (k : TopEntry D) (d : D) : TopEntry D :=
  { k with kRate := update k.kRate i d }

def setSum (i : Fin nrStats) (k : TopEntry D) (d : D) : TopEntry D :=
  { k with kSum := update k.kSum i d }

/-- Where `sscanf` stores: `&k->k_t, SCN_K_STATS_ARG(k)`. -/
def scnKStatsArg : List (TopEntry D → D → TopEntry D) :=
  [setT, setPending 0, setPending 1, setPending 2, setRate 0, setRate 1, setRate 2,
    setSum 0, setSum 1, setSum 2]

/-- The stores of the numbers that were read. -/
def scan (values : List D) (k : TopEntry D) : TopEntry D :=
  (scnKStatsArg.zip values).foldl (fun k p => p.1 k p.2) k

end TopEntry

/-- `NR_K_STATS`. -/
abbrev nrKStats : ℕ := 3 * nrStats

section TopMsg

variable {D : Type*} (strtod : CString → D) (limit : ℕ)

/-- `top_msg_cb`; none is a store outside of `top_k`. -/
def topMsgCb (t : TopK D) (msg : CString) : Option (TopK D) :=
  match split 2 (some msg) with
  | ([s0, s1], some msg) =>
      (t.xlSeps limit [(0, s0), (1, s1)]).bind fun
        | (t, false) => some t
        | (t, true) =>
            let values := (sscanfLf (1 + nrKStats) msg).map strtod
            (t.store limit (TopEntry.scan values)).map fun t =>
              if values.length ≠ 1 + nrKStats then t
              else { t with topKLength := t.topKLength + 1 }
  | _ => some t

/-- `top_timer_cb` up to the last line of the body that it gets. -/
def topTimerCb (t : TopK D) (body : List Byte) : Option (TopK D) :=
  (curlXLines body).foldlM (topMsgCb strtod limit) { t with topKLength := 0 }

end TopMsg

/-! ## One line -/

/-- A name that a word can hold. -/
def PlainName (name : CString) : Prop :=
  ∀ c ∈ name, isSpace c = false ∧ c ≠ 0

instance (name : CString) : Decidable (PlainName name) :=
  inferInstanceAs (Decidable (∀ c ∈ name, isSpace c = false ∧ c ≠ 0))

/-- A node as it is printed: its type and name. -/
def nodeText (x : XNode) : CString :=
  x.xType.name ++ 58 :: x.xName

variable {R D : Type*}

/-- The numbers of a `k_node`, in the order in which they are printed. -/
def kNumbers (k : KNode XNode R) : List R :=
  [k.kT, k.kPending 0, k.kPending 1, k.kPending 2, k.kRate 0, k.kRate 1, k.kRate 2,
    k.kSum 0, k.kSum 1, k.kSum 2]

/-- `PRI_K_NODE_FMT`, without the newline. -/
def kNodeLine (printf : R → CString) (k : KNode XNode R) : CString :=
  nodeText k.kX0 ++ 32 :: (nodeText k.kX1 ++ 32 :: joinWords ((kNumbers k).map printf))

theorem kNodeText_eq (printf : R → CString) (k : KNode XNode R) :
    kNodeText printf k = kNodeLine printf k ++ [10] := by
  have hblank : lit " " = [32] := rfl
  have hcolon : lit ":" = [58] := rfl
  have hend : lit "\n" = [10] := rfl
  simp [kNodeText, kNodeLine, nodeText, statsText, kNumbers, joinWords, hblank, hcolon, hend]

/-- The type names begin with different letters, and none has a separator. -/
theorem xlType_name (type : XType) :
    xlType type.name = some type ∧ (∀ c ∈ type.name, isSep c = false) ∧
      ∀ c ∈ type.name, isSpace c = false ∧ c ≠ 0 := by
  cases type <;> decide +kernel

theorem xlSep_nodeText (x : XNode) : xlSep (nodeText x) = (some x.xType, some x.xName) := by
  obtain ⟨htype, hsep, -⟩ := xlType_name x.xType
  have hcut : strsep isSep (some (nodeText x)) = (some x.xType.name, some x.xName) :=
    strsep_append hsep fun c hc => Option.some.inj hc ▸ rfl
  rw [xlSep, hcut]
  simp only [Option.getD_some, htype]

theorem isWord_nodeText {x : XNode} (h : PlainName x.xName) : IsWord (nodeText x) where
  ne_nil := by simp [nodeText]
  space c hc := by
    rcases List.mem_append.1 hc with hc | hc
    · exact ((xlType_name x.xType).2.2 c hc).1
    · rcases List.mem_cons.1 hc with rfl | hc
      · decide
      · exact (h c hc).1

/-- What the client keeps of a `k_node`. -/
def received (strtod : CString → D) (printf : R → CString) (k : KNode XNode R) : TopEntry D where
  kX := ![some k.kX0.xName, some k.kX1.xName]
  kType := ![some k.kX0.xType, some k.kX1.xType]
  kT := strtod (printf k.kT)
  kPending i := strtod (printf (k.kPending i))
  kRate i := strtod (printf (k.kRate i))
  kSum i := strtod (printf (k.kSum i))

theorem update_stats (v w : Stats D) :
    update (update (update v 0 (w 0)) 1 (w 1)) 2 (w 2) = w := by
  funext i
  fin_cases i <;> rfl

/-- The ten numbers are stored in the order in which they are printed. -/
theorem scan_kNumbers (strtod : CString → D) (printf : R → CString) (k : KNode XNode R)
    (e : TopEntry D) :
    e.scan (((kNumbers k).map printf).map strtod) =
      { received strtod printf k with kX := e.kX, kType := e.kType } := by
  have hpending := update_stats e.kPending fun i => strtod (printf (k.kPending i))
  have hrate := update_stats e.kRate fun i => strtod (printf (k.kRate i))
  have hsum := update_stats e.kSum fun i => strtod (printf (k.kSum i))
  rw [received, ← hpending, ← hrate, ← hsum]
  rfl

variable {strtod : CString → D} {printf : R → CString} {limit : ℕ} {t : TopK D}

namespace TopK

/-- `top_k` with `e` for the record that is not counted yet. -/
def set (t : TopK D) (e : TopEntry D) : TopK D :=
  { t with topK := update t.topK t.topKLength e }

/-- `top_k` with one more record. -/
def push (t : TopK D) (e : TopEntry D) : TopK D :=
  { t.set e with topKLength := t.topKLength + 1 }

theorem store_of_lt (hroom : t.topKLength < limit) (f : TopEntry D → TopEntry D) :
    t.store limit f = some (t.set (f (t.topK t.topKLength))) :=
  if_pos hroom

theorem store_set (hroom : t.topKLength < limit) (e : TopEntry D)
    (f : TopEntry D → TopEntry D) : (t.set e).store limit f = some (t.set (f e)) := by
  have hself : (t.set e).topK t.topKLength = e := update_self ..
  have htwice : (t.set e).set (f e) = t.set (f e) :=
    congrArg (fun topK => (⟨topK, t.topKLength⟩ : TopK D)) (update_idem ..)
  calc (t.set e).store limit f = some ((t.set e).set (f ((t.set e).topK t.topKLength))) :=
        store_of_lt (t := t.set e) hroom f
    _ = some (t.set (f e)) := by rw [hself, htwice]

/-- The types and the names of two nodes are stored. -/
theorem xlSeps_nodes (hroom : t.topKLength < limit) (x0 x1 : XNode) :
    ∃ e, e.kX = ![some x0.xName, some x1.xName] ∧ e.kType = ![some x0.xType, some x1.xType] ∧
      t.xlSeps limit [(0, nodeText x0), (1, nodeText x1)] = some (t.set e, true) := by
  refine ⟨((t.topK t.topKLength).sep 0 (nodeText x0)).sep 1 (nodeText x1), ?_, ?_, ?_⟩
  · rw [TopEntry.sep, TopEntry.sep, xlSep_nodeText, xlSep_nodeText]
    funext i
    fin_cases i <;> rfl
  · rw [TopEntry.sep, TopEntry.sep, xlSep_nodeText, xlSep_nodeText]
    funext i
    fin_cases i <;> rfl
  · simp only [xlSeps, store_of_lt hroom, store_set hroom, Option.bind_some, xlSep_nodeText,
      reduceCtorEq, or_self, if_false]

end TopK

/-- A line that the master prints makes one record, where there is room. -/
theorem topMsgCb_kNodeLine (hprintf : ∀ r, IsDecimal (printf r)) (hroom : t.topKLength < limit)
    {k : KNode XNode R} (h0 : PlainName k.kX0.xName) (h1 : PlainName k.kX1.xName) :
    topMsgCb strtod limit t (kNodeLine printf k) = some (t.push (received strtod printf k)) := by
  have hfirst : wsep (some (kNodeLine printf k)) = (some (nodeText k.kX0),
      some (nodeText k.kX1 ++ 32 :: joinWords ((kNumbers k).map printf))) := by
    have hword := isWord_nodeText h0
    exact strsepNe_append (List.forall_mem_nil _) hword.ne_nil hword.space
      fun c hc => Option.some.inj hc ▸ rfl
  have hsecond : wsep (some (nodeText k.kX1 ++ 32 :: joinWords ((kNumbers k).map printf))) =
      (some (nodeText k.kX1), some (joinWords ((kNumbers k).map printf))) := by
    have hword := isWord_nodeText h1
    exact strsepNe_append (List.forall_mem_nil _) hword.ne_nil hword.space
      fun c hc => Option.some.inj hc ▸ rfl
  have hsplit : split 2 (some (kNodeLine printf k)) = ([nodeText k.kX0, nodeText k.kX1],
      some (joinWords ((kNumbers k).map printf))) := by
    rw [split_of_word hfirst, split_of_word hsecond]
    rfl
  have hdecimal : ∀ number ∈ (kNumbers k).map printf, IsDecimal number :=
    List.forall_mem_map.2 fun r _ => hprintf r
  have hnumbers : sscanfLf (1 + nrKStats) (joinWords ((kNumbers k).map printf)) =
      (kNumbers k).map printf := sscanfLf_joinWords hdecimal
  obtain ⟨e, hx, htype, hseps⟩ := TopK.xlSeps_nodes hroom k.kX0 k.kX1
  rw [topMsgCb, hsplit]
  have hlength : ¬ (((kNumbers k).map printf).map strtod).length ≠ 1 + nrKStats := by
    rw [List.length_map, List.length_map]
    exact fun h => h rfl
  simp only [hseps, hnumbers, Option.bind_some, TopK.store_set hroom, scan_kNumbers,
    Option.map_some, if_neg hlength, hx, htype]
  rfl

/-! ## All lines -/

theorem TopK.foldl_push (es : List (TopEntry D)) (t : TopK D) :
    (es.foldl TopK.push t).topKLength = t.topKLength + es.length ∧
      ∀ i e, es[i]? = some e → (es.foldl TopK.push t).topK (t.topKLength + i) = e := by
  induction es using List.reverseRecOn with
  | nil => exact ⟨rfl, fun i e he => nomatch he⟩
  | append_singleton es e ih =>
      rw [List.foldl_concat, List.length_append, List.length_singleton]
      refine ⟨congrArg (· + 1) ih.1, fun i e' he => ?_⟩
      change update (es.foldl TopK.push t).topK (es.foldl TopK.push t).topKLength e
        (t.topKLength + i) = e'
      rw [ih.1]
      rw [List.getElem?_append] at he
      split at he
      · next hlt =>
          rw [update_of_ne (by omega)]
          exact ih.2 i e' he
      · next hge =>
          obtain ⟨hlt, rfl⟩ := List.getElem?_eq_some_iff.1 he
          rw [List.length_singleton] at hlt
          obtain rfl : i = es.length := by omega
          rw [update_self]
          simp

/-- Lines that the master prints are read back, where there is room for all. -/
theorem foldlM_kNodeLine (hprintf : ∀ r, IsDecimal (printf r)) {ks : List (KNode XNode R)}
    (hnames : ∀ k ∈ ks, PlainName k.kX0.xName ∧ PlainName k.kX1.xName)
    (hroom : t.topKLength + ks.length ≤ limit) :
    (ks.map (kNodeLine printf)).foldlM (topMsgCb strtod limit) t =
      some ((ks.map (received strtod printf)).foldl TopK.push t) := by
  induction ks generalizing t with
  | nil => rfl
  | cons k ks ih =>
      rw [List.forall_mem_cons] at hnames
      rw [List.length_cons] at hroom
      have hline : topMsgCb strtod limit t _ = _ :=
        topMsgCb_kNodeLine hprintf (by omega) hnames.1.1 hnames.1.2
      rw [List.map_cons, List.foldlM_cons, hline]
      have hpush : (t.push (received strtod printf k)).topKLength + ks.length ≤ limit := by
        change t.topKLength + 1 + ks.length ≤ limit
        omega
      exact ih hnames.2 hpush

/-- A line has neither newlines nor NULs. -/
theorem mem_kNodeLine (hprintf : ∀ r, IsDecimal (printf r)) {k : KNode XNode R}
    (h0 : PlainName k.kX0.xName) (h1 : PlainName k.kX1.xName) :
    10 ∉ kNodeLine printf k ∧ 0 ∉ kNodeLine printf k := by
  have hnode : ∀ {x : XNode}, PlainName x.xName → ∀ c ∈ nodeText x, isSpace c = false ∧ c ≠ 0 := by
    intro x hx c hc
    rcases List.mem_append.1 hc with hc | hc
    · exact (xlType_name x.xType).2.2 c hc
    · rcases List.mem_cons.1 hc with rfl | hc
      · decide
      · exact hx c hc
  have hbyte : ∀ c ∈ kNodeLine printf k, c = 32 ∨ (isSpace c = false ∧ c ≠ 0) := by
    intro c hc
    rcases List.mem_append.1 hc with hc | hc
    · exact .inr (hnode h0 c hc)
    · rcases List.mem_cons.1 hc with rfl | hc
      · exact .inl rfl
      · rcases List.mem_append.1 hc with hc | hc
        · exact .inr (hnode h1 c hc)
        · rcases List.mem_cons.1 hc with rfl | hc
          · exact .inl rfl
          · rcases mem_joinWords hc with hblank | ⟨number, hnumber, hc⟩
            · exact .inl hblank
            · obtain ⟨r, -, rfl⟩ := List.mem_map.1 hnumber
              have htoken := (hprintf r).isToken
              exact .inr ⟨htoken.space c hc, fun hnul => htoken.nul (hnul ▸ hc)⟩
  constructor
  · intro hc
    rcases hbyte 10 hc with h | h
    · exact absurd h (by decide)
    · exact absurd h.1 (by decide)
  · intro hc
    rcases hbyte 0 hc with h | h
    · exact absurd h (by decide)
    · exact h.2 rfl

/-! ## The query and its body -/

section Query

variable [Field R] [LinearOrder R] [FloorRing R] {env : Env R} {m : Daemon R} {now : R}
  {q : Daemon.TopQuery} {ks : List (KNode XNode R)}

/-- A top query prints no more lines than it was asked for. -/
theorem length_topQueryCb (hlimit : 1 ≤ q.limit)
    (hks : (m.topQueryCb env q now).2 = some ks) : ks.length ≤ q.limit := by
  rw [Daemon.topQueryCb] at hks
  split at hks
  · next x0 x1 hx0 hx1 =>
      obtain rfl := Option.some.inj hks
      have hadd : ∀ (h : KHeap (KNode XNode R)) k, h.hCount ≤ h.hLimit ∧ h.hLimit ≤ q.limit →
          (kHeapAdd (kTopCmp q.sort) h k).hCount ≤ (kHeapAdd (kTopCmp q.sort) h k).hLimit ∧
            (kHeapAdd (kTopCmp q.sort) h k).hLimit ≤ q.limit := by
        rintro h k ⟨hle, hlimit⟩
        obtain ⟨hcount, heq⟩ := kHeapAdd_count (kTopCmp q.sort) hle k
        exact ⟨hcount, heq ▸ hlimit⟩
      have hinit : (if q.limit = 0 then Daemon.topLimitMax
          else min q.limit Daemon.topLimitMax) ≤ q.limit := by
        rw [if_neg (by omega)]
        exact min_le_left _ _
      have hheap := kHeapTop_keeps env.conf now hadd q.d0 q.d1 (q.owner.map m.kHeapFiltOwner)
        (m.toXState, kHeapInit _) x0 x1 ⟨Nat.zero_le _, hinit⟩
      rw [length_kHeapArray]
      exact hheap.1.trans hheap.2
  · cases hks

/-- The client reads the body of a top query back: one record for each `k_node`,
in order, and none behind the records that it has asked for. -/
theorem top_round_trip (hlimit : 1 ≤ q.limit) (hks : (m.topQueryCb env q now).2 = some ks)
    (hnames : ∀ k ∈ ks, PlainName k.kX0.xName ∧ PlainName k.kX1.xName)
    (hprintf : ∀ r, IsDecimal (printf r)) (block : ℕ → Byte)
    (hfits : (ks.map (kNodeText printf)).flatten.length < Http.blRBodySize)
    (strtod : CString → D) (t : TopK D) :
    ∃ t', topTimerCb strtod q.limit t
        (printKNodes printf (nBufInit block Http.blRBodySize) ks).data = some t' ∧
      t'.topKLength = ks.length ∧
      ∀ i k, ks[i]? = some k → t'.topK i = received strtod printf k := by
  have hcheck := check_init block Http.blRBodySize
  have hprinted := printedAll_foldl hcheck (ks.map (kNodeText printf)) (by
    change 0 + _ < Http.blRBodySize
    rwa [Nat.zero_add])
  have hbody : (printKNodes printf (nBufInit block Http.blRBodySize) ks).data =
      joinLines (ks.map (kNodeLine printf)) := by
    have htexts : ks.map (kNodeText printf) = (ks.map (kNodeLine printf)).map (· ++ [10]) := by
      rw [List.map_map]
      exact List.map_congr_left fun k _ => kNodeText_eq printf k
    rw [printKNodes, hprinted.bytes, data_init, List.nil_append, htexts, joinLines]
  have hlines : curlXLines (printKNodes printf (nBufInit block Http.blRBodySize) ks).data =
      ks.map (kNodeLine printf) := by
    rw [hbody]
    apply curlXLines_joinLines
    rw [List.forall_mem_map]
    exact fun k hk => mem_kNodeLine hprintf (hnames k hk).1 (hnames k hk).2
  have hroom : 0 + ks.length ≤ q.limit := by
    rw [Nat.zero_add]
    exact length_topQueryCb hlimit hks
  let start : TopK D := { t with topKLength := 0 }
  have hread : (ks.map (kNodeLine printf)).foldlM (topMsgCb strtod q.limit) start = _ :=
    foldlM_kNodeLine hprintf hnames hroom
  obtain ⟨hlength, hrecords⟩ := TopK.foldl_push (ks.map (received strtod printf)) start
  refine ⟨(ks.map (received strtod printf)).foldl TopK.push start, ?_, ?_, fun i k hk => ?_⟩
  · rw [topTimerCb, hlines]
    exact hread
  · rw [hlength, List.length_map]
    exact Nat.zero_add _
  · have hrecord := hrecords i (received strtod printf k) (by rw [List.getElem?_map, hk]; rfl)
    rwa [show start.topKLength + i = i from Nat.zero_add i] at hrecord

end Query

/-- The sample with its two hosts. -/
def sampleReported : Daemon ℚ :=
  sampleDaemon.run sampleEnv sampleBusy

/-- What its top query prints. -/
def samplePrinted : List (KNode XNode ℚ) :=
  (sampleReported.topQueryCb sampleEnv sampleHostQuery 12).2.get (by decide +kernel)

/-- `top_k` as `calloc` returns it, with texts for numbers. -/
def sampleTopK : TopK CString where
  topK _ := ⟨fun _ => none, fun _ => some .host, [], fun _ => [], fun _ => [], fun _ => []⟩
  topKLength := 0

/-- `%f` of a number of the sample. -/
def samplePrintf : ℚ → CString := fun _ => lit "0.000000"

theorem isDecimal_samplePrintf (r : ℚ) : IsDecimal (samplePrintf r) := by
  change IsDecimal (lit "0.000000")
  exact ⟨[], [48], lit "000000", .inl rfl, by decide, by decide +kernel, by decide +kernel,
    by decide +kernel⟩

theorem top_round_trip_sample :
    samplePrinted.length = 2 ∧
      ∃ t', topTimerCb id sampleHostQuery.limit sampleTopK
          (printKNodes samplePrintf (nBufInit (fun _ => 0) Http.blRBodySize) samplePrinted).data =
            some t' ∧
        t'.topKLength = samplePrinted.length := by
  have hprinted : (sampleReported.topQueryCb sampleEnv sampleHostQuery 12).2 =
      some samplePrinted := (Option.some_get _).symm
  obtain ⟨t', hbody, hlength, -⟩ := top_round_trip (by decide) hprinted (by decide +kernel)
    isDecimal_samplePrintf (fun _ => 0) (by decide +kernel) id sampleTopK
  exact ⟨by decide +kernel, t', hbody, hlength⟩

end Xltop.Client
