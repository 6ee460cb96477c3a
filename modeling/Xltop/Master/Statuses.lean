import Xltop.Master.Replies

/-!
# From servers to clients

Each server reports its status to the master.  A client asks the master for the
status of a filesystem and adds up what its servers have reported last.
-/

namespace Xltop.Master

open Xltop.Buffer
open Xltop.Client (fsStatusLine fsTotals xlFsCb curlXLines)
open Xltop.Hash
open Xltop.Http (Act BotzListen Flat Request Response components placeData placeOps)
open Xltop.Status
open Xltop.Text

/-! ## Reports -/

section Reports

variable {R : Type*} {env : SiteEnv R} {block : ℕ → Option UInt64}
  {bl : BotzListen EntryOps EData} {m : Daemon R} {c : XNode} {acts : List (Act (Own R))}

/-- `send_serv_status`: the status `v` of the server `name`. -/
structure Reports (env : SiteEnv R) (name : CString) (v : ServStatus R) (q : Request) : Prop where
  method : q.qMethod = .put
  path : ∃ path, q.qPath = some path ∧ components path = [XType.serv.name, name, lit "_status"]
  body : q.qBody = v.pri env.printf0 env.printf2 ++ [10]

/-- A request that sets the status of a server. -/
def Sets (env : SiteEnv R) (bl : BotzListen EntryOps EData) (m : Daemon R) (c : XNode) :
    Act (Own R) → Prop
  | .exchange _ e => ∃ v, requestStatus env bl (siteCreated m) e.request = some (c, v)
  | .other _ => False

/-- The status that the master has of a server: the one that it has reported
last, with the digits that it has sent. -/
inductive LastStatus [Zero R] (env : SiteEnv R) (bl : BotzListen EntryOps EData) (m : Daemon R)
    (c : XNode) (acts : List (Act (Own R))) : ServStatus R → Prop
  | never (hnone : ∀ a ∈ acts, ¬ Sets env bl m c a) : LastStatus env bl m c acts (noStatus R)
  | reported {before after : List (Act (Own R))} {i : ℕ} {e : Http.Exchange} {v : ServStatus R}
      (hacts : acts = before ++ .exchange i e :: after) (hreports : Reports env c.xName v e.request)
      (hlast : ∀ a ∈ after, ¬ Sets env bl m c a) :
      LastStatus env bl m c acts (v.received env.strtod env.printf0 env.printf2)

theorem actStatus_kept {status : ServStatus R} (hacts : ∀ a ∈ acts, ¬ Sets env bl m c a) :
    actStatus env bl (siteCreated m) c status acts = status := by
  induction acts generalizing status with
  | nil => rfl
  | cons a acts ih =>
      rw [List.forall_mem_cons] at hacts
      cases a with
      | other e => exact ih hacts.2
      | exchange i e =>
          rw [actStatus, ih hacts.2]
          cases hstatus : requestStatus env bl (siteCreated m) e.request with
          | none => rfl
          | some p =>
              obtain ⟨y, v⟩ := p
              refine if_neg ?_
              rintro rfl
              exact hacts.1 ⟨v, hstatus⟩

/-- The line that a server sends is read whole. -/
theorem bodyStatus_line (hprintf : Printf env.printf0 env.printf2) (v : ServStatus R) :
    bodyStatus env (v.pri env.printf0 env.printf2 ++ [10]) =
      some (v.received env.strtod env.printf0 env.printf2) := by
  obtain ⟨hline, hnul⟩ := v.pri_oneLine hprintf
  have htake : (v.pri env.printf0 env.printf2 ++ [10]).takeWhile (· != 10) =
      v.pri env.printf0 env.printf2 := by
    rw [List.takeWhile_append_of_pos fun c hc => bne_iff_ne.2 (by rintro rfl; exact hline hc)]
    simp
  have hscan := scnServStatus_pri env.strtod hprintf v ends_nil
  rw [List.append_nil] at hscan
  rw [bodyStatus, nBufGetMsg, data_textBuf, if_pos (by simp), htake, Option.bind_some]
  simp only [cstr_of_nul hnul, hscan]

/-- The report of a server is what the master takes its status from. -/
theorem requestStatus_reports
    (hflat : Flat (entryEnv block) bl (Http.rootsOf (entryEnv block) masterEntries))
    (hprintf : Printf env.printf0 env.printf2) (hname : IsComponent c.xName)
    (hc : m.xLookup .serv c.xName = some c) {v : ServStatus R} {q : Request}
    (h : Reports env c.xName v q) :
    requestStatus env bl (siteCreated m) q =
      some (c, v.received env.strtod env.printf0 env.printf2) := by
  obtain ⟨path, hpath, hcomponents⟩ := h.path
  obtain ⟨e, hreach⟩ := reach_below hflat hpath .serv hcomponents hname
    (by decide +kernel : IsComponent (lit "_status")) hc
  rw [requestStatus, hreach]
  simp only [placeOps, placeData, entryStatus, h.method, h.body, bodyStatus_line hprintf,
    and_self, if_true, Option.map_some]

theorem LastStatus.actStatus_eq [Zero R]
    (hflat : Flat (entryEnv block) bl (Http.rootsOf (entryEnv block) masterEntries))
    (hprintf : Printf env.printf0 env.printf2) (hname : IsComponent c.xName)
    (hc : m.xLookup .serv c.xName = some c) {status : ServStatus R}
    (h : LastStatus env bl m c acts status) :
    actStatus env bl (siteCreated m) c (noStatus R) acts = status := by
  cases h with
  | never hnone => exact actStatus_kept hnone
  | reported hacts hreports hlast =>
      rw [hacts, actStatus_append, actStatus,
        requestStatus_reports hflat hprintf hname hc hreports, actStatus_kept hlast]
      exact if_pos rfl

end Reports

/-! ## Replies -/

section Replies

variable {R : Type*} {env : SiteEnv R}

/-- The lines of `fs_status_get_cb`. -/
def fsLines (env : SiteEnv R) (s : Site R) (status : XNode → ServStatus R) (x : XNode) :
    List CString :=
  (s.children x).map fun c => fsStatusLine env.printf0 env.printf2 c.xName (status c)

theorem fsStatusGetCb_eq {s : Site R} (hok : DaemonOk s.toDaemon) {x : XNode} (hfs : x.xType = .fs)
    (r : Response) :
    fsStatusGetCb env s x r =
      r.prints ((fsLines env s (fun c => (s.servs c).sStatus) x).map fun line => line ++ [10]) := by
  have hservs : (s.children x).filter (fun c => c.xType = .serv) = s.children x :=
    List.filter_eq_self.2 fun c hc => decide_eq_true (hok.servOfFs hfs hc).2
  have hblank : lit " " = [32] := by decide
  have hnewline : lit "\n" = [10] := by decide
  rw [fsStatusGetCb, hservs, fsLines, List.map_map]
  congr 1
  apply List.map_congr_left
  intro c _
  simp only [Function.comp_apply, fsStatusLine, hblank, hnewline, List.append_assoc,
    List.cons_append, List.nil_append]

theorem fsLines_oneLine (hprintf : Printf env.printf0 env.printf2) {s : Site R} {x : XNode}
    (hnames : ∀ c ∈ s.children x, IsToken c.xName) (status : XNode → ServStatus R) :
    ∀ line ∈ fsLines env s status x, 10 ∉ line ∧ 0 ∉ line := by
  intro line hline
  obtain ⟨c, hc, rfl⟩ := List.mem_map.1 hline
  obtain ⟨hnewline, hnul⟩ := (status c).pri_oneLine hprintf
  have hname := hnames c hc
  constructor
  · intro hmem
    rcases List.mem_append.1 hmem with hmem | hmem
    · exact absurd (hname.space 10 hmem) (by decide)
    · exact hnewline ((List.mem_cons.1 hmem).resolve_left (by decide))
  · intro hmem
    rcases List.mem_append.1 hmem with hmem | hmem
    · exact hname.nul hmem
    · exact hnul ((List.mem_cons.1 hmem).resolve_left (by decide))

variable [Field R] [LinearOrder R] [FloorRing R] {block : ℕ → Option UInt64}
  {cfg : SiteConfig R} {now : R} {bl : BotzListen EntryOps EData} {s : Site R}
  {events : List (Http.Event (Own R))} {acts later : List (Act (Own R))} {i : ℕ}
  {e : Http.Exchange}

/-- The body of a reply about a filesystem. -/
theorem fs_body (hblock : ∀ n, block n ≠ none) (hboot : Booted env block cfg now bl s)
    (hsound : ∀ a ∈ serverHistory env block bl s events,
      a.Asks (Sound bl (siteCreated s.toDaemon)))
    (hacts : serverHistory env block bl s events = acts ++ .exchange i e :: later)
    {f path : CString} {x : XNode} (hf : s.xLookup .fs f = some x) (hname : IsComponent f)
    (hget : e.request.qMethod = .get) (hpath : e.request.qPath = some path)
    (hcomponents : components path = [XType.fs.name, f, lit "_status"])
    {status : XNode → ServStatus R}
    (hstatus : ∀ c ∈ s.children x, actStatus env bl (siteCreated s.toDaemon) c (noStatus R) acts =
      status c)
    (hfits : (joinLines (fsLines env s status x)).length < Http.blRBodySize) :
    e.response.rBody.data = joinLines (fsLines env s status x) := by
  obtain ⟨s₁, r, hok, htraced, hr, hresponse⟩ := hboot.exchange hblock hsound hacts
  have hf₁ : s₁.toDaemon.xLookup .fs f = some x :=
    (hok.installed.xLookup hboot.ok hok.ok (by decide) f).trans hf
  have hfs := (hok.ok.state.tree.xLookup_eq_some.1 hf₁).2.1
  have hchildren : s₁.children x = s.children x :=
    hok.installed.children (by rw [XNode.which, hfs]; rfl)
  have hready : fsEntryLookupCb env s₁ (some (.node x)) (lit "_status") none e.request r =
      (.responseReady, fsStatusGetCb env s₁ x r) := by
    rw [fsEntryLookupCb, if_pos ⟨rfl, rfl⟩, Response.ifGet, if_pos hget]
  have hbelow : IsComponent (lit "_status") := by decide +kernel
  have hhandle := handle_below env (hboot.flat hblock) hpath .fs hcomponents hname hbelow hf₁ rfl
    (congrArg (fun a => (a.1, s₁, a.2)) hready)
  have hlines : fsLines env s₁ (fun c => (s₁.servs c).sStatus) x = fsLines env s status x := by
    rw [fsLines, fsLines, hchildren]
    apply List.map_congr_left
    intro c hc
    rw [htraced.status c, (boot_site hboot.site).2.status c, hstatus c hc]
  rw [hresponse, hhandle, fsStatusGetCb_eq hok.ok hfs, hlines]
  exact final_prints_lines hr hpath hfits

end Replies

/-! ## A status of the small server -/

section Sample

/-- The status that the server of the sample sends. -/
def sampleStatus : ServStatus ℚ :=
  ⟨1700000000, 100, fun _ => 2, 4096, 1024, 0, 0, 0, 0, 3, 0, 2, 7⟩

def sampleStatusLine : CString :=
  sampleStatus.pri sampleSiteEnv.printf0 sampleSiteEnv.printf2

/-- A server sends its status, and then a client asks for that of the
filesystem, with a query that nothing parses. -/
def sampleStatusEvents : List (Http.Event (Own ℚ)) :=
  .accept (fun _ _ => 0)
      (lit "PUT /serv/oss1/_status HTTP/1.1\r\nContent-Length: " ++
        decimal (sampleStatusLine.length + 1) ++ lit "\r\n\r\n" ++ sampleStatusLine ++
        lit "\nGET /fs/scratch/_status?a= HTTP/1.1\r\n\r\n") ::
    (Http.sampleTurns 6 400).map (Http.Event.io 0)

def sampleStatusHistory : List (Act (Own ℚ)) :=
  serverHistory sampleSiteEnv sampleBlock sampleListen sampleSite sampleStatusEvents

def sampleStatusPut : Request :=
  ⟨some (lit "/serv/oss1/_status"), none, sampleStatusLine ++ [10], .put⟩

def sampleStatusGet : Request :=
  ⟨some (lit "/fs/scratch/_status"), some (lit "a="), [], .get⟩

theorem sampleStatusHistory_requests :
    sampleStatusHistory.map Act.asked =
      [some (0, sampleStatusPut), some (0, sampleStatusGet)] := by
  decide +kernel

theorem sampleStatusHistory_sound :
    ∀ a ∈ sampleStatusHistory, a.Asks (Sound sampleListen (siteCreated sampleSite.toDaemon)) := by
  decide +kernel

theorem printf_sample : Printf sampleSiteEnv.printf0 sampleSiteEnv.printf2 where
  whole x := ⟨[], decimal ⌊x⌋.toNat, .inl rfl, decimal_ne_nil _, isDigit_decimal _, rfl⟩
  hundredths x := ⟨[], decimal ⌊x⌋.toNat, lit "00", .inl rfl, decimal_ne_nil _,
    isDigit_decimal _, by decide +kernel, by simp [sampleSiteEnv]; decide +kernel⟩

/-- The filesystem of the sample. -/
def sampleFs : XNode := ⟨4, .fs, strHash (lit "scratch"), lit "scratch"⟩

theorem sampleServ_name : IsToken sampleServ.xName ∧ IsComponent sampleServ.xName :=
  ⟨⟨⟨by decide +kernel, by decide +kernel⟩, by decide +kernel⟩, by decide +kernel⟩

end Sample

section Replies

variable {R : Type*} [Field R] [LinearOrder R] [FloorRing R] {env : SiteEnv R}
  {block : ℕ → Option UInt64} {cfg : SiteConfig R} {now : R}
  {bl : BotzListen EntryOps EData} {s : Site R} {events : List (Http.Event (Own R))}
  {acts later : List (Act (Own R))} {i : ℕ} {e : Http.Exchange}

/-- Whatever else goes on, a client that asks for the status of a filesystem
shows the totals of what its servers have reported last, with the digits that
have been printed. -/
theorem statuses_reach_clients {D : Type*} [LinearOrder D] [Zero D] (strtod : CString → D)
    (hprintf : Printf env.printf0 env.printf2) (hblock : ∀ n, block n ≠ none)
    (hboot : Booted env block cfg now bl s)
    (hsound : ∀ a ∈ serverHistory env block bl s events,
      a.Asks (Sound bl (siteCreated s.toDaemon)))
    (hacts : serverHistory env block bl s events = acts ++ .exchange i e :: later)
    {f path : CString} {x : XNode} (hf : s.xLookup .fs f = some x) (hname : IsComponent f)
    (hget : e.request.qMethod = .get) (hpath : e.request.qPath = some path)
    (hcomponents : components path = [XType.fs.name, f, lit "_status"])
    (hnames : ∀ c ∈ s.children x, IsToken c.xName ∧ IsComponent c.xName)
    {status : XNode → ServStatus R}
    (hstatus : ∀ c ∈ s.children x, LastStatus env bl s.toDaemon c acts (status c))
    (hfits : (joinLines (fsLines env s status x)).length < Http.blRBodySize) :
    xlFsCb strtod (some (curlXLines e.response.rBody.data)) =
      fsTotals ((s.children x).map fun c =>
        (status c).received strtod env.printf0 env.printf2) := by
  have htree := hboot.ok.state.tree
  have hfs := (htree.xLookup_eq_some.1 hf).2.1
  have hbody := fs_body hblock hboot hsound hacts hf hname hget hpath hcomponents
    (fun c hc => by
      have hserv := hboot.ok.servOfFs hfs hc
      exact (hstatus c hc).actStatus_eq (hboot.flat hblock) hprintf (hnames c hc).2
        (htree.xLookup_eq_some.2 ⟨hserv.1, hserv.2, rfl⟩)) hfits
  have hlines := Client.curlXLines_joinLines
    (fsLines_oneLine hprintf (fun c hc => (hnames c hc).1) status)
  have htotals := Client.xlFsCb_lines strtod hprintf
    ((s.children x).map fun c => (c.xName, status c)) fun serv hserv => by
      obtain ⟨c, hc, rfl⟩ := List.mem_map.1 hserv
      exact (hnames c hc).1.toIsWord
  rw [List.map_map, List.map_map] at htotals
  rw [hbody, hlines]
  exact htotals

theorem statuses_reach_clients_sample : ∃ e : Http.Exchange,
    e.request = sampleStatusGet ∧
      xlFsCb sampleSiteEnv.strtod (some (curlXLines e.response.rBody.data)) =
        fsTotals ((sampleSite.children sampleFs).map fun _ =>
          (sampleStatus.received sampleSiteEnv.strtod sampleSiteEnv.printf0
            sampleSiteEnv.printf2).received sampleSiteEnv.strtod sampleSiteEnv.printf0
            sampleSiteEnv.printf2) := by
  have hasked := sampleStatusHistory_requests
  simp only [List.map_eq_cons_iff, List.map_eq_nil_iff] at hasked
  obtain ⟨a, _, hhistory, ha, b, _, rfl, hb, rfl⟩ := hasked
  obtain ⟨reported, rfl, hput⟩ := Act.eq_exchange_of_asked ha
  obtain ⟨asked, rfl, hget⟩ := Act.eq_exchange_of_asked hb
  have hacts : sampleStatusHistory = [.exchange 0 reported] ++ .exchange 0 asked :: [] := hhistory
  have hreports : Reports sampleSiteEnv sampleServ.xName sampleStatus reported.request := by
    rw [hput]
    exact ⟨rfl, ⟨_, rfl, by decide +kernel⟩, rfl⟩
  have hchildren : sampleSite.children sampleFs = [sampleServ] := by decide +kernel
  refine ⟨asked, hget, statuses_reach_clients sampleSiteEnv.strtod printf_sample
    sampleBlock_ne_none booted_sample sampleStatusHistory_sound hacts
    (by decide +kernel : sampleSite.xLookup .fs (lit "scratch") = some sampleFs) (by decide +kernel)
    (by rw [hget]; rfl) (by rw [hget]; rfl) (by decide +kernel) ?_ ?_ (by decide +kernel)⟩
  · rw [hchildren, List.forall_mem_singleton]
    exact sampleServ_name
  · rw [hchildren, List.forall_mem_singleton]
    exact .reported (List.nil_append [_]).symm hreports (List.forall_mem_nil _)

end Replies

end Xltop.Master
