import Xltop.Http.Interleaving
import Xltop.Master.Served

/-!
# The server

The master as it runs: connections are accepted, become ready and time out,
requests are looked up in the table and answered, and the timers of jobs go off
in between.  The table of entries changes no response, and the daemon behind it
is in a state that a run of its events reaches.
-/

namespace Xltop.Master

open Xltop.Hash
open Xltop.Http (Act BotzListen Creates Flat History Listener Populated Remembers Request Response
  Server)
open Xltop.Status
open Xltop.Text

variable {R : Type*}

/-! ## Runs of the server -/

/-- The events of what happens to the application, from the time `now` on. -/
def actEvents (bl : BotzListen EntryOps EData) (created : Creates EntryOps EData) :
    R → List (Act (Own R)) → List (Event R)
  | _, [] => []
  | now, .exchange _ e :: acts =>
      requestEvents bl created now e.request ++ actEvents bl created now acts
  | _, .other (.clock now) :: acts => actEvents bl created now acts
  | now, .other (.zombie job) :: acts => .zombie job now :: actEvents bl created now acts

/-- The time after it. -/
def actClock : R → List (Act (Own R)) → R
  | now, [] => now
  | _, .other (.clock now) :: acts => actClock now acts
  | now, _ :: acts => actClock now acts

/-- The status of a server after it. -/
def actStatus (env : SiteEnv R) (bl : BotzListen EntryOps EData)
    (created : Creates EntryOps EData) (x : XNode) :
    ServStatus R → List (Act (Own R)) → ServStatus R
  | status, [] => status
  | status, .exchange _ e :: acts =>
      actStatus env bl created x
        (newStatus (requestStatus env bl created e.request) x status) acts
  | status, .other _ :: acts => actStatus env bl created x status acts

section Append

variable {env : SiteEnv R} {bl : BotzListen EntryOps EData} {created : Creates EntryOps EData}

theorem actClock_append (now : R) (acts more : List (Act (Own R))) :
    actClock now (acts ++ more) = actClock (actClock now acts) more := by
  fun_induction actClock now acts with
  | case1 now => rfl
  | case2 now' acts now ih => exact ih
  | case3 now a acts hclock ih =>
      rw [List.cons_append, actClock.eq_3 _ _ _ hclock]
      exact ih

theorem actEvents_append (now : R) (acts more : List (Act (Own R))) :
    actEvents bl created now (acts ++ more) =
      actEvents bl created now acts ++ actEvents bl created (actClock now acts) more := by
  induction acts generalizing now with
  | nil => rfl
  | cons a acts ih =>
      rcases a with ⟨i, e⟩ | now' | job
      · simp only [List.cons_append, actEvents, actClock, ih, List.append_assoc]
      · exact ih now'
      · simp only [List.cons_append, actEvents, actClock, ih]

theorem actStatus_append (x : XNode) (status : ServStatus R) (acts more : List (Act (Own R))) :
    actStatus env bl created x status (acts ++ more) =
      actStatus env bl created x (actStatus env bl created x status acts) more := by
  induction acts generalizing status with
  | nil => rfl
  | cons a acts ih => cases a <;> exact ih _

end Append

section Server

variable [Field R] [LinearOrder R] [FloorRing R]

/-- What `main` starts: the site, and the table of its entries. -/
structure Booted (env : SiteEnv R) (block : ℕ → Option UInt64) (cfg : SiteConfig R) (now : R)
    (bl : BotzListen EntryOps EData) (s : Site R) : Prop where
  site : Site.boot env.toEnv cfg now = some s
  entries : Http.bootEntries (entryEnv block) cfg.nrListenEntries masterEntries = some bl

def serverRun (env : SiteEnv R) (block : ℕ → Option UInt64) (bl : BotzListen EntryOps EData)
    (s : Site R) (events : List (Http.Event (Own R))) :
    Listener (Server EntryOps EData (Site R)) :=
  (Listener.start ⟨bl, s⟩).run (masterApp env block) (Server.act (Site.act env.toEnv)) events

def serverHistory (env : SiteEnv R) (block : ℕ → Option UInt64)
    (bl : BotzListen EntryOps EData) (s : Site R) (events : List (Http.Event (Own R))) :
    List (Act (Own R)) :=
  (Listener.start ⟨bl, s⟩).history (masterApp env block) (Server.act (Site.act env.toEnv))
    events

/-- A connection of the master that is closed without errors has handled all
requests of its stream. -/
theorem serverRun_handled (env : SiteEnv R) (block : ℕ → Option UInt64)
    (bl : BotzListen EntryOps EData) (s : Site R) {events : List (Http.Event (Own R))} {i : ℕ}
    (hclean : ∀ event ∈ events, event.CleanFor i)
    (hclosed : (serverRun env block bl s events).closed i = true) :
    ((serverRun env block bl s events).handled i).map Http.Exchange.request =
      Http.requestsOf ((serverRun env block bl s events).stream i) := by
  have hok := Http.listenerOk_start (masterApp env block) ⟨bl, s⟩
  have hended := Http.ended_run (Http.ended_start ⟨bl, s⟩ i) hok (Server.act (Site.act env.toEnv))
    (masterApp_keepsOpen env block) hclean
  exact Http.handled_of_closed (Http.listenerOk_run hok _ events) hended hclosed

/-! ## Between events -/

/-- The pointers of the daemon are in order, and what is installed is what was
installed at the start. -/
structure SiteOk (s₀ s : Site R) : Prop where
  ok : DaemonOk s.toDaemon
  installed : Installed s₀.toDaemon s.toDaemon

namespace SiteOk

variable {s₀ s : Site R}

omit [Field R] [LinearOrder R] [FloorRing R] in
theorem created_eq (h : SiteOk s₀ s) (hok : DaemonOk s₀.toDaemon) :
    siteCreated s.toDaemon = siteCreated s₀.toDaemon := by
  funext ops data name
  cases ops with
  | servDirOps | clusDirOps | fsDirOps =>
      simp only [siteCreated]
      rw [h.installed.xLookup hok h.ok (by decide) name]
  | _ => rfl

theorem run (env : SiteEnv R) (h : SiteOk s₀ s) {s' : Site R} {events : List (Event R)}
    (hrun : s'.toDaemon = s.toDaemon.run env.toEnv events) : SiteOk s₀ s' where
  ok := by
    rw [hrun]
    exact (run_steps h.ok events).2
  installed := by
    rw [hrun]
    exact h.installed.trans (installed_run env.toEnv h.ok events)

end SiteOk

/-- What has happened to a site since the start. -/
structure Traced (env : SiteEnv R) (bl : BotzListen EntryOps EData) (s₀ : Site R)
    (acts : List (Act (Own R))) (s : Site R) : Prop where
  run : s.toDaemon = s₀.toDaemon.run env.toEnv
    (actEvents bl (siteCreated s₀.toDaemon) s₀.now acts)
  now : s.now = actClock s₀.now acts
  status : ∀ x, (s.servs x).sStatus =
    actStatus env bl (siteCreated s₀.toDaemon) x (s₀.servs x).sStatus acts
  schedule : ∀ x, (s.servs x).sInterval = (s₀.servs x).sInterval ∧
    (s.servs x).sOffset = (s₀.servs x).sOffset

section Traces

variable {env : SiteEnv R} {block : ℕ → Option UInt64} {bl : BotzListen EntryOps EData}
  {s₀ s s' : Site R} {acts : List (Act (Own R))}

/-- Without the table, a request is its events. -/
theorem served_handle (env : SiteEnv R) (hok₀ : DaemonOk s₀.toDaemon) (h : SiteOk s₀ s)
    (hflat : Flat (entryEnv block) bl (Http.rootsOf (entryEnv block) masterEntries))
    {q : Request} (hsound : Sound bl (siteCreated s₀.toDaemon) q) (r : Response) :
    Served env (requestEvents bl (siteCreated s₀.toDaemon) s.now q)
      (requestStatus env bl (siteCreated s₀.toDaemon) q) s
      ((Http.routedApp (masterOps_ok env) bl (siteCreated s₀.toDaemon)).handle s q r).2 := by
  rw [← h.created_eq hok₀] at hsound ⊢
  cases hpath : q.qPath with
  | none =>
      simp only [Http.App.handle, requestEvents, requestStatus, reach, hpath]
      exact .refl env s
  | some path =>
      simp only [Http.App.handle, Http.routedApp, hpath]
      exact served_route h.ok hflat hsound hpath r

/-- A timer that goes off. -/
theorem events_zombie (s : Site R) (job : XNode) :
    (s.act env.toEnv (.zombie job)).toDaemon = s.toDaemon.run env.toEnv [.zombie job s.now] := rfl

theorem Traced.exchange (h : Traced env bl s₀ acts s) {i : ℕ} {e : Http.Exchange}
    (hserved : Served env (requestEvents bl (siteCreated s₀.toDaemon) s.now e.request)
      (requestStatus env bl (siteCreated s₀.toDaemon) e.request) s s') :
    Traced env bl s₀ (acts ++ [.exchange i e]) s' where
  run := by
    rw [actEvents_append, Daemon.run, List.foldl_append, ← h.now, hserved.run, h.run]
    simp only [actEvents, List.append_nil, Daemon.run]
  now := by
    rw [actClock_append, ← h.now, hserved.now]
    rfl
  status x := by
    rw [actStatus_append, ← h.status x, hserved.status x]
    rfl
  schedule x := ⟨(hserved.schedule x).1.trans (h.schedule x).1,
    (hserved.schedule x).2.trans (h.schedule x).2⟩

theorem Traced.other (h : Traced env bl s₀ acts s) (e : Own R) :
    Traced env bl s₀ (acts ++ [.other e]) (s.act env.toEnv e) where
  run := by
    rw [actEvents_append, Daemon.run, List.foldl_append, ← h.now]
    cases e with
    | clock now => exact h.run
    | zombie job => exact congrArg (fun m : Daemon R => m.step env.toEnv (.zombie job s.now)) h.run
  now := by
    rw [actClock_append, ← h.now]
    cases e <;> rfl
  status x := by
    rw [actStatus_append, ← h.status x]
    cases e <;> rfl
  schedule x := by
    cases e <;> exact h.schedule x

/-- What happens to the site is what its events do. -/
theorem traced_history (hok₀ : DaemonOk s₀.toDaemon)
    (hflat : Flat (entryEnv block) bl (Http.rootsOf (entryEnv block) masterEntries))
    (h : History (Http.routedApp (masterOps_ok env) bl (siteCreated s₀.toDaemon))
      (Site.act env.toEnv) s₀ acts s)
    (hsound : ∀ a ∈ acts, a.Asks (Sound bl (siteCreated s₀.toDaemon))) :
    SiteOk s₀ s ∧ Traced env bl s₀ acts s := by
  induction h with
  | start =>
      exact ⟨⟨hok₀, .refl _⟩, rfl, rfl, fun _ => rfl, fun _ => ⟨rfl, rfl⟩⟩
  | @exchange s acts h i n q r hunset ih =>
      rw [List.forall_mem_append, List.forall_mem_singleton] at hsound
      obtain ⟨hok, htraced⟩ := ih hsound.1
      have hserved := served_handle env hok₀ hok hflat hsound.2 r
      exact ⟨hok.run env hserved.run, htraced.exchange hserved⟩
  | @other s acts h e ih =>
      rw [List.forall_mem_append] at hsound
      obtain ⟨hok, htraced⟩ := ih hsound.1
      refine ⟨?_, htraced.other e⟩
      cases e with
      | clock now => exact ⟨hok.ok, hok.installed⟩
      | zombie job => exact hok.run env (events_zombie s job)

end Traces

/-! ## From the start -/

namespace Booted

variable {env : SiteEnv R} {block : ℕ → Option UInt64} {cfg : SiteConfig R} {now : R}
  {bl : BotzListen EntryOps EData} {s : Site R}

theorem ok (h : Booted env block cfg now bl s) : DaemonOk s.toDaemon :=
  (boot_grown (boot_site h.site).1).ok

omit [FloorRing R] in
theorem flat (h : Booted env block cfg now bl s) (hblock : ∀ n, block n ≠ none) :
    Flat (entryEnv block) bl (Http.rootsOf (entryEnv block) masterEntries) := by
  obtain ⟨bl', hbl', hflat⟩ := Http.flat_bootEntries
    (show ∀ n, (entryEnv block).block n ≠ none from hblock) cfg.nrListenEntries
    isName_masterEntries
  cases h.entries.symm.trans hbl'
  exact hflat

omit [FloorRing R] in
theorem populated (h : Booted env block cfg now bl s) (hblock : ∀ n, block n ≠ none) :
    Populated (entryEnv block) bl :=
  (h.flat hblock).populated fun name data hname => by
    obtain ⟨ops, hops, -⟩ := entryOk_roots s.toDaemon hname
    cases hops

/-- What has happened in a run, as a history of the site without the table. -/
theorem history (h : Booted env block cfg now bl s) (hblock : ∀ n, block n ≠ none)
    {events : List (Http.Event (Own R))}
    (hsound : ∀ a ∈ serverHistory env block bl s events,
      a.Asks (Sound bl (siteCreated s.toDaemon))) :
    History (Http.routedApp (masterOps_ok env) bl (siteCreated s.toDaemon)) (Site.act env.toEnv) s
      (serverHistory env block bl s events) (serverRun env block bl s events).app.state := by
  have hstart : Http.Serial (masterApp env block) (Server.act (Site.act env.toEnv)) ⟨bl, s⟩ [] []
      (Listener.start ⟨bl, s⟩) := ⟨.start _, rfl, fun _ => rfl⟩
  have hserial := (Http.serial_run (Http.listenerOk_start (masterApp env block) ⟨bl, s⟩) _
    hstart events).history
  rw [List.nil_append] at hserial
  have hstartOk : SiteOk s s := ⟨h.ok, .refl _⟩
  refine (Http.history_routed (P := Sound bl (siteCreated s.toDaemon)) (h.populated hblock) hblock
    (fun s' hs' => ?_) (fun s' q r hq hs' hr => ?_) (fun s' e hs' => ?_) hstartOk hsound hserial).1
  · rw [← hs'.created_eq h.ok]
    exact creating_masterOps env s'
  · exact hs'.run env (served_handle env h.ok hs' (h.flat hblock) hq r).run
  · cases e with
    | clock now => exact ⟨hs'.ok, hs'.installed⟩
    | zombie job => exact hs'.run env (events_zombie s' job)

end Booted

end Server

/-! ## A small server -/

section Sample

instance (q : Request) : Decidable (topQueryParse q.qQuery = .fault) :=
  match topQueryParse q.qQuery with
  | .fault => isTrue rfl
  | .error => isFalse fun hfault => nomatch hfault
  | .ok _ => isFalse fun hfault => nomatch hfault

instance (bl : BotzListen EntryOps EData) (created : Creates EntryOps EData) :
    DecidablePred (Sound bl created) := fun q =>
  inferInstanceAs (Decidable (q.qMethod = .get → reachOps bl created q = some .topEntryOps →
    ¬ topQueryParse q.qQuery = .fault))

instance {E : Type} (P : Request → Prop) [DecidablePred P] (a : Act E) : Decidable (a.Asks P) :=
  match a with
  | .exchange _ e => inferInstanceAs (Decidable (P e.request))
  | .other _ => inferInstanceAs (Decidable True)

/-- The sample reads and prints whole numbers only. -/
def sampleSiteEnv : SiteEnv ℚ where
  toEnv := { sampleEnv with strtod := fun s => digitsValue (s.takeWhile isDigit) }
  printf x := decimal ⌊x⌋.toNat ++ lit ".000000"
  printf0 x := decimal ⌊x⌋.toNat
  printf2 x := decimal ⌊x⌋.toNat ++ lit ".00"
  overrun _ s r := (s, r)
  overrun_prints _ _ r := .refl r

def sampleSiteConfig : SiteConfig ℚ where
  toConfig := sampleConfig
  clusInterval _ := 300

def sampleSite : Site ℚ :=
  (Site.boot sampleSiteEnv.toEnv sampleSiteConfig 1).get (by decide +kernel)

def sampleBlock (n : ℕ) : Option UInt64 :=
  some (UInt64.ofNat n)

theorem sampleBlock_ne_none (n : ℕ) : sampleBlock n ≠ none :=
  Option.some_ne_none _

def sampleListen : BotzListen EntryOps EData :=
  (Http.bootEntries (entryEnv sampleBlock) sampleSiteConfig.nrListenEntries masterEntries).get
    (by decide +kernel)

theorem booted_sample :
    Booted sampleSiteEnv sampleBlock sampleSiteConfig 1 sampleListen sampleSite where
  site := (Option.some_get _).symm
  entries := (Option.some_get _).symm

/-- The server of the sample reports its traffic twice.  In between, its status
is asked for, with a query that nothing parses. -/
def sampleReport : List (Http.Event (Own ℚ)) :=
  .accept (fun _ _ => 0)
      (lit "PUT /serv/oss1 HTTP/1.1\r\nContent-Length: 19\r\n\r\n10.0.0.1@tcp 1 2 3\n" ++
        lit "GET /serv/oss1/_status?a= HTTP/1.1\r\n\r\n" ++
        lit "PUT /serv/oss1 HTTP/1.1\r\nContent-Length: 19\r\n\r\n10.0.0.1@tcp 0 1 4\n") ::
    .other (.clock 2) :: (Http.sampleTurns 9 400).map (Http.Event.io 0)

def sampleReportHistory : List (Act (Own ℚ)) :=
  serverHistory sampleSiteEnv sampleBlock sampleListen sampleSite sampleReport

/-- The requests of the report. -/
def sampleReportAsked : List (ℕ × Request) :=
  [(0, ⟨some (lit "/serv/oss1"), none, lit "10.0.0.1@tcp 1 2 3\n", .put⟩),
    (0, ⟨some (lit "/serv/oss1/_status"), some (lit "a="), [], .get⟩),
    (0, ⟨some (lit "/serv/oss1"), none, lit "10.0.0.1@tcp 0 1 4\n", .put⟩)]

theorem sampleReportHistory_sound :
    ∀ a ∈ sampleReportHistory, a.Asks (Sound sampleListen (siteCreated sampleSite.toDaemon)) := by
  decide +kernel

end Sample

section Server

variable [Field R] [LinearOrder R] [FloorRing R]

/-- Which entries a look-up has left in the table changes no response: every run
of the server is a run without the table, in which each request is answered by
its path and by the site alone. -/
theorem entries_are_transparent {env : SiteEnv R} {block : ℕ → Option UInt64}
    (hblock : ∀ n, block n ≠ none) {cfg : SiteConfig R} {now : R}
    {bl : BotzListen EntryOps EData} {s : Site R} (hboot : Booted env block cfg now bl s)
    {events : List (Http.Event (Own R))}
    (hsound : ∀ a ∈ serverHistory env block bl s events,
      a.Asks (Sound bl (siteCreated s.toDaemon))) :
    History (Http.routedApp (masterOps_ok env) bl (siteCreated s.toDaemon)) (Site.act env.toEnv) s
      (serverHistory env block bl s events) (serverRun env block bl s events).app.state :=
  hboot.history hblock hsound

/-- The entry that the first request creates is found again by the others. -/
theorem entries_are_transparent_sample :
    sampleReportHistory.filterMap Act.asked = sampleReportAsked ∧
      (serverRun sampleSiteEnv sampleBlock sampleListen sampleSite
          sampleReport).app.listen.mallocs = sampleListen.mallocs + 1 ∧
      History (Http.routedApp (masterOps_ok sampleSiteEnv) sampleListen
          (siteCreated sampleSite.toDaemon)) (Site.act sampleSiteEnv.toEnv) sampleSite
        sampleReportHistory
        (serverRun sampleSiteEnv sampleBlock sampleListen sampleSite sampleReport).app.state :=
  ⟨by decide +kernel, by decide +kernel,
    entries_are_transparent sampleBlock_ne_none booted_sample sampleReportHistory_sound⟩

/-- The daemon behind the server is in the state that the events of the requests
and of the timers reach, one after the other, from its start.  The time is the
last one that the clock has shown, and the status of each server is the last one
that a request has set. -/
theorem server_refines_daemon {env : SiteEnv R} {block : ℕ → Option UInt64}
    (hblock : ∀ n, block n ≠ none) {cfg : SiteConfig R} {now : R}
    {bl : BotzListen EntryOps EData} {s : Site R} (hboot : Booted env block cfg now bl s)
    {events : List (Http.Event (Own R))}
    (hsound : ∀ a ∈ serverHistory env block bl s events,
      a.Asks (Sound bl (siteCreated s.toDaemon))) :
    Daemon.boot env.toEnv cfg.toConfig = some s.toDaemon ∧
      (serverRun env block bl s events).app.state.toDaemon = s.toDaemon.run env.toEnv
        (actEvents bl (siteCreated s.toDaemon) now (serverHistory env block bl s events)) ∧
      (serverRun env block bl s events).app.state.now =
        actClock now (serverHistory env block bl s events) ∧
      ∀ x, ((serverRun env block bl s events).app.state.servs x).sStatus =
        actStatus env bl (siteCreated s.toDaemon) x (noStatus R)
          (serverHistory env block bl s events) := by
  obtain ⟨hdaemon, hnone⟩ := boot_site hboot.site
  have htraced := (traced_history hboot.ok (hboot.flat hblock) (hboot.history hblock hsound)
    hsound).2
  have hstatus (x : XNode) := htraced.status x
  simp only [hnone.status] at hstatus
  rw [← hnone.now]
  exact ⟨hdaemon, htraced.run, htraced.now, hstatus⟩

theorem server_refines_daemon_sample :
    Daemon.boot sampleSiteEnv.toEnv sampleConfig = some sampleSite.toDaemon ∧
      (serverRun sampleSiteEnv sampleBlock sampleListen sampleSite
          sampleReport).app.state.toDaemon =
        sampleSite.toDaemon.run sampleSiteEnv.toEnv
          (actEvents sampleListen (siteCreated sampleSite.toDaemon) 1 sampleReportHistory) ∧
      (serverRun sampleSiteEnv sampleBlock sampleListen sampleSite sampleReport).app.state.now =
        actClock 1 sampleReportHistory ∧
      ∀ x, ((serverRun sampleSiteEnv sampleBlock sampleListen sampleSite
          sampleReport).app.state.servs x).sStatus =
        actStatus sampleSiteEnv sampleListen (siteCreated sampleSite.toDaemon) x (noStatus ℚ)
          sampleReportHistory :=
  server_refines_daemon sampleBlock_ne_none booted_sample sampleReportHistory_sound

end Server

end Xltop.Master
