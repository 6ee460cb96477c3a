import Xltop.Master.HostTotals
import Xltop.Master.Statuses
import Xltop.Servd.Report

/-!
# From the counters to the totals

Every server of a filesystem reads the counters of its exports in rounds and
puts what each round has added up.  The master keeps the totals.  What it has for
a host and a filesystem is what the counters of the nids of the host have grown
on all targets of all servers.
-/

namespace Xltop.Master

open Xltop.Buffer
open Xltop.Hash
open Xltop.Http (Act BotzListen Creates Request placeData placeOps)
open Xltop.Rate
open Xltop.Servd (Round grown numbersText report scanStats servdInit statsLine)
open Xltop.Text

variable {R : Type*}

/-! ## Requests with statistics -/

/-- The body of a request that puts the statistics of a server. -/
def statsPut (bl : BotzListen EntryOps EData) (created : Creates EntryOps EData)
    (serv : CString) (q : Request) : Option (List Byte) :=
  match reach bl created q with
  | .place v =>
      match placeOps bl v, placeData bl v with
      | some .servEntryOps, some (.node y) =>
          if q.qMethod = .put ∧ y.xName = serv then some q.qBody else none
      | _, _ => none
  | _ => none

/-- The bodies that have been put for a server, in order. -/
def statsPuts (bl : BotzListen EntryOps EData) (created : Creates EntryOps EData)
    (serv : CString) (acts : List (Act (Own R))) : List (List Byte) :=
  acts.filterMap fun a => a.asked.bind fun asked => statsPut bl created serv asked.2

variable [Field R] {env : Env R} {bl : BotzListen EntryOps EData}
  {created : Creates EntryOps EData} {nidHost : CString → Option CString} {host serv : CString}

/-- What a body adds to the total of a host. -/
def bodyAdds (env : Env R) (nidHost : CString → Option CString) (host : CString)
    (body : List Byte) : Stats R :=
  ((bodyLines body).map fun line => lineAdds env nidHost host (cstr line)).sum

theorem adds_entryEvents (now : R) (q : Request) (y : XNode) :
    ((entryEvents now q .servEntryOps (some (.node y))).map
        (Event.adds env nidHost host serv)).sum =
      if q.qMethod = .put ∧ y.xName = serv then bodyAdds env nidHost host q.qBody else 0 := by
  rw [entryEvents]
  split
  · next hget =>
      rw [List.map_singleton, List.sum_singleton, if_neg (by rw [hget]; simp)]
      rfl
  · next hput =>
      rw [List.map_map, bodyAdds]
      by_cases hserv : y.xName = serv
      · rw [if_pos ⟨hput, hserv⟩]
        refine congrArg List.sum (List.map_congr_left fun line _ => ?_)
        exact if_pos hserv
      · rw [if_neg fun hboth => hserv hboth.2]
        refine List.sum_eq_zero fun d hd => ?_
        obtain ⟨line, -, rfl⟩ := List.mem_map.1 hd
        exact if_neg hserv
  · next hput =>
      rw [if_neg fun hboth => hput hboth.1]
      rfl

theorem adds_entryEvents_other (now : R) (q : Request) {ops : EntryOps}
    (hops : ops ≠ .servEntryOps) (data : Option EData) :
    ((entryEvents now q ops data).map (Event.adds env nidHost host serv)).sum = 0 := by
  refine List.sum_eq_zero fun d hd => ?_
  obtain ⟨event, hevent, rfl⟩ := List.mem_map.1 hd
  rw [entryEvents.eq_def] at hevent
  split at hevent
  · exact absurd rfl hops
  · split at hevent
    · obtain ⟨line, -, rfl⟩ := List.mem_map.1 hevent
      rfl
    · exact absurd hevent List.not_mem_nil
  · split at hevent
    · rw [List.mem_singleton.1 hevent]
      rfl
    · exact absurd hevent List.not_mem_nil
  · exact absurd hevent List.not_mem_nil

/-- What the events of a request add. -/
theorem adds_requestEvents (now : R) (q : Request) :
    ((requestEvents bl created now q).map (Event.adds env nidHost host serv)).sum =
      ((statsPut bl created serv q).map (bodyAdds env nidHost host)).getD 0 := by
  rw [requestEvents, statsPut]
  cases reach bl created q with
  | place v =>
      simp only
      cases hops : placeOps bl v with
      | none => rfl
      | some ops =>
          simp only
          by_cases hserv : ops = .servEntryOps
          · subst hserv
            cases placeData bl v with
            | none => rfl
            | some data =>
                cases data with
                | type type => rfl
                | node y =>
                    rw [adds_entryEvents]
                    simp only
                    split <;> rfl
          · rw [adds_entryEvents_other now q hserv]
            cases ops with
            | servEntryOps => exact absurd rfl hserv
            | _ => rfl
  | _ => rfl

theorem adds_actEvents (now : R) (acts : List (Act (Own R))) :
    ((actEvents bl created now acts).map (Event.adds env nidHost host serv)).sum =
      ((statsPuts bl created serv acts).map (bodyAdds env nidHost host)).sum := by
  fun_induction actEvents bl created now acts with
  | case1 now => rfl
  | case2 now i e acts ih =>
      have hasked : (Act.exchange i e : Act (Own R)).asked.bind
          (fun asked => statsPut bl created serv asked.2) =
            statsPut bl created serv e.request := rfl
      rw [List.map_append, List.sum_append, ih, adds_requestEvents, statsPuts, statsPuts,
        List.filterMap_cons, hasked]
      cases statsPut bl created serv e.request with
      | none => exact zero_add _
      | some body => rw [List.map_cons, List.sum_cons]; rfl
  | case3 _ now acts ih => exact ih
  | case4 now job acts ih =>
      rw [List.map_cons, List.sum_cons, ih]
      exact zero_add _

/-! ## Reports -/

/-- The three numbers of a round, for the master. -/
def castStats : Stats ℤ →+ Stats R :=
  (Int.castAddHom R).compLeft (Fin nrStats)

/-- What a report adds to the total of a host. -/
theorem bodyAdds_report (hscan : env.sscanfStats = scanStats env.strtod)
    (hstrtod : ∀ n : ℤ, env.strtod (decimalInt n) = n) {lines : List (CString × Stats ℤ)}
    (hlines : ∀ line ∈ lines, IsToken line.1) :
    bodyAdds env nidHost host (report lines) =
      castStats ((lines.filter fun line => nidHost line.1 = some host).map Prod.snd).sum := by
  rw [bodyAdds, Servd.bodyLines_report hlines, List.map_map]
  induction lines with
  | nil => exact (map_zero castStats).symm
  | cons line lines ih =>
      rw [List.forall_mem_cons] at hlines
      have hstat : statOf env (cstr (statsLine line)) =
          some ⟨line.1, some (castStats line.2)⟩ := by
        rw [cstr_of_nul (Servd.statsLine_oneLine hlines.1).2, statOf,
          Servd.wsep_statsLine hlines.1.toIsWord]
        simp only [hscan, Servd.scanStats_numbersText hstrtod]
        rfl
      rw [List.map_cons, List.sum_cons, ih hlines.2, Function.comp_apply, lineAdds, hstat]
      by_cases hhost : nidHost line.1 = some host
      · rw [List.filter_cons, if_pos (decide_eq_true hhost), List.map_cons, List.sum_cons,
          map_add]
        exact congrArg (· + _) (if_pos hhost)
      · rw [List.filter_cons, if_neg (by rwa [decide_eq_true_eq])]
        exact (congrArg (· + _) (if_neg hhost)).trans (zero_add _)

/-! ## A small installation -/

section Sample

/-- The sample reads whole numbers, with a sign or without. -/
def sampleStrtod (s : CString) : ℚ :=
  if s.head? = some 45 then -digitsValue s.tail else digitsValue s

theorem sampleStrtod_decimalInt (n : ℤ) : sampleStrtod (decimalInt n) = n := by
  have hvalue : digitsValue (decimal n.natAbs) = n.natAbs := by
    rw [Status.digitsValue_eq (isDigit_decimal _), valueIn_decimal]
  have hhead : (decimal n.natAbs).head? ≠ some 45 := fun hminus => by
    have hdigit := isDigit_decimal n.natAbs 45 (List.mem_of_mem_head? hminus)
    exact absurd hdigit (by decide)
  rw [sampleStrtod, decimalInt]
  by_cases hneg : n < 0
  · rw [if_pos hneg, List.head?_cons, if_pos rfl, List.tail_cons, hvalue]
    have habs : (n.natAbs : ℤ) = -n := Int.ofNat_natAbs_of_nonpos hneg.le
    rw [← Int.cast_natCast, habs, Int.cast_neg, neg_neg]
  · rw [if_neg hneg, if_neg hhead, hvalue]
    have habs : (n.natAbs : ℤ) = n := Int.natAbs_of_nonneg (not_lt.1 hneg)
    rw [← Int.cast_natCast, habs]

def sampleTrafficEnv : SiteEnv ℚ :=
  { sampleSiteEnv with sscanfStats := scanStats sampleStrtod, strtod := sampleStrtod }

/-- Two servers for the filesystem. -/
def sampleTrafficConfig : SiteConfig ℚ :=
  { sampleSiteConfig with
    fs := [⟨lit "scratch", some (lit "lnet0"), [lit "oss1", lit "oss2"], 300⟩] }

def sampleTrafficSite : Site ℚ :=
  (Site.boot sampleTrafficEnv.toEnv sampleTrafficConfig 1).get (by decide +kernel)

def sampleTrafficListen : BotzListen EntryOps EData :=
  (Http.bootEntries (entryEnv sampleBlock) sampleTrafficConfig.nrListenEntries
    masterEntries).get (by decide +kernel)

theorem booted_sampleTraffic :
    Booted sampleTrafficEnv sampleBlock sampleTrafficConfig 1 sampleTrafficListen
      sampleTrafficSite where
  site := (Option.some_get _).symm
  entries := (Option.some_get _).symm

def sampleOtherServ : XNode := ⟨6, .serv, strHash (lit "oss2"), lit "oss2"⟩

/-- An export that both servers read twice. -/
def sampleTrafficRounds (c : XNode) : List (Round ℕ) :=
  if c = sampleServ then [Servd.sampleRound 1 (lit "100"), Servd.sampleRound 2 (lit "150")]
  else [Servd.sampleRound 1 (lit "7"), Servd.sampleRound 2 (lit "9")]

def sampleTrafficHint (c : XNode) : UInt64 :=
  if c = sampleServ then 16 else 64

/-- Each server puts what its two rounds have printed, on a connection of its own. -/
def sampleTrafficEvents : List (Http.Event (Own ℚ)) :=
  .accept (fun _ _ => 0)
      (lit "PUT /serv/oss1 HTTP/1.1\r\nContent-Length: 0\r\n\r\n" ++
        lit "PUT /serv/oss1 HTTP/1.1\r\nContent-Length: 10\r\n\r\nn1 0 50 0\n") ::
    .accept (fun _ _ => 0)
      (lit "PUT /serv/oss2 HTTP/1.1\r\nContent-Length: 0\r\n\r\n" ++
        lit "PUT /serv/oss2 HTTP/1.1\r\nContent-Length: 9\r\n\r\nn1 0 2 0\n") ::
    (Http.sampleTurns 4 400).flatMap fun t => [.io 0 t, .io 1 t]

def sampleTrafficHistory : List (Act (Own ℚ)) :=
  serverHistory sampleTrafficEnv sampleBlock sampleTrafficListen sampleTrafficSite
    sampleTrafficEvents

theorem sampleTrafficHistory_sound : ∀ a ∈ sampleTrafficHistory,
    a.Asks (Sound sampleTrafficListen (siteCreated sampleTrafficSite.toDaemon)) := by
  decide +kernel

theorem sampleTrafficHistory_puts : ∀ c ∈ [sampleServ, sampleOtherServ],
    statsPuts sampleTrafficListen (siteCreated sampleTrafficSite.toDaemon) c.xName
        sampleTrafficHistory =
      (Servd.run (servdInit ℕ (sampleTrafficHint c)) (sampleTrafficRounds c)).map
        fun st => report st.lines := by
  decide +kernel

theorem sampleTraffic_host :
    ((serverRun sampleTrafficEnv sampleBlock sampleTrafficListen sampleTrafficSite
      sampleTrafficEvents).app.state.xLookup .host (lit "n1")).isSome = true := by
  decide +kernel

end Sample

/-! ## Runs of the server -/

section Runs

variable {T : Type*} [Zero T] [LinearOrder T]

/-- All that is put for a server is what a collector has printed in some rounds,
and the names of its exports are words. -/
structure Reporting (bl : BotzListen EntryOps EData) (created : Creates EntryOps EData)
    (serv : CString) (acts : List (Act (Own R))) (hint : UInt64) (rounds : List (Round T)) :
    Prop where
  pos : ∀ r ∈ rounds, 0 < r.now
  mono : (rounds.map Round.now).Pairwise (· < ·)
  nids : ∀ nid ∈ Servd.exportNames rounds, IsToken nid
  puts : statsPuts bl created serv acts =
    (Servd.run (servdInit T hint) rounds).map fun st => report st.lines

theorem Reporting.adds {acts : List (Act (Own R))} {hint : UInt64} {rounds : List (Round T)}
    (h : Reporting bl created serv acts hint rounds)
    (hscan : env.sscanfStats = scanStats env.strtod)
    (hstrtod : ∀ n : ℤ, env.strtod (decimalInt n) = n) :
    ((statsPuts bl created serv acts).map (bodyAdds env nidHost host)).sum =
      castStats (grown hint rounds fun nid => nidHost nid = some host) := by
  have hfresh : ∀ r ∈ rounds, (servdInit T hint).Fresh r.now := fun r _ nid ns hns => by
    cases hns
  have hnames := Servd.run_nids (Servd.collectorOk_init hint) rfl
    (fun r hr {l nid} => Servd.mem_exportNames hr) h.pos h.mono hfresh
  rw [h.puts, List.map_map, ← Servd.run_grown hint h.pos h.mono, map_list_sum, List.map_map]
  refine congrArg List.sum (List.map_congr_left fun st hst => ?_)
  exact bodyAdds_report hscan hstrtod fun line hline => h.nids _ (hnames st hst line hline)

variable [LinearOrder R] [FloorRing R]

/-- In every run of the server, what it has for a host and a filesystem is what
the counters of the nids of the host have grown, on all targets of all servers of
the filesystem. -/
theorem traffic_reaches_totals {env : SiteEnv R} {block : ℕ → Option UInt64}
    (hscan : env.sscanfStats = scanStats env.strtod)
    (hstrtod : ∀ n : ℤ, env.strtod (decimalInt n) = n) (hblock : ∀ n, block n ≠ none)
    {cfg : SiteConfig R} {now : R} {bl : BotzListen EntryOps EData} {s : Site R}
    (hboot : Booted env block cfg now bl s) {events : List (Http.Event (Own R))}
    (hsound : ∀ a ∈ serverHistory env block bl s events,
      a.Asks (Sound bl (siteCreated s.toDaemon)))
    {f : XNode} (hf : s.xLookup .fs f.xName = some f) (hint : XNode → UInt64)
    (rounds : XNode → List (Round T))
    (hreports : ∀ c ∈ s.children f, Reporting bl (siteCreated s.toDaemon) c.xName
      (serverHistory env block bl s events) (hint c) (rounds c))
    {x : XNode} (hx : (serverRun env block bl s events).app.state.Live x)
    (hhost : x.xType = .host) :
    kSumOr (serverRun env block bl s events).app.state.toXState x f =
      ((s.children f).map fun c => castStats (grown (hint c) (rounds c) fun nid =>
        s.nidHost (s.sLnet c) nid = some x.xName)).sum := by
  have hdaemon := (boot_site hboot.site).1
  have htraced := (traced_history hboot.ok (hboot.flat hblock) (hboot.history hblock hsound)
    hsound).2
  obtain ⟨daemonEvents, hevents⟩ : ∃ daemonEvents, daemonEvents = actEvents bl
      (siteCreated s.toDaemon) s.now (serverHistory env block bl s events) := ⟨_, rfl⟩
  have hrun := htraced.run
  rw [← hevents] at hrun
  obtain ⟨hlive, hfs, -⟩ := hboot.ok.state.tree.xLookup_eq_some.1 hf
  have hlive' := live_run env.toEnv hboot.ok daemonEvents (by rw [hfs]; decide) hlive
  have hconserved := Conserved.run (stateOk_xStateInit cfg.hint) (kLookup_xStateInit cfg.hint)
    (reached_steps hdaemon daemonEvents)
  have hchildren : (s.toDaemon.run env.toEnv daemonEvents).children f = s.children f :=
    (installed_run env.toEnv hboot.ok daemonEvents).children (by rw [XNode.which, hfs]; rfl)
  rw [hrun] at hx ⊢
  rw [hconserved.children x hlive' (.inl hfs), hchildren]
  refine congrArg List.sum (List.map_congr_left fun c hc => ?_)
  obtain ⟨hserv, htype⟩ := hboot.ok.servOfFs hfs hc
  rw [kSumOr_run hdaemon _ hx hhost
      (hboot.ok.state.tree.xLookup_eq_some.2 ⟨hserv, htype, rfl⟩), hevents, adds_actEvents]
  exact (hreports c hc).adds hscan hstrtod

theorem reporting_sample {c : XNode} (hc : c ∈ [sampleServ, sampleOtherServ]) :
    Reporting sampleTrafficListen (siteCreated sampleTrafficSite.toDaemon) c.xName
      sampleTrafficHistory (sampleTrafficHint c) (sampleTrafficRounds c) where
  pos := by
    rw [sampleTrafficRounds]
    split <;> decide
  mono := by
    rw [sampleTrafficRounds]
    split <;> decide
  nids nid hnid := by
    have hnames : Servd.exportNames (sampleTrafficRounds c) = {lit "n1"} := by
      rw [sampleTrafficRounds]
      split <;> decide +kernel
    rw [hnames, Finset.mem_singleton] at hnid
    rw [hnid]
    exact ⟨⟨by decide +kernel, by decide +kernel⟩, by decide +kernel⟩
  puts := sampleTrafficHistory_puts c hc

/-- The host of the sample is created by the first line about it. -/
theorem traffic_reaches_totals_sample :
    ∃ x, x.xName = lit "n1" ∧
      kSumOr (serverRun sampleTrafficEnv sampleBlock sampleTrafficListen sampleTrafficSite
        sampleTrafficEvents).app.state.toXState x sampleFs =
      ((sampleTrafficSite.children sampleFs).map fun c =>
        castStats (grown (sampleTrafficHint c) (sampleTrafficRounds c) fun nid =>
          sampleTrafficSite.nidHost (sampleTrafficSite.sLnet c) nid = some x.xName)).sum := by
  obtain ⟨s, hs⟩ : ∃ s, s = (serverRun sampleTrafficEnv sampleBlock sampleTrafficListen
    sampleTrafficSite sampleTrafficEvents).app.state := ⟨_, rfl⟩
  obtain ⟨x, hx⟩ : ∃ x, s.xLookup .host (lit "n1") = some x := by
    rw [hs]
    exact Option.isSome_iff_exists.1 sampleTraffic_host
  have hok : DaemonOk s.toDaemon := hs ▸ (traced_history booted_sampleTraffic.ok
    (booted_sampleTraffic.flat sampleBlock_ne_none)
    (booted_sampleTraffic.history sampleBlock_ne_none sampleTrafficHistory_sound)
    sampleTrafficHistory_sound).1.ok
  obtain ⟨hlive, hhost, hname⟩ := hok.state.tree.xLookup_eq_some.1 hx
  rw [hs] at hlive
  have hchildren : sampleTrafficSite.children sampleFs = [sampleServ, sampleOtherServ] := by
    decide +kernel
  have hreports : ∀ c ∈ sampleTrafficSite.children sampleFs, Reporting sampleTrafficListen
      (siteCreated sampleTrafficSite.toDaemon) c.xName sampleTrafficHistory
      (sampleTrafficHint c) (sampleTrafficRounds c) := by
    rw [hchildren]
    exact fun c hc => reporting_sample hc
  have hscan : sampleTrafficEnv.sscanfStats = scanStats sampleTrafficEnv.strtod := rfl
  have hstrtod : ∀ n : ℤ, sampleTrafficEnv.strtod (decimalInt n) = n := sampleStrtod_decimalInt
  have hfs : sampleTrafficSite.xLookup .fs sampleFs.xName = some sampleFs := by decide +kernel
  have htotals := traffic_reaches_totals hscan hstrtod sampleBlock_ne_none booted_sampleTraffic
    sampleTrafficHistory_sound hfs sampleTrafficHint sampleTrafficRounds hreports hlive hhost
  exact ⟨x, hname, htotals⟩

end Runs

end Xltop.Master
