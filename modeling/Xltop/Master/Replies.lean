import Xltop.Client.FsStatus
import Xltop.Master.Addresses
import Xltop.Master.Server

/-!
# Replies

What the bodies of replies say, at any point of a run of the server: the lines
that a callback prints, if they fit.
-/

namespace Xltop.Master

open Xltop.Buffer
open Xltop.Hash
open Xltop.Http (Act BotzListen Flat Request Response components placeData placeOps)
open Xltop.Status
open Xltop.Text

/-! ## Bodies -/

/-- Lines that fit are the body. -/
theorem prints_lines {q : Request} {r : Response} (hr : r.Unset q) {lines : List CString}
    (hfits : (joinLines lines).length < Http.blRBodySize) :
    (r.prints (lines.map fun line => line ++ [10])).rBody.data = joinLines lines := by
  obtain ⟨hstart, hend⟩ := hr.body
  have hcheck : r.rBody.Check := ⟨hstart ▸ Nat.zero_le _, hend ▸ Nat.zero_le _⟩
  have hempty : r.rBody.data = [] := by
    rw [NBuf.data, hstart, hend]
    rfl
  have hroom : r.rBody.nbEnd + (lines.map fun line => line ++ [10]).flatten.length <
      r.rBody.nbSize := by
    rw [hend, hr.size, Nat.zero_add]
    exact hfits
  rw [rBody_prints, (printedAll_foldl hcheck _ hroom).bytes, hempty]
  rfl

theorem prints_rStatus (r : Response) (texts : List CString) :
    (r.prints texts).rStatus = r.rStatus := by
  induction texts generalizing r with
  | nil => rfl
  | cons text texts ih => exact ih (r.print text)

/-- The status that is left to `br_write_header` does not touch the body. -/
theorem final_body {r : Response} (hr : r.rStatus = 0) : r.final.rBody = r.rBody := by
  obtain ⟨status, body, type, close⟩ := r
  cases hr
  rfl

/-- A response to which only lines that fit have been printed. -/
theorem final_prints_lines {q : Request} {r : Response} (hr : r.Unset q) {path : CString}
    (hpath : q.qPath = some path) {lines : List CString}
    (hfits : (joinLines lines).length < Http.blRBodySize) :
    (r.prints (lines.map fun line => line ++ [10])).final.rBody.data = joinLines lines := by
  have hstatus : r.rStatus = 0 := hr.status (hpath ▸ Option.some_ne_none path)
  rw [final_body, prints_lines hr hfits]
  rw [prints_rStatus]
  exact hstatus

section Replies

variable {R : Type*} [Field R] [LinearOrder R] [FloorRing R] {env : SiteEnv R}
  {block : ℕ → Option UInt64} {cfg : SiteConfig R} {now : R}
  {bl : BotzListen EntryOps EData} {s s₁ : Site R} {events : List (Http.Event (Own R))}
  {acts later : List (Act (Own R))} {i : ℕ} {e : Http.Exchange}

/-- The site at an exchange, and the response that it gives. -/
theorem Booted.exchange (h : Booted env block cfg now bl s) (hblock : ∀ n, block n ≠ none)
    (hsound : ∀ a ∈ serverHistory env block bl s events,
      a.Asks (Sound bl (siteCreated s.toDaemon)))
    (hacts : serverHistory env block bl s events = acts ++ .exchange i e :: later) :
    ∃ s₁ r, SiteOk s s₁ ∧ Traced env bl s acts s₁ ∧ r.Unset e.request ∧
      e.response = ((Http.routedApp (masterOps_ok env) bl (siteCreated s₁.toDaemon)).handle s₁
        e.request r).1.final := by
  have hhistory := h.history hblock hsound
  rw [hacts] at hhistory hsound
  obtain ⟨s₁, r, hbefore, hr, hresponse⟩ := hhistory.exchange_split
  obtain ⟨hok, htraced⟩ := traced_history h.ok (h.flat hblock) hbefore
    fun a ha => hsound a (List.mem_append_left _ ha)
  rw [← hok.created_eq h.ok] at hresponse
  exact ⟨s₁, r, hok, htraced, hr, hresponse⟩

section Handle

variable {q : Request} {path name : CString} {x : XNode} {type : XType}
  {dirOps entryOps : EntryOps} {r : Response}

/-- A request for an entry below the root. -/
theorem handle_root (env : SiteEnv R)
    (hflat : Flat (entryEnv block) bl (Http.rootsOf (entryEnv block) masterEntries))
    (hpath : q.qPath = some path) (hcomponents : components path = [name])
    (hname : IsComponent name) {ops : EntryOps} {data : Option EData}
    (hroot : Http.rootsOf (entryEnv block) masterEntries name = some (some ops, data)) {f}
    (hf : oMethod env ops q.qMethod = some f) :
    (Http.routedApp (masterOps_ok env) bl (siteCreated s.toDaemon)).handle s q r =
      ((f s data q r).2, (f s data q r).1) := by
  obtain ⟨v, hreach, hops, hdata⟩ :=
    reach_root (m := s.toDaemon) hflat hpath hcomponents hname hroot
  rw [reach, hpath] at hreach
  simp only [Http.App.handle, Http.routedApp, hpath, Http.route, Http.routeLoop_landing, hreach,
    hops, hdata, Option.bind_some]
  simp only [masterOps, hf]

/-- A request for a component of a node that answers it. -/
theorem handle_below (env : SiteEnv R)
    (hflat : Flat (entryEnv block) bl (Http.rootsOf (entryEnv block) masterEntries))
    (hpath : q.qPath = some path) (h : Directory type dirOps entryOps) {below : CString}
    (hcomponents : components path = [type.name, name, below]) (hname : IsComponent name)
    (hbelow : IsComponent below) (hx : s.toDaemon.xLookup type name = some x) {f}
    (hf : oLookup env entryOps = some f) {s' : Site R} {r' : Response}
    (hready : f s (some (.node x)) below none q r = (.responseReady, s', r')) :
    (Http.routedApp (masterOps_ok env) bl (siteCreated s.toDaemon)).handle s q r = (r', s') := by
  obtain ⟨e, hreach⟩ := reach_below hflat hpath h hcomponents hname hbelow hx
  rw [reach, hpath] at hreach
  have hchild := Http.placeChild_of_beyond hreach
  simp only [Http.App.handle, Http.routedApp, hpath, Http.route, Http.routeLoop_landing, hreach,
    Http.routeStep, hchild, placeOps, placeData, Option.bind_some]
  simp only [masterOps, hf, hready]

end Handle

/-! ## Domains -/

omit [Field R] [LinearOrder R] [FloorRing R] in
/-- `domains_get_cb` lists the table. -/
theorem domainsGetCb_eq {hint : UInt64} {calls : List (CString × CString)}
    (h : Registered hint calls s.toDaemon) (r : Response) :
    domainsGetCb s r = r.prints
      ((s.domainNames.map fun p => p.1 ++ lit " " ++ p.2).map fun line => line ++ [10]) := by
  have hkeyed : s.domainClusTable.Keyed StrTableEntry.eKey strHash := by
    rw [h.domains]
    exact keyed_strTableOf hint _
  have hnewline : lit "\n" = [10] := by decide
  rw [domainsGetCb, handOut_strTableForEach hkeyed (Nat.le_succ _), Daemon.domainNames,
    List.map_map, List.map_filterMap, hnewline]
  congr 2
  funext e
  rw [Option.map_map]
  rfl

/-- The reply to a request for the domains shows each domain of the
configuration once, with the cluster that it was registered for last, if all of
them fit. -/
theorem domains_body (hblock : ∀ n, block n ≠ none) (hboot : Booted env block cfg now bl s)
    (hsound : ∀ a ∈ serverHistory env block bl s events,
      a.Asks (Sound bl (siteCreated s.toDaemon)))
    (hacts : serverHistory env block bl s events = acts ++ .exchange i e :: later)
    (hget : e.request.qMethod = .get) {path : CString} (hpath : e.request.qPath = some path)
    (hcomponents : components path = [lit "_domains"]) :
    ∃ names : List (CString × CString), (names.map Prod.fst).Nodup ∧
      (∀ domain clus, (domain, clus) ∈ names ↔ lastSet cfg.domainCalls domain = some clus) ∧
      ((joinLines (names.map fun p => p.1 ++ lit " " ++ p.2)).length < Http.blRBodySize →
        e.response.rBody.data = joinLines (names.map fun p => p.1 ++ lit " " ++ p.2)) := by
  obtain ⟨s₁, r, hok, htraced, hr, hresponse⟩ := hboot.exchange hblock hsound hacts
  have hreg : Registered cfg.nrDomains cfg.domainCalls s₁.toDaemon := by
    rw [htraced.run]
    exact reached_domains (boot_site hboot.site).1 _
  refine ⟨s₁.domainNames, hreg.nodup_domainNames, hreg.mem_domainNames, fun hfits => ?_⟩
  have hmethod : oMethod env .domainsEntryOps e.request.qMethod =
      some fun s _ _ r => (s, domainsGetCb s r) := by
    rw [hget]
    rfl
  have hhandle := handle_root (s := s₁) (r := r) env (hboot.flat hblock) hpath hcomponents
    (by decide +kernel) (rootsOf_domains block) hmethod
  rw [hresponse, hhandle, domainsGetCb_eq hreg]
  exact final_prints_lines hr hpath hfits

end Replies

end Xltop.Master
