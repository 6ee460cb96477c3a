import Xltop.Master.Attribution
import Xltop.Master.Conservation
import Xltop.Master.Installed
import Xltop.Master.ServPut

/-!
# The total of a host

A host and a server have a total, which every line of the server about a nid of
the host adds to.  For which host a nid stands does not change while the master
runs, so that the total can be read off the lines alone, whatever else has
happened between them.
-/

namespace Xltop.Master

open Xltop.Hash
open Xltop.Rate
open Xltop.Text

variable {R : Type*}

/-! ## Nids -/

/-- Servers have the same lnets, and nids stand for the same hosts. -/
structure SameNids (m m' : Daemon R) : Prop where
  servs : m'.sLnet = m.sLnet
  nidHost : ∀ l nid, m'.nidHost l nid = m.nidHost l nid

namespace SameNids

variable {m m' m'' : Daemon R}

theorem refl (m : Daemon R) : SameNids m m :=
  ⟨rfl, fun _ _ => rfl⟩

theorem trans (h : SameNids m m') (h' : SameNids m' m'') : SameNids m m'' :=
  ⟨h'.servs.trans h.servs, fun l nid => (h'.nidHost l nid).trans (h.nidHost l nid)⟩

end SameNids

section Homes

variable {m m' : Daemon R} {hint : UInt64} {calls : List (CString × CString)}

/-- Every host has a job, or would have one. -/
theorem Registered.exists_homeOf (h : Registered hint calls m) (name : CString) :
    ∃ j, m.homeOf name = some j := by
  cases hx : m.xLookup .host name with
  | some x =>
      obtain ⟨j, hj, -⟩ := (HostFound.refl h.ok hx).exists_home
      exact ⟨j, hj⟩
  | none =>
      obtain ⟨clus, c, j, -, -, hj, hc⟩ := h.homeCluster name
      refine ⟨j, ?_⟩
      rw [Daemon.homeOf, hx]
      change (m.clusLookupForHost name).bind m.cIdleJob = some j
      rw [hc]
      exact hj

/-- A nid stands for the host that the table of the lnet has for it, or else for
the host of its own name. -/
theorem Registered.nidHost_eq (h : Registered hint calls m) (l nid : CString) :
    m.nidHost l nid =
      (m.lnets l).map fun table => ((strTableRef table nid).map XNode.xName).getD nid := by
  cases hl : m.lnets l with
  | none =>
      rw [Daemon.nidHost, hl]
      rfl
  | some table =>
      obtain ⟨j, hj⟩ := h.exists_homeOf nid
      rw [Master.nidHost_eq hl, hj]
      simp only [Option.map_some]
      cases strTableRef table nid <;> rfl

theorem Registered.sameNids (h : Registered hint calls m) (h' : Registered hint calls m')
    (hservs : m'.sLnet = m.sLnet) (hlnets : m'.lnets = m.lnets) : SameNids m m' where
  servs := hservs
  nidHost l nid := by rw [h.nidHost_eq, h'.nidHost_eq, hlnets]

end Homes

/-! ## Events -/

theorem clusMsgCb_servs (env : Env R) (m : Daemon R) (c : XNode) (msg : CString) (now : R) :
    (m.clusMsgCb env c msg now).sLnet = m.sLnet := by
  rw [Daemon.clusMsgCb]
  split
  · next hostName jobName rest hwords =>
      have hjob : (Daemon.jobLookup env m jobName c (rest[0]?.getD (lit "NONE"))
          (rest[1]?.getD (lit "NONE")) (rest[2]?.getD (lit "0"))).2.sLnet = m.sLnet := by
        rw [Daemon.jobLookup]
        cases m.xLookup .job jobName <;> rfl
      generalize Daemon.jobLookup env m jobName c _ _ _ = looked at hjob ⊢
      obtain ⟨j, m₁⟩ := looked
      simp only
      split
      · exact hjob
      · split
        · exact hjob
        · split
          · rw [Daemon.jobEnd]
            split <;> exact hjob
          · exact hjob
  · rfl

variable [Field R] [LinearOrder R] [FloorRing R] {env : Env R} {m m' : Daemon R}
  {hint : UInt64} {calls : List (CString × CString)}

omit [Field R] [LinearOrder R] [FloorRing R] in
theorem lnetLookupNid_lnets (m : Daemon R) {l l' : CString} (hne : l' ≠ l) (nid : CString) :
    (m.lnetLookupNid l nid).2.lnets l' = m.lnets l' := by
  have hhost : (m.xHostLookup nid).2.lnets = m.lnets := by
    rw [Daemon.xHostLookup]
    cases m.xLookup .host nid with
    | some x => rfl
    | none =>
        simp only
        cases (m.clusLookupForHost nid).bind m.cIdleJob <;> rfl
  rw [Daemon.lnetLookupNid]
  cases m.lnets l with
  | none => rfl
  | some table =>
      simp only
      cases strTableRef table nid with
      | some x => rfl
      | none =>
          simp only
          generalize m.xHostLookup nid = looked at hhost ⊢
          obtain ⟨_ | x, m'⟩ := looked
          · exact (Function.update_of_ne hne _ _).trans (congrFun hhost l')
          · exact (Function.update_of_ne hne _ _).trans (congrFun hhost l')

/-- Looking up a nid leaves what nids stand for. -/
theorem sameNids_lnetLookupNid (env : Env R) (h : Registered hint calls m) (hlnets : LnetsOk m)
    (l nid : CString) :
    Registered hint calls (m.lnetLookupNid l nid).2 ∧ SameNids m (m.lnetLookupNid l nid).2 := by
  have hgrown := (h.ok.lnetLookupNid env l nid).1
  have h' : Registered hint calls (m.lnetLookupNid l nid).2 :=
    h.of_same hgrown.ok (.lnetLookupNid m l nid) fun _ _ => hgrown.live
  refine ⟨h', ?_, fun l' nid' => ?_⟩
  · have hfound := nidFound env h.ok l nid
    generalize (m.lnetLookupNid l nid).1 = found, (m.lnetLookupNid l nid).2 = m' at hfound
    cases hfound with
    | host _ hfound => exact hfound.servs
    | none _ _ hsame => rw [hsame]
  · by_cases hl : l' = l
    · rw [hl]
      exact nidHost_lnetLookupNid env h.ok hlnets l nid nid'
    · rw [h.nidHost_eq, h'.nidHost_eq, lnetLookupNid_lnets m hl]

theorem sameNids_servMsg (env : Env R) (h : Registered hint calls m) (hlnets : LnetsOk m)
    (s : XNode) (msg : CString) :
    Registered hint calls (Daemon.servMsg env m s msg).1 ∧
      SameNids m (Daemon.servMsg env m s msg).1 := by
  rw [Daemon.servMsg]
  split
  · next nid rest hwords =>
      have hfound := sameNids_lnetLookupNid env h hlnets (m.sLnet s) nid
      generalize m.lnetLookupNid (m.sLnet s) nid = looked at hfound ⊢
      obtain ⟨_ | x, m'⟩ := looked
      · exact hfound
      · exact hfound
  · exact ⟨h, .refl m⟩

theorem sameNids_step (h : Registered hint calls m) (hlnets : LnetsOk m) (event : Event R)
    (h' : Registered hint calls (m.step env event)) : SameNids m (m.step env event) := by
  cases event with
  | servMsg serv msg now =>
      have hreported := h.ok.reported_step env serv msg now
      generalize m.calls env _ = calls', m.step env _ = m' at hreported h' ⊢
      cases hreported with
      | ignored => exact .refl m
      | looked s hgrown => exact (sameNids_servMsg env h hlnets s msg).2
      | updated s hm hgrown hstep hupdate =>
          obtain ⟨hmsg, hsame⟩ := sameNids_servMsg env h hlnets s msg
          rw [← hm] at hmsg hsame
          exact hsame.trans (hmsg.sameNids h' rfl rfl)
  | clusMsg clus msg now =>
      rw [Daemon.step] at h' ⊢
      cases hc : m.xLookup .clus clus with
      | none => exact .refl m
      | some c =>
          rw [hc] at h'
          exact h.sameNids h' (clusMsgCb_servs env m c msg now) (clusMsgCb_lnets env m c msg now)
  | zombie job now =>
      refine h.sameNids h' ?_ ?_
      · rw [Daemon.step]
        split
        · rw [Daemon.jobZombieCb]
          simp only
          split_ifs <;> rfl
        · rfl
      · rw [Daemon.step]
        split
        · rw [Daemon.jobZombieCb]
          simp only
          split_ifs <;> rfl
        · rfl
  | top q now =>
      obtain ⟨σ, hm, -⟩ := step_top env m q now
      rw [hm] at h' ⊢
      exact h.sameNids h' rfl rfl
  | servGet serv now =>
      obtain ⟨σ, hm, -⟩ := step_servGet env m serv now
      rw [hm] at h' ⊢
      exact h.sameNids h' rfl rfl

/-! ## Totals -/

/-- What a line adds to the total of a host. -/
def lineAdds (env : Env R) (nidHost : CString → Option CString) (host msg : CString) : Stats R :=
  match statOf env msg with
  | some ⟨nid, some d⟩ => if nidHost nid = some host then d else 0
  | _ => 0

/-- What an event adds to the total of a host and a server, by their names. -/
def Event.adds (env : Env R) (nidHost : CString → Option CString) (host serv : CString) :
    Event R → Stats R
  | .servMsg name msg _ => if name = serv then lineAdds env nidHost host msg else 0
  | _ => 0

omit [LinearOrder R] [FloorRing R] in
theorem delivered_concat (calls more : List (Call R)) (x0 x1 : XNode) :
    delivered (calls ++ more) x0 x1 = delivered calls x0 x1 + delivered more x0 x1 := by
  rw [delivered, List.map_append, List.sum_append]
  rfl

omit [LinearOrder R] [FloorRing R] in
/-- A call delivers to the host and the server it names, and to no other host
and server. -/
theorem delivered_singleton {t : XTree} (h : t.TreeOk) {x0 x1 x s : XNode} (hx0 : x0.xType = .host)
    (hx1 : x1.xType = .serv) (hx : x.xType = .host) (hs : s.xType = .serv) (d : Stats R) :
    delivered [⟨t, x0, x1, d⟩] x s = if x0 = x ∧ x1 = s then d else 0 := by
  have hcovers : (⟨t, x0, x1, d⟩ : Call R).Covers x s ↔ x0 = x ∧ x1 = s := by
    constructor
    · rintro ⟨habove, habove'⟩
      exact ⟨h.above_unique .refl habove (by rw [hx0, hx]),
        h.above_unique .refl habove' (by rw [hx1, hs])⟩
    · rintro ⟨rfl, rfl⟩
      exact ⟨.refl, .refl⟩
  classical
  rw [delivered, List.map_singleton, List.sum_singleton]
  exact if_congr hcovers rfl rfl

/-- What a line of a server says about the host that its nid stands for, if
there is one. -/
inductive MsgRead (env : Env R) (m : Daemon R) (s : XNode) (msg : CString) :
    Option (XNode × Stats R) → Daemon R → Prop where
  | host {nid name : CString} {x : XNode} {d : Stats R} {m' : Daemon R}
      (hstat : statOf env msg = some ⟨nid, some d⟩)
      (hname : m.nidHost (m.sLnet s) nid = some name) (hx : m'.xLookup .host name = some x) :
      MsgRead env m s msg (some (x, d)) m'
  | nothing {m' : Daemon R}
      (hnone : ∀ nid d, statOf env msg = some ⟨nid, some d⟩ →
        m.nidHost (m.sLnet s) nid = none) : MsgRead env m s msg none m'

theorem msgRead (env : Env R) (h : DaemonOk m) (s : XNode) (msg : CString) :
    MsgRead env m s msg (Daemon.servMsg env m s msg).2 (Daemon.servMsg env m s msg).1 := by
  rw [Daemon.servMsg]
  split
  · next nid rest hwords =>
      have hstat : statOf env msg = some ⟨nid, env.sscanfStats rest⟩ := by
        rw [statOf, hwords]
      have hfound := nidFound env h (m.sLnet s) nid
      generalize m.lnetLookupNid (m.sLnet s) nid = looked at hfound ⊢
      obtain ⟨found, m'⟩ := looked
      cases hfound with
      | host hname hfound =>
          cases hd : env.sscanfStats rest with
          | none =>
              rw [hd] at hstat
              refine .nothing fun nid' d hstat' => ?_
              rw [hstat] at hstat'
              cases hstat'
          | some d =>
              rw [hd] at hstat
              exact .host hstat hname hfound.found
      | none hname _ _ =>
          refine .nothing fun nid' d hstat' => ?_
          have hnid : nid = nid' :=
            congrArg Stat.nid (Option.some.inj (hstat.symm.trans hstat'))
          rw [← hnid]
          exact hname
  · next hwords =>
      refine .nothing fun nid d hstat => ?_
      rw [statOf] at hstat
      split at hstat
      · next hwords' => exact absurd hwords' (hwords _ _)
      · cases hstat

/-- What the calls of an event deliver to a host and a server; the host may be
created by the event. -/
theorem delivered_calls (h : DaemonOk m) {x s : XNode}
    (hs : m.xLookup .serv s.xName = some s) (hhost : x.xType = .host) {event : Event R}
    (hx : ∀ y, (m.step env event).Live y → y.xType = .host → y.xName = x.xName → y = x) :
    delivered (m.calls env event) x s =
      event.adds env (m.nidHost (m.sLnet s)) x.xName s.xName := by
  cases event with
  | servMsg name msg now =>
      rw [Daemon.calls, Event.adds]
      cases hname : m.xLookup .serv name with
      | none =>
          have hne : name ≠ s.xName := fun heq => by
            rw [heq, hs] at hname
            cases hname
          exact (if_neg hne).symm
      | some sv =>
          have hsv := (h.state.tree.xLookup_eq_some.1 hname)
          have hstep : m.step env (.servMsg name msg now) = m.servMsgCb env sv msg now := by
            rw [Daemon.step, hname]
          have hread := msgRead env h sv msg
          have hgrown := (h.servMsg env sv msg).1
          rw [Daemon.servMsgCb] at hstep
          simp only
          generalize Daemon.servMsg env m sv msg = looked at hread hgrown hstep ⊢
          obtain ⟨m', found⟩ := looked
          cases hread with
          | nothing hnone =>
              change (0 : Stats R) = _
              split
              · next hserv =>
                  obtain rfl : sv = s := by
                    rw [hserv, hs] at hname
                    exact (Option.some.inj hname).symm
                  rw [lineAdds]
                  split
                  · next nid d hstat =>
                      rw [hnone nid d hstat]
                      exact (if_neg (Option.some_ne_none _).symm).symm
                  · rfl
              · rfl
          | @host nid host x' d _ hstat hhostName hx' =>
              obtain ⟨hlive', hhost', hname'⟩ := hgrown.ok.state.tree.xLookup_eq_some.1 hx'
              have hupdate := updated_of_step env.conf hgrown.ok.state hlive' hhost'
                (hgrown.live hsv.1) hsv.2.1 d now
              rw [delivered_singleton hgrown.ok.state.tree hhost' hsv.2.1 hhost
                (h.state.tree.xLookup_eq_some.1 hs).2.1]
              by_cases hserv : name = s.xName
              · obtain rfl : sv = s := by
                  rw [hserv, hs] at hname
                  exact (Option.some.inj hname).symm
                rw [if_pos hserv]
                simp only [lineAdds, hstat, and_true, hhostName]
                refine if_congr ⟨fun hx => ?_, fun hhost'' => ?_⟩ rfl rfl
                · rw [← hx, hname']
                · refine hx x' ?_ hhost' (hname'.trans (Option.some.inj hhost''))
                  rw [hstep]
                  exact hupdate.tree ▸ hlive'
              · rw [if_neg hserv]
                refine if_neg fun hboth => hserv ?_
                rw [← hboth.2, hsv.2.2]
  | clusMsg clus msg now => rfl
  | zombie job now => rfl
  | top q now => rfl
  | servGet serv now => rfl

theorem live_run (env : Env R) (h : DaemonOk m) (events : List (Event R)) {x : XNode}
    (hx : x.xType ≠ .job) (hlive : m.Live x) : (m.run env events).Live x := by
  induction events using List.reverseRecOn with
  | nil => exact hlive
  | append_singleton events event ih =>
      rw [Daemon.run_concat]
      exact live_step (run_steps h events).2 event hx ih

/-- What a run delivers to a host that is there at its end. -/
theorem delivered_run {m₀ : Daemon R} (hreg : Registered hint calls m) (hlnets : LnetsOk m)
    (hsame : SameNids m₀ m) {x s : XNode} (hs : m.xLookup .serv s.xName = some s)
    {events : List (Event R)} (hx : (m.run env events).Live x) (hhost : x.xType = .host) :
    delivered (m.history env events) x s =
      (events.map (Event.adds env (m₀.nidHost (m₀.sLnet s)) x.xName s.xName)).sum := by
  induction events generalizing m with
  | nil => rfl
  | cons event events ih =>
      have hok' := (hreg.ok.step env event).2
      have hreg' : Registered hint calls (m.step env event) :=
        hreg.of_same hok' (.step env hreg.ok event) fun c htype hlive =>
          live_step hreg.ok event (by rw [htype]; decide) hlive
      have hs' := (installed_step env hreg.ok event).xLookup hreg.ok hok'
        (by decide : ¬ XType.serv.Comes) s.xName
      have htree : ((m.step env event).run env events).TreeOk :=
        (run_steps hok' events).2.state.tree
      have hunique : ∀ y, (m.step env event).Live y → y.xType = .host → y.xName = x.xName →
          y = x := fun y hy hhost' hname => by
        have hlive : ((m.step env event).run env events).Live y :=
          live_run env hok' events (by rw [hhost']; decide) hy
        exact Option.some.inj ((htree.xLookup_eq_some.2 ⟨hlive, hhost', hname⟩).symm.trans
          (htree.xLookup_eq_some.2 ⟨hx, hhost, rfl⟩))
      have hnids : m.nidHost (m.sLnet s) = m₀.nidHost (m₀.sLnet s) := by
        rw [hsame.servs]
        exact funext (hsame.nidHost _)
      rw [Daemon.history, delivered_concat, delivered_calls hreg.ok hs hhost hunique, hnids,
        ih hreg' (hlnets.step env hreg.ok event)
          (hsame.trans (sameNids_step hreg hlnets event hreg')) (hs'.trans hs) hx,
        List.map_cons, List.sum_cons]

/-- The total of a host and a server is the sum of what the lines of the server
say about the nids of the host. -/
theorem kSumOr_run {cfg : Config R} {m₀ : Daemon R} (hboot : Daemon.boot env cfg = some m₀)
    (events : List (Event R)) {x s : XNode} (hx : (m₀.run env events).Live x)
    (hhost : x.xType = .host) (hs : m₀.xLookup .serv s.xName = some s) :
    kSumOr (m₀.run env events).toXState x s =
      (events.map (Event.adds env (m₀.nidHost (m₀.sLnet s)) x.xName s.xName)).sum := by
  have hreg := registered_boot hboot
  have hattributed := Attributed.run (stateOk_xStateInit cfg.hint)
    (kLookup_xStateInit cfg.hint) (reached_steps hboot events)
  obtain ⟨hlive, hserv, -⟩ := hreg.ok.state.tree.xLookup_eq_some.1 hs
  have hlive' : (m₀.run env events).Live s :=
    live_run env hreg.ok events (by rw [hserv]; decide) hlive
  rw [← delivered_run hreg (lnetsOk_of_boot hboot) (.refl m₀) hs hx hhost]
  cases hk : (m₀.run env events).kLookup x s with
  | none =>
      rw [kSumOr_of_none hk, delivered_eq_zero fun call hcall hcovers => ?_]
      obtain ⟨k, hk'⟩ := (hattributed.exists_iff hx (by rw [XNode.which, hhost]; rfl) hlive'
        (by rw [XNode.which, hserv]; rfl)).2 ⟨call, hcall, hcovers⟩
      rw [hk] at hk'
      cases hk'
  | some k =>
      rw [kSumOr, hk]
      exact hattributed.kSum_eq hk

end Xltop.Master
