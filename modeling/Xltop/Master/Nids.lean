import Xltop.Master.Lines

/-!
# The host of a nid

A nid that no file of the lnet names stands for the host that has the nid as its
name, and `lnet_lookup_nid` creates this host when it is asked for the first
time.  Which host that is and which job it has do not depend on what was looked
up before.
-/

namespace Xltop.Master

open Function
open Xltop.Text
open Xltop.Hash
open Xltop.Rate

variable {R : Type*}

/-! ## The tables -/

theorem jobLookup_lnets (env : Env R) (m : Daemon R) (name : CString) (parent : XNode)
    (owner title start : CString) :
    (Daemon.jobLookup env m name parent owner title start).2.lnets = m.lnets := by
  rw [Daemon.jobLookup]
  cases m.xLookup .job name <;> rfl

theorem clusLookup_lnets (env : Env R) (m : Daemon R) (name : CString) :
    (Daemon.clusLookup env m name).2.lnets = m.lnets := by
  rw [Daemon.clusLookup]
  cases m.xLookup .clus name with
  | some c => rfl
  | none => exact jobLookup_lnets env _ _ _ _ _ _

theorem jobEnd_lnets (m : Daemon R) (j : XNode) (now : R) :
    (m.jobEnd j now).lnets = m.lnets := by
  rw [Daemon.jobEnd]
  split <;> rfl

theorem clusMsgCb_lnets (env : Env R) (m : Daemon R) (c : XNode) (msg : CString) (now : R) :
    (m.clusMsgCb env c msg now).lnets = m.lnets := by
  rw [Daemon.clusMsgCb]
  split
  · next hostName jobName rest hwords =>
      have hjob := jobLookup_lnets env m jobName c (rest[0]?.getD (lit "NONE"))
        (rest[1]?.getD (lit "NONE")) (rest[2]?.getD (lit "0"))
      generalize Daemon.jobLookup env m jobName c _ _ _ = looked at hjob ⊢
      obtain ⟨j, m₁⟩ := looked
      simp only
      split
      · exact hjob
      · split
        · exact hjob
        · split
          · exact (jobEnd_lnets _ _ _).trans hjob
          · exact hjob
  · rfl

/-- The tables of the lnets are maps. -/
def LnetsOk (m : Daemon R) : Prop :=
  ∀ ⦃l table⦄, m.lnets l = some table → table.Keyed StrTableEntry.eKey strHash

namespace LnetsOk

variable {m m' : Daemon R}

theorem of_eq (h : LnetsOk m) (heq : m'.lnets = m.lnets) : LnetsOk m' := by
  rw [LnetsOk, heq]
  exact h

theorem setLnet (h : LnetsOk m) (l : CString) {table : Option (StrTable XNode)}
    (htable : ∀ ⦃t⦄, table = some t → t.Keyed StrTableEntry.eKey strHash) :
    LnetsOk { m with lnets := update m.lnets l table } := by
  intro l' t hl
  change update m.lnets l table l' = some t at hl
  rcases eq_or_ne l' l with rfl | hne
  · rw [update_self] at hl
    exact htable hl
  · rw [update_of_ne hne] at hl
    exact h hl

theorem xHostLookup (h : LnetsOk m) (name : CString) : LnetsOk (m.xHostLookup name).2 := by
  rw [Daemon.xHostLookup]
  cases m.xLookup .host name with
  | some x => exact h
  | none =>
      cases (m.clusLookupForHost name).bind m.cIdleJob with
      | none => exact h
      | some p => exact h.of_eq rfl

theorem lnetLookupNid (h : LnetsOk m) (l nid : CString) :
    LnetsOk (m.lnetLookupNid l nid).2 := by
  rw [Daemon.lnetLookupNid]
  cases hl : m.lnets l with
  | none => exact h
  | some table =>
      simp only
      cases strTableRef table nid with
      | some x => exact h
      | none =>
          have hhost := h.xHostLookup nid
          rcases hx : m.xHostLookup nid with ⟨_ | x, m'⟩ <;> rw [hx] at hhost
          · exact hhost.setLnet l fun t ht => Option.some.inj ht ▸ (h hl).erase nid
          · exact hhost.setLnet l fun t ht =>
              Option.some.inj ht ▸ keyed_strTableSet (h hl) nid x

theorem servMsg (env : Env R) (h : LnetsOk m) (s : XNode) (msg : CString) :
    LnetsOk (Daemon.servMsg env m s msg).1 := by
  rw [Daemon.servMsg]
  split
  · next nid rest hwords =>
      have hnid := h.lnetLookupNid (m.sLnet s) nid
      rcases hx : m.lnetLookupNid (m.sLnet s) nid with ⟨_ | x, m'⟩ <;> rw [hx] at hnid
      · exact hnid
      · exact hnid
  · exact h

theorem lnetReadLine (h : LnetsOk m) (l line : CString) :
    LnetsOk (Daemon.lnetReadLine l m line) := by
  rw [Daemon.lnetReadLine]
  split
  · next nid name hwords =>
      have hhost := h.xHostLookup name
      rcases hx : m.xHostLookup name with ⟨_ | x, m'⟩ <;> rw [hx] at hhost
      · exact hhost
      · refine hhost.setLnet l fun t ht => ?_
        obtain ⟨table, htable, rfl⟩ := Option.map_eq_some_iff.1 ht
        exact keyed_strTableSet (hhost htable) nid x
  · exact h

theorem lnetCfg (h : LnetsOk m) {hint : UInt64} {cfg : LnetCfg}
    (hm : Daemon.lnetCfg hint m cfg = some m') : LnetsOk m' :=
  lnetCfg_keeps (fun _ => h.setLnet cfg.name fun _ ht =>
    Option.some.inj ht ▸ HashTable.keyed_init hint)
    (fun _ _ hm₁ => hm₁.lnetReadLine cfg.name _) h hm

theorem clusCfg (env : Env R) (h : LnetsOk m) (cfg : ClusCfg) :
    LnetsOk (Daemon.clusCfg env m cfg) := by
  have hlookup : (Daemon.clusLookup env m cfg.name).2.lnets = m.lnets :=
    clusLookup_lnets env m cfg.name
  exact List.foldlRecOn cfg.domains _ (h.of_eq hlookup) fun _ hm _ _ => hm.of_eq rfl

theorem servCreate (h : LnetsOk m) (p : XNode) (l name : CString) :
    LnetsOk (Daemon.servCreate p l m name) := by
  rw [Daemon.servCreate]
  cases m.xLookup .serv name with
  | some s => exact h
  | none => exact h.of_eq rfl

theorem fsCfg [Zero R] [LinearOrder R] (h : LnetsOk m) {cfg : FsCfg R}
    (hm : Daemon.fsCfg m cfg = some m') : LnetsOk m' :=
  fsCfg_keeps (h.of_eq rfl) (fun l name hm₁ => hm₁.servCreate _ l name) hm

end LnetsOk

theorem lnetsOk_of_boot [Zero R] [LinearOrder R] {env : Env R} {cfg : Config R} {m : Daemon R}
    (hboot : Daemon.boot env cfg = some m) : LnetsOk m := by
  apply boot_keeps hboot
  · intro c m₀ hnone
    have hstart : LnetsOk (Daemon.start cfg) := fun l table hl => by cases hl
    have hlookup := clusLookup_lnets env (Daemon.start cfg) (lit "NONE")
    rw [hnone] at hlookup
    exact hstart.of_eq hlookup
  · exact fun clus hm => hm.clusCfg env clus
  · exact fun _ hm h => hm.lnetCfg h
  · exact fun hm h => hm.fsCfg h

theorem LnetsOk.step [Field R] [LinearOrder R] [FloorRing R] (env : Env R) {m : Daemon R}
    (h : LnetsOk m) (hok : DaemonOk m) (event : Event R) : LnetsOk (m.step env event) := by
  cases event with
  | servMsg serv msg now =>
      have hreported := hok.reported_step env serv msg now
      generalize m.calls env _ = calls, m.step env _ = m' at hreported ⊢
      cases hreported with
      | ignored => exact h
      | looked s hgrown => exact h.servMsg env s msg
      | updated s hm hgrown hstep hupdate =>
          have hmsg := h.servMsg env s msg
          rw [← hm] at hmsg
          exact hmsg.of_eq rfl
  | clusMsg clus msg now =>
      rw [Daemon.step]
      cases m.xLookup .clus clus with
      | none => exact h
      | some c => exact h.of_eq (clusMsgCb_lnets env m c msg now)
  | zombie job now =>
      rw [Daemon.step]
      split
      · rw [Daemon.jobZombieCb]
        simp only
        split_ifs <;> exact h.of_eq rfl
      · exact h
  | top q now =>
      obtain ⟨σ, hm, -⟩ := step_top env m q now
      rw [hm]
      exact h.of_eq rfl
  | servGet serv now =>
      obtain ⟨σ, hm, -⟩ := step_servGet env m serv now
      rw [hm]
      exact h.of_eq rfl

theorem reached_lnets [Field R] [LinearOrder R] [FloorRing R] {env : Env R} {cfg : Config R}
    {m₀ : Daemon R} (hboot : Daemon.boot env cfg = some m₀) (events : List (Event R)) :
    LnetsOk (m₀.run env events) := by
  induction events using List.reverseRecOn with
  | nil => exact lnetsOk_of_boot hboot
  | append_singleton events event ih =>
      rw [Daemon.run_concat]
      exact ih.step env (reached_ok hboot events) event

/-! ## The host -/

/-- The job of the host `name`, and for a host that is not there yet the idle job
that it would get. -/
def Daemon.homeOf (m : Daemon R) (name : CString) : Option XNode :=
  match m.xLookup .host name with
  | some x => m.parent x
  | none => (m.clusLookupForHost name).bind m.cIdleJob

/-- The name of the host that a nid stands for. -/
def Daemon.nidHost (m : Daemon R) (l nid : CString) : Option CString :=
  (m.lnets l).bind fun table =>
    match strTableRef table nid with
    | some x => some x.xName
    | none => (m.homeOf nid).map fun _ => nid

theorem nidHost_eq {m : Daemon R} {l : CString} {table : StrTable XNode}
    (hl : m.lnets l = some table) (nid : CString) : m.nidHost l nid =
      match strTableRef table nid with
      | some x => some x.xName
      | none => (m.homeOf nid).map fun _ => nid := by
  rw [Daemon.nidHost, hl, Option.bind_some]

/-- What a look-up of the host `name` with `L_CREATE` leaves. -/
structure HostFound (m : Daemon R) (name : CString) (x : XNode) (m' : Daemon R) :
    Prop where
  ok : DaemonOk m'
  found : m'.xLookup .host name = some x
  live : ∀ y, m'.Live y ↔ m.Live y ∨ y = x
  parent : ∀ y, m'.parent y = if y = x then m.homeOf name else m.parent y
  table : m'.kHashTable = m.kHashTable
  idle : m'.cIdleJob = m.cIdleJob
  clus0 : m'.clus0 = m.clus0
  domains : m'.domainClusTable = m.domainClusTable
  servs : m'.sLnet = m.sLnet

theorem clusLookupForHost_congr {m m' : Daemon R} (hclus : m'.clus0 = m.clus0)
    (hdomains : m'.domainClusTable = m.domainClusTable) (name : CString) :
    m'.clusLookupForHost name = m.clusLookupForHost name := by
  induction name with
  | nil => exact hclus
  | cons c name ih => rw [Daemon.clusLookupForHost, Daemon.clusLookupForHost, ih, hdomains]

theorem homeOf_congr {m m' : Daemon R} (htree : m'.toXTree = m.toXTree)
    (hidle : m'.cIdleJob = m.cIdleJob) (hclus : m'.clus0 = m.clus0)
    (hdomains : m'.domainClusTable = m.domainClusTable) (name : CString) :
    m'.homeOf name = m.homeOf name := by
  rw [Daemon.homeOf, Daemon.homeOf, htree, hidle, clusLookupForHost_congr hclus hdomains]

@[simp]
theorem homeOf_lnets (m : Daemon R) (lnets : CString → Option (StrTable XNode))
    (name : CString) : Daemon.homeOf { m with lnets := lnets } name = m.homeOf name :=
  @homeOf_congr _ m { m with lnets := lnets } rfl rfl rfl rfl name

namespace HostFound

variable {m m' : Daemon R} {name : CString} {x y z : XNode}

/-- The host is there already. -/
theorem refl (h : DaemonOk m) (hx : m.xLookup .host name = some x) : HostFound m name x m where
  ok := h
  found := hx
  live y := ⟨.inl, fun hy => hy.elim id fun heq =>
    heq ▸ (h.state.tree.xLookup_eq_some.1 hx).1⟩
  parent y := by
    split
    · next heq => rw [heq, Daemon.homeOf, hx]
    · rfl
  table := rfl
  idle := rfl
  clus0 := rfl
  domains := rfl
  servs := rfl

theorem xLookup (h : HostFound m name x m') (hok : DaemonOk m) (type : XType)
    (name' : CString) : m'.xLookup type name' =
      if type = .host ∧ name' = name then some x else m.xLookup type name' := by
  split
  · next heq => rw [heq.1, heq.2, h.found]
  · next hne =>
      obtain ⟨-, hxtype, hxname⟩ := h.ok.state.tree.xLookup_eq_some.1 h.found
      refine Option.ext fun y => ?_
      rw [h.ok.state.tree.xLookup_eq_some, hok.state.tree.xLookup_eq_some, h.live]
      refine and_congr_left fun hy => or_iff_left ?_
      rintro rfl
      exact hne ⟨hy.1.symm.trans hxtype, hy.2.symm.trans hxname⟩

/-- What was there keeps its parent. -/
theorem parent_live (h : HostFound m name x m') (hok : DaemonOk m) (hy : m.Live y) :
    m'.parent y = m.parent y := by
  rw [h.parent]
  split
  · next heq =>
      subst heq
      obtain ⟨-, hxtype, hxname⟩ := h.ok.state.tree.xLookup_eq_some.1 h.found
      rw [Daemon.homeOf, hok.state.tree.xLookup_eq_some.2 ⟨hy, hxtype, hxname⟩]
  · rfl

/-- The host has a job, which was there before. -/
theorem exists_home (h : HostFound m name x m') :
    ∃ p, m.homeOf name = some p ∧ m'.parent x = some p ∧ m.Live p := by
  obtain ⟨hlive, htype, -⟩ := h.ok.state.tree.xLookup_eq_some.1 h.found
  obtain ⟨p, hp, hptype⟩ := h.ok.state.tree.exists_parent hlive
    (by rw [htype]; rfl : x.xType.up = some .job)
  have hhome := hp
  rw [h.parent, if_pos rfl] at hhome
  exact ⟨p, hhome, hp, ((h.live p).1 (h.ok.state.tree.parent_live hp)).resolve_right
    (XNode.ne_of_types hptype htype (by decide))⟩

/-- Where every host is or would be stays the same. -/
theorem homeOf (h : HostFound m name x m') (hok : DaemonOk m) (name' : CString) :
    m'.homeOf name' = m.homeOf name' := by
  rw [Daemon.homeOf, h.xLookup hok]
  by_cases hname : name' = name
  · rw [if_pos ⟨rfl, hname⟩, hname]
    exact (h.parent x).trans (if_pos rfl)
  · rw [if_neg fun heq => hname heq.2, Daemon.homeOf, h.idle,
      clusLookupForHost_congr h.clus0 h.domains]
    cases hy : m.xLookup .host name' with
    | none => rfl
    | some y => exact h.parent_live hok (hok.state.tree.xLookup_eq_some.1 hy).1

theorem above (h : HostFound m name x m') (hok : DaemonOk m) (hy : m.Live y) :
    m'.Above y z ↔ m.Above y z := by
  constructor
  · intro habove
    induction habove using Relation.ReflTransGen.head_induction_on with
    | refl => exact .refl
    | head hp _ ih =>
        rw [h.parent_live hok hy] at hp
        exact .head hp (ih (hok.state.tree.parent_live hp))
  · intro habove
    induction habove using Relation.ReflTransGen.head_induction_on with
    | refl => exact .refl
    | head hp _ ih =>
        exact .head ((h.parent_live hok hy).trans hp) (ih (hok.state.tree.parent_live hp))

/-- Changes to the lnets may follow. -/
theorem then_lnets (h : HostFound m name x m') {lnets : CString → Option (StrTable XNode)}
    (hok : DaemonOk { m' with lnets := lnets }) :
    HostFound m name x { m' with lnets := lnets } :=
  ⟨hok, h.found, h.live, h.parent, h.table, h.idle, h.clus0, h.domains, h.servs⟩

end HostFound

variable [Field R] [LinearOrder R] [FloorRing R] {m m' : Daemon R} {x : XNode}

/-- A host is found or created unless it has nowhere to go. -/
theorem hostFound (env : Env R) (h : DaemonOk m) {name : CString}
    (hx : m.xHostLookup name = (some x, m')) : HostFound m name x m' := by
  have hok := (h.xHostLookup env name).1.ok
  have hgrown := (h.xHostLookup env name).1
  rw [hx] at hok hgrown
  rw [Daemon.xHostLookup] at hx
  cases hname : m.xLookup .host name with
  | some y =>
      rw [hname] at hx
      obtain ⟨hy, rfl⟩ := Prod.mk.inj hx
      obtain rfl := Option.some.inj hy
      exact .refl h hname
  | none =>
      rw [hname] at hx
      simp only at hx
      cases hp : (m.clusLookupForHost name).bind m.cIdleJob with
      | none =>
          rw [hp] at hx
          cases hx
      | some p =>
          rw [hp] at hx
          obtain ⟨hy, rfl⟩ := Prod.mk.inj hx
          obtain rfl := Option.some.inj hy
          have hlive : (m.xInit .host (some p) (strHash name) name).2.Live
              (m.next .host (strHash name) name) :=
            (m.live_xInit .host (strHash name) name (some p)).2 (.inl rfl)
          exact
            { ok := hok
              found := hok.state.tree.xLookup_eq_some.2 ⟨hlive, rfl, rfl⟩
              live := fun y =>
                (m.live_xInit .host (strHash name) name (some p)).trans or_comm
              parent := fun y => by
                rw [Daemon.homeOf, hname, hp]
                exact m.parent_xInit .host p (strHash name) name y
              table := hgrown.table
              idle := rfl
              clus0 := rfl
              domains := rfl
              servs := rfl }

omit [Field R] [LinearOrder R] [FloorRing R] in
theorem homeOf_eq_none {name : CString} (hx : m.xHostLookup name = (none, m')) :
    m' = m ∧ m.homeOf name = none := by
  rw [Daemon.xHostLookup] at hx
  rw [Daemon.homeOf]
  cases hname : m.xLookup .host name with
  | some y =>
      rw [hname] at hx
      cases hx
  | none =>
      rw [hname] at hx
      simp only at hx ⊢
      cases hp : (m.clusLookupForHost name).bind m.cIdleJob with
      | none =>
          rw [hp] at hx
          exact ⟨(Prod.mk.inj hx).2.symm, rfl⟩
      | some p =>
          rw [hp] at hx
          cases hx

omit [Field R] [LinearOrder R] [FloorRing R] in
/-- What `lnet_lookup_nid` does for a nid that stands for a host, or for none. -/
inductive NidFound (m : Daemon R) (l nid : CString) : Option XNode → Daemon R → Prop where
  | host {name : CString} {x : XNode} {m' : Daemon R} (hname : m.nidHost l nid = some name)
      (hfound : HostFound m name x m') : NidFound m l nid (some x) m'
  | none {m' : Daemon R} (hname : m.nidHost l nid = none) (hok : DaemonOk m')
      (hsame : m' = { m with lnets := m'.lnets }) : NidFound m l nid none m'

theorem nidFound (env : Env R) (h : DaemonOk m) (l nid : CString) :
    NidFound m l nid (m.lnetLookupNid l nid).1 (m.lnetLookupNid l nid).2 := by
  have hok := (h.lnetLookupNid env l nid).1.ok
  revert hok
  rw [Daemon.lnetLookupNid]
  cases hl : m.lnets l with
  | none => exact fun hok => .none (by rw [Daemon.nidHost, hl]; rfl) hok rfl
  | some table =>
      simp only
      cases href : strTableRef table nid with
      | some x =>
          obtain ⟨hlive, htype⟩ := (h.nids hl).of_ref href
          refine fun _ => .host (show m.nidHost l nid = some x.xName from ?_)
            (.refl h (h.state.tree.xLookup_eq_some.2 ⟨hlive, htype, rfl⟩))
          rw [nidHost_eq hl, href]
      | none =>
          have hname : m.nidHost l nid = (m.homeOf nid).map fun _ => nid := by
            rw [nidHost_eq hl, href]
          rcases hx : m.xHostLookup nid with ⟨_ | x, m'⟩
          · obtain ⟨rfl, hhome⟩ := homeOf_eq_none hx
            rw [hhome] at hname
            exact fun hok => .none hname hok rfl
          · have hfound := hostFound env h hx
            obtain ⟨p, hp, -⟩ := hfound.exists_home
            rw [hp] at hname
            exact fun hok => .host hname (hfound.then_lnets hok)

/-- A look-up leaves what every nid stands for. -/
theorem nidHost_lnetLookupNid (env : Env R) (h : DaemonOk m) (hlnets : LnetsOk m)
    (l nid nid' : CString) :
    (m.lnetLookupNid l nid).2.nidHost l nid' = m.nidHost l nid' := by
  rw [Daemon.lnetLookupNid]
  cases hl : m.lnets l with
  | none => rfl
  | some table =>
      simp only
      cases href : strTableRef table nid with
      | some x => rfl
      | none =>
          rcases hx : m.xHostLookup nid with ⟨_ | x, m'⟩
          · -- no host can be created, and `lnet_lookup_nid` drops the entry it made
            obtain ⟨rfl, hhome⟩ := homeOf_eq_none hx
            simp only
            rw [nidHost_eq hl, nidHost_eq (update_self ..), strTableRef_erase (hlnets hl) href,
              homeOf_lnets]
          · have hfound := hostFound env h hx
            obtain ⟨p, hp, -⟩ := hfound.exists_home
            obtain ⟨-, -, hname⟩ := hfound.ok.state.tree.xLookup_eq_some.1 hfound.found
            simp only
            rw [nidHost_eq hl, nidHost_eq (update_self ..), ← strTableSet, strTableRef_set]
            by_cases hnid : nid' = nid
            · subst hnid
              simp only [if_true, href, hp, hname, Option.map_some]
            · rw [if_neg hnid, ← hfound.homeOf h, homeOf_lnets]

end Xltop.Master
