import Xltop.Core.NBuf
import Xltop.Core.Words
import Xltop.Master.Nids

/-!
# A PUT to a server

The lines of a body are taken in turn, and each may create a host and the
statistics of all pairs of its ancestors with those of the server.  All have the
same time, so that whatever line makes a pair fresh, the others only add to it.
By the names of the nodes, the lines commute.
-/

namespace Xltop.Master

open Function
open Xltop.Buffer
open Xltop.Text
open Xltop.Hash
open Xltop.Rate

variable {R : Type*} [Field R] [LinearOrder R] [FloorRing R]

/-- `serv_put_cb` with the body `nb`. -/
def Daemon.servPutCb (env : Env R) (m : Daemon R) (s : XNode) (nb : NBuf) (now : R) :
    Daemon R :=
  (nBufMsgs nb).foldl (fun m msg => m.servMsgCb env s (cstr msg) now) m

/-! ## The state by names -/

section Seen

omit [Field R] [LinearOrder R] [FloorRing R]

/-- The type and the name of a node. -/
abbrev Label := XType × CString

def XNode.label (x : XNode) : Label := (x.xType, x.xName)

/-- The `k_node` of two nodes that are given by type and name. -/
def XState.kNamed (σ : XState R) (a b : Label) : Option (KNode Label R) :=
  (σ.xLookup a.1 a.2).bind fun x0 => (σ.xLookup b.1 b.2).bind fun x1 =>
    (σ.kLookup x0 x1).map (KNode.map XNode.label)

variable {σ : XState R} {a b : Label} {y0 y1 : XNode}

theorem XTree.TreeOk.xLookup_label {t : XTree} (h : t.TreeOk) {x : XNode} :
    t.xLookup a.1 a.2 = some x ↔ t.Live x ∧ x.label = a := by
  rw [h.xLookup_eq_some, XNode.label, Prod.ext_iff]

theorem kNamed_label (h : StateOk σ) (hy0 : σ.Live y0) (hy1 : σ.Live y1) :
    σ.kNamed y0.label y1.label = (σ.kLookup y0 y1).map (KNode.map XNode.label) := by
  rw [XState.kNamed, h.tree.xLookup_label.2 ⟨hy0, rfl⟩, Option.bind_some,
    h.tree.xLookup_label.2 ⟨hy1, rfl⟩, Option.bind_some]

theorem kNamed_eq_some (h : StateOk σ) {k : KNode Label R} :
    σ.kNamed a b = some k ↔ ∃ y0 y1 k', σ.kLookup y0 y1 = some k' ∧ y0.label = a ∧
      y1.label = b ∧ k'.map XNode.label = k := by
  constructor
  · intro hk
    obtain ⟨y0, hy0, hk⟩ := Option.bind_eq_some_iff.1 hk
    obtain ⟨y1, hy1, hk⟩ := Option.bind_eq_some_iff.1 hk
    obtain ⟨k', hk', hk⟩ := Option.map_eq_some_iff.1 hk
    exact ⟨y0, y1, k', hk', (h.tree.xLookup_label.1 hy0).2, (h.tree.xLookup_label.1 hy1).2, hk⟩
  · rintro ⟨y0, y1, k', hk', rfl, rfl, rfl⟩
    rw [kNamed_label h (h.pairs.consumer hk').1 (h.pairs.provider hk').1, hk', Option.map_some]

/-- What a PUT to a server changes, by names: the hosts with their jobs, and the
statistics. -/
@[ext]
structure Seen (R : Type*) where
  home : CString → Option (Option XNode)
  k : Label → Label → Option (KNode Label R)

def Daemon.seen (m : Daemon R) : Seen R where
  home name := (m.xLookup .host name).map m.parent
  k := m.kNamed

/-- What a PUT to a server finds and does not change: the hosts that nids stand
for, the jobs of these hosts, and the pairs that a line about a host updates. -/
@[ext]
structure Scene where
  nidHost : CString → Option CString
  homeOf : CString → Option XNode
  covers : CString → Label → Label → Prop

def Daemon.scene (m : Daemon R) (s : XNode) : Scene where
  nidHost := m.nidHost (m.sLnet s)
  homeOf := m.homeOf
  covers name a b :=
    (a = (.host, name) ∨ ∃ p y, m.homeOf name = some p ∧ m.Above p y ∧ y.label = a) ∧
      ∃ y, m.Above s y ∧ y.label = b

/-- A line with a nid, and its numbers if there are as many as there should be. -/
structure Stat (R : Type*) where
  nid : CString
  d : Option (Stats R)

def statOf (env : Env R) (msg : CString) : Option (Stat R) :=
  match wsep (some msg) with
  | (some nid, some rest) => some ⟨nid, env.sscanfStats rest⟩
  | _ => none

end Seen

namespace Seen

omit [Field R] [LinearOrder R] [FloorRing R] in
/-- A host that is looked up is there afterwards. -/
def found (scene : Scene) (v : Seen R) (name : CString) : Seen R :=
  { v with home := Function.update v.home name (some (scene.homeOf name)) }

open Classical in
/-- The statistics after an update for the host `name`. -/
noncomputable def updated (c : KConf R) (scene : Scene) (now : R) (v : Seen R) (name : CString)
    (d : Stats R) : Seen R :=
  { v with
    k := fun a b =>
      if scene.covers name a b then some (kUpdate c ((v.k a b).getD (kInit a b)) d now)
      else v.k a b }

/-- A line, by names. -/
noncomputable def line (c : KConf R) (scene : Scene) (now : R) (v : Seen R) (stat : Stat R) :
    Seen R :=
  match scene.nidHost stat.nid with
  | none => v
  | some name =>
      match stat.d with
      | none => v.found scene name
      | some d => (v.found scene name).updated c scene now name d

section Commute

variable {c : KConf R} {scene : Scene} {now : R} {v : Seen R} {name name' : CString}
  {d d' : Stats R}

omit [Field R] [LinearOrder R] [FloorRing R] in
theorem found_comm :
    (v.found scene name).found scene name' = (v.found scene name').found scene name := by
  apply Seen.ext
  · by_cases heq : name = name'
    · rw [heq]
    · exact update_comm heq _ _ _
  · rfl

theorem found_updated : (v.updated c scene now name d).found scene name' =
    (v.found scene name').updated c scene now name d := rfl

theorem updated_comm [IsStrictOrderedRing R] (htick : 0 < c.kTick) :
    (v.updated c scene now name d).updated c scene now name' d' =
      (v.updated c scene now name' d').updated c scene now name d := by
  apply Seen.ext
  · rfl
  · funext a b
    simp only [updated]
    split_ifs <;> simp only [Option.getD_some, kUpdate_comm htick _ d d']

/-- Two lines may be swapped. -/
theorem line_comm [IsStrictOrderedRing R] (htick : 0 < c.kTick) (stat stat' : Stat R) :
    (v.line c scene now stat).line c scene now stat' =
      (v.line c scene now stat').line c scene now stat := by
  rw [line.eq_def c scene now v stat, line.eq_def c scene now v stat']
  cases hname : scene.nidHost stat.nid with
  | none => simp only [line, hname]
  | some name =>
      cases hname' : scene.nidHost stat'.nid with
      | none => simp only [line, hname, hname']
      | some name' =>
          -- a line without numbers still creates its host
          cases hd : stat.d with
          | none =>
              cases hd' : stat'.d with
              | none => simp only [line, hname, hname', hd, hd', found_comm]
              | some d' =>
                  simp only [line, hname, hname', hd, hd', found_updated]
                  rw [found_comm]
          | some d =>
              cases hd' : stat'.d with
              | none =>
                  simp only [line, hname, hname', hd, hd', found_updated]
                  rw [found_comm]
              | some d' =>
                  simp only [line, hname, hname', hd, hd', found_updated]
                  rw [found_comm, updated_comm htick]

end Commute

end Seen

/-! ## What a line does -/

section Line

variable {m m' : Daemon R} {s x : XNode} {name : CString} {a b : Label}

omit [Field R] [LinearOrder R] [FloorRing R]

theorem homeOf_live (h : DaemonOk m) {p : XNode} (hp : m.homeOf name = some p) : m.Live p := by
  rw [Daemon.homeOf] at hp
  split at hp
  · exact h.state.tree.parent_live hp
  · obtain ⟨c, -, hidle⟩ := Option.bind_eq_some_iff.1 hp
    exact (h.idle hidle).1

/-- The pairs that a line updates are those of the host and the server and their
ancestors. -/
theorem covers_iff (h : DaemonOk m) (hx : m.xLookup .host name = some x) :
    (m.scene s).covers name a b ↔
      ∃ y0 y1, (m.Above x y0 ∧ m.Above s y1) ∧ y0.label = a ∧ y1.label = b := by
  obtain ⟨-, hxtype, hxname⟩ := h.state.tree.xLookup_eq_some.1 hx
  have hlabel : x.label = (.host, name) := Prod.ext hxtype hxname
  have hhome : m.homeOf name = m.parent x := by rw [Daemon.homeOf, hx]
  simp only [Daemon.scene, hhome]
  constructor
  · rintro ⟨rfl | ⟨p, y0, hp, hy0, rfl⟩, y1, hy1, rfl⟩
    · exact ⟨x, y1, ⟨.refl, hy1⟩, hlabel, rfl⟩
    · exact ⟨y0, y1, ⟨.head hp hy0, hy1⟩, rfl, rfl⟩
  · rintro ⟨y0, y1, ⟨hy0, hy1⟩, rfl, rfl⟩
    refine ⟨?_, y1, hy1, rfl⟩
    rcases XTree.above_iff.1 hy0 with rfl | ⟨p, hp, hpy⟩
    · exact .inl hlabel
    · exact .inr ⟨p, y0, hp, hpy, rfl⟩

theorem scene_congr (hok : DaemonOk m) (hs : m.Live s) (hserv : m'.sLnet = m.sLnet)
    (hnid : ∀ nid, m'.nidHost (m.sLnet s) nid = m.nidHost (m.sLnet s) nid)
    (hhome : ∀ name, m'.homeOf name = m.homeOf name)
    (habove : ∀ {y z}, m.Live y → (m'.Above y z ↔ m.Above y z)) :
    m'.scene s = m.scene s := by
  apply Scene.ext
  · funext nid
    change m'.nidHost (m'.sLnet s) nid = m.nidHost (m.sLnet s) nid
    rw [hserv, hnid]
  · exact funext hhome
  · funext name a b
    have hcovers : ∀ p y, m'.homeOf name = some p ∧ m'.Above p y ∧ y.label = a ↔
        m.homeOf name = some p ∧ m.Above p y ∧ y.label = a := fun p y => by
      rw [hhome]
      exact and_congr_right fun hp => and_congr_left fun _ => habove (homeOf_live hok hp)
    simp only [Daemon.scene, hcovers, habove hs]

namespace HostFound

theorem scene_eq (h : HostFound m name x m') (hok : DaemonOk m) (hs : m.Live s)
    (hnid : ∀ nid, m'.nidHost (m.sLnet s) nid = m.nidHost (m.sLnet s) nid) :
    m'.scene s = m.scene s :=
  scene_congr hok hs h.servs hnid (h.homeOf hok) (h.above hok)

theorem seen_eq (h : HostFound m name x m') (hok : DaemonOk m) :
    m'.seen = m.seen.found (m.scene s) name := by
  apply Seen.ext
  · funext name'
    change (m'.xLookup .host name').map m'.parent = update m.seen.home name _ name'
    rw [h.xLookup hok]
    rcases eq_or_ne name' name with rfl | hne
    · rw [if_pos ⟨rfl, rfl⟩, update_self, Option.map_some, h.parent, if_pos rfl]
      rfl
    · rw [if_neg fun heq => hne heq.2, update_of_ne hne]
      exact Option.map_congr fun y hy =>
        h.parent_live hok (hok.state.tree.xLookup_eq_some.1 hy).1
  · funext a b
    ext k
    change m'.kNamed a b = some k ↔ m.kNamed a b = some k
    simp only [kNamed_eq_some h.ok.state, kNamed_eq_some hok.state,
      XState.kLookup_congr h.table]

end HostFound

end Line

section Line

variable {m m' : Daemon R} {s x : XNode} {name : CString}

/-- `x_update` updates the pairs of the scene. -/
theorem seen_update (env : Env R) (h : DaemonOk m) (hx : m.xLookup .host name = some x)
    (hs : m.Live s) {d : Stats R} {now : R} {σ : XState R} (hσ : StateOk σ)
    (hupdate : XState.Updated env.conf m.toXState x s d now σ) :
    Daemon.seen { m with toXState := σ } =
      m.seen.updated env.conf (m.scene s) now name d := by
  apply Seen.ext
  · funext name'
    change (σ.xLookup .host name').map σ.parent = (m.xLookup .host name').map m.parent
    rw [hupdate.tree]
  · funext a b
    change σ.kNamed a b = (m.seen.updated env.conf (m.scene s) now name d).k a b
    by_cases hcovers : (m.scene s).covers name a b
    · refine Eq.trans ?_ (if_pos hcovers).symm
      obtain ⟨y0, y1, ⟨hy0, hy1⟩, rfl, rfl⟩ := (covers_iff h hx).1 hcovers
      have hlive0 := h.state.tree.live_of_above (h.state.tree.xLookup_eq_some.1 hx).1 hy0
      have hlive1 := h.state.tree.live_of_above hs hy1
      change _ = some (kUpdate env.conf ((m.kNamed y0.label y1.label).getD _) d now)
      rw [kNamed_label hσ (hupdate.tree ▸ hlive0) (hupdate.tree ▸ hlive1),
        kNamed_label h.state hlive0 hlive1, hupdate.above hy0 hy1]
      cases m.kLookup y0 y1 <;> rfl
    · refine Eq.trans (Option.ext fun k => ?_) (if_neg hcovers).symm
      change σ.kNamed a b = some k ↔ m.kNamed a b = some k
      simp only [kNamed_eq_some hσ, kNamed_eq_some h.state]
      refine exists_congr fun y0 => exists_congr fun y1 => exists_congr fun k' => ?_
      refine and_congr_left fun hlabels => ?_
      rw [hupdate.other fun habove =>
        hcovers ((covers_iff h hx).2 ⟨y0, y1, habove, hlabels.1, hlabels.2.1⟩)]

omit [Field R] [LinearOrder R] [FloorRing R] in
/-- What is seen after lines of a PUT. -/
structure SeenAfter (m : Daemon R) (s : XNode) (v : Seen R) (m' : Daemon R) : Prop where
  ok : DaemonOk m'
  lnets : LnetsOk m'
  live : m'.Live s
  scene : m'.scene s = m.scene s
  seen : m'.seen = v

omit [Field R] [LinearOrder R] [FloorRing R] in
/-- Nothing changes but the table of the lnet. -/
theorem seenAfter_of_lnets (h : DaemonOk m) (hs : m.Live s) (hok : DaemonOk m')
    (hlnets : LnetsOk m') (hsame : m' = { m with lnets := m'.lnets })
    (hnid : ∀ nid, m'.nidHost (m.sLnet s) nid = m.nidHost (m.sLnet s) nid) :
    SeenAfter m s m.seen m' := by
  have htree : m'.toXState = m.toXState := by rw [hsame]
  refine ⟨hok, hlnets, htree ▸ hs, scene_congr h hs ?_ hnid (fun name => ?_) fun _ => ?_, ?_⟩
  · rw [hsame]
  · rw [hsame, homeOf_lnets]
  · rw [htree]
  · rw [Daemon.seen, Daemon.seen, htree]

/-- `x_update` for a host that has just been looked up. -/
theorem seenAfter_update (env : Env R) (h : DaemonOk m) (hlnets : LnetsOk m)
    (hx : m.xLookup .host name = some x) (hs : m.Live s) (hserv : s.xType = .serv)
    (d : Stats R) (now : R) :
    SeenAfter m s (m.seen.updated env.conf (m.scene s) now name d)
      { m with toXState := m.xUpdate env.conf x s d now } := by
  obtain ⟨hxlive, hxtype, -⟩ := h.state.tree.xLookup_eq_some.1 hx
  have hstep : XStep env.conf m.toXState [⟨m.toXTree, x, s, d⟩]
      (m.xUpdate env.conf x s d now) := .update hxlive hxtype hs hserv d now
  have hupdate := updated_of_step env.conf h.state hxlive hxtype hs hserv d now
  have hσ := h.state.step hstep
  generalize XState.xUpdate env.conf m.toXState x s d now = σ at hσ hupdate ⊢
  have hhome : ∀ name, Daemon.homeOf { m with toXState := σ } name = m.homeOf name :=
    @homeOf_congr _ m { m with toXState := σ } hupdate.tree rfl rfl rfl
  refine ⟨h.of_state hσ hupdate.tree, hlnets.of_eq rfl, ?_,
    scene_congr h hs rfl (fun nid => ?_) hhome fun _ => ?_, ?_⟩
  · change σ.toXTree.Live s
    rw [hupdate.tree]
    exact hs
  · rw [Daemon.nidHost, Daemon.nidHost]
    simp only [hhome]
  · change σ.toXTree.Above _ _ ↔ _
    rw [hupdate.tree]
  · exact seen_update env h hx hs hσ hupdate

namespace SeenAfter

variable {m₁ m₂ : Daemon R} {v : Seen R}

omit [Field R] [LinearOrder R] [FloorRing R] in
theorem refl (h : DaemonOk m) (hlnets : LnetsOk m) (hs : m.Live s) : SeenAfter m s m.seen m :=
  ⟨h, hlnets, hs, rfl, rfl⟩

omit [Field R] [LinearOrder R] [FloorRing R] in
theorem trans (h : SeenAfter m s m₁.seen m₁) (h' : SeenAfter m₁ s v m₂) : SeenAfter m s v m₂ :=
  ⟨h'.ok, h'.lnets, h'.live, h'.scene.trans h.scene, h'.seen⟩

/-- A line does by names what `Seen.line` says. -/
theorem servMsgCb (env : Env R) (h : DaemonOk m) (hlnets : LnetsOk m) (hs : m.Live s)
    (hserv : s.xType = .serv) (msg : CString) (now : R) :
    SeenAfter m s (((statOf env msg).map (m.seen.line env.conf (m.scene s) now)).getD m.seen)
      (m.servMsgCb env s msg now) := by
  rw [Daemon.servMsgCb, Daemon.servMsg, statOf]
  rcases wsep (some msg) with ⟨_ | nid, _ | rest⟩
  · exact refl h hlnets hs
  · exact refl h hlnets hs
  · exact refl h hlnets hs
  · have hlnets' := hlnets.lnetLookupNid (m.sLnet s) nid
    have hnid := nidHost_lnetLookupNid env h hlnets (m.sLnet s) nid
    have hfound := nidFound env h (m.sLnet s) nid
    simp only [Option.map_some, Option.getD_some, Seen.line]
    generalize m.lnetLookupNid (m.sLnet s) nid = looked at hlnets' hnid hfound ⊢
    obtain ⟨_ | x, m₁⟩ := looked
    · cases hfound with
      | none hname hok hsame =>
          have hname' : (m.scene s).nidHost nid = none := hname
          rw [hname']
          exact seenAfter_of_lnets h hs hok hlnets' hsame hnid
    · cases hfound with
      | @host name _ _ hname hhost =>
          have hname' : (m.scene s).nidHost nid = some name := hname
          have hscene : m₁.scene s = m.scene s := hhost.scene_eq h hs hnid
          have hlive : m₁.Live s := (hhost.live s).2 (.inl hs)
          have hseen : m₁.seen = m.seen.found (m.scene s) name := hhost.seen_eq h
          have hafter : SeenAfter m s m₁.seen m₁ := ⟨hhost.ok, hlnets', hlive, hscene, rfl⟩
          simp only [hname', ← hseen]
          cases hd : env.sscanfStats rest with
          | none => exact hafter
          | some d =>
              rw [← hscene]
              exact hafter.trans
                (seenAfter_update env hhost.ok hlnets' hhost.found hlive hserv d now)

/-- So do all lines together. -/
theorem foldl (env : Env R) (h : DaemonOk m) (hlnets : LnetsOk m) (hs : m.Live s)
    (hserv : s.xType = .serv) (lines : List CString) (now : R) :
    SeenAfter m s
      ((lines.filterMap (statOf env)).foldl (fun v => v.line env.conf (m.scene s) now) m.seen)
      (lines.foldl (fun m line => m.servMsgCb env s line now) m) := by
  induction lines generalizing m with
  | nil => exact refl h hlnets hs
  | cons line lines ih =>
      have hline := servMsgCb env h hlnets hs hserv line now
      have hlines := ih hline.ok hline.lnets hline.live
      rw [hline.scene, hline.seen] at hlines
      have hafter : SeenAfter m s (m.servMsgCb env s line now).seen _ :=
        ⟨hline.ok, hline.lnets, hline.live, hline.scene, rfl⟩
      rw [List.foldl_cons, List.filterMap_cons]
      cases hstat : statOf env line with
      | none =>
          rw [hstat] at hlines
          exact hafter.trans hlines
      | some stat =>
          rw [hstat] at hlines
          exact hafter.trans hlines

end SeenAfter

/-- The order of the lines does not matter. -/
theorem seen_foldl_perm [IsStrictOrderedRing R] {env : Env R} (htick : 0 < env.conf.kTick)
    (h : DaemonOk m) (hlnets : LnetsOk m) (hs : m.Live s) (hserv : s.xType = .serv)
    {lines lines' : List CString} (hperm : lines.Perm lines') (now : R) :
    (lines.foldl (fun m line => m.servMsgCb env s line now) m).seen =
      (lines'.foldl (fun m line => m.servMsgCb env s line now) m).seen := by
  rw [(SeenAfter.foldl env h hlnets hs hserv lines now).seen,
    (SeenAfter.foldl env h hlnets hs hserv lines' now).seen]
  exact (hperm.filterMap _).foldl_eq' (fun stat _ stat' _ v =>
    Seen.line_comm htick stat stat') m.seen

end Line

section Reached

variable [IsStrictOrderedRing R] {env : Env R} {cfg : Config R} {m₀ : Daemon R} {s : XNode}
  {nb nb' : NBuf}

/-- Two PUTs to a server whose bodies have the same lines, in whatever order, leave
the same hosts with the same jobs, and the same statistics of all pairs of nodes. -/
theorem serv_put_order (hboot : Daemon.boot env cfg = some m₀) (events : List (Event R))
    (hs : (m₀.run env events).Held s) (hserv : s.xType = .serv) (hcheck : nb.Check)
    (hcheck' : nb'.Check) (hperm : (bodyLines nb'.data).Perm (bodyLines nb.data)) (now : R) :
    let m := (m₀.run env events).servPutCb env s nb now
    let m' := (m₀.run env events).servPutCb env s nb' now
    (∀ name, (m'.xLookup .host name).map m'.parent = (m.xLookup .host name).map m.parent) ∧
      ∀ a b, m'.kNamed a b = m.kNamed a b := by
  intro m m'
  have hok := reached_ok hboot events
  have hput : ∀ {nb : NBuf}, nb.Check → (m₀.run env events).servPutCb env s nb now =
      ((bodyLines nb.data).map cstr).foldl (fun m line => m.servMsgCb env s line now)
        (m₀.run env events) := fun h => by
    rw [Daemon.servPutCb, nBufMsgs_eq h, List.foldl_map]
  have hseen : m'.seen = m.seen := by
    simp only [m, m', hput hcheck, hput hcheck']
    exact seen_foldl_perm (kTick_pos_of_boot hboot) hok (reached_lnets hboot events)
      (hok.state.tree.held_iff.1 hs) hserv (hperm.map cstr) now
  exact ⟨congrFun (congrArg Seen.home hseen),
    fun a => congrFun (congrFun (congrArg Seen.k hseen) a)⟩

end Reached

/-- The lines of two hosts, the second of which comes twice. -/
def sampleStats : List CString :=
  [lit "10.0.0.1@tcp 1 2 3", lit "10.0.0.2@tcp 1 2 3", lit "10.0.0.2@tcp 1 2"]

theorem serv_put_order_sample :
    let m := sampleDaemon.servPutCb sampleEnv sampleServ (textBuf (joinLines sampleStats)) 12
    let m' := sampleDaemon.servPutCb sampleEnv sampleServ
      (textBuf (joinLines sampleStats.reverse)) 12
    (∀ name, (m'.xLookup .host name).map m'.parent = (m.xLookup .host name).map m.parent) ∧
      ∀ a b, m'.kNamed a b = m.kNamed a b :=
  serv_put_order boot_sample [] (.inr (by decide +kernel)) rfl (check_textBuf _)
    (check_textBuf _) (by rw [data_textBuf, data_textBuf]; decide +kernel) 12

end Xltop.Master
