import Xltop.Master.Lines
import Xltop.Core.Words

/-!
# The names of hosts and jobs

Hosts, jobs, owners and titles are words of what the master reads: of lines of
PUTs and of the files of an lnet.  The idle job of a cluster is the exception, as
its name ends with that of the cluster, which is any text of the configuration.
-/

namespace Xltop.Master

open Function
open Xltop.Text
open Xltop.Hash

section Names

variable {R : Type*}

/-- The hosts and jobs in memory have names that `split` gives back whole. -/
structure NamesOk (m : Daemon R) : Prop where
  host : ∀ {x}, m.Live x → x.xType = .host → IsToken x.xName
  job : ∀ {j}, m.Live j → j.xType = .job →
    IsToken j.xName ∨ ∃ c, m.parent j = some c ∧ j.xName = lit "IDLE@" ++ c.xName
  owner : ∀ {j}, m.Live j → j.xType = .job → IsToken (m.jobs j).jOwner
  title : ∀ {j}, m.Live j → j.xType = .job → IsToken (m.jobs j).jTitle

/-- The jobs are the same, and the hosts that were added have good names. -/
structure HostsAdded (m m' : Daemon R) : Prop extends JobsKept m m' where
  parent : ∀ {y}, m.Live y → m'.parent y = m.parent y
  host : ∀ {x}, m'.Live x → x.xType = .host → m.Live x ∨ IsToken x.xName

variable {m m' m₂ : Daemon R}

theorem isToken_none : IsToken (lit "NONE") :=
  ⟨⟨by decide, by decide +kernel⟩, by decide⟩

/-- The text that a line has for a field, or its default, is a word. -/
theorem isToken_getD {ws : List CString} (h : ∀ word ∈ ws, IsToken word) (i : ℕ) :
    IsToken (ws[i]?.getD (lit "NONE")) := by
  cases hi : ws[i]? with
  | none => exact isToken_none
  | some word => exact h word (List.mem_of_getElem? hi)

namespace HostsAdded

theorem of_tree (htree : m'.toXTree = m.toXTree) (hjobs : m'.jobs = m.jobs)
    (hidle : m'.cIdleJob = m.cIdleJob) : HostsAdded m m' where
  toJobsKept := .of_tree htree hjobs hidle
  parent _ := by rw [htree]
  host hx _ := .inl (htree ▸ hx)

theorem refl (m : Daemon R) : HostsAdded m m :=
  .of_tree rfl rfl rfl

theorem trans (h : HostsAdded m m') (h' : HostsAdded m' m₂) : HostsAdded m m₂ where
  toJobsKept := h.toJobsKept.trans h'.toJobsKept
  parent hy := (h'.parent (h.live hy)).trans (h.parent hy)
  host hx hhost := by
    rcases h'.host hx hhost with hold | htoken
    · exact h.host hold hhost
    · exact .inr htoken

theorem then_same (h : HostsAdded m m') (htree : m₂.toXTree = m'.toXTree)
    (hjobs : m₂.jobs = m'.jobs) (hidle : m₂.cIdleJob = m'.cIdleJob) : HostsAdded m m₂ :=
  h.trans (.of_tree htree hjobs hidle)

/-- A new node that is no job, and has a good name if it is a host. -/
theorem xInit (h : DaemonOk m) {type : XType} {p : XNode} {name : CString}
    (hp : m.Live p) (htype : type ≠ .job) (hname : type = .host → IsToken name) :
    HostsAdded m { m with toXTree := (m.xInit type (some p) (strHash name) name).2 } where
  toJobsKept := .xInit h hp htype
  parent {y} hy := by
    refine (m.parent_xInit type p (strHash name) name y).trans (if_neg ?_)
    rintro rfl
    exact h.state.tree.not_live_next _ _ _ hy
  host {x} hx hhost := by
    rcases (m.live_xInit type (strHash name) name (some p)).1 hx with rfl | hold
    · exact .inr (hname hhost)
    · exact .inl hold

theorem xHostLookup (h : DaemonOk m) {name : CString} (hname : IsToken name) :
    HostsAdded m (m.xHostLookup name).2 := by
  rw [Daemon.xHostLookup]
  cases m.xLookup .host name with
  | some x => exact .refl m
  | none =>
      cases hp : (m.clusLookupForHost name).bind m.cIdleJob with
      | none => exact .refl m
      | some p =>
          obtain ⟨c, -, hidle⟩ := Option.bind_eq_some_iff.1 hp
          exact .xInit h (h.idle hidle).1 (by decide) fun _ => hname

theorem lnetLookupNid (h : DaemonOk m) (l : CString) {nid : CString}
    (hnid : IsToken nid) : HostsAdded m (m.lnetLookupNid l nid).2 := by
  rw [Daemon.lnetLookupNid]
  cases m.lnets l with
  | none => exact .refl m
  | some table =>
      simp only
      cases strTableRef table nid with
      | some x => exact .refl m
      | none =>
          have hadded := xHostLookup h hnid
          rcases hx : m.xHostLookup nid with ⟨_ | x, m'⟩
          · rw [hx] at hadded
            exact hadded.then_same rfl rfl rfl
          · rw [hx] at hadded
            exact hadded.then_same rfl rfl rfl

theorem servMsg (env : Env R) (h : DaemonOk m) (s : XNode) {msg : CString}
    (hmsg : 0 ∉ msg) : HostsAdded m (Daemon.servMsg env m s msg).1 := by
  rw [Daemon.servMsg]
  split
  · next nid rest hwords =>
      have hnid := isToken_of_mem_words hmsg
        (mem_words_of_wsep (congrArg Prod.fst hwords))
      have hadded := lnetLookupNid h (m.sLnet s) hnid
      rcases hx : m.lnetLookupNid (m.sLnet s) nid with ⟨_ | x, m'⟩
      · rw [hx] at hadded
        exact hadded
      · rw [hx] at hadded
        exact hadded
  · exact .refl m

theorem lnetReadLine (h : DaemonOk m) (l : CString) {line : CString}
    (hline : 0 ∉ line) : HostsAdded m (Daemon.lnetReadLine l m line) := by
  rw [Daemon.lnetReadLine]
  split
  · next nid name hwords =>
      have hchop : 0 ∉ chop line 35 := fun hnul =>
        hline ((List.takeWhile_sublist _).mem hnul)
      have hname : IsToken name := by
        apply isToken_of_mem_words hchop
        apply @mem_words_of_split 2
        rw [hwords]
        exact List.mem_cons_of_mem _ List.mem_cons_self
      have hadded := xHostLookup h hname
      rcases hx : m.xHostLookup name with ⟨_ | x, m'⟩
      · rw [hx] at hadded
        exact hadded
      · rw [hx] at hadded
        exact hadded.then_same rfl rfl rfl
  · exact .refl m

end HostsAdded

namespace NamesOk

theorem hostsAdded (h : NamesOk m) (hadded : HostsAdded m m') : NamesOk m' where
  host hx hhost := by
    rcases hadded.host hx hhost with hold | htoken
    · exact h.host hold hhost
    · exact htoken
  job hj hjob := by
    have hlive := hadded.job hjob hj
    rw [hadded.parent hlive]
    exact h.job hlive hjob
  owner hj hjob := by
    rw [hadded.jobs]
    exact h.owner (hadded.job hjob hj) hjob
  title hj hjob := by
    rw [hadded.jobs]
    exact h.title (hadded.job hjob hj) hjob

/-- A change of one record that keeps its owner and title. -/
theorem setJob (h : NamesOk m) {j : XNode} {f : JobNode R → JobNode R}
    (howner : (f (m.jobs j)).jOwner = (m.jobs j).jOwner)
    (htitle : (f (m.jobs j)).jTitle = (m.jobs j).jTitle) : NamesOk (m.setJob j f) where
  host := h.host
  job := h.job
  owner {i} hi hjob := by
    rw [setJob_jobs]
    split
    · next heq =>
        rw [howner, ← heq]
        exact h.owner hi hjob
    · exact h.owner hi hjob
  title {i} hi hjob := by
    rw [setJob_jobs]
    split
    · next heq =>
        rw [htitle, ← heq]
        exact h.title hi hjob
    · exact h.title hi hjob

theorem jobFound (h : NamesOk m) {env : Env R} {c j : XNode} {name : CString}
    {rest : List CString} (hfound : JobFound env m c name rest j m')
    (hname : IsToken name ∨ name = lit "IDLE@" ++ c.xName)
    (hrest : ∀ word ∈ rest, IsToken word) : NamesOk m' where
  host {x} hx hhost := by
    rcases (hfound.live x).1 hx with hold | rfl
    · exact h.host hold hhost
    · have hjob := (hfound.ok.state.tree.xLookup_eq_some.1 hfound.found).2.1
      rw [hhost] at hjob
      cases hjob
  job {i} hi hjob := by
    rw [hfound.parent]
    by_cases hold : m.Live i
    · rw [if_neg fun hnew => hnew.2 (hnew.1 ▸ hold)]
      exact h.job hold hjob
    · obtain rfl : i = j := ((hfound.live i).1 hi).resolve_left hold
      have hiname := (hfound.ok.state.tree.xLookup_eq_some.1 hfound.found).2.2
      rw [if_pos ⟨rfl, hold⟩, hiname]
      rcases hname with htoken | hidle
      · exact .inl htoken
      · exact .inr ⟨c, rfl, hidle⟩
  owner {i} hi hjob := by
    rw [hfound.jobs]
    by_cases hold : m.Live i
    · rw [if_neg fun hnew => hnew.2 (hnew.1 ▸ hold)]
      exact h.owner hold hjob
    · rw [if_pos ⟨((hfound.live i).1 hi).resolve_left hold,
        ((hfound.live i).1 hi).resolve_left hold ▸ hold⟩]
      exact isToken_getD hrest 0
  title {i} hi hjob := by
    rw [hfound.jobs]
    by_cases hold : m.Live i
    · rw [if_neg fun hnew => hnew.2 (hnew.1 ▸ hold)]
      exact h.title hold hjob
    · rw [if_pos ⟨((hfound.live i).1 hi).resolve_left hold,
        ((hfound.live i).1 hi).resolve_left hold ▸ hold⟩]
      exact isToken_getD hrest 1

theorem line (h : NamesOk m) {env : Env R} {c x j : XNode} {hostName jobName : CString}
    {rest : List CString} {now : R}
    (hline : Line env m c hostName jobName rest now x j m') (hhostName : IsToken hostName)
    (hjobName : IsToken jobName) (hrest : ∀ word ∈ rest, IsToken word) : NamesOk m' := by
  have hj := (hline.ok.state.tree.xLookup_eq_some.1 hline.job).2.2
  have hold : ∀ {i}, m'.Live i → i.xType = .job → i ≠ j → m.Live i :=
    fun hi hjob hne => hline.live_job hjob hne hi
  have hrecord : ∀ {i}, m'.Live i → i.xType = .job →
      IsToken (m'.jobs i).jOwner ∧ IsToken (m'.jobs i).jTitle := by
    intro i hi hjob
    rw [hline.jobs]
    by_cases hij : i = j
    · rw [if_pos hij]
      split
      · next hlive =>
          rw [← hij] at hlive ⊢
          exact ⟨h.owner hlive hjob, h.title hlive hjob⟩
      · exact ⟨isToken_getD hrest 0, isToken_getD hrest 1⟩
    · have hlive := hold hi hjob hij
      have hended : (ended now (m.jobs i)).jOwner = (m.jobs i).jOwner ∧
          (ended now (m.jobs i)).jTitle = (m.jobs i).jTitle := by
        rw [ended]
        split <;> exact ⟨rfl, rfl⟩
      rw [if_neg hij]
      split
      · rw [hended.1, hended.2]
        exact ⟨h.owner hlive hjob, h.title hlive hjob⟩
      · exact ⟨h.owner hlive hjob, h.title hlive hjob⟩
  refine ⟨fun {y} hy hhost => ?_, fun {i} hi hjob => ?_, fun hi hjob => (hrecord hi hjob).1,
    fun hi hjob => (hrecord hi hjob).2⟩
  · rcases (hline.live y).1 hy with (hlive | rfl) | rfl
    · exact h.host hlive hhost
    · rw [hline.types.2] at hhost
      cases hhost
    · rw [(hline.ok.state.tree.xLookup_eq_some.1 hline.host).2.2]
      exact hhostName
  · by_cases hij : i = j
    · rw [hij, hj]
      exact .inl hjobName
    · have hix : i ≠ x := XNode.ne_of_types hjob hline.types.1 (by decide)
      rw [hline.parent, if_neg hix, if_neg fun hnew => hij hnew.1]
      exact h.job (hold hi hjob hij) hjob

theorem fired (h : NamesOk m) (hok : DaemonOk m) {j : XNode} {now : R}
    (hfired : Fired m j now m') : NamesOk m' := by
  cases hfired with
  | inactive _ hsame =>
      rw [hsame]
      exact h
  | fake _ hm =>
      rw [hm]
      exact h.setJob rfl rfl
  | rearmed _ hm =>
      rw [hm]
      exact h.setJob rfl rfl
  | destroyed hstart hlive hjob hchildren hstate hjobs hidle =>
      have hset : NamesOk (m.setJob j fun job => { job with jZombieW := none }) :=
        h.setJob rfl rfl
      have hold : ∀ {y}, m'.Live y → m.Live y ∧ y ≠ j := fun {y} hy => by
        rw [hstate.tree] at hy
        exact (hok.state.tree.live_xRemove hlive hchildren).1 hy
      obtain ⟨q, hq, -⟩ := hok.state.tree.exists_parent hlive
        (by rw [hjob]; rfl : j.xType.up = some .clus)
      refine ⟨fun hx hhost => h.host (hold hx).1 hhost, fun {i} hi hijob => ?_,
        fun hi hijob => ?_, fun hi hijob => ?_⟩
      · rw [hstate.tree, hok.state.tree.parent_xRemove hq hchildren, if_neg (hold hi).2]
        exact h.job (hold hi).1 hijob
      · rw [hjobs]
        exact hset.owner (hold hi).1 hijob
      · rw [hjobs]
        exact hset.title (hold hi).1 hijob

end NamesOk

end Names

/-! ## Reached states -/

/-- The message of an event is a C string. -/
def Event.Plain {R : Type*} : Event R → Prop
  | .servMsg _ msg _ | .clusMsg _ msg _ => 0 ∉ msg
  | _ => True

/-- The lines of the files of the lnets are C strings. -/
def Config.Plain {R : Type*} (cfg : Config R) : Prop :=
  ∀ lnet ∈ cfg.lnets, ∀ lines, some lines ∈ lnet.files → ∀ line ∈ lines, 0 ∉ line

section Reached

variable {R : Type*} [Field R] [LinearOrder R] [FloorRing R] {env : Env R}
  {m m' : Daemon R}

theorem HostsAdded.step (h : DaemonOk m) {event : Event R} (hplain : event.Plain)
    (hclus : ∀ clus msg now, event ≠ .clusMsg clus msg now)
    (hzombie : ∀ job now, event ≠ .zombie job now) : HostsAdded m (m.step env event) := by
  cases event with
  | clusMsg clus msg now => exact absurd rfl (hclus clus msg now)
  | zombie job now => exact absurd rfl (hzombie job now)
  | servMsg serv msg now =>
      have hreported := h.reported_step env serv msg now
      generalize m.calls env _ = calls, m.step env _ = m' at hreported ⊢
      cases hreported with
      | ignored => exact .refl m
      | looked s hgrown => exact .servMsg env h s hplain
      | updated s hm hgrown hstep hupdate =>
          have hadded := HostsAdded.servMsg env h s hplain
          rw [← hm] at hadded
          exact hadded.then_same hupdate.tree rfl rfl
  | top q now =>
      obtain ⟨σ, hm, hreads⟩ := step_top env m q now
      rw [hm]
      exact .of_tree hreads.tree rfl rfl
  | servGet serv now =>
      obtain ⟨σ, hm, hreads⟩ := step_servGet env m serv now
      rw [hm]
      exact .of_tree hreads.tree rfl rfl

theorem NamesOk.step (h : NamesOk m) (hok : DaemonOk m) {event : Event R}
    (hplain : event.Plain) : NamesOk (m.step env event) := by
  by_cases hclus : ∃ clus msg now, event = .clusMsg clus msg now
  · obtain ⟨clus, msg, now, rfl⟩ := hclus
    cases told_step env hok clus msg now with
    | ignored hsame _ =>
        rw [hsame]
        exact h
    | @line c x j hostName jobName rest hc hwords hline =>
        have htokens : ∀ word ∈ hostName :: jobName :: rest, IsToken word := by
          rw [← hwords]
          exact fun word hword => isToken_of_mem_words hplain (mem_words_of_split hword)
        rw [List.forall_mem_cons, List.forall_mem_cons] at htokens
        exact h.line hline htokens.1 htokens.2.1 htokens.2.2
  · by_cases hzombie : ∃ job now, event = .zombie job now
    · obtain ⟨job, now, rfl⟩ := hzombie
      exact h.fired hok (fired_step env hok job now)
    · push Not at hclus hzombie
      exact h.hostsAdded (.step hok hplain hclus hzombie)

/-- What starting the daemon keeps. -/
abbrev Started (m : Daemon R) : Prop :=
  DaemonOk m ∧ NamesOk m

theorem started_clusLookup (env : Env R) (h : Started m) (name : CString) :
    Started (Daemon.clusLookup env m name).2 := by
  obtain ⟨hok, hnames⟩ := h
  refine ⟨(hok.clusLookup env name).ok, ?_⟩
  rw [Daemon.clusLookup]
  cases hname : m.xLookup .clus name with
  | some c => exact hnames
  | none =>
      have hroot : XType.clus.up = some (m.xAll 0).xType := by
        rw [hok.state.tree.all_type]
        rfl
      have hcreate := hok.xInit env (hok.state.tree.all_live 0) hroot hname
      have hclive : (m.xInit .clus (some (m.xAll 0)) (strHash name) name).2.Live
          (m.next .clus (strHash name) name) :=
        (m.live_xInit .clus (strHash name) name (some (m.xAll 0))).2 (.inl rfl)
      have hadded : HostsAdded m { m with
          toXTree := (m.xInit .clus (some (m.xAll 0)) (strHash name) name).2 } :=
        .xInit hok (hok.state.tree.all_live 0) (by decide) fun heq => by cases heq
      have hfound := hcreate.ok.jobFound env hclive rfl (lit "IDLE@" ++ name) []
      have hidle := (hnames.hostsAdded hadded).jobFound hfound (.inr rfl)
        fun word hword => absurd hword List.not_mem_nil
      have hset := hidle.setJob
        (j := (Daemon.jobLookup env { m with toXTree := (m.xInit .clus (some (m.xAll 0))
          (strHash name) name).2 } (lit "IDLE@" ++ name) (m.next .clus (strHash name) name)
          (lit "NONE") (lit "NONE") (lit "0")).1)
        (f := fun job => { job with jFake := true }) rfl rfl
      exact ⟨hset.host, hset.job, hset.owner, hset.title⟩

theorem started_clusCfg (env : Env R) (h : Started m) (cfg : ClusCfg) :
    Started (Daemon.clusCfg env m cfg) := by
  apply List.foldlRecOn (motive := Started) cfg.domains _ (started_clusLookup env h cfg.name)
  intro m hm domain _
  exact ⟨⟨hm.1.state, hm.1.idle, hm.1.timers, hm.1.nids⟩,
    ⟨hm.2.host, hm.2.job, hm.2.owner, hm.2.title⟩⟩

theorem started_lnetCfg (env : Env R) (h : Started m) {hint : UInt64} {cfg : LnetCfg}
    (hplain : ∀ lines, some lines ∈ cfg.files → ∀ line ∈ lines, 0 ∉ line)
    (hm : Daemon.lnetCfg hint m cfg = some m') : Started m' := by
  apply lnetCfg_keeps (P := Started) _ _ h hm
  · intro _
    have hset := h.1.setLnet cfg.name (some (hashTableInit hint))
      fun heq => Option.some.inj heq ▸ StrTable.Forall.init hint
    exact ⟨hset, ⟨h.2.host, h.2.job, h.2.owner, h.2.title⟩⟩
  · intro m lines line hfile hline hm
    exact ⟨(hm.1.lnetReadLine env cfg.name line).ok,
      hm.2.hostsAdded (.lnetReadLine hm.1 cfg.name (hplain lines hfile line hline))⟩

theorem started_servCreate (env : Env R) (h : Started m) {p : XNode} (hp : m.Live p)
    (hfs : p.xType = .fs) (l name : CString) : Started (Daemon.servCreate p l m name) := by
  refine ⟨(h.1.servCreate env hp hfs l name).ok, ?_⟩
  rw [Daemon.servCreate]
  cases m.xLookup .serv name with
  | some s => exact h.2
  | none =>
      have hadded : HostsAdded m { m with
          toXTree := (m.xInit .serv (some p) (strHash name) name).2 } :=
        .xInit h.1 hp (by decide) fun heq => by cases heq
      exact h.2.hostsAdded (hadded.then_same rfl rfl rfl)

theorem started_fsCfg (env : Env R) (h : Started m) {cfg : FsCfg R}
    (hm : Daemon.fsCfg m cfg = some m') : Started m' := by
  have hroot : XType.fs.up = some (m.xAll 1).xType := by
    rw [h.1.state.tree.all_type]
    rfl
  obtain ⟨hgrown, hlive, hfs, -⟩ := h.1.xLookupCreate env cfg.name
    (h.1.state.tree.all_live 1) hroot
  have hnames : NamesOk { m with
      toXTree := (m.xLookupCreate .fs cfg.name (some (m.xAll 1))).2 } := by
    rw [XTree.xLookupCreate]
    cases m.xLookup .fs cfg.name with
    | some x => exact h.2
    | none =>
        exact h.2.hostsAdded (.xInit h.1 (h.1.state.tree.all_live 1) (by decide)
          fun heq => by cases heq)
  have hcfg := fsCfg_keeps (P := fun m' => Started m' ∧
      m'.Live (m.xLookupCreate .fs cfg.name (some (m.xAll 1))).1)
    ⟨⟨hgrown.ok, hnames⟩, hlive⟩ (fun l name hm₁ =>
      have hserv := hm₁.1.1.servCreate env hm₁.2 hfs l name
      ⟨started_servCreate env hm₁.1 hm₁.2 hfs l name, hserv.live hm₁.2⟩) hm
  exact hcfg.1

omit [LinearOrder R] [FloorRing R] in
/-- There is no host and no job before the configuration is read. -/
theorem namesOk_start (cfg : Config R) : NamesOk (Daemon.start cfg) := by
  have hnone : ∀ {x}, (Daemon.start cfg).Live x → x.xType.up = none := by
    intro x hx
    rcases (live_xTypesInit cfg.hint).1 hx with rfl | rfl <;> rfl
  have hfalse : ∀ {x type parent}, (Daemon.start cfg).Live x → x.xType = type →
      type.up ≠ some parent := by
    intro x type parent hx htype hup
    rw [← htype, hnone hx] at hup
    cases hup
  exact ⟨fun hx hhost => absurd rfl (hfalse hx hhost),
    fun hj hjob => absurd rfl (hfalse hj hjob), fun hj hjob => absurd rfl (hfalse hj hjob),
    fun hj hjob => absurd rfl (hfalse hj hjob)⟩

theorem boot_names {cfg : Config R} (hplain : cfg.Plain)
    (hboot : Daemon.boot env cfg = some m) : NamesOk m := by
  have hstarted : Started m := by
    apply boot_keeps hboot
    · intro c m₀ hnone
      have hfirst := started_clusLookup env
        (⟨DaemonOk.start cfg, namesOk_start cfg⟩ : Started (Daemon.start cfg)) (lit "NONE")
      rw [hnone] at hfirst
      exact ⟨⟨hfirst.1.state, hfirst.1.idle, hfirst.1.timers, hfirst.1.nids⟩,
        ⟨hfirst.2.host, hfirst.2.job, hfirst.2.owner, hfirst.2.title⟩⟩
    · exact fun clus hm => started_clusCfg env hm clus
    · exact fun hlnet hm h => started_lnetCfg env hm (hplain _ hlnet) h
    · exact fun hm h => started_fsCfg env hm h
  exact hstarted.2

/-- In every state the daemon reaches, hosts, jobs, owners and titles are words. -/
theorem reached_names {cfg : Config R} (hplain : cfg.Plain)
    (hboot : Daemon.boot env cfg = some m) {events : List (Event R)}
    (hevents : ∀ event ∈ events, event.Plain) : NamesOk (m.run env events) := by
  induction events using List.reverseRecOn with
  | nil => exact boot_names hplain hboot
  | append_singleton events event ih =>
      have hold := ih fun e he => hevents e (List.mem_append_left _ he)
      rw [Daemon.run_concat]
      exact hold.step (reached_ok hboot events)
        (hevents event (List.mem_append_right _ (List.mem_singleton_self event)))

end Reached

end Xltop.Master
