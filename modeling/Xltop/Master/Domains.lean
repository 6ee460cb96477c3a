import Xltop.Core.Iterate
import Xltop.Library.Suffixes
import Xltop.Master.Nids
import Xltop.Master.Reclaim

/-!
# Hosts by domain

A host that the master hears of for the first time begins in the idle job of a
cluster.  `clus_lookup_for_host` looks up what follows each dot of its name
among the domains of the configuration, and falls back on the default cluster.
Domains and idle jobs do not change once the configuration is read.
-/

namespace Xltop.Master

open Function
open Xltop.Hash
open Xltop.Suffixes
open Xltop.Text

/-! ## Domains of a name -/

/-- `c` is a dot. -/
def IsDot (c : Byte) : Prop := c = 46

instance : DecidablePred IsDot := fun c => inferInstanceAs (Decidable (c = 46))

/-- The calls of `clus_add_domain` while the configuration is read, each with
its domain and the name of its cluster. -/
def Config.domainCalls {R : Type*} (cfg : Config R) : List (CString × CString) :=
  cfg.clus.flatMap fun clus => clus.domains.map fun domain => (domain, clus.name)

/-- The cluster of a new host: the one for which the longest domain that
follows a dot of its name was registered last, or the default cluster if there
is none. -/
inductive HomeCluster (calls : List (CString × CString)) (name : CString) : CString → Prop where
  | domain {domain clus : CString} (hlongest : Longest IsDot (lastSet calls) name domain clus) :
      HomeCluster calls name clus
  | default (hnone : ∀ domain, Behind IsDot name domain → lastSet calls domain = none) :
      HomeCluster calls name (lit "NONE")

variable {R : Type*}

theorem clusLookupForHost_eq (m : Daemon R) (name : CString) :
    m.clusLookupForHost name =
      (firstSuffix IsDot (strTableRef m.domainClusTable) name).or m.clus0 := by
  induction name with
  | nil => rfl
  | cons c name ih =>
      have hdot : (if IsDot c then (strTableRef m.domainClusTable name).or
          (firstSuffix IsDot (strTableRef m.domainClusTable) name)
          else firstSuffix IsDot (strTableRef m.domainClusTable) name).or m.clus0 =
          if c = 46 then (strTableRef m.domainClusTable name).or (m.clusLookupForHost name)
          else m.clusLookupForHost name := by
        rw [ih]
        by_cases hc : c = 46
        · rw [if_pos (show IsDot c from hc), if_pos hc, Option.or_assoc]
        · rw [if_neg (show ¬ IsDot c from hc), if_neg hc]
      rw [Daemon.clusLookupForHost, firstSuffix, hdot]
      cases strTableRef m.domainClusTable name <;> rfl

/-! ## What stays the same -/

/-- Clusters, domains and idle jobs are the same. -/
structure SameDomains (m m' : Daemon R) : Prop where
  clus0 : m'.clus0 = m.clus0
  idle : m'.cIdleJob = m.cIdleJob
  domains : m'.domainClusTable = m.domainClusTable

namespace SameDomains

variable {m m' m'' : Daemon R}

theorem refl (m : Daemon R) : SameDomains m m :=
  ⟨rfl, rfl, rfl⟩

theorem trans (h : SameDomains m m') (h' : SameDomains m' m'') : SameDomains m m'' :=
  ⟨h'.clus0.trans h.clus0, h'.idle.trans h.idle, h'.domains.trans h.domains⟩

/-- Changes elsewhere may come first. -/
theorem of_start (h : SameDomains m' m'') (hclus0 : m'.clus0 = m.clus0)
    (hidle : m'.cIdleJob = m.cIdleJob) (hdomains : m'.domainClusTable = m.domainClusTable) :
    SameDomains m m'' :=
  trans ⟨hclus0, hidle, hdomains⟩ h

theorem xHostLookup (m : Daemon R) (name : CString) :
    SameDomains m (m.xHostLookup name).2 := by
  rw [Daemon.xHostLookup]
  cases m.xLookup .host name with
  | some x => exact .refl m
  | none =>
      cases (m.clusLookupForHost name).bind m.cIdleJob with
      | none => exact .refl m
      | some p => exact ⟨rfl, rfl, rfl⟩

theorem lnetLookupNid (m : Daemon R) (l nid : CString) :
    SameDomains m (m.lnetLookupNid l nid).2 := by
  rw [Daemon.lnetLookupNid]
  cases m.lnets l with
  | none => exact .refl m
  | some table =>
      simp only
      cases strTableRef table nid with
      | some x => exact .refl m
      | none =>
          have hhost := xHostLookup m nid
          rcases hx : m.xHostLookup nid with ⟨_ | x, m'⟩ <;> rw [hx] at hhost
          · exact hhost.trans ⟨rfl, rfl, rfl⟩
          · exact hhost.trans ⟨rfl, rfl, rfl⟩

theorem servMsg (env : Env R) (m : Daemon R) (s : XNode) (msg : CString) :
    SameDomains m (Daemon.servMsg env m s msg).1 := by
  rw [Daemon.servMsg]
  split
  · next nid rest hwords =>
      have hnid := lnetLookupNid m (m.sLnet s) nid
      rcases hx : m.lnetLookupNid (m.sLnet s) nid with ⟨_ | x, m'⟩ <;> rw [hx] at hnid
      · exact hnid
      · exact hnid
  · exact .refl m

theorem jobLookup (env : Env R) (m : Daemon R) (name : CString) (parent : XNode)
    (owner title start : CString) :
    SameDomains m (Daemon.jobLookup env m name parent owner title start).2 := by
  rw [Daemon.jobLookup]
  cases m.xLookup .job name <;> exact ⟨rfl, rfl, rfl⟩

theorem jobEnd (m : Daemon R) (j : XNode) (now : R) : SameDomains m (m.jobEnd j now) := by
  rw [Daemon.jobEnd]
  split <;> exact ⟨rfl, rfl, rfl⟩

theorem clusMsgCb (env : Env R) (m : Daemon R) (c : XNode) (msg : CString) (now : R) :
    SameDomains m (Daemon.clusMsgCb env m c msg now) := by
  rw [Daemon.clusMsgCb]
  split
  · next hostName jobName rest hwords =>
      have hjob := jobLookup env m jobName c (rest[0]?.getD (lit "NONE"))
        (rest[1]?.getD (lit "NONE")) (rest[2]?.getD (lit "0"))
      generalize Daemon.jobLookup env m jobName c _ _ _ = looked at hjob ⊢
      obtain ⟨j, m₁⟩ := looked
      simp only
      split
      · exact hjob.trans ⟨rfl, rfl, rfl⟩
      · split
        · exact hjob.trans ⟨rfl, rfl, rfl⟩
        · split
          · exact hjob.trans ((jobEnd _ _ _).of_start rfl rfl rfl)
          · exact hjob.trans ⟨rfl, rfl, rfl⟩
  · exact .refl m

theorem lnetReadLine (m : Daemon R) (l line : CString) :
    SameDomains m (Daemon.lnetReadLine l m line) := by
  rw [Daemon.lnetReadLine]
  split
  · next nid name hwords =>
      have hhost := xHostLookup m name
      rcases hx : m.xHostLookup name with ⟨_ | x, m'⟩ <;> rw [hx] at hhost
      · exact hhost
      · exact hhost.trans ⟨rfl, rfl, rfl⟩
  · exact .refl m

theorem lnetCfg {hint : UInt64} {cfg : LnetCfg} (hm : Daemon.lnetCfg hint m cfg = some m') :
    SameDomains m m' :=
  lnetCfg_keeps (fun _ => ⟨rfl, rfl, rfl⟩)
    (fun _ _ hm₁ => hm₁.trans (lnetReadLine _ cfg.name _)) (refl m) hm

theorem servCreate (p : XNode) (l : CString) (m : Daemon R) (name : CString) :
    SameDomains m (Daemon.servCreate p l m name) := by
  rw [Daemon.servCreate]
  cases m.xLookup .serv name <;> exact ⟨rfl, rfl, rfl⟩

theorem fsCfg [Zero R] [LinearOrder R] {cfg : FsCfg R} (hm : Daemon.fsCfg m cfg = some m') :
    SameDomains m m' :=
  fsCfg_keeps ⟨rfl, rfl, rfl⟩ (fun l name hm₁ => hm₁.trans (servCreate _ l _ name)) hm

theorem step [Field R] [LinearOrder R] [FloorRing R] (env : Env R) (h : DaemonOk m)
    (event : Event R) : SameDomains m (m.step env event) := by
  cases event with
  | servMsg serv msg now =>
      have hreported := h.reported_step env serv msg now
      generalize m.calls env _ = calls, m.step env _ = m' at hreported ⊢
      cases hreported with
      | ignored => exact .refl m
      | looked s hgrown => exact servMsg env m s msg
      | updated s hm hgrown hstep hupdate =>
          have hmsg := servMsg env m s msg
          rw [← hm] at hmsg
          exact hmsg.trans ⟨rfl, rfl, rfl⟩
  | clusMsg clus msg now =>
      rw [Daemon.step]
      cases m.xLookup .clus clus with
      | none => exact .refl m
      | some c => exact clusMsgCb env m c msg now
  | zombie job now =>
      rw [Daemon.step]
      split
      · rw [Daemon.jobZombieCb]
        simp only
        split_ifs <;> exact ⟨rfl, rfl, rfl⟩
      · exact .refl m
  | top q now =>
      obtain ⟨σ, hm, -⟩ := step_top env m q now
      rw [hm]
      exact ⟨rfl, rfl, rfl⟩
  | servGet serv now =>
      obtain ⟨σ, hm, -⟩ := step_servGet env m serv now
      rw [hm]
      exact ⟨rfl, rfl, rfl⟩

end SameDomains

/-! ## Reading the configuration -/

variable {env : Env R} {m m' : Daemon R}

/-- Every cluster has its idle job. -/
def AllIdle (m : Daemon R) : Prop :=
  ∀ ⦃c⦄, m.Live c → c.xType = .clus → ∃ j, m.cIdleJob c = some j

/-- What `clus_lookup` with `L_CREATE` leaves. -/
structure ClusFound (m : Daemon R) (name : CString) (c : XNode) (m' : Daemon R) : Prop where
  ok : DaemonOk m'
  found : m'.xLookup .clus name = some c
  live : ∀ ⦃y⦄, m.Live y → m'.Live y
  allIdle : AllIdle m'
  idle : ∀ ⦃y⦄, m.Live y → m'.cIdleJob y = m.cIdleJob y
  clus0 : m'.clus0 = m.clus0
  domains : m'.domainClusTable = m.domainClusTable

theorem clusFound [Field R] [LinearOrder R] [FloorRing R] (h : DaemonOk m) (hidle : AllIdle m)
    {name : CString} {c : XNode} (hc : Daemon.clusLookup env m name = (c, m')) :
    ClusFound m name c m' := by
  have hgrown := h.clusLookup env name
  rw [hc] at hgrown
  rw [Daemon.clusLookup] at hc
  cases hname : m.xLookup .clus name with
  | some c' =>
      rw [hname] at hc
      obtain ⟨rfl, rfl⟩ := Prod.mk.inj hc
      exact ⟨h, hname, fun _ hy => hy, hidle, fun _ _ => rfl, rfl, rfl⟩
  | none =>
      rw [hname] at hc
      have hroot : XType.clus.up = some (m.xAll 0).xType := by
        rw [h.state.tree.all_type]
        rfl
      have hcreate := h.xInit env (h.state.tree.all_live 0) hroot hname
      have hlive := fun y => m.live_xInit .clus (strHash name) name (some (m.xAll 0)) (x := y)
      have hjob := hcreate.ok.jobFound env ((hlive _).2 (.inl rfl)) rfl
        (lit "IDLE@" ++ name) []
      have hsame := SameDomains.jobLookup env { m with toXTree :=
        (m.xInit .clus (some (m.xAll 0)) (strHash name) name).2 } (lit "IDLE@" ++ name)
        (m.next .clus (strHash name) name) (lit "NONE") (lit "NONE") (lit "0")
      change JobFound env _ _ _ _ (Daemon.jobLookup env _ _ _ (lit "NONE") (lit "NONE")
        (lit "0")).1 (Daemon.jobLookup env _ _ _ (lit "NONE") (lit "NONE") (lit "0")).2 at hjob
      simp only [XTree.xInit_fst] at hc
      generalize Daemon.jobLookup env _ _ _ _ _ _ = looked at hc hjob hsame
      obtain ⟨j, m₁⟩ := looked
      obtain ⟨rfl, rfl⟩ := Prod.mk.inj hc
      obtain ⟨-, hjtype, -⟩ := hjob.ok.state.tree.xLookup_eq_some.1 hjob.found
      have hold : ∀ {y}, m.Live y → y ≠ m.next .clus (strHash name) name := by
        rintro y hy rfl
        exact h.state.tree.not_live_next _ _ _ hy
      have hkept : ∀ {y}, y ≠ m.next .clus (strHash name) name →
          update m₁.cIdleJob (m.next .clus (strHash name) name) (some j) y = m.cIdleJob y :=
        fun hy => (update_of_ne hy _ _).trans (congrFun hsame.idle _)
      exact
        { ok := hgrown.ok
          found := hgrown.ok.state.tree.xLookup_eq_some.2
            ⟨(hjob.live _).2 (.inl ((hlive _).2 (.inl rfl))), rfl, rfl⟩
          live := fun y hy => hgrown.live hy
          allIdle := fun y hy htype => by
            by_cases hnew : y = m.next .clus (strHash name) name
            · exact ⟨j, (congrArg _ hnew).trans (update_self ..)⟩
            · have hne : y ≠ j := XNode.ne_of_types htype hjtype (by decide)
              have hy₁ := ((hjob.live y).1 hy).resolve_right hne
              obtain ⟨i, hi⟩ := hidle (((hlive y).1 hy₁).resolve_left hnew) htype
              exact ⟨i, (hkept hnew).trans hi⟩
          idle := fun y hy => hkept (hold hy)
          clus0 := hsame.clus0
          domains := hsame.domains }

/-! ## Registered domains -/

/-- The domains in the order of their table, with the names of their clusters. -/
def Daemon.domainNames (m : Daemon R) : List (CString × CString) :=
  m.domainClusTable.toList.filterMap fun e => e.eValue.map fun c => (e.eKey, c.xName)

/-- After the calls `calls` of `clus_add_domain` each has set its domain to the
cluster it named, and these clusters and the default one have their idle jobs. -/
structure Registered (hint : UInt64) (calls : List (CString × CString)) (m : Daemon R) :
    Prop where
  ok : DaemonOk m
  home : ∀ ⦃name⦄, (name = lit "NONE" ∨ ∃ domain, (domain, name) ∈ calls) →
    ∃ c j, m.xLookup .clus name = some c ∧ m.cIdleJob c = some j
  clus0 : m.clus0 = m.xLookup .clus (lit "NONE")
  domains : m.domainClusTable =
    strTableOf hint (calls.map fun call => (call.1, m.xLookup .clus call.2))

namespace Registered

variable {hint : UInt64} {calls : List (CString × CString)}

/-- Clusters that stay keep their names, and their domains. -/
theorem kept (h : Registered hint calls m) (hok : DaemonOk m')
    (hlive : ∀ ⦃c⦄, c.xType = .clus → m.Live c → m'.Live c)
    (hidle : ∀ ⦃c⦄, m.Live c → m'.cIdleJob c = m.cIdleJob c) (hclus0 : m'.clus0 = m.clus0)
    (hdomains : m'.domainClusTable = m.domainClusTable) : Registered hint calls m' := by
  have hfound : ∀ {name c}, m.xLookup .clus name = some c → m'.xLookup .clus name = some c := by
    intro name c hc
    obtain ⟨hclive, htype, -⟩ := h.ok.state.tree.xLookup_eq_some.1 hc
    exact h.ok.state.tree.xLookup_of_live hok.state.tree hc (hlive htype hclive)
  have hlook : ∀ {name}, (name = lit "NONE" ∨ ∃ domain, (domain, name) ∈ calls) →
      m'.xLookup .clus name = m.xLookup .clus name := by
    intro name hname
    obtain ⟨c, j, hc, -⟩ := h.home hname
    rw [hc, hfound hc]
  refine ⟨hok, fun name hname => ?_, ?_, ?_⟩
  · obtain ⟨c, j, hc, hj⟩ := h.home hname
    have hclive := (h.ok.state.tree.xLookup_eq_some.1 hc).1
    exact ⟨c, j, hfound hc, (hidle hclive).trans hj⟩
  · rw [hclus0, hlook (.inl rfl)]
    exact h.clus0
  · rw [hdomains, h.domains]
    apply congrArg (strTableOf hint)
    apply List.map_congr_left
    rintro ⟨domain, name⟩ hcall
    rw [hlook (.inr ⟨domain, hcall⟩)]

theorem of_same (h : Registered hint calls m) (hok : DaemonOk m') (hsame : SameDomains m m')
    (hlive : ∀ ⦃c⦄, c.xType = .clus → m.Live c → m'.Live c) : Registered hint calls m' :=
  h.kept hok hlive (fun c _ => congrFun hsame.idle c) hsame.clus0 hsame.domains

theorem ref (h : Registered hint calls m) (domain : CString) :
    strTableRef m.domainClusTable domain =
      (lastSet calls domain).bind fun name => m.xLookup .clus name := by
  rw [h.domains, strTableRef_strTableOf, lastSet_map]
  cases lastSet calls domain <;> rfl

theorem ref_eq_none (h : Registered hint calls m) {domain : CString} :
    strTableRef m.domainClusTable domain = none ↔ lastSet calls domain = none := by
  rw [h.ref]
  cases hlast : lastSet calls domain with
  | none => exact iff_of_true rfl rfl
  | some name =>
      obtain ⟨c, j, hc, -⟩ := h.home (.inr ⟨domain, mem_of_lastSet hlast⟩)
      rw [Option.bind_some, hc]
      exact iff_of_false (Option.some_ne_none c) (Option.some_ne_none name)

/-- Every domain is listed once, with the cluster it was registered for last. -/
theorem mem_domainNames (h : Registered hint calls m) (domain clus : CString) :
    (domain, clus) ∈ m.domainNames ↔ lastSet calls domain = some clus := by
  have hentry (value : Option XNode) :
      ⟨domain, value⟩ ∈ m.domainClusTable.toList ↔
        (lastSet calls domain).map (fun name => m.xLookup .clus name) = some value := by
    rw [h.domains, mem_strTableOf, lastSet_map]
  rw [Daemon.domainNames, List.mem_filterMap]
  constructor
  · rintro ⟨⟨key, value⟩, he, hpair⟩
    obtain ⟨c, rfl, heq⟩ := Option.map_eq_some_iff.1 hpair
    obtain ⟨rfl, rfl⟩ := Prod.mk.inj heq
    obtain ⟨name, hlast, hc⟩ := Option.map_eq_some_iff.1 ((hentry _).1 he)
    obtain ⟨-, -, rfl⟩ := h.ok.state.tree.xLookup_eq_some.1 hc
    exact hlast
  · intro hlast
    obtain ⟨c, -, hc, -⟩ := h.home (.inr ⟨domain, mem_of_lastSet hlast⟩)
    obtain ⟨-, -, rfl⟩ := h.ok.state.tree.xLookup_eq_some.1 hc
    refine ⟨⟨domain, some c⟩, (hentry _).2 ?_, rfl⟩
    rw [hlast, Option.map_some, hc]

theorem nodup_domainNames (h : Registered hint calls m) :
    (m.domainNames.map Prod.fst).Nodup := by
  have hkeys : (m.domainClusTable.toList.map StrTableEntry.eKey).Nodup := by
    rw [h.domains]
    exact (keyed_strTableOf hint _).nodup_map_key
  rw [Daemon.domainNames, List.map_filterMap]
  refine List.pairwise_filterMap.2 ((List.pairwise_map.1 hkeys).imp ?_)
  intro e e' hne domain hdomain domain' hdomain'
  simp only [Option.map_map, Option.map_eq_some_iff] at hdomain hdomain'
  obtain ⟨-, -, rfl⟩ := hdomain
  obtain ⟨-, -, rfl⟩ := hdomain'
  exact hne

/-- What `clus_lookup_for_host` finds for a host. -/
theorem homeCluster (h : Registered hint calls m) (name : CString) :
    ∃ clus c j, HomeCluster calls name clus ∧ m.xLookup .clus clus = some c ∧
      m.cIdleJob c = some j ∧ m.clusLookupForHost name = some c := by
  rw [clusLookupForHost_eq]
  cases hfirst : firstSuffix IsDot (strTableRef m.domainClusTable) name with
  | some c =>
      obtain ⟨domain, hbehind, href, hlongest⟩ := exists_longest hfirst
      rw [h.ref] at href
      obtain ⟨clus, hlast, hc⟩ := Option.bind_eq_some_iff.1 href
      obtain ⟨c', j, hc', hj⟩ := h.home (.inr ⟨domain, mem_of_lastSet hlast⟩)
      obtain rfl : c' = c := Option.some.inj (hc'.symm.trans hc)
      have hdomain : Longest IsDot (lastSet calls) name domain clus :=
        ⟨hbehind, hlast, fun rest hrest hsome => hlongest rest hrest (mt h.ref_eq_none.1 hsome)⟩
      exact ⟨clus, c', j, .domain hdomain, hc, hj, rfl⟩
  | none =>
      obtain ⟨c, j, hc, hj⟩ := h.home (.inl rfl)
      refine ⟨_, c, j, .default fun domain hbehind => ?_, hc, hj, h.clus0.trans hc⟩
      exact h.ref_eq_none.1 (firstSuffix_eq_none.1 hfirst domain hbehind)

/-- One more call. -/
theorem clusAddDomain (h : Registered hint calls m) (hidle : AllIdle m) {name : CString}
    {c : XNode} (hc : m.xLookup .clus name = some c) (domain : CString) :
    Registered hint (calls ++ [(domain, name)]) (m.clusAddDomain c domain) where
  ok := ⟨h.ok.state, h.ok.idle, h.ok.timers, h.ok.nids⟩
  home name' hname' := by
    obtain ⟨hclive, htype, -⟩ := h.ok.state.tree.xLookup_eq_some.1 hc
    by_cases heq : name' = name
    · obtain ⟨j, hj⟩ := hidle hclive htype
      exact ⟨c, j, heq ▸ hc, hj⟩
    · apply h.home
      refine hname'.imp_right fun ⟨domain', hcall⟩ => ⟨domain', ?_⟩
      rw [List.mem_append, List.mem_singleton] at hcall
      exact hcall.resolve_right fun hlast => heq (Prod.mk.inj hlast).2
  clus0 := h.clus0
  domains := by
    change strTableSet m.domainClusTable domain c = _
    rw [List.map_append, List.map_singleton, strTableOf_concat, ← strTableStore_some, h.domains]
    exact congrArg _ hc.symm

theorem addDomains (h : Registered hint calls m) (hidle : AllIdle m) {name : CString}
    {c : XNode} (hc : m.xLookup .clus name = some c) (domains : List CString) :
    Registered hint (calls ++ domains.map fun domain => (domain, name))
        (domains.foldl (fun m domain => m.clusAddDomain c domain) m) ∧
      AllIdle (domains.foldl (fun m domain => m.clusAddDomain c domain) m) := by
  induction domains generalizing calls m with
  | nil =>
      rw [List.map_nil, List.append_nil]
      exact ⟨h, hidle⟩
  | cons domain domains ih =>
      rw [List.map_cons, List.append_cons, List.foldl_cons]
      exact ih (h.clusAddDomain hidle hc domain) hidle hc

variable [Field R] [LinearOrder R] [FloorRing R]

theorem clusCfg (env : Env R) (h : Registered hint calls m) (hidle : AllIdle m) (cfg : ClusCfg) :
    Registered hint (calls ++ cfg.domains.map fun domain => (domain, cfg.name))
        (Daemon.clusCfg env m cfg) ∧
      AllIdle (Daemon.clusCfg env m cfg) := by
  rw [Daemon.clusCfg]
  rcases hc : Daemon.clusLookup env m cfg.name with ⟨c, m'⟩
  have hfound := clusFound h.ok hidle hc
  have hkept := h.kept hfound.ok (fun _ _ hlive => hfound.live hlive) hfound.idle hfound.clus0
    hfound.domains
  exact hkept.addDomains hfound.allIdle hfound.found cfg.domains

theorem clusCfgs (env : Env R) (h : Registered hint calls m) (hidle : AllIdle m)
    (cfgs : List ClusCfg) :
    Registered hint
      (calls ++ cfgs.flatMap fun cfg => cfg.domains.map fun domain => (domain, cfg.name))
      (cfgs.foldl (Daemon.clusCfg env) m) := by
  induction cfgs generalizing calls m with
  | nil =>
      rw [List.flatMap_nil, List.append_nil]
      exact h
  | cons cfg cfgs ih =>
      have hcfg := h.clusCfg env hidle cfg
      rw [List.flatMap_cons, ← List.append_assoc, List.foldl_cons]
      exact ih hcfg.1 hcfg.2

end Registered

section Runs

variable [Field R] [LinearOrder R] [FloorRing R] {cfg : Config R} {m₀ : Daemon R}

/-- The default cluster, before the first section. -/
theorem registered_default {c : XNode}
    (hc : Daemon.clusLookup env (Daemon.start cfg) (lit "NONE") = (c, m₀)) :
    Registered cfg.nrDomains [] { m₀ with clus0 := some c } ∧ AllIdle m₀ := by
  have hnone : AllIdle (Daemon.start cfg) := by
    intro y hy htype
    have hnil : (Daemon.start cfg).nodes .clus = [] :=
      HashTable.toList_init (cfg.hint .clus)
    rw [XTree.Live, htype, hnil] at hy
    cases hy
  have hfound := clusFound (.start cfg) hnone hc
  have hok : DaemonOk { m₀ with clus0 := some c } :=
    ⟨hfound.ok.state, hfound.ok.idle, hfound.ok.timers, hfound.ok.nids⟩
  refine ⟨⟨hok, fun name hname => ?_, hfound.found.symm, hfound.domains⟩, hfound.allIdle⟩
  obtain rfl | ⟨domain, hcall⟩ := hname
  case inr => cases hcall
  obtain ⟨hclive, htype, -⟩ := hfound.ok.state.tree.xLookup_eq_some.1 hfound.found
  obtain ⟨j, hj⟩ := hfound.allIdle hclive htype
  exact ⟨c, j, hfound.found, hj⟩

theorem registered_boot (hboot : Daemon.boot env cfg = some m₀) :
    Registered cfg.nrDomains cfg.domainCalls m₀ := by
  obtain ⟨c, m, m₁, hc, hlnets, hfs⟩ := boot_stages hboot
  obtain ⟨hdefault, hidle⟩ := registered_default hc
  have hclus := hdefault.clusCfgs env hidle cfg.clus
  have hlnet := foldlM_keeps
    (fun _ hm h => hm.of_same (hm.ok.lnetCfg env h).ok (.lnetCfg h)
      fun _ _ hlive => (hm.ok.lnetCfg env h).live hlive) hclus hlnets
  exact foldlM_keeps
    (fun _ hm h => hm.of_same (hm.ok.fsCfg env h).ok (.fsCfg h)
      fun _ _ hlive => (hm.ok.fsCfg env h).live hlive) hlnet hfs

/-- Only jobs go away. -/
theorem live_step (h : DaemonOk m) (event : Event R) {x : XNode} (hx : x.xType ≠ .job)
    (hlive : m.Live x) : (m.step env event).Live x := by
  rcases step_cases env h event with ⟨clus, msg, now, rfl⟩ | ⟨job, now, rfl⟩ | hkept
  · cases told_step env h clus msg now with
    | ignored hsame _ =>
        rw [hsame]
        exact hlive
    | line _ _ hline => exact (hline.live x).2 (.inl (.inl hlive))
  · by_contra hgone
    obtain ⟨rfl, hjob, -⟩ := (fired_step env h job now).of_gone h hlive hgone
    exact hx hjob
  · exact hkept.live hlive

theorem reached_domains (hboot : Daemon.boot env cfg = some m₀) (events : List (Event R)) :
    Registered cfg.nrDomains cfg.domainCalls (m₀.run env events) := by
  refine List.foldlRecOn events _ (registered_boot hboot) fun m hm event _ => ?_
  refine hm.of_same (hm.ok.step env event).2 (.step env hm.ok event) fun c htype hlive => ?_
  exact live_step hm.ok event (by rw [htype]; decide) hlive

/-- A host that is not known yet begins in the idle job of the cluster for which
the longest domain among what follows the dots of its name was registered last,
and in that of the default cluster if there is no such domain.  A known host
stays where it is. -/
theorem longest_domain_wins (hboot : Daemon.boot env cfg = some m₀) (events : List (Event R))
    (name : CString) :
    let m := m₀.run env events
    (∀ x, m.xLookup .host name = some x → m.xHostLookup name = (some x, m)) ∧
      (m.xLookup .host name = none → ∃ clus c j x m',
        HomeCluster cfg.domainCalls name clus ∧ m.xLookup .clus clus = some c ∧
        m.cIdleJob c = some j ∧ m.xHostLookup name = (some x, m') ∧ ¬ m.Live x ∧
        m'.xLookup .host name = some x ∧ m'.parent x = some j ∧
        ∀ y, y ≠ x → m'.parent y = m.parent y) := by
  intro m
  have hreg : Registered cfg.nrDomains cfg.domainCalls m := reached_domains hboot events
  constructor
  · intro x hx
    rw [Daemon.xHostLookup, hx]
  · intro hnone
    obtain ⟨clus, c, j, hhome, hc, hj, hclus⟩ := hreg.homeCluster name
    have hidle : (m.clusLookupForHost name).bind m.cIdleJob = some j := by
      rw [hclus, Option.bind_some, hj]
    have hx : m.xHostLookup name = (some (m.next .host (strHash name) name),
        { m with toXTree := (m.xInit .host (some j) (strHash name) name).2 }) := by
      rw [Daemon.xHostLookup, hnone, hidle]
      rfl
    have hfound := hostFound env hreg.ok hx
    refine ⟨clus, c, j, _, _, hhome, hc, hj, hx, hreg.ok.state.tree.not_live_next _ _ _,
      hfound.found, ?_, fun y hy => ?_⟩
    · rw [hfound.parent, if_pos rfl, Daemon.homeOf, hnone]
      exact hidle
    · rw [hfound.parent, if_neg hy]

end Runs

/-- Two clusters, the domain of one below that of the other. -/
def sampleDomains : Config ℚ :=
  { sampleConfig with clus := [⟨lit "tacc", [lit "utexas.edu"]⟩,
      ⟨lit "ranger", [lit "ranger.utexas.edu"]⟩] }

def sampleDomainsDaemon : Daemon ℚ :=
  (Daemon.boot sampleEnv sampleDomains).get (by decide +kernel)

theorem boot_sampleDomains : Daemon.boot sampleEnv sampleDomains = some sampleDomainsDaemon :=
  (Option.some_get _).symm

theorem longest_domain_wins_sample :
    ∃ clus x m', HomeCluster sampleDomains.domainCalls (lit "i101.ranger.utexas.edu") clus ∧
      sampleDomainsDaemon.xHostLookup (lit "i101.ranger.utexas.edu") = (some x, m') ∧
      m'.xLookup .host (lit "i101.ranger.utexas.edu") = some x := by
  obtain ⟨clus, -, -, x, m', hhome, -, -, hx, -, hfound, -⟩ :=
    (longest_domain_wins boot_sampleDomains [] (lit "i101.ranger.utexas.edu")).2
      (by decide +kernel)
  exact ⟨clus, x, m', hhome, hx, hfound⟩

end Xltop.Master
