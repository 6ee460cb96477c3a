import Xltop.Master.Daemon

/-!
# Starting the daemon

`main` reads the configuration and creates all clusters, lnets, filesystems
and servers before the first event; none is created later.  A fatal error is
`none`.  Sockets, options and signals are left out.
-/

namespace Xltop.Master

open Function
open Xltop.Text
open Xltop.Hash
open Xltop.Rate

/-- A `clus` section. -/
structure ClusCfg where
  name : CString
  domains : List CString

/-- An `lnet` section; of each file its lines, or none if it cannot be
opened. -/
structure LnetCfg where
  name : CString
  files : List (Option (List CString))

/-- An `fs` section. -/
structure FsCfg (R : Type*) where
  name : CString
  lnet : Option CString
  servs : List CString
  interval : R

/-- What `main` uses of the configuration. -/
structure Config (R : Type*) where
  nrHostsHint : UInt64
  nrJobsHint : UInt64
  clus : List ClusCfg
  lnets : List LnetCfg
  fs : List (FsCfg R)

namespace Config

variable {R : Type*}

/-- `x_nr_hint` of each type when `x_types_init` is called. -/
def hint (cfg : Config R) : XType → UInt64
  | .host => cfg.nrHostsHint
  | .job => cfg.nrJobsHint
  | .clus => UInt64.ofNat cfg.clus.length
  | .serv => UInt64.ofNat ((cfg.fs.map fun fs => fs.servs.length).sum)
  | .fs => UInt64.ofNat cfg.fs.length
  | .u | .v => 1

def nrDomains (cfg : Config R) : UInt64 :=
  UInt64.ofNat ((cfg.clus.map fun clus => clus.domains.length).sum)

end Config

namespace Daemon

variable {R : Type*}

/-- `clus_lookup` with `L_CREATE`: a new cluster gets its idle job. -/
def clusLookup (env : Env R) (m : Daemon R) (name : CString) : XNode × Daemon R :=
  match m.xLookup .clus name with
  | some c => (c, m)
  | none =>
      let (c, t) := m.xInit .clus (some (m.xAll 0)) (strHash name) name
      let m := { m with toXTree := t }
      let (j, m) := jobLookup env m (lit "IDLE@" ++ name) c (lit "NONE")
        (lit "NONE") (lit "0")
      let m := m.setJob j fun job => { job with jFake := true }
      (c, { m with cIdleJob := update m.cIdleJob c (some j) })

def clusAddDomain (m : Daemon R) (c : XNode) (domain : CString) : Daemon R :=
  { m with domainClusTable := strTableSet m.domainClusTable domain c }

def clusCfg (env : Env R) (m : Daemon R) (cfg : ClusCfg) : Daemon R :=
  let (c, m) := clusLookup env m cfg.name
  cfg.domains.foldl (fun m domain => m.clusAddDomain c domain) m

/-- A line of `lnet_read`: a nid and the name of its host. -/
def lnetReadLine (l : CString) (m : Daemon R) (line : CString) : Daemon R :=
  match (split 2 (some (chop line 35))).1 with
  | [nid, name] =>
      match m.xHostLookup name with
      | (none, m) => m
      | (some x, m) =>
          let table := (m.lnets l).map fun table => strTableSet table nid x
          { m with lnets := update m.lnets l table }
  | _ => m

def lnetRead (l : CString) (m : Daemon R) (lines : List CString) : Daemon R :=
  lines.foldl (lnetReadLine l) m

/-- `lnet_cfg`, with `lnet_lookup` and `L_CREATE`. -/
def lnetCfg (hint : UInt64) (m : Daemon R) (cfg : LnetCfg) : Option (Daemon R) :=
  let m := match m.lnets cfg.name with
    | some _ => m
    | none => { m with lnets := update m.lnets cfg.name (some (hashTableInit hint)) }
  cfg.files.foldlM (fun m file => file.map (m.lnetRead cfg.name)) m

/-- `serv_create`: a known server keeps its filesystem and lnet. -/
def servCreate (p : XNode) (l : CString) (m : Daemon R) (name : CString) : Daemon R :=
  match m.xLookup .serv name with
  | some _ => m
  | none =>
      let (s, t) := m.xInit .serv (some p) (strHash name) name
      { m with toXTree := t, sLnet := update m.sLnet s l }

def fsCfg [Zero R] [LinearOrder R] (m : Daemon R) (cfg : FsCfg R) :
    Option (Daemon R) :=
  let (x, t) := m.xLookupCreate .fs cfg.name (some (m.xAll 1))
  let m := { m with toXTree := t }
  match cfg.lnet with
  | none => none
  | some l =>
      if (m.lnets l).isNone ∨ cfg.interval ≤ 0 ∨ cfg.servs = [] then none
      else some (cfg.servs.foldl (servCreate x l) m)

/-- Before the configuration is used: the roots and empty tables. -/
def start [Zero R] (cfg : Config R) : Daemon R where
  toXState := xStateInit cfg.hint
  jobs := fun _ => ⟨[], [], 0, none, false⟩
  cIdleJob := fun _ => none
  sLnet := fun _ => []
  clus0 := none
  domainClusTable := hashTableInit cfg.nrDomains
  lnets := fun _ => none

/-- `main` up to `ev_run`. -/
def boot [Zero R] [LinearOrder R] (env : Env R) (cfg : Config R) :
    Option (Daemon R) :=
  if env.conf.kTick ≤ 0 ∨ env.conf.kWindow ≤ 0 then none
  else
    let (c, m) := clusLookup env (start cfg) (lit "NONE")
    let m := cfg.clus.foldl (clusCfg env) { m with clus0 := some c }
    (cfg.lnets.foldlM (lnetCfg cfg.nrHostsHint) m).bind fun m =>
      cfg.fs.foldlM fsCfg m

end Daemon

/-! ## What starting keeps -/

/-- A loop that may fail keeps what its body keeps. -/
theorem foldlM_keeps {α σ : Type*} {P : σ → Prop} {body : σ → α → Option σ} {l : List α}
    (hbody : ∀ {s s' a}, a ∈ l → P s → body s a = some s' → P s') {s s' : σ} (hs : P s)
    (hl : l.foldlM body s = some s') : P s' := by
  induction l generalizing s with
  | nil =>
      rw [List.foldlM_nil] at hl
      exact Option.some.inj hl ▸ hs
  | cons a l ih =>
      rw [List.foldlM_cons] at hl
      obtain ⟨s₁, hstep, hrest⟩ := Option.bind_eq_some_iff.1 hl
      have hs₁ := hbody List.mem_cons_self hs hstep
      exact ih (fun ha => hbody (List.mem_cons_of_mem _ ha)) hs₁ hrest

section Keeps

variable {R : Type*} {env : Env R} {P : Daemon R → Prop} {m m' : Daemon R}

/-- The lines of the files of an lnet. -/
theorem lnetCfg_keeps {hint : UInt64} {cfg : LnetCfg}
    (hnew : m.lnets cfg.name = none →
      P { m with lnets := update m.lnets cfg.name (some (hashTableInit hint)) })
    (hline : ∀ {m lines line}, some lines ∈ cfg.files → line ∈ lines → P m →
      P (Daemon.lnetReadLine cfg.name m line))
    (h : P m) (hm : Daemon.lnetCfg hint m cfg = some m') : P m' := by
  have hfile : ∀ {m m' file}, file ∈ cfg.files → P m →
      file.map (Daemon.lnetRead cfg.name m) = some m' → P m' := by
    intro m m' file hmem hm hfile
    obtain ⟨lines, rfl, rfl⟩ := Option.map_eq_some_iff.1 hfile
    exact List.foldlRecOn lines _ hm fun m hm line hl => hline hmem hl hm
  rw [Daemon.lnetCfg] at hm
  cases hl : m.lnets cfg.name with
  | some table =>
      rw [hl] at hm
      exact foldlM_keeps hfile h hm
  | none =>
      rw [hl] at hm
      exact foldlM_keeps hfile (hnew hl) hm

/-- The filesystem and its servers. -/
theorem fsCfg_keeps [Zero R] [LinearOrder R] {cfg : FsCfg R}
    (h : P { m with toXTree := (m.xLookupCreate .fs cfg.name (some (m.xAll 1))).2 })
    (hserv : ∀ {m₁} l name, P m₁ → P (Daemon.servCreate
      (m.xLookupCreate .fs cfg.name (some (m.xAll 1))).1 l m₁ name))
    (hm : Daemon.fsCfg m cfg = some m') : P m' := by
  rw [Daemon.fsCfg] at hm
  simp only at hm
  split at hm
  · cases hm
  · next l hl =>
      split at hm
      · cases hm
      · rw [← Option.some.inj hm]
        exact List.foldlRecOn cfg.servs _ h fun _ hm name _ => hserv l name hm

variable [Zero R] [LinearOrder R] {cfg : Config R}

/-- The stages of `main`, when none of them fails. -/
theorem boot_stages (hboot : Daemon.boot env cfg = some m) :
    ∃ c m₀ m₁, Daemon.clusLookup env (Daemon.start cfg) (lit "NONE") = (c, m₀) ∧
      cfg.lnets.foldlM (Daemon.lnetCfg cfg.nrHostsHint)
        (cfg.clus.foldl (Daemon.clusCfg env) { m₀ with clus0 := some c }) = some m₁ ∧
      cfg.fs.foldlM Daemon.fsCfg m₁ = some m := by
  rw [Daemon.boot] at hboot
  split at hboot
  · cases hboot
  · obtain ⟨m₁, hlnets, hfs⟩ := Option.bind_eq_some_iff.1 hboot
    exact ⟨_, _, m₁, rfl, hlnets, hfs⟩

/-- What holds of the default cluster and is kept by every section of the
configuration holds before the first event. -/
theorem boot_keeps (hboot : Daemon.boot env cfg = some m)
    (hdefault : ∀ {c m₀}, Daemon.clusLookup env (Daemon.start cfg) (lit "NONE") = (c, m₀) →
      P { m₀ with clus0 := some c })
    (hclus : ∀ {m} clus, P m → P (Daemon.clusCfg env m clus))
    (hlnet : ∀ {m m' lnet}, lnet ∈ cfg.lnets → P m →
      Daemon.lnetCfg cfg.nrHostsHint m lnet = some m' → P m')
    (hfs : ∀ {m m' fs}, P m → Daemon.fsCfg m fs = some m' → P m') : P m := by
  obtain ⟨c, m₀, m₁, hnone, hlnets, hservs⟩ := boot_stages hboot
  have hsections := List.foldlRecOn cfg.clus (Daemon.clusCfg env) (hdefault hnone)
    fun _ hm clus _ => hclus clus hm
  exact foldlM_keeps (fun _ => hfs) (foldlM_keeps hlnet hsections hlnets) hservs

end Keeps

/-- `main` exits on a tick that is not positive. -/
theorem kTick_pos_of_boot {R : Type*} [Zero R] [LinearOrder R] {env : Env R} {cfg : Config R}
    {m : Daemon R} (hboot : Daemon.boot env cfg = some m) : 0 < env.conf.kTick := by
  rw [Daemon.boot] at hboot
  split at hboot
  · cases hboot
  · next hpos => exact lt_of_not_ge fun hle => hpos (.inl hle)

end Xltop.Master
