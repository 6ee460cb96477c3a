import Xltop.Http.Handling
import Xltop.Http.Listener

/-!
# A server with a table

The application behind the connections of a listener is a table of entries and
the state of their operations.  Without the table, the same operations answer
each request by its path.  What has happened to the one is then what could have
happened to the other, so that nothing depends on which requests came before.
-/

namespace Xltop.Http

open Function
open Xltop.Buffer
open Xltop.Text

variable {O D S E : Type*}

/-! ## Responses -/

/-- The operations, and any change of the status, keep what `P` says of a
response. -/
structure Ops.Keeps (app : Ops O D S) (P : Response → Prop) : Prop where
  status : ∀ {r} (status : Int32), P r → P (r.withStatus status)
  lookup : ∀ {ops f}, app.oLookup ops = some f → ∀ s data name rest q {r}, P r →
    P (f s data name rest q r).2.2
  method : ∀ {ops method f}, app.oMethod ops method = some f → ∀ s data q {r}, P r →
    P (f s data q r).2

/-- The operations leave responses within their buffers. -/
abbrev Ops.Ok (app : Ops O D S) : Prop :=
  app.Keeps Response.Ok

section Keeps

variable {env : EntryEnv O} {app : Ops O D S} {P : Response → Prop} {q : Request}
  {bl bl' : BotzListen O D} {s s' : S} {r r' : Response}

theorem Ops.Keeps.lookUp (h : app.Keeps P) {p : BotzLookup} {e : Option BotzEntry} (hr : P r)
    (heq : bl.lookUp env app q s r p = some (e, bl', s', r')) : P r' := by
  rw [BotzListen.lookUp] at heq
  split at heq
  · cases heq
    exact hr
  · split at heq
    · cases heq
    · split at heq
      · cases heq
        exact h.status 404 hr
      · next f hops =>
          have hf := h.lookup hops s (bl.eData p.pEntry) p.pName p.pRest q hr
          split at heq
          · next hlooked =>
              cases heq
              rw [hlooked] at hf
              exact h.status 404 hf
          · next hlooked =>
              cases heq
              rw [hlooked] at hf
              exact hf
          · next hlooked =>
              rw [hlooked] at hf
              split at heq
              · cases heq
                exact h.status 404 hf
              · cases heq
                exact hf

theorem Ops.Keeps.handleLoop (h : app.Keeps P) {pEntry e : Option BotzEntry}
    {pRest : Option CString} (hr : P r) (heq : bl.handleLoop env app q s r pEntry pRest = some (e, bl', s', r')) :
    P r' := by
  fun_induction BotzListen.handleLoop env app q bl s r pEntry pRest with
  | case1 bl s r pEntry pRest pEntry' hwalk =>
      cases heq
      exact hr
  | case2 bl s r pEntry pRest p hwalk hlook => cases heq
  | case3 bl s r pEntry pRest p hwalk e bl₁ s₁ r₁ hlook ih => exact ih (h.lookUp hr hlook) heq

theorem Ops.Keeps.handle (h : app.Keeps P) {path : CString} (hr : P r)
    (heq : bl.handle env app q s r path = some (bl', s', r')) : P r' := by
  rw [BotzListen.handle] at heq
  split at heq
  · cases heq
  · next hloop =>
      cases heq
      exact h.handleLoop hr hloop
  · next hloop =>
      have hr₁ := h.handleLoop hr hloop
      split at heq
      · cases heq
      · split at heq
        · cases heq
          exact h.status 403 hr₁
        · next hmethod =>
            cases heq
            exact h.method hmethod _ _ q hr₁


variable {bl₀ : BotzListen O D} {created : Creates O D}

theorem Ops.Keeps.routeStep (h : app.Keeps P) (s : S) (hr : P r) (v : Place O D)
    (name : CString) (rest : Option CString) :
    P (Http.routeStep app q bl₀ created s r v name rest).2.2 := by
  rw [Http.routeStep]
  split
  · exact hr
  · split
    · exact h.status 404 hr
    · next hops =>
        obtain ⟨ops, -, hlookup⟩ := Option.bind_eq_some_iff.1 hops
        have hf := h.lookup hlookup s (placeData bl₀ v) name rest q hr
        split
        · next hlooked =>
            rw [hlooked] at hf
            exact hf
        · next hlooked =>
            rw [hlooked] at hf
            exact h.status 404 hf

theorem Ops.Keeps.routeLoop (h : app.Keeps P) (s : S) (hr : P r) (v : Option (Place O D))
    (rest : Option CString) : P (Http.routeLoop app q bl₀ created s r v rest).2.2 := by
  fun_induction Http.routeLoop app q bl₀ created s r v rest with
  | case1 s r v rest w hwalk => exact hr
  | case2 s r v rest u name rest' hwalk w s₁ r₁ hstep ih =>
      apply ih
      have hr₁ : P (Http.routeStep app q bl₀ created s r u name rest').2.2 :=
        h.routeStep s hr u name rest'
      rw [hstep] at hr₁
      exact hr₁

theorem Ops.Keeps.route (h : app.Keeps P) (s : S) (hr : P r) (path : CString) :
    P (Http.route app q bl₀ created s r path).2 := by
  have hloop : P (Http.routeLoop app q bl₀ created s r (some (bl₀.blRootEntry, []))
      (some path)).2.2 :=
    h.routeLoop s hr _ _
  rw [Http.route]
  split
  · next heq =>
      rw [heq] at hloop
      exact hloop
  · next heq =>
      rw [heq] at hloop
      split
      · exact h.status 403 hloop
      · next hmethod =>
          obtain ⟨ops, -, hf⟩ := Option.bind_eq_some_iff.1 hmethod
          exact h.method hf _ _ q hloop

end Keeps

/-! ## Entries below the root -/

/-- A name that is one component of a path. -/
structure IsName (name : CString) : Prop where
  cut : pathsep (some name) = (some name, none)
  dot : name ≠ lit "."
  dots : name ≠ lit ".."

/-- The start of a server: `botz_listen_init` and calls of `botz_add`, `none` if
one of them fails. -/
def bootEntries (env : EntryEnv O) (nrEntries : UInt64) (calls : List (AddCall O D)) :
    Option (BotzListen O D) :=
  (botzListenInit env nrEntries).bind fun bl =>
    calls.foldlM (fun bl call =>
      match bl.botzAdd env call.path call.ops call.data with
      | (true, bl) => some bl
      | (false, _) => none) bl

/-- The operations and the data of what is below the root, which is below
itself. -/
abbrev Roots (O D : Type*) := CString → Option (Option O × Option D)

def rootsOf (env : EntryEnv O) (calls : List (AddCall O D)) : Roots O D :=
  calls.foldl (fun roots call => update roots (call.path.getD []) (some (call.ops, call.data)))
    (update (fun _ => none) [] (some (some env.botzDefaultOps, none)))

/-- What is below the root is the root or has been added. -/
theorem rootsOf_eq_some {env : EntryEnv O} {calls : List (AddCall O D)} {name : CString}
    {v : Option O × Option D} (h : rootsOf env calls name = some v) :
    v = (some env.botzDefaultOps, none) ∨ ∃ call ∈ calls, v = (call.ops, call.data) := by
  induction calls using List.reverseRecOn with
  | nil =>
      by_cases hname : name = []
      · subst hname
        rw [rootsOf, List.foldl_nil, update_self] at h
        exact .inl (Option.some.inj h).symm
      · rw [rootsOf, List.foldl_nil, update_of_ne hname] at h
        cases h
  | append_singleton calls call ih =>
      rw [rootsOf, List.foldl_concat] at h
      by_cases hname : name = call.path.getD []
      · rw [hname, update_self] at h
        exact .inr ⟨call, by simp, (Option.some.inj h).symm⟩
      · rw [update_of_ne hname] at h
        rcases ih h with hroot | ⟨call', hmem, hv⟩
        · exact .inl hroot
        · exact .inr ⟨call', List.mem_append_left _ hmem, hv⟩

/-- All entries are below the root. -/
structure Flat (env : EntryEnv O) (bl : BotzListen O D) (roots : Roots O D) : Prop where
  ok : bl.EntriesOk env
  root : bl.blRootEntry.eName = []
  below : ∀ e ∈ bl.blEntryTable.toList, bl.eParent e = some bl.blRootEntry
  entries : ∀ name, (bl.child bl.blRootEntry name).map (fun e => (bl.eOps e, bl.eData e)) =
    roots name

section Flat

open BotzListen

variable {env : EntryEnv O} {bl : BotzListen O D} {roots : Roots O D}

theorem bpWalk_name (bl : BotzListen O D) (e : BotzEntry) {name : CString} (h : IsName name) :
    bl.bpWalk (some e) (some name) = .component ⟨e, name, none⟩ := by
  rw [BotzListen.bpWalk.eq_3]
  split
  · next hcut => cases h.cut.symm.trans hcut
  · next hcut =>
      cases h.cut.symm.trans hcut
      rw [if_neg h.dot, if_neg h.dots]

/-- `botz_lookup` of a name below the root creates what is missing. -/
theorem Flat.lookup (h : Flat env bl roots) (hblock : ∀ n, env.block n ≠ none) {name : CString}
    (hname : IsName name) :
    ∃ e bl', bl.botzLookup env (some name) true = (some e, bl') ∧ bl'.EntriesOk env ∧
      bl'.blRootEntry = bl.blRootEntry ∧ bl'.child bl.blRootEntry name = some e ∧
      (∀ x ∈ bl'.blEntryTable.toList, x = e ∨ x ∈ bl.blEntryTable.toList) ∧
      (∀ x ∈ bl.blEntryTable.toList, bl'.eOps x = bl.eOps x ∧ bl'.eData x = bl.eData x) ∧
      bl.Grows bl' := by
  have hwalk := bpWalk_name bl bl.blRootEntry hname
  have hlookup : bl.botzLookup env (some name) true =
      botzLookupLoop env true bl (some bl.blRootEntry) (some name) := rfl
  have hstop : ∀ (bl' : BotzListen O D) (e : BotzEntry),
      botzLookupLoop env true bl' (some e) none = (some e, bl') := fun bl' e => by
    have hend : bl'.bpWalk (some e) none = .stopped (some e) := by rw [BotzListen.bpWalk]
    rw [botzLookupLoop]
    split
    · next r hstopped => cases hend.symm.trans hstopped; rfl
    · next p hcomponent => cases hend.symm.trans hcomponent
  have hloop := botzLookupLoop.eq_1 env true bl (some bl.blRootEntry) (some name)
  split at hloop
  · next r hstopped => cases hwalk.symm.trans hstopped
  · next p hwalk' =>
      obtain rfl := Walked.component.inj (hwalk'.symm.trans hwalk)
      rw [h.ok.btLookup1_eq] at hloop
      cases hc : bl.child bl.blRootEntry name with
      | some c =>
          simp only [hc] at hloop
          rw [h.ok.link_child hc, hstop] at hloop
          exact ⟨c, bl, hlookup.trans hloop, h.ok, rfl, hc, fun x hx => .inr hx,
            fun x _ => ⟨rfl, rfl⟩, .refl bl⟩
      | none =>
          obtain ⟨block, hb⟩ := Option.ne_none_iff_exists'.1 (hblock bl.mallocs)
          have hnew : (bl.botzNewEntry env name none none).2.link env
              (bl.botzNewEntry env name none none).1 bl.blRootEntry =
              EntriesOk.added bl env bl.blRootEntry name :=
            EntriesOk.link_new hb
          have hmade : (bl.botzNewEntry env name none none).1 = some ⟨bl.mallocs, name⟩ := by
            rw [BotzListen.botzNewEntry, hb]
          simp only [hc, if_true] at hloop
          rw [hnew, hmade, hstop] at hloop
          have hok := h.ok.added_ok h.ok.root_mem hc
          have hext : bl.Extends (EntriesOk.added bl env bl.blRootEntry name) :=
            h.ok.extends_added
          refine ⟨_, _, hlookup.trans hloop, hok, rfl, ?_, fun x hx => ?_, fun x hx => ?_,
            hext.toGrows⟩
          · exact hok.child_eq_some.2 ⟨EntriesOk.mem_added.2 (.inl rfl), rfl,
              EntriesOk.parent_new⟩
          · exact EntriesOk.mem_added.1 hx
          · exact ⟨hext.ops (h.ok.older x hx), hext.data (h.ok.older x hx)⟩

/-- `botz_add` of a name. -/
theorem Flat.add (h : Flat env bl roots) (hblock : ∀ n, env.block n ≠ none) {name : CString}
    (hname : IsName name) (ops : Option O) (data : Option D) :
    ∃ bl', bl.botzAdd env (some name) ops data = (true, bl') ∧
      Flat env bl' (update roots name (some (ops, data))) := by
  obtain ⟨e, bl', hlookup, hok, hroot, hchild, hmem, hsame, hgrows⟩ := h.lookup hblock hname
  have hmeme := (hok.child_eq_some.1 hchild).1
  refine ⟨{ bl' with eOps := update bl'.eOps e ops, eData := update bl'.eData e data },
    ?_, hok.with_ops _ _, hroot ▸ h.root, fun x hx => ?_, fun name' => ?_⟩
  · rw [BotzListen.botzAdd, hlookup]
  · change bl'.eParent x = some bl'.blRootEntry
    rw [hroot]
    rcases hmem x hx with rfl | hx
    · exact (hok.child_eq_some.1 hchild).2.2
    · exact hgrows.parent (h.below x hx)
  · change (bl'.child bl'.blRootEntry name').map
      (fun x => (update bl'.eOps e ops x, update bl'.eData e data x)) = _
    rw [hroot]
    by_cases heq : name' = name
    · subst heq
      rw [hchild, Option.map_some, update_self, update_self, update_self]
    · rw [update_of_ne heq, ← h.entries name']
      cases hc : bl'.child bl.blRootEntry name' with
      | none =>
          cases hold : bl.child bl.blRootEntry name' with
          | none => rfl
          | some c => cases hc.symm.trans (h.ok.child_mono hok hgrows hold)
      | some c =>
          obtain ⟨hcmem, hcname, hcparent⟩ := hok.child_eq_some.1 hc
          have hne : c ≠ e := by
            rintro rfl
            exact heq (hcname.symm.trans (hok.child_eq_some.1 hchild).2.1)
          have hcold : c ∈ bl.blEntryTable.toList := (hmem c hcmem).resolve_left hne
          have hold : bl.child bl.blRootEntry name' = some c :=
            h.ok.child_eq_some.2 ⟨hcold, hcname, h.below c hcold ▸ rfl⟩
          rw [hold, Option.map_some, Option.map_some, update_of_ne hne, update_of_ne hne,
            (hsame c hcold).1, (hsame c hcold).2]

theorem flat_init (hblock : ∀ n, env.block n ≠ none) (nrEntries : UInt64) :
    ∃ bl : BotzListen O D, botzListenInit env nrEntries = some bl ∧
      Flat env bl (rootsOf env []) := by
  obtain ⟨block, hb⟩ := Option.ne_none_iff_exists'.1 (hblock 0)
  have hinit : botzListenInit env nrEntries = some (rooted env nrEntries : BotzListen O D) := by
    rw [BotzListen.botzListenInit_eq, hb, Option.map_some]
  have hok := BotzListen.entriesOk_init hinit
  refine ⟨_, hinit, hok, rfl, fun e he => ?_, fun name => ?_⟩
  · rw [BotzListen.mem_rooted.1 he]
    exact BotzListen.parent_root
  · by_cases hname : name = []
    · subst hname
      have hchild : (rooted env nrEntries : BotzListen O D).child rootEntry [] =
          some rootEntry :=
        hok.child_eq_some.2 ⟨hok.root_mem, rfl, BotzListen.parent_root⟩
      change ((rooted env nrEntries : BotzListen O D).child rootEntry []).map _ = _
      have hops : (rooted env nrEntries : BotzListen O D).eOps rootEntry =
          some env.botzDefaultOps := by
        change update (fun _ => none) rootEntry (some env.botzDefaultOps) rootEntry = _
        rw [update_self]
      rw [hchild, Option.map_some, rootsOf, List.foldl_nil, update_self, hops]
    · have hchild : (rooted env nrEntries : BotzListen O D).child rootEntry name = none := by
        rw [Option.eq_none_iff_forall_ne_some]
        intro c hc
        obtain ⟨hmem, hcname, -⟩ := hok.child_eq_some.1 hc
        rw [BotzListen.mem_rooted.1 hmem] at hcname
        exact hname hcname.symm
      change ((rooted env nrEntries : BotzListen O D).child rootEntry name).map _ = _
      rw [hchild, rootsOf, List.foldl_nil, update_of_ne hname, Option.map_none]

/-- What is below the root once a server has started. -/
theorem flat_bootEntries (hblock : ∀ n, env.block n ≠ none) (nrEntries : UInt64)
    {calls : List (AddCall O D)}
    (hcalls : ∀ call ∈ calls, ∃ name, call.path = some name ∧ IsName name) :
    ∃ bl, bootEntries env nrEntries calls = some bl ∧ Flat env bl (rootsOf env calls) := by
  obtain ⟨bl, hinit, hflat⟩ := flat_init (O := O) (D := D) hblock nrEntries
  rw [bootEntries, hinit, Option.bind_some]
  clear hinit
  rw [rootsOf, List.foldl_nil] at hflat
  rw [rootsOf]
  generalize (update (fun _ => none) [] (some (some env.botzDefaultOps, none)) : Roots O D) =
    roots at hflat ⊢
  induction calls generalizing bl roots with
  | nil => exact ⟨bl, rfl, hflat⟩
  | cons call calls ih =>
      rw [List.forall_mem_cons] at hcalls
      obtain ⟨⟨name, hpath, hname⟩, hcalls⟩ := hcalls
      obtain ⟨bl', hadd, hflat'⟩ := hflat.add hblock hname call.ops call.data
      rw [List.foldlM_cons, List.foldl_cons, hpath, hadd]
      exact ih hcalls bl' _ hflat'

/-- An entry is the child of the root with its name. -/
theorem Flat.roots_eq (h : Flat env bl roots) {e : BotzEntry}
    (he : e ∈ bl.blEntryTable.toList) : roots e.eName = some (bl.eOps e, bl.eData e) := by
  have hchild : bl.child bl.blRootEntry e.eName = some e :=
    h.ok.child_eq_some.2 ⟨he, rfl, h.below e he⟩
  rw [← h.entries, hchild, Option.map_some]

/-- An entry below the root, as a place. -/
theorem Flat.placeChild_root (h : Flat env bl roots) {name : CString} (hname : name ≠ [])
    {ops : Option O} {data : Option D} (hroots : roots name = some (ops, data))
    (created : Creates O D) :
    ∃ e, placeChild bl created (bl.blRootEntry, []) name = some (e, []) ∧
      e ≠ bl.blRootEntry ∧ bl.eOps e = ops ∧ bl.eData e = data := by
  obtain ⟨e, hchild, heq⟩ := Option.map_eq_some_iff.1 ((h.entries name).trans hroots)
  refine ⟨e, ?_, ?_, congrArg Prod.fst heq, congrArg Prod.snd heq⟩
  · rw [placeChild, placeStatic, if_pos rfl, hchild]
  · rintro rfl
    exact hname ((h.ok.child_eq_some.1 hchild).2.1.symm.trans h.root)

theorem Flat.populated (h : Flat env bl roots)
    (hops : ∀ name data, roots name ≠ some (none, data)) : Populated env bl where
  ok := h.ok
  ops e he hnone := hops e.eName (bl.eData e) (by rw [h.roots_eq he, hnone])

/-- There is nothing below the entries below the root. -/
theorem Flat.child_eq_none (h : Flat env bl roots) {e : BotzEntry} (hne : e ≠ bl.blRootEntry)
    (name : CString) : bl.child e name = none := by
  rw [Option.eq_none_iff_forall_ne_some]
  intro c hc
  obtain ⟨hmem, -, hparent⟩ := h.ok.child_eq_some.1 hc
  exact hne (Option.some.inj (hparent.symm.trans (h.below c hmem)))

end Flat

/-! ## Two applications -/

/-- The entries of a server, and the state of its operations. -/
structure Server (O D S : Type*) where
  listen : BotzListen O D
  state : S

/-- `bx_handle` looks a path up in the table. -/
def serverApp (env : EntryEnv O) {app : Ops O D S} (hok : app.Ok) : App (Server O D S) where
  answer s q r :=
    match q.qPath with
    | none => (r, s)
    | some path =>
        match s.listen.handle env app q s.state r path with
        | none => (r, s) -- it does not return
        | some (bl, state, r) => (r, ⟨bl, state⟩)
  ok s q r hr := by
    cases hpath : q.qPath with
    | none => exact hr
    | some path =>
        cases hhandle : s.listen.handle env app q s.state r path with
        | none =>
            simp only [hhandle]
            exact hr
        | some answer =>
            obtain ⟨bl, state, r'⟩ := answer
            simp only [hhandle]
            exact hok.handle hr hhandle

/-- The same operations without a table. -/
def routedApp {app : Ops O D S} (hok : app.Ok) (bl₀ : BotzListen O D) (created : Creates O D) :
    App S where
  answer s q r :=
    match q.qPath with
    | none => (r, s)
    | some path =>
        let (s, r) := route app q bl₀ created s r path
        (r, s)
  ok s q r hr := by
    cases hpath : q.qPath with
    | none => exact hr
    | some path => exact hok.route s hr path

/-- A server whose operations never set `r_close` keeps its connections open. -/
theorem serverApp_keepsOpen (env : EntryEnv O) {app : Ops O D S} (hok : app.Ok)
    (hopen : app.Keeps fun r => r.rClose = false) : (serverApp env hok).KeepsOpen := by
  intro s q r hr
  cases hpath : q.qPath with
  | none =>
      simp only [serverApp, hpath]
      exact hr
  | some path =>
      cases hhandle : s.listen.handle env app q s.state r path with
      | none =>
          simp only [serverApp, hpath, hhandle]
          exact hr
      | some answer =>
          simp only [serverApp, hpath, hhandle]
          exact hopen.handle hr hhandle

/-- The request of an exchange is one of those that `P` allows. -/
def Act.Asks (P : Request → Prop) : Act E → Prop
  | .exchange _ e => P e.request
  | .other _ => True

/-! ### Histories with known requests -/

/-- The connection and the request of an exchange. -/
def Act.asked : Act E → Option (ℕ × Request)
  | .exchange i e => some (i, e.request)
  | .other _ => none

theorem Act.eq_exchange_of_asked {a : Act E} {i : ℕ} {q : Request} (h : a.asked = some (i, q)) :
    ∃ e : Exchange, a = .exchange i e ∧ e.request = q := by
  cases a with
  | exchange j e =>
      cases h
      exact ⟨e, rfl, rfl⟩
  | other e => cases h

/-- What the application's own events do. -/
def Server.act (act : S → E → S) (s : Server O D S) (e : E) : Server O D S :=
  { s with state := act s.state e }

section Plain

variable {env : EntryEnv O} {app : Ops O D S} {hok : app.Ok} {bl₀ : BotzListen O D}
  {created : Creates O D} {act : S → E → S} {Inv : S → Prop} {P : Request → Prop}

/-- One request, with the table and without it. -/
theorem handle_server (hok : app.Ok) (hpop : Populated env bl₀) (hblock : ∀ n, env.block n ≠ none)
    {place : BotzEntry → Place O D} {s : Server O D S}
    (hremembers : Remembers env bl₀ created place s.listen)
    (hcreating : Creating app created s.state) (q : Request) (r : Response) :
    ((serverApp env hok).handle s q r).1 = ((routedApp hok bl₀ created).handle s.state q r).1 ∧
      ((serverApp env hok).handle s q r).2.state =
        ((routedApp hok bl₀ created).handle s.state q r).2 ∧
      ∃ place', Remembers env bl₀ created place' ((serverApp env hok).handle s q r).2.listen := by
  cases hpath : q.qPath with
  | none =>
      simp only [App.handle, hpath]
      exact ⟨trivial, trivial, place, hremembers⟩
  | some path =>
      obtain ⟨bl', place', hhandle, hafter⟩ :=
        hremembers.handle hpop hblock hcreating r path (q := q)
      simp only [App.handle, hpath, serverApp, routedApp, hhandle]
      exact ⟨trivial, trivial, place', hafter.toRemembers⟩

/-- The table is only a memory: as long as what the operations create stays the
same, a server with a table answers like one without. -/
theorem history_routed (hpop : Populated env bl₀) (hblock : ∀ n, env.block n ≠ none)
    (hcreating : ∀ s, Inv s → Creating app created s)
    (hanswer : ∀ s q r, P q → Inv s → Response.Unset q r →
      Inv ((routedApp hok bl₀ created).handle s q r).2)
    (hact : ∀ s e, Inv s → Inv (act s e)) {s₀ : S} (hstart : Inv s₀) {acts : List (Act E)}
    (hacts : ∀ a ∈ acts, a.Asks P) {s : Server O D S}
    (h : History (serverApp env hok) (Server.act act) ⟨bl₀, s₀⟩ acts s) :
    History (routedApp hok bl₀ created) act s₀ acts s.state ∧ Inv s.state ∧
      ∃ place, Remembers env bl₀ created place s.listen := by
  induction h with
  | start => exact ⟨.start s₀, hstart, _, remembers_start hpop⟩
  | @exchange s acts h i n q r hunset ih =>
      rw [List.forall_mem_append, List.forall_mem_singleton] at hacts
      obtain ⟨hhistory, hinv, place, hremembers⟩ := ih hacts.1
      obtain ⟨hresponse, hstate, hplace⟩ :=
        handle_server hok hpop hblock hremembers (hcreating _ hinv) q r
      refine ⟨?_, ?_, hplace⟩
      · rw [hresponse, hstate]
        exact hhistory.exchange i n hunset
      · rw [hstate]
        exact hanswer _ q r hacts.2 hinv hunset
  | @other s acts h e ih =>
      rw [List.forall_mem_append] at hacts
      obtain ⟨hhistory, hinv, hplace⟩ := ih hacts.1
      exact ⟨hhistory.other e, hact _ e hinv, hplace⟩

end Plain

end Xltop.Http
