import Parley.Proofs.Building
import Parley.Proofs.Scripted

/-!
# What the nodes are called

An interpreter enters no node that it does not have, and it has no node that no program brought.
So what holds of the names in every program of the list, and in every list that is handed over,
holds of each name at which an interpreter ever stands.

`State.Names P` is of one interpreter: whatever it can enter, `P` holds of its name.  A name is
looked up by what it counts as, so `P` is asked of all that counts as the name of a node, and not
only of the name that the program writes.  `Course.Named P` is of a course, and a request keeps it
(`exec_named`).  Only loading brings names, and of the requests that load the world is known
(`World.took`); of the others the turn is enough.
-/

namespace Parley

/-- The request hands over only programs as `p` says. -/
def Request.HandsOver {I : Type} (p : Program → Prop) : Request I → Prop
  | .build (some programs) => ∀ q ∈ programs, p q
  | _ => True

/-- Does the request load programs, or forget them? -/
def Request.loads {I : Type} : Request I → Bool
  | .setup _ | .build _ | .clearPrograms => true
  | _ => false

theorem Request.HandsOver.mono {I : Type} {p q : Program → Prop} {r : Request I}
    (h : r.HandsOver p) (hpq : ∀ program, p program → q program) : r.HandsOver q := by
  unfold Request.HandsOver at h ⊢
  split at h
  · exact fun program hprogram => hpq program (h program hprogram)
  · trivial

namespace Script

/-- Whatever can be entered has a name as `P` says. -/
def State.Names (P : Datum → Prop) (s : State) : Prop :=
  ∀ node, s.nodes.contains node = true → P node

/-- If the program loads, its nodes have names as `P` says. -/
def Brings (P : Datum → Prop) (loader : Option Loader) (p : Program) : Prop :=
  ∀ es, reading loader p = .ok es → ∀ e ∈ es, ∀ node : Datum, e.1.same node = true → P node

/-- If the program loads, each of its nodes is named by something. -/
def NamesNodes (loader : Option Loader) (p : Program) : Prop :=
  ∀ es, reading loader p = .ok es → ∀ e ∈ es, e.1 ≠ .nothing

theorem brings_true {loader : Option Loader} {p : Program} : Brings (fun _ => True) loader p :=
  fun _ _ _ _ _ _ => trivial

theorem handsOver_true {I : Type} {loader : Option Loader} {r : Request I} :
    r.HandsOver (Brings (fun _ => True) loader) := by
  unfold Request.HandsOver
  split
  · exact fun _ _ => brings_true
  · trivial

/-- Nothing at all counts as the name of a node only if the node is named so. -/
theorem NamesNodes.brings {loader : Option Loader} {p : Program} (h : NamesNodes loader p) :
    Brings (· ≠ .nothing) loader p := by
  rintro es hes e he node hsame rfl
  obtain ⟨_, htoken, ht⟩ := (Datum.same_iff (.inr rfl)).mp hsame
  cases ht
  refine h es hes e he ?_
  cases hname : e.1 with
  | nothing => rfl
  | _ =>
      rw [hname] at htoken
      simp [Datum.token?] at htoken

variable {P : Datum → Prop} {s s' : State}

theorem State.Names.of_nodes (h : s.Names P) (hnodes : s'.nodes = s.nodes) : s'.Names P := by
  unfold State.Names
  rw [hnodes]
  exact h

theorem names_of_empty (hnodes : s.nodes = {}) : s.Names P := by
  intro node h
  rw [hnodes] at h
  cases h

theorem names_true : s.Names fun _ => True := fun _ _ => trivial

theorem contains_iff {t : Keyed Datum Node} {node : Datum} :
    t.contains node = true ↔ ∃ key ∈ t.keys, key.same node = true := by
  simp only [Keyed.contains, Keyed.keys, List.any_eq_true, List.mem_map, exists_exists_and_eq_and]
  exact .rfl

theorem State.Names.insertAll (h : s.Names P) {es : List (Datum × Node)}
    (hes : ∀ e ∈ es, ∀ node : Datum, e.1.same node = true → P node) :
    ({ s with nodes := s.nodes.insertAll es } : State).Names P := by
  have hkeys : ∀ key ∈ (s.nodes.insertAll es).keys, ∀ node : Datum, key.same node = true →
      P node := by
    have hold : ∀ key ∈ s.nodes.keys, ∀ node : Datum, key.same node = true → P node :=
      fun key hkey node hsame => h node (contains_iff.mpr ⟨key, hkey, hsame⟩)
    generalize s.nodes = t at hold ⊢
    induction es generalizing t with
    | nil => exact hold
    | cons e es ih =>
        obtain ⟨he, hrest⟩ := List.forall_mem_cons.mp hes
        refine ih hrest (t.insert e.1 e.2) fun key hkey => ?_
        rw [Keyed.keys_insert] at hkey
        split at hkey
        · exact hold key hkey
        · rcases List.mem_append.mp hkey with hkey | hkey
          · exact hold key hkey
          · rw [List.mem_singleton.mp hkey]
            exact he
  intro node hnode
  obtain ⟨key, hkey, hsame⟩ := contains_iff.mp hnode
  exact hkeys key hkey node hsame

theorem State.Names.of_hasNode (h : s.Names P) {node : Datum} (hnode : s.hasNode node = .ok true) :
    P node := by
  refine h node ?_
  rw [State.hasNode, Datum.asKey_of_isKey (isKey_of_hasNode hnode)] at hnode
  exact Except.ok.inj hnode

theorem nodes_setNode (node : Datum) (s : State) : (setNode node s).2.nodes = s.nodes := by
  unfold setNode
  split <;> rfl

theorem nodes_select (id : Datum) (s : State) : (select id s).2.nodes = s.nodes := by
  unfold select
  split
  · split <;> rfl
  · rfl

theorem current?_eq_none : s.current? = none ↔ s.node = .nothing := by
  unfold State.current?
  cases s.node <;> simp [Datum.isSomething]

theorem pumps_nodes {l : Local} {r : Except Fault (List Event)} (h : Pumps interpreter l s r s')
    {events : List Event} (hl : l.Gathers events) : s'.nodes = s.nodes := by
  induction h with
  | again hadvance _ ih =>
      have hmoved := moved_of_advance hadvance hl
      exact (ih hmoved.leads).trans hmoved.nodes
  | ask hadvance _ ih =>
      have hmoved := moved_of_advance hadvance hl
      exact (ih (hmoved.leads _)).trans hmoved.nodes
  | pause hadvance | fail hadvance => exact (moved_of_advance hadvance hl).nodes

end Script

namespace Course

variable {P : Datum → Prop} {c c' : Course Script.State} {slot : Nat} {s s' : Script.State}

/-- The interpreters, the next one and the programs of the list have nodes with names as `P`
says. -/
structure Named (P : Datum → Prop) (loader : Option Loader) (c : Course Script.State) : Prop where
  reads : c.loader = loader
  listed : ∀ p ∈ c.programs, Script.Brings P loader p
  factory : ∀ s, c.factory = some s → s.Names P
  cores : ∀ s ∈ c.cores, s.Names P

variable {loader : Option Loader}

theorem Named.of_same (h : c.Named P loader) (hloader : c'.loader = c.loader)
    (hprograms : c'.programs = c.programs) (hfactory : c'.factory = c.factory)
    (hcores : c'.cores = c.cores) : c'.Named P loader where
  reads := hloader.trans h.reads
  listed := hprograms ▸ h.listed
  factory := hfactory ▸ h.factory
  cores := hcores ▸ h.cores

theorem Named.setCore (h : c.Named P loader) (hs : s.Names P) (slot : Nat) :
    (c.setCore slot s).Named P loader where
  reads := h.reads
  listed := h.listed
  factory := h.factory
  cores s' hs' := (List.mem_or_eq_of_mem_set hs').elim (h.cores s') fun heq => heq ▸ hs

theorem Named.held (h : c.Named P loader) (hholds : c.Holds slot s) : s.Names P :=
  h.cores s (List.mem_of_getElem? hholds.2)

theorem Named.setHeld (h : c.Named P loader) (hholds : c.Holds slot s)
    (hnodes : s'.nodes = s.nodes) : (c.setCore slot s').Named P loader :=
  h.setCore ((h.held hholds).of_nodes hnodes) slot

theorem Named.unload (h : c.Named P loader) (slot : Nat) :
    ({ c with cores := c.cores.modify slot Script.interpreter.unload } :
      Course Script.State).Named P loader where
  reads := h.reads
  listed := h.listed
  factory := h.factory
  cores s hs := by
    obtain ⟨n, hn⟩ := List.getElem?_of_mem hs
    rw [List.getElem?_modify] at hn
    obtain ⟨s₀, hs₀, rfl⟩ := Option.map_eq_some_iff.mp hn
    split
    · exact Script.names_of_empty rfl
    · exact h.cores s₀ (List.mem_of_getElem? hs₀)

theorem Named.passed (h : c.Named P loader) {place : Nat} {events : List Event}
    {y : Except Fault Unit} (hpassed : c.Passed place events y c') : c'.Named P loader := by
  refine h.of_same (hpassed.frame (·.loader) ?_) (hpassed.frame (·.programs) ?_)
    (hpassed.frame (·.factory) (factory_pass _)) (hpassed.frame (·.cores) (cores_pass _))
  · intro c e
    cases e <;> rfl
  · intro c e
    cases e <;> rfl

theorem Named.made (h : c.Named P loader) (hs : s.Names P) : (c.made s).Named P loader where
  reads := h.reads
  listed := h.listed
  factory _ hfactory := Option.some.inj hfactory ▸ hs
  cores := List.forall_mem_append.mpr ⟨h.cores, List.forall_mem_singleton.mpr hs⟩

end Course

namespace Session

open Act

variable {P : Datum → Prop} {loader : Option Loader}

/-! ## Requests that load nothing -/

section
variable {c c' : Course Script.State} {slot : Nat} {s : Script.State}

theorem Pumped.named {r : Except Fault Outcome} (h : Pumped Script.interpreter slot s c r c')
    (hholds : c.Holds slot s) (hc : c.Named P loader) : c'.Named P loader := by
  cases h with
  | failed hpumps => exact hc.setHeld hholds (Script.pumps_nodes hpumps rfl)
  | @passed events s' _ _ hpumps hpassed =>
      have hset := hc.setHeld hholds (Script.pumps_nodes hpumps rfl)
      have hdealt : ((c.setCore slot s').deal (.batch events)).Named P loader :=
        hset.of_same rfl rfl rfl rfl
      exact hdealt.passed hpassed

theorem Stopped.named {r : Except Fault Outcome} (h : Stopped Script.interpreter c r c')
    (hc : c.Named P loader) : c'.Named P loader := by
  have hstopped : ∀ {slot s} ds, c.Holds slot s →
      ({ c.setCore slot (Script.interpreter.stop s).2 with dealings := ds } :
        Course Script.State).Named P loader := by
    intro slot s ds hholds
    have hset : (c.setCore slot (Script.interpreter.stop s).2).Named P loader :=
      hc.setHeld hholds rfl
    exact hset.of_same rfl rfl rfl rfl
  cases h with
  | bare => exact hc.of_same rfl rfl rfl rfl
  | failed hholds => exact hstopped _ hholds
  | cut hholds _ hpassed => exact Course.Named.passed (hstopped _ hholds) hpassed
  | whole hholds _ hpassed =>
      have hdone := Course.Named.passed (hstopped _ hholds) hpassed
      exact hdone.of_same rfl rfl rfl rfl

theorem Turn.named {r : Request Script.State} {a : Except Fault Answer}
    (h : Turn Script.interpreter c r a c') (hr : r.loads = false)
    (hc : c.Named P loader) : c'.Named P loader := by
  cases h with
  | refused | unconfigured | idle | unpicked | aside => exact hc
  | unentered _ hholds => exact hc.setHeld hholds (Script.nodes_setNode _ _)
  | @entered node _ s _ _ _ hholds _ hpumped =>
      have hset := hc.setHeld hholds (Script.nodes_setNode node s)
      exact hpumped.named (hholds.setCore _) (hset.of_same rfl rfl rfl rfl)
  | pumped _ hholds hpumped => exact hpumped.named hholds (hc.of_same rfl rfl rfl rfl)
  | answered h =>
      cases h with
      | unconfigured | empty => exact hc
      | taken hholds => exact hc.setHeld hholds (Script.nodes_select _ _)
      | refused hholds => exact hc.setHeld hholds (Script.nodes_select _ _)
  | stopped h => exact h.named hc
  | let_go => exact hc.of_same rfl rfl rfl rfl
  | kept _ h => exact h.named hc
  | cleaned _ h => exact ((h.named hc).unload _).of_same rfl rfl rfl rfl
  | unmade | made | built | unloaded => cases hr

end

/-! ## Requests that load -/

section
variable {H : Type} {w w' : World H Script.State} {slot : Nat} {s : Script.State} {p : Program}

/-- A program that is refused for no reason of its own breaks the loading off. -/
theorem yields_loadOne_of_stray {f : Fault} {shown : Program} (hheld : w.course.Holds slot s)
    (hreading : Script.reading w.loader p = .error (f, shown)) (hf : isLoadFault f = false)
    (index : Nat) : Yields (loadOne Script.interpreter p index) w (.error f)
      (w.took slot [] (w.loader.map fun _ => .loading p).toList) := by
  unfold loadOne
  refine yields_attempt_bind.mpr ⟨_, _, yields_prepare, ?_⟩
  rw [World.took_nil]
  unfold Script.reading at hreading
  cases hready : w.loader.elim (.ok p) (· p) with
  | error g =>
      rw [hready] at hreading
      cases hreading
      dsimp only
      rw [hf]
      exact yields_throw.mpr ⟨rfl, rfl⟩
  | ok q =>
      rw [hready] at hreading
      have hprepared := World.holds_took hheld [] (w.loader.map fun _ => .loading p).toList
      rw [World.took_nil] at hprepared
      refine yields_attempt_bind.mpr ⟨_, _, yields_addProgram hprepared, ?_⟩
      cases hnodes : Script.nodes? q with
      | some es =>
          simp only [hnodes] at hreading
          cases hreading
      | none =>
          -- what is no program is always skipped
          simp only [hnodes] at hreading
          cases hreading
          rw [Script.isLoadFault_notAProgram] at hf
          cases hf

theorem loadOne_took (hheld : w.course.Holds slot s) {index : Nat} {r : Except Fault Nat}
    (h : Yields (loadOne Script.interpreter p index) w r w') :
    ∃ records, w' = w.took slot (Script.tables w.loader [p]) records := by
  by_cases hskip : ∀ f shown, Script.reading w.loader p = .error (f, shown) → isLoadFault f = true
  · exact ⟨_, (Yields.unique h (yields_loadOne hheld index hskip)).2⟩
  · push Not at hskip
    obtain ⟨f, shown, hreading, hf⟩ := hskip
    have hstray := yields_loadOne_of_stray hheld hreading (Bool.eq_false_iff.mpr hf) index
    rw [Script.tables_of_error hreading]
    exact ⟨_, (Yields.unique h hstray).2⟩

theorem named_took (h : w.course.Named P loader) {ts : List (List (Datum × Script.Node))}
    (hts : ∀ es ∈ ts, ∀ e ∈ es, ∀ node : Datum, e.1.same node = true → P node)
    (slot : Nat) (records : List Record) : (w.took slot ts records).course.Named P loader where
  reads := h.reads
  listed := h.listed
  factory := h.factory
  cores s hs := by
    have hcore : (w.took slot ts records).course.cores = w.course.cores.modify slot fun s =>
        { s with nodes := s.nodes.insertAll ts.flatten } :=
      congrArg Course.cores (World.course_modify w slot _ _ fun _ => rfl)
    rw [hcore] at hs
    obtain ⟨n, hn⟩ := List.getElem?_of_mem hs
    rw [List.getElem?_modify] at hn
    obtain ⟨s₀, hs₀, rfl⟩ := Option.map_eq_some_iff.mp hn
    have hnamed := h.cores s₀ (List.mem_of_getElem? hs₀)
    split
    · refine hnamed.insertAll fun e he => ?_
      obtain ⟨es, hes, he⟩ := List.mem_flatten.mp he
      exact hts es hes e he
    · exact hnamed

theorem loadOne_named (hheld : w.course.Holds slot s) (hp : Script.Brings P loader p) {index : Nat}
    {r : Except Fault Nat} (h : Yields (loadOne Script.interpreter p index) w r w')
    (hw : w.course.Named P loader) :
    w'.course.Named P loader ∧ ∃ s', w'.course.Holds slot s' := by
  obtain ⟨records, rfl⟩ := loadOne_took hheld h
  refine ⟨named_took hw (fun es hes => ?_) slot records, _, World.holds_took hheld _ records⟩
  obtain ⟨q, hq, hread⟩ := List.mem_filterMap.mp hes
  rw [List.mem_singleton.mp hq, show w.loader = loader from hw.reads] at hread
  cases hreading : Script.reading loader p with
  | error x =>
      rw [hreading] at hread
      cases hread
  | ok es' =>
      rw [hreading] at hread
      cases hread
      exact hp es hreading

theorem loadAll_named {ps : List (Program × Nat)} (hheld : w.course.Holds slot s)
    (hps : ∀ p ∈ ps, Script.Brings P loader p.1) {r : Except Fault (List Nat)}
    (h : Yields (ps.mapM fun (p, index) => loadOne Script.interpreter p index) w r w')
    (hw : w.course.Named P loader) : w'.course.Named P loader := by
  induction ps generalizing w s r with
  | nil =>
      obtain ⟨-, rfl⟩ := yields_pure.mp h
      exact hw
  | cons p ps ih =>
      obtain ⟨hp, hps⟩ := List.forall_mem_cons.mp hps
      rw [List.mapM_cons] at h
      rcases yields_bind.mp h with ⟨_, u, hload, hrest⟩ | ⟨f, hload, -⟩
      · obtain ⟨hu, s', hholds⟩ := loadOne_named hheld hp hload hw
        rcases yields_bind.mp hrest with ⟨_, v, hall, hdone⟩ | ⟨f, hall, -⟩
        · obtain ⟨-, rfl⟩ := yields_pure.mp hdone
          exact ih hholds hps hall hu
        · exact ih hholds hps hall hu
      · exact (loadOne_named hheld hp hload hw).1

theorem named_unloaded (h : w.course.Named P loader) (slot : Nat) (s : Script.State) :
    (w.unloaded Script.interpreter slot s).course.Named P loader := by
  have hcourse : (w.unloaded Script.interpreter slot s).course =
      { w.course with cores := w.course.cores.modify slot Script.interpreter.unload } :=
    World.course_modify w slot _ _ fun _ => rfl
  rw [hcourse]
  exact h.unload slot

theorem reload_named (hsound : w.course.Sound) {r : Except Fault Unit}
    (h : Yields (reload Script.interpreter) w r w') (hw : w.course.Named P loader) :
    w'.course.Named P loader := by
  unfold reload at h
  rw [yields_get_bind] at h
  cases hcurrent : w.current with
  | none =>
      rw [hcurrent] at h
      obtain ⟨-, rfl⟩ := yields_modify.mp h
      exact hw.of_same rfl rfl rfl rfl
  | some slot =>
      obtain ⟨slot', s, hheld⟩ := hsound.exists_holds (by simp [World.course, hcurrent])
      obtain rfl : slot' = slot := Option.some.inj (hheld.1.symm.trans hcurrent)
      rw [hcurrent] at h
      have h := yields_get_bind.mp ((yields_unload_bind hheld.2).mp h)
      have hunloaded := named_unloaded hw slot' s
      have hall : ∀ {x : Except Fault (List Nat)} {u : World H Script.State},
          Yields ((w.unloaded Script.interpreter slot' s).programs.zipIdx.mapM fun (p, index) =>
            loadOne Script.interpreter p index) (w.unloaded Script.interpreter slot' s) x u →
          u.course.Named P loader := fun h =>
        loadAll_named (World.holds_unloaded hheld)
          (fun p hp => hunloaded.listed p.1 (List.fst_mem_of_mem_zipIdx hp)) h hunloaded
      rcases yields_bind.mp h with ⟨_, u, hload, hlog⟩ | ⟨f, hload, -⟩
      · obtain ⟨-, rfl⟩ := yields_modify.mp hlog
        exact (hall hload).of_same rfl rfl rfl rfl
      · exact hall hload

theorem build_named {programs : Option (List Program)} (hsound : w.course.Sound)
    (hprograms : ∀ ps, programs = some ps → ∀ p ∈ ps, Script.Brings P loader p)
    {r : Except Fault Unit} (h : Yields (build Script.interpreter programs) w r w')
    (hw : w.course.Named P loader) : w'.course.Named P loader := by
  cases programs with
  | none => exact reload_named hsound h hw
  | some ps =>
      refine reload_named ?_ (yields_modify_bind.mp h)
        ⟨hw.reads, hprograms ps rfl, hw.factory, hw.cores⟩
      exact ⟨hsound.held, hsound.running⟩

theorem clear_named (hsound : w.course.Sound) {r : Except Fault Unit}
    (h : Yields (clearPrograms Script.interpreter) w r w') (hw : w.course.Named P loader) :
    w'.course.Named P loader := by
  cases hcurrent : w.current with
  | none =>
      obtain ⟨-, rfl⟩ := Yields.unique h (yields_clear_of_none hcurrent)
      exact hw
  | some slot =>
      obtain ⟨slot, s, hheld⟩ := hsound.exists_holds (by simp [World.course, hcurrent])
      obtain ⟨-, rfl⟩ := Yields.unique h (yields_clear hheld)
      have hunloaded := named_unloaded hw slot s
      exact ⟨hunloaded.reads, List.forall_mem_nil _, hunloaded.factory, hunloaded.cores⟩

/-- Whatever is asked for, the names stay as `P` says. -/
theorem exec_named {react : Host H Script.State} (hreact : react.Passive) (hsound : w.course.Sound)
    {fuel : Nat} {r : Request Script.State} {a : Except Fault Answer}
    (h : Yields (exec Script.interpreter react fuel r) w a w') (hsupplied : r.Supplies (·.Names P))
    (hhanded : r.HandsOver (Script.Brings P loader)) (hw : w.course.Named P loader) :
    w'.course.Named P loader := by
  cases hloads : r.loads with
  | false => exact (exec_turn hreact hsound h).named hloads hw
  | true =>
      obtain ⟨fuel, rfl, hperform⟩ := yields_exec.mp h
      cases r with
      | setup factory =>
          obtain ⟨x, hsetup, -⟩ := yields_bind_pure.mp hperform
          rcases setup_cases hsetup with ⟨-, -, rfl⟩ | ⟨s, w₁, hs, hw₁, hbuild⟩
          · exact hw
          · have hnames : s.Names P := by
              cases factory with
              | none => exact hw.factory s hs
              | some s' =>
                  cases hs
                  exact hsupplied
            have hsound₁ : w₁.course.Sound := hw₁ ▸ sound_made _ s
            have hnone : ∀ ps : List Program, none = some ps →
                ∀ p ∈ ps, Script.Brings P loader p :=
              fun _ hps => nomatch hps
            exact build_named hsound₁ hnone hbuild (hw₁ ▸ hw.made hnames)
      | build programs =>
          obtain ⟨x, hbuild, -⟩ := yields_bind_pure.mp hperform
          refine build_named hsound (fun ps hps => ?_) hbuild hw
          cases hps
          exact hhanded
      | clearPrograms =>
          obtain ⟨x, hclear, -⟩ := yields_bind_pure.mp hperform
          exact clear_named hsound hclear hw
      | _ => cases hloads

end

end Session

end Parley
