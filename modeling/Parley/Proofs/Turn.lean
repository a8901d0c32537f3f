import Parley.Proofs.Passive

/-!
# The runner on courses

`Turn ip c r a c'`: with a passive host the request `r` is answered by `a` and takes
the course `c` to `c'`.  It is the runner as an automaton over the interpreter `ip`.
All that is left of the world is what the interpreter does: whether it takes a node, an
answer or a program, what its pumps come to, and what it returns when it is stopped.

`exec_turn` says that the runner is this automaton.  It needs to know that the
interpreter a course speaks of is there, `Course.Sound`, which every turn keeps.
-/

namespace Parley

namespace Course

variable {I L : Type}

/-- The runner holds an interpreter, in that slot and in that state. -/
def Holds (c : Course I) (slot : Nat) (core : I) : Prop :=
  c.current = some slot ∧ c.cores[slot]? = some core

/-- The interpreter the runner holds is there, and a dialogue runs only with one. -/
structure Sound (c : Course I) : Prop where
  held : ∀ slot, c.current = some slot → slot < c.cores.length
  running : c.running = true → c.current ≠ none

theorem core?_eq_some {c : Course I} {core : I} :
    c.core? = some core ↔ ∃ slot, c.Holds slot core := Option.bind_eq_some_iff

theorem Holds.core? {c : Course I} {slot : Nat} {core : I} (h : c.Holds slot core) :
    c.core? = some core := core?_eq_some.mpr ⟨slot, h⟩

theorem Holds.unique {c : Course I} {slot slot' : Nat} {core core' : I} (h : c.Holds slot core)
    (h' : c.Holds slot' core') : slot = slot' ∧ core = core' := by
  have hslot : slot = slot' := Option.some.inj (h.1.symm.trans h'.1)
  subst hslot
  exact ⟨rfl, Option.some.inj (h.2.symm.trans h'.2)⟩

theorem Holds.setCore {c : Course I} {slot : Nat} {core : I} (h : c.Holds slot core) (core' : I) :
    (c.setCore slot core').Holds slot core' := ⟨h.1, cores_setCore core' h.2⟩

theorem Holds.setCore_of_ne {c : Course I} {slot slot' : Nat} {core core' : I}
    (h : c.Holds slot core) (hne : slot' ≠ slot) : (c.setCore slot' core').Holds slot core := by
  refine ⟨h.1, ?_⟩
  rw [Course.setCore, List.getElem?_set_ne hne]
  exact h.2

theorem Sound.exists_holds {c : Course I} (h : c.Sound) (hcurrent : c.current ≠ none) :
    ∃ slot core, c.Holds slot core := by
  obtain ⟨slot, hslot⟩ := Option.ne_none_iff_exists'.mp hcurrent
  exact ⟨slot, _, hslot, List.getElem?_eq_getElem (h.held slot hslot)⟩

theorem Sound.core?_ne_none {c : Course I} (h : c.Sound) (hcurrent : c.current ≠ none) :
    c.core? ≠ none := by
  obtain ⟨slot, core, hholds⟩ := h.exists_holds hcurrent
  simp [hholds.core?]

/-- What loading and unloading programs can do to the course. -/
inductive Loads (ip : Interpreter I L) (c : Course I) : Course I → Prop where
  | rest : Loads ip c c
  | load {c' : Course I} {slot : Nat} {core : I} (p : Program) : Loads ip c c' →
      c'.cores[slot]? = some core → Loads ip c (c'.setCore slot (ip.load p core).2)
  | unload {c' : Course I} (slot : Nat) : Loads ip c c' →
      Loads ip c { c' with cores := c'.cores.modify slot ip.unload }
  | programs {c' : Course I} (ps : List Program) : Loads ip c c' →
      Loads ip c { c' with programs := ps }

end Course

namespace Session

/-- A pump of the interpreter in a slot, from the state `core`, and its batch passed on. -/
inductive Pumped {I L : Type} (ip : Interpreter I L) (slot : Nat) (core : I) (c : Course I) :
    Except Fault Outcome → Course I → Prop where
  | failed {f : Fault} {core' : I} {r : Except Fault Outcome} :
      Pumps ip (ip.begin core) core (.error f) core' → Faulted f r →
      Pumped ip slot core c r (c.setCore slot core')
  | passed {events : List Event} {core' : I} {y : Except Fault Unit} {c' : Course I} :
      Pumps ip (ip.begin core) core (.ok events) core' →
      ((c.setCore slot core').deal (.batch events)).Passed c.dealings.length events y c' →
      Pumped ip slot core c (y.map fun _ => if c'.running then .ok else .complete) c'

/-- A stop. -/
inductive Stopped {I L : Type} (ip : Interpreter I L) (c : Course I) :
    Except Fault Outcome → Course I → Prop where
  | bare : c.current = none →
      Stopped ip c (.ok .ok) ((c.deal .stopping).flag false (.settled c.dealings.length))
  | failed {slot : Nat} {core : I} {f : Fault} : c.Holds slot core →
      (ip.stop core).1 = .error f →
      Stopped ip c (.error f) ((c.deal .stopping).setCore slot (ip.stop core).2)
  | cut {slot : Nat} {core : I} {events : List Event} {f : Fault} {c' : Course I} :
      c.Holds slot core → (ip.stop core).1 = .ok events →
      (((c.deal .stopping).setCore slot (ip.stop core).2).deal (.batch events)).Passed
        (c.dealings.length + 1) events (.error f) c' →
      Stopped ip c (.error f) c'
  | whole {slot : Nat} {core : I} {events : List Event} {c' : Course I} :
      c.Holds slot core → (ip.stop core).1 = .ok events →
      (((c.deal .stopping).setCore slot (ip.stop core).2).deal (.batch events)).Passed
        (c.dealings.length + 1) events (.ok ()) c' →
      Stopped ip c (.ok .ok) (c'.flag false (.settled c.dealings.length))

/-- An answer to options by a choice. -/
inductive Answered {I L : Type} (ip : Interpreter I L) (c : Course I) (choice : Option Choice) :
    Except Fault Outcome → Course I → Prop where
  | unconfigured : c.current = none → Answered ip c choice (.ok .notConfigured) c
  | empty : choice.bind (·.branch) = none → Answered ip c choice (.ok .optionId) c
  | taken {slot : Nat} {core : I} {b : Branch} : c.Holds slot core →
      choice.bind (·.branch) = some b → (ip.select b.id core).1 = .ok () →
      Answered ip c choice (.ok .ok) (c.setCore slot (ip.select b.id core).2)
  | refused {slot : Nat} {core : I} {b : Branch} {f : Fault} {r : Except Fault Outcome} :
      c.Holds slot core → choice.bind (·.branch) = some b →
      (ip.select b.id core).1 = .error f → Refused f r →
      Answered ip c choice r (c.setCore slot (ip.select b.id core).2)

/-- One request with a passive host. -/
inductive Turn {I L : Type} (ip : Interpreter I L) (c : Course I) :
    Request I → Except Fault Answer → Course I → Prop where
  -- starting
  | refused {node : Datum} : c.running = true →
      Turn ip c (.start node) (.ok (.outcome .alreadyRunning)) c
  | unconfigured {node : Datum} : c.running = false → c.current = none →
      Turn ip c (.start node) (.ok (.outcome .notConfigured)) c
  | unentered {node : Datum} {slot : Nat} {core : I} {f : Fault} {r : Except Fault Outcome} :
      c.running = false → c.Holds slot core → (ip.setNode node core).1 = .error f →
      Faulted f r →
      Turn ip c (.start node) (r.map .outcome) (c.setCore slot (ip.setNode node core).2)
  | entered {node : Datum} {slot : Nat} {core : I} {r : Except Fault Outcome} {c' : Course I} :
      c.running = false → c.Holds slot core → (ip.setNode node core).1 = .ok () →
      Pumped ip slot (ip.setNode node core).2
        ((c.setCore slot (ip.setNode node core).2).flag true .entered).cleared r c' →
      Turn ip c (.start node) (r.map .outcome) c'
  -- going on
  | idle : c.running = false → Turn ip c .continue (.ok (.outcome .notRunning)) c
  | pumped {slot : Nat} {core : I} {r : Except Fault Outcome} {c' : Course I} :
      c.running = true → c.Holds slot core → Pumped ip slot core c.cleared r c' →
      Turn ip c .continue (r.map .outcome) c'
  | unpicked {p : Pick} {a : Except Fault Answer} :
      a = .ok .noChoice ∨ a = .error (.accident .index) → Turn ip c (.select p) a c
  | answered {p : Pick} {choice : Option Choice} {r : Except Fault Outcome} {c' : Course I} :
      Answered ip c choice r c' → Turn ip c (.select p) (r.map .outcome) c'
  -- ending
  | stopped {r : Except Fault Outcome} {c' : Course I} : Stopped ip c r c' →
      Turn ip c .stop (r.map .outcome) c'
  | let_go : c.current = none → Turn ip c .cleanup (.ok .done) c.released
  | kept {f : Fault} {c' : Course I} : c.current ≠ none → Stopped ip c (.error f) c' →
      Turn ip c .cleanup (.error f) c'
  | cleaned {slot : Nat} {c' : Course I} : c.current = some slot → Stopped ip c (.ok .ok) c' →
      Turn ip c .cleanup (.ok .done)
        { c' with cores := c'.cores.modify slot ip.unload }.released
  -- setting up
  | unmade {factory : Option I} : factory.or c.factory = none →
      Turn ip c (.setup factory) (.error .noFactory) c
  | made {factory : Option I} {core : I} {a : Except Fault Answer} {c' : Course I} :
      factory.or c.factory = some core → (c.made core).Loads ip c' →
      Turn ip c (.setup factory) a c'
  | built {programs : Option (List Program)} {a : Except Fault Answer} {c' : Course I} :
      c.Loads ip c' → Turn ip c (.build programs) a c'
  | unloaded {a : Except Fault Answer} {c' : Course I} : c.Loads ip c' →
      Turn ip c .clearPrograms a c'
  -- everything else
  | aside {r : Request I} {a : Except Fault Answer} : r.drives = false → Turn ip c r a c

end Session

namespace Course

variable {I L : Type} {ip : Interpreter I L}

/-! ## What a turn leaves alone -/

theorem Loads.trans {c₁ c₂ c₃ : Course I} (h₁ : c₁.Loads ip c₂) (h₂ : c₂.Loads ip c₃) :
    c₁.Loads ip c₃ := by
  induction h₂ with
  | rest => exact h₁
  | load p _ hcore ih => exact .load p ih hcore
  | unload slot _ ih => exact .unload slot ih
  | programs ps _ ih => exact .programs ps ih

instance : IsPreorder (Course I) (Loads ip) where
  refl _ := .rest
  trans _ _ _ := Loads.trans

theorem loads_allowsLoading : AllowsLoading ip (Loads ip) where
  load _ _ _ p hcore := .load p .rest hcore
  unload _ slot := .unload slot .rest
  programs _ ps := .programs ps .rest

theorem Loads.frame {α : Type} (view : Course I → α)
    (hview : ∀ c cores ps, view { c with cores, programs := ps } = view c) {c c' : Course I}
    (h : c.Loads ip c') : view c' = view c := by
  induction h with
  | rest => rfl
  | @load c' slot core p _ _ ih =>
      rw [← ih]
      exact hview c' _ c'.programs
  | @unload c' slot _ ih =>
      rw [← ih]
      exact hview c' _ c'.programs
  | @programs c' ps _ ih =>
      rw [← ih]
      exact hview c' c'.cores ps

theorem Loads.length_cores {c c' : Course I} (h : c.Loads ip c') :
    c'.cores.length = c.cores.length := by
  induction h with
  | rest => rfl
  | load p _ _ ih => rw [← ih, setCore, List.length_set]
  | unload slot _ ih => rw [← ih, List.length_modify]
  | programs ps _ ih => exact ih

theorem foldl_pass {α : Type} (view : Course I → α) {place : Nat}
    (hview : ∀ c e, view (pass place c e) = view c) (events : List Event) (c : Course I) :
    view (events.foldl (pass place) c) = view c := by
  induction events generalizing c with
  | nil => rfl
  | cons e events ih => exact (ih _).trans (hview c e)

theorem Passed.frame {α : Type} (view : Course I → α) {place : Nat}
    (hview : ∀ c e, view (pass place c e) = view c) {c c' : Course I} {events : List Event}
    {r : Except Fault Unit} (h : c.Passed place events r c') : view c' = view c := by
  cases h with
  | whole => exact foldl_pass view hview _ _
  | cut => exact foldl_pass view hview _ _

theorem current_pass (place : Nat) (c : Course I) (e : Event) :
    (c.pass place e).current = c.current := by
  cases e <;> rfl

theorem cores_pass (place : Nat) (c : Course I) (e : Event) :
    (c.pass place e).cores = c.cores := by
  cases e <;> rfl

theorem factory_pass (place : Nat) (c : Course I) (e : Event) :
    (c.pass place e).factory = c.factory := by
  cases e <;> rfl

theorem Passed.holds {place slot : Nat} {core : I} {c c' : Course I} {events : List Event}
    {r : Except Fault Unit} (h : c.Passed place events r c') (hholds : c.Holds slot core) :
    c'.Holds slot core := by
  refine ⟨(h.frame (·.current) (current_pass _)).trans hholds.1, ?_⟩
  rw [h.frame (·.cores) (cores_pass _)]
  exact hholds.2

end Course

namespace Session

open Act

theorem Stopped.current {I L : Type} {ip : Interpreter I L} {c c' : Course I}
    {r : Except Fault Outcome} (h : Stopped ip c r c') : c'.current = c.current := by
  cases h with
  | bare => rfl
  | failed => rfl
  | cut _ _ hpassed => exact hpassed.frame (·.current) (Course.current_pass _)
  | whole _ _ hpassed => exact hpassed.frame (·.current) (Course.current_pass _)

theorem Stopped.eq_ok {I L : Type} {ip : Interpreter I L} {c c' : Course I} {o : Outcome}
    (h : Stopped ip c (.ok o) c') : o = .ok := by
  cases h <;> rfl

theorem Stopped.length_cores {I L : Type} {ip : Interpreter I L} {c c' : Course I}
    {r : Except Fault Outcome} (h : Stopped ip c r c') : c'.cores.length = c.cores.length := by
  cases h with
  | bare => rfl
  | failed => exact List.length_set
  | cut _ _ hpassed =>
      exact (congrArg List.length (hpassed.frame (·.cores) (Course.cores_pass _))).trans
        List.length_set
  | whole _ _ hpassed =>
      exact (congrArg List.length (hpassed.frame (·.cores) (Course.cores_pass _))).trans
        List.length_set

variable {H I L : Type} {ip : Interpreter I L} {invoke : Invoke H I} {fuel : Nat}
  {w w' : World H I}

/-! ## The operations -/

theorem pumped_of_yields (hinvoke : invoke.Passive) (hsound : w.course.Sound)
    (hrunning : w.running = true) {r : Except Fault Outcome}
    (h : Yields (continueDialogue ip fuel invoke) w r w') :
    ∃ slot core, w.course.Holds slot core ∧ Pumped ip slot core w.course.cleared r w'.course := by
  rcases continue_cases h with
      ⟨hidle, -⟩ | ⟨-, hnone, -⟩ | ⟨-, slot, core, x, w₁, w₂, hcurrent, hcore, hw₁, hpump, h⟩
  · rw [hrunning] at hidle
    cases hidle
  · exact absurd hnone (hsound.core?_ne_none (hsound.running hrunning))
  · refine ⟨slot, core, ⟨hcurrent, hcore⟩, ?_⟩
    have hcore₁ : w₁.course.cores[slot]? = some core := by
      rw [hw₁]
      exact hcore
    obtain ⟨core', hpumps, hw₂⟩ := pump_aloof hinvoke.keeps hcore₁ hpump
    rw [hw₁] at hw₂
    rcases h with ⟨f, rfl, hfaulted, hw'⟩ | ⟨events, y, rfl, hpassed, rfl⟩
    · rw [hw', hw₂]
      exact .failed hpumps hfaulted
    · have hpassed := processAll_passive hinvoke hpassed
      rw [hw₂] at hpassed
      have hplace : w₂.dealings.length = w.course.cleared.dealings.length :=
        congrArg (fun c => c.dealings.length) hw₂
      rw [hplace] at hpassed
      exact .passed hpumps hpassed

theorem continue_turn (hinvoke : invoke.Passive) (hsound : w.course.Sound)
    {r : Except Fault Outcome} (h : Yields (continueDialogue ip fuel invoke) w r w') :
    Turn ip w.course .continue (r.map .outcome) w'.course := by
  cases hrunning : w.running with
  | false =>
      rcases continue_cases h with ⟨-, rfl, rfl⟩ | ⟨hrunning', -⟩ | ⟨hrunning', -⟩
      · exact .idle hrunning
      · rw [hrunning] at hrunning'
        cases hrunning'
      · rw [hrunning] at hrunning'
        cases hrunning'
  | true =>
      obtain ⟨slot, core, hholds, hpumped⟩ := pumped_of_yields hinvoke hsound hrunning h
      exact .pumped hrunning hholds hpumped

theorem start_turn (hinvoke : invoke.Passive) (hsound : w.course.Sound) {node : Datum}
    {r : Except Fault Outcome} (h : Yields (start ip fuel invoke node) w r w') :
    Turn ip w.course (.start node) (r.map .outcome) w'.course := by
  rcases start_cases h with
      ⟨hrunning, rfl, rfl⟩ | ⟨hrunning, hcurrent, rfl, rfl⟩ | ⟨-, slot, hcurrent, hnone, -⟩ |
      ⟨hrunning, slot, core, hcurrent, hcore, h⟩
  · exact .refused hrunning
  · exact .unconfigured hrunning hcurrent
  · have hlt : slot < w.course.cores.length := hsound.held slot hcurrent
    exact absurd hnone (by simp [hlt])
  · have hholds : w.course.Holds slot core := ⟨hcurrent, hcore⟩
    rcases h with ⟨f, hf, hfaulted, hw'⟩ | ⟨w₁, hok, hw₁, hrest⟩
    · rw [hw']
      exact .unentered hrunning hholds hf hfaulted
    · rcases yields_bind.mp hrest with ⟨_, w₂, hnotify, hcontinue⟩ | ⟨e, hnotify, -⟩
      · have hw₂ : w₂.course = _ := (notify_passive hinvoke hnotify).2.trans hw₁
        have hholds₂ : w₂.course.Holds slot (ip.setNode node core).2 := by
          rw [hw₂]
          exact hholds.setCore _
        have hsound₂ : w₂.course.Sound := by
          rw [hw₂]
          refine ⟨fun slot' hslot' => ?_, fun _ hnone => ?_⟩
          · rw [Course.flag, Course.deal, Course.setCore, List.length_set]
            exact hsound.held slot' hslot'
          · cases hcurrent.symm.trans hnone
        have hrunning₂ : w₂.running = true := congrArg Course.running hw₂
        obtain ⟨slot', core', hholds', hpumped⟩ :=
          pumped_of_yields hinvoke hsound₂ hrunning₂ hcontinue
        obtain ⟨rfl, rfl⟩ := hholds₂.unique hholds'
        rw [hw₂] at hpumped
        exact .entered hrunning hholds hok hpumped
      · cases (notify_passive hinvoke hnotify).1

theorem select_turn (hsound : w.course.Sound) {choice : Option Choice}
    {r : Except Fault Outcome} (h : Yields (select ip choice) w r w') :
    Answered ip w.course choice r w'.course := by
  rcases select_cases h with
      ⟨hcurrent, rfl, rfl⟩ | ⟨hbranch, rfl, rfl⟩ | ⟨hheld, hnone, -⟩ |
      ⟨slot, core, b, hcurrent, hcore, hbranch, hw', ⟨hok, rfl⟩ | ⟨f, hf, hrefused⟩⟩
  · exact .unconfigured hcurrent
  · exact .empty hbranch
  · exact absurd hnone (hsound.core?_ne_none hheld)
  · rw [hw']
    exact .taken ⟨hcurrent, hcore⟩ hbranch hok
  · rw [hw']
    exact .refused ⟨hcurrent, hcore⟩ hbranch hf hrefused

theorem selectPick_turn (hsound : w.course.Sound) {p : Pick} {a : Except Fault Answer}
    (h : Yields (selectPick ip p) w a w') : Turn ip w.course (.select p) a w'.course := by
  cases p with
  | given c =>
      obtain ⟨r, hselect, rfl⟩ := yields_bind_pure.mp h
      exact .answered (select_turn hsound hselect)
  | current i =>
      have h := yields_get_bind.mp h
      split at h
      · obtain ⟨r, hselect, rfl⟩ := yields_bind_pure.mp h
        exact .answered (select_turn hsound hselect)
      · obtain ⟨rfl, rfl⟩ := yields_pure.mp h
        exact .unpicked (.inl rfl)
  | shown i =>
      have h := yields_get_bind.mp h
      split at h
      · obtain ⟨r, hselect, rfl⟩ := yields_bind_pure.mp h
        exact .answered (select_turn hsound hselect)
      · obtain ⟨rfl, rfl⟩ := yields_throw.mp h
        exact .unpicked (.inr rfl)

theorem stop_turn (hinvoke : invoke.Passive) (hsound : w.course.Sound) {r : Except Fault Outcome}
    (h : Yields (stop ip invoke) w r w') : Stopped ip w.course r w'.course := by
  obtain ⟨w₁, hw₁, ⟨hcurrent, rfl, hw'⟩ | ⟨hheld, hnone, -⟩ |
    ⟨slot, core, hcurrent, hcore, h⟩⟩ := stop_cases h
  · rw [hw', hw₁]
    exact .bare hcurrent
  · exact absurd hnone (hsound.core?_ne_none hheld)
  · have hholds : w.course.Holds slot core := ⟨hcurrent, hcore⟩
    rcases h with ⟨f, hf, rfl, hw'⟩ | ⟨events, w₂, w₃, y, hevents, hw₂, hpassed, h⟩
    · rw [hw', hw₁]
      exact .failed hholds hf
    · have hpassed := processAll_passive hinvoke hpassed
      rw [hw₁] at hw₂
      have hplace : w₂.dealings.length = w.course.dealings.length + 1 :=
        (congrArg (fun c => c.dealings.length) hw₂).trans List.length_append
      rw [hw₂, hplace] at hpassed
      rcases h with ⟨f, rfl, rfl, hw'⟩ | ⟨rfl, rfl, hw'⟩
      · rw [hw']
        exact .cut hholds hevents hpassed
      · rw [hw']
        exact .whole hholds hevents hpassed

theorem yields_unload {slot : Nat} {core : I} {r : Except Fault Unit}
    (hcore : w.course.cores[slot]? = some core) (h : Yields (unload ip slot) w r w') :
    r = .ok () ∧ w'.course = { w.course with cores := w.course.cores.modify slot ip.unload } := by
  obtain ⟨w₁, hw₁, hmodify⟩ := yields_observe_bind hcore h
  obtain ⟨rfl, rfl⟩ := yields_modify.mp hmodify
  rw [← hw₁]
  exact ⟨rfl, World.course_modify w₁ slot _ ip.unload fun _ => rfl⟩

theorem cleanup_turn (hinvoke : invoke.Passive) (hsound : w.course.Sound) {r : Except Fault Unit}
    (h : Yields (cleanup ip invoke) w r w') :
    Turn ip w.course .cleanup (r.map fun _ => .done) w'.course := by
  unfold cleanup at h
  have h := yields_get_bind.mp h
  split at h
  · next hheld =>
    obtain ⟨slot, hcurrent⟩ := Option.isSome_iff_exists.mp hheld
    have hstopped : ∀ x (u : World H I), Yields (discard (stop ip invoke)) w x u →
        ∃ y, Stopped ip w.course y u.course ∧ x = y.map fun _ => () := by
      intro x u hdiscard
      obtain ⟨y, hstop, rfl⟩ := yields_discard.mp hdiscard
      exact ⟨y, stop_turn hinvoke hsound hstop, rfl⟩
    rcases yields_bind.mp h with ⟨_, w₁, hstop, hheld₁⟩ | ⟨f, hstop, rfl⟩
    · obtain ⟨f | o, hstopped, ho⟩ := hstopped _ _ hstop
      · cases ho
      · obtain rfl := hstopped.eq_ok
        have hcurrent₁ : w₁.current = some slot := hstopped.current.trans hcurrent
        have hlt : slot < w₁.course.cores.length := by
          rw [hstopped.length_cores]
          exact hsound.held slot hcurrent
        rcases yields_held_bind hheld₁ with ⟨hnone, -⟩ | ⟨slot', hslot', hrest⟩
        · rw [hcurrent₁] at hnone
          cases hnone
        · rw [hcurrent₁] at hslot'
          cases hslot'
          rcases yields_bind.mp hrest with ⟨_, w₂, hunload, hrelease⟩ | ⟨f, hunload, -⟩
          · obtain ⟨-, hw₂⟩ := yields_unload (List.getElem?_eq_getElem hlt) hunload
            obtain ⟨rfl, rfl⟩ := yields_modify.mp hrelease
            have hcleaned := Turn.cleaned (c := w.course) hcurrent hstopped
            rw [← hw₂] at hcleaned
            exact hcleaned
          · cases (yields_unload (List.getElem?_eq_getElem hlt) hunload).1
    · obtain ⟨f | o, hstopped, hf⟩ := hstopped _ _ hstop
      · cases hf
        exact .kept (by simp [hcurrent, World.course]) hstopped
      · cases hf
  · next hnone =>
    obtain ⟨rfl, rfl⟩ := yields_modify.mp h
    exact .let_go (by simpa [World.course] using hnone)

theorem setup_turn {factory : Option I} {r : Except Fault Unit}
    (h : Yields (setup ip factory) w r w') :
    Turn ip w.course (.setup factory) (r.map fun _ => .done) w'.course := by
  rcases setup_cases h with ⟨hnone, rfl, rfl⟩ | ⟨core, w₁, hcore, hw₁, hbuild⟩
  · exact .unmade hnone
  · have hloads : Course.Loads ip w₁.course w'.course :=
      build_keeps Course.loads_allowsLoading.onCourse none _ _ _ hbuild
    rw [hw₁] at hloads
    exact .made hcore hloads

theorem perform_turn (hinvoke : invoke.Passive) (hsound : w.course.Sound) {r : Request I}
    {a : Except Fault Answer} (h : Yields (perform ip fuel invoke r) w a w') :
    Turn ip w.course r a w'.course := by
  cases hdrives : r.drives with
  | false =>
      have hsame : w.course = w'.course :=
        perform_keeps_of_not_drives hinvoke.keeps ip fuel r hdrives w a w' h
      rw [← hsame]
      exact .aside hdrives
  | true =>
      cases r with
      | setup factory =>
          obtain ⟨x, hsetup, rfl⟩ := yields_bind_pure.mp h
          exact setup_turn hsetup
      | cleanup =>
          obtain ⟨x, hcleanup, rfl⟩ := yields_bind_pure.mp h
          exact cleanup_turn hinvoke hsound hcleanup
      | build programs =>
          exact .built
            (only_keeps (build_keeps Course.loads_allowsLoading.onCourse programs) w a w' h)
      | clearPrograms =>
          exact .unloaded
            (only_keeps (clearPrograms_keeps Course.loads_allowsLoading.onCourse) w a w' h)
      | start node =>
          obtain ⟨x, hstart, rfl⟩ := yields_bind_pure.mp h
          exact start_turn hinvoke hsound hstart
      | «continue» =>
          obtain ⟨x, hcontinue, rfl⟩ := yields_bind_pure.mp h
          exact continue_turn hinvoke hsound hcontinue
      | stop =>
          obtain ⟨x, hstop, rfl⟩ := yields_bind_pure.mp h
          exact .stopped (stop_turn hinvoke hsound hstop)
      | select p => exact selectPick_turn hsound h
      | _ => cases hdrives

/-- With a passive host a request is a turn of the automaton. -/
theorem exec_turn {react : Host H I} (hreact : react.Passive) (hsound : w.course.Sound)
    {r : Request I} {a : Except Fault Answer} (h : Yields (exec ip react fuel r) w a w') :
    Turn ip w.course r a w'.course := by
  obtain ⟨fuel, rfl, h⟩ := yields_exec.mp h
  exact perform_turn (callHost_passive hreact fuel) hsound h

/-! ## Turns in a row -/

theorem Pumped.current {slot : Nat} {core : I} {c c' : Course I} {r : Except Fault Outcome}
    (h : Pumped ip slot core c r c') : c'.current = c.current := by
  cases h with
  | failed => rfl
  | passed _ hpassed => exact hpassed.frame (·.current) (Course.current_pass _)

theorem Pumped.length_cores {slot : Nat} {core : I} {c c' : Course I}
    {r : Except Fault Outcome} (h : Pumped ip slot core c r c') :
    c'.cores.length = c.cores.length := by
  cases h with
  | failed => exact List.length_set
  | passed _ hpassed =>
      exact (congrArg List.length (hpassed.frame (·.cores) (Course.cores_pass _))).trans
        List.length_set

theorem Stopped.running_of_ok {c c' : Course I} {o : Outcome} (h : Stopped ip c (.ok o) c') :
    c'.running = false := by
  cases h <;> rfl

theorem sound_of_same {c c' : Course I} (hsound : c.Sound) (hcurrent : c'.current = c.current)
    (hlength : c'.cores.length = c.cores.length)
    (hrunning : c'.running = true → c.running = true ∨ c.current ≠ none) : c'.Sound where
  held slot hslot := by
    rw [hlength]
    exact hsound.held slot (hcurrent ▸ hslot)
  running h := by
    rw [hcurrent]
    exact (hrunning h).elim hsound.running id

theorem sound_made (c : Course I) (core : I) : (c.made core).Sound where
  held slot hslot := by
    cases hslot
    simp [Course.made, Course.flag, Course.deal]
  running hrunning := by
    cases hrunning

theorem Turn.sound {c c' : Course I} {r : Request I} {a : Except Fault Answer}
    (h : Turn ip c r a c') (hsound : c.Sound) : c'.Sound := by
  have hloads : ∀ {c c' : Course I}, c.Sound → c.Loads ip c' → c'.Sound := fun hsound h =>
    sound_of_same hsound (h.frame (·.current) fun _ _ _ => rfl) h.length_cores fun hrunning =>
      .inl (h.frame (·.running) (fun _ _ _ => rfl) ▸ hrunning)
  have hheld : ∀ {c : Course I} {slot : Nat} {core : I}, c.Holds slot core → c.current ≠ none := by
    intro c slot core hholds
    simp [hholds.1]
  have hstopped : ∀ {r : Except Fault Outcome} {c' : Course I}, Stopped ip c r c' → c'.Sound := by
    intro r c' h
    refine sound_of_same hsound h.current h.length_cores ?_
    intro hrunning
    cases h with
    | bare => cases hrunning
    | failed hholds => exact .inr (hheld hholds)
    | cut hholds => exact .inr (hheld hholds)
    | whole => cases hrunning
  cases h with
  | refused | unconfigured | idle | unpicked | unmade | aside => exact hsound
  | unentered _ hholds =>
      exact sound_of_same hsound rfl List.length_set fun _ => .inr (hheld hholds)
  | entered _ hholds _ hpumped =>
      exact sound_of_same hsound hpumped.current (hpumped.length_cores.trans List.length_set)
        fun _ => .inr (hheld hholds)
  | pumped _ hholds hpumped =>
      exact sound_of_same hsound hpumped.current hpumped.length_cores fun _ => .inr (hheld hholds)
  | answered h =>
      cases h with
      | unconfigured | empty => exact hsound
      | taken hholds => exact sound_of_same hsound rfl List.length_set .inl
      | refused hholds => exact sound_of_same hsound rfl List.length_set .inl
  | stopped h => exact hstopped h
  | let_go hnone =>
      refine ⟨fun _ hslot => (by cases hslot), fun hrunning => ?_⟩
      exact absurd hnone (hsound.running hrunning)
  | kept _ h => exact hstopped h
  | cleaned _ h =>
      refine ⟨fun _ hslot => (by cases hslot), fun hrunning => ?_⟩
      cases h.running_of_ok.symm.trans hrunning
  | made _ h => exact hloads (sound_made _ _) h
  | built h => exact hloads hsound h
  | unloaded h => exact hloads hsound h

theorem sound_of_fresh (h : w.Fresh) : w.course.Sound where
  held slot hslot := by
    cases h.current.symm.trans hslot
  running hrunning := by
    cases h.running.symm.trans hrunning

/-- What holds at first and every turn keeps holds along a run with a passive host. -/
theorem Run.invariant {react : Host H I} (hreact : react.Passive) {w₀ : World H I}
    {steps : List (Request I × Except Fault Answer)} (hrun : Run ip react w₀ steps w)
    (h₀ : w₀.Fresh) (p : List (Request I × Except Fault Answer) → Course I → Prop)
    (hp₀ : p [] w₀.course)
    (hturn : ∀ steps c r a c', c.Sound → p steps c → Turn ip c r a c' →
      p (steps ++ [(r, a)]) c') : w.course.Sound ∧ p steps w.course := by
  induction hrun with
  | rest => exact ⟨sound_of_fresh h₀, hp₀⟩
  | step _ answered ih =>
      obtain ⟨hsound, hp⟩ := ih
      have h := exec_turn hreact hsound answered
      exact ⟨h.sound hsound, hturn _ _ _ _ _ hsound hp h⟩

theorem Run.sound {react : Host H I} (hreact : react.Passive) {w₀ : World H I}
    {steps : List (Request I × Except Fault Answer)} (hrun : Run ip react w₀ steps w)
    (h₀ : w₀.Fresh) : w.course.Sound :=
  (hrun.invariant hreact h₀ (fun _ _ => True) trivial fun _ _ _ _ _ _ _ _ => trivial).1

end Session

end Parley
