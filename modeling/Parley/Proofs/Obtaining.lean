import Parley.Interpreter.Rehearsal
import Parley.Proofs.Passing

/-!
# The batches that requests obtain

Starting and continuing pump an interpreter, and `stop` has it return what is left.
`Returns ip invoke fuel w r events u`: the request `r`, asked in `w`, obtains the batch
`events` from the interpreter, and by then the world is `u`.  From there the request passes
the batch on and answers.  For each request this is an equivalence with the operation, on
whole worlds: what the earlier modules say of the course alone does not reach the journal and
the commands, and these decide over what a batch does.
-/

namespace Parley

namespace World

variable {H I L : Type}

/-- A call on an interpreter is entered in the journal, if it wants that. -/
def observed (w : World H I) (ip : Interpreter I L) (core : I) (c : EngineCall) : World H I :=
  if ip.isObserved core then { w with journal := w.journal ++ [.engine c] } else w

def withCore (w : World H I) (slot : Nat) (core : I) : World H I :=
  { w with instances := w.instances.modify slot fun i => { i with core } }

/-- The world in which a pump begins: nothing is shown any more. -/
def begun (w : World H I) (ip : Interpreter I L) (core : I) : World H I :=
  (w.blank.dealt .pumping).observed ip core .continued

/-- The world in which the sink hears of a start. -/
def entered (w : World H I) (ip : Interpreter I L) (slot : Nat) (core : I) (node : Datum) :
    World H I :=
  { ((w.observed ip core (.nodeSet node)).withCore slot (ip.setNode node core).2).dealt .entered
    with running := true }

/-- The world in which the batch of a `stop` is passed on. -/
def stopping (w : World H I) (ip : Interpreter I L) (slot : Nat) (core : I) : World H I :=
  ((w.dealt .stopping).observed ip core .stopped).withCore slot (ip.stop core).2

theorem course_observed (w : World H I) (ip : Interpreter I L) (core : I) (c : EngineCall) :
    (w.observed ip core c).course = w.course := by
  unfold observed
  split <;> rfl

theorem course_withCore (w : World H I) (slot : Nat) (core : I) :
    (w.withCore slot core).course = w.course.setCore slot core :=
  (Act.yields_setCore (w := w) (Act.yields_modify.mpr ⟨rfl, rfl⟩)).2.1

theorem modify_congr {α : Type} {xs : List α} {n : Nat} {x : α} {f g : α → α}
    (hx : xs[n]? = some x) (hfg : f x = g x) : xs.modify n f = xs.modify n g := by
  apply List.ext_getElem?
  intro m
  simp only [List.getElem?_modify]
  split
  · next h =>
      subst h
      rw [hx]
      exact congrArg some hfg
  · rfl

theorem withCore_self {w : World H I} {slot : Nat} {core : I}
    (hcore : w.course.cores[slot]? = some core) : w.withCore slot core = w := by
  obtain ⟨i, hi, rfl⟩ := course_cores.mp hcore
  have hput : ({ i with core := i.core } : Instance I) = id i := rfl
  rw [withCore, modify_congr hi hput, List.modify_id]

theorem course_begun (w : World H I) (ip : Interpreter I L) (core : I) :
    (w.begun ip core).course = w.course.cleared := course_observed _ ip core _

theorem course_entered (w : World H I) (ip : Interpreter I L) (slot : Nat) (core : I)
    (node : Datum) : (w.entered ip slot core node).course =
      (w.course.setCore slot (ip.setNode node core).2).flag true .entered := by
  rw [← course_observed w ip core (.nodeSet node), ← course_withCore]
  rfl

end World

namespace Session

open Act

variable {H I L : Type}

/-! ## Calls on the interpreter that is held -/

section
variable {ip : Interpreter I L} {slot : Nat} {core : I} {w w' : World H I} {α : Type}
  {r : Except Fault α}

theorem exists_instance (hcore : w.course.cores[slot]? = some core) :
    ∃ i : Instance I, i.core = core ∧
      ∀ {α : Type} {f : Instance I → Act H I α} {r : Except Fault α} {w' : World H I},
        Yields (instance? slot >>= f) w r w' ↔ Yields (f i) w r w' := by
  obtain ⟨i, hi, hicore⟩ := World.course_cores.mp hcore
  refine ⟨i, hicore, ?_⟩
  intro α f r w'
  unfold instance?
  rw [bind_assoc, yields_get_bind, hi]
  exact .rfl

theorem yields_observed (hcore : w.course.cores[slot]? = some core) {c : EngineCall}
    {f : Unit → Act H I α} :
    Yields (observe ip slot c >>= f) w r w' ↔ Yields (f ()) (w.observed ip core c) r w' := by
  obtain ⟨i, hi, rfl⟩ := World.course_cores.mp hcore
  unfold observe instance? World.observed
  rw [bind_assoc, bind_assoc, yields_get_bind, hi]
  show Yields ((if ip.isObserved i.core then record (.engine c) else pure ()) >>= f) w r w' ↔ _
  by_cases hobserved : ip.isObserved i.core = true
  · rw [if_pos hobserved, if_pos hobserved]
    exact .rfl
  · rw [if_neg hobserved, if_neg hobserved]
    exact .rfl

theorem yields_held_of_current (hcurrent : w.current = some slot) {f : Nat → Act H I α} :
    Yields (held >>= f) w r w' ↔ Yields (f slot) w r w' := by
  unfold held
  rw [bind_assoc, yields_get_bind, hcurrent]
  exact .rfl

end

/-! ## Pumps -/

/-- What a request does with the result of its pump. -/
def conclude (invoke : Invoke H I) : Except Fault (List Event) → Act H I Outcome
  | .error f => do
    if f.isA .dialogue then
      log (.interpreterFailed f)
      outcomeOf f
    else throw f
  | .ok events => do
    processAll invoke events
    return if (← get).running then .ok else .complete

theorem conclude_error_keeps {invoke : Invoke H I} {R : World H I → World H I → Prop} [Overlooks R]
    (f : Fault) : Keeps R (conclude invoke (.error f)) := by
  show Keeps R (if f.isA .dialogue then do
      log (.interpreterFailed f)
      outcomeOf f
    else throw f)
  split
  · exact .bind (keeps_log _) fun _ => outcomeOf_keeps _
  · exact keeps_throw _

/-- The request, asked in `w`, has the interpreter in a slot pumped from a state of it. -/
inductive Pumping (ip : Interpreter I L) (invoke : Invoke H I) (w : World H I) :
    Request I → Nat → I → World H I → Prop where
  | continued {slot : Nat} {core : I} : w.running = true → w.course.Holds slot core →
      Pumping ip invoke w .continue slot core (w.begun ip core)
  | started {node : Datum} {slot : Nat} {core : I} {u : World H I} : w.running = false →
      w.course.Holds slot core → (ip.setNode node core).1 = .ok () →
      Yields (notify invoke .started) (w.entered ip slot core node) (.ok ()) u →
      Pumping ip invoke w (.start node) slot (ip.setNode node core).2
        (u.begun ip (ip.setNode node core).2)

/-- The request, asked in `w`, obtains a batch. -/
inductive Returns (ip : Interpreter I L) (invoke : Invoke H I) (fuel : Nat) (w : World H I) :
    Request I → List Event → World H I → Prop where
  | pumped {r : Request I} {slot : Nat} {core : I} {events : List Event} {u u' : World H I} :
      Pumping ip invoke w r slot core u →
      Yields (pump ip invoke slot fuel (ip.begin core)) u (.ok events) u' →
      Returns ip invoke fuel w r events u'
  | stopped {slot : Nat} {core : I} {events : List Event} : w.course.Holds slot core →
      (ip.stop core).1 = .ok events →
      Returns ip invoke fuel w .stop events (w.stopping ip slot core)

section
variable {ip : Interpreter I L} {invoke : Invoke H I} {fuel : Nat} {w w' : World H I}
  {slot : Nat} {core : I} {r : Except Fault Outcome}

theorem yields_continue (hrunning : w.running = true) (hholds : w.course.Holds slot core) :
    Yields (continueDialogue ip fuel invoke) w r w' ↔
      ∃ x u, Yields (pump ip invoke slot fuel (ip.begin core)) (w.begun ip core) x u ∧
        Yields (conclude invoke x) u r w' := by
  have hcleared : ∀ {v : World H I}, v.course = w.course.cleared →
      v.current = some slot ∧ v.course.cores[slot]? = some core := by
    intro v hv
    refine ⟨(congrArg Course.current hv).trans hholds.1, ?_⟩
    rw [hv]
    exact hholds.2
  obtain ⟨hcurrent, hcore⟩ := hcleared (v := w.blank.dealt .pumping) rfl
  unfold continueDialogue
  rw [yields_get_bind, if_neg (by simp [hrunning]), yields_modify_bind]
  refine yields_modify_bind.trans ?_
  refine (yields_held_of_current hcurrent).trans ((yields_observed hcore).trans ?_)
  obtain ⟨i, rfl, hinstance⟩ := exists_instance (hcleared (World.course_begun w ip core)).2
  refine hinstance.trans ?_
  refine yields_attempt_bind.trans (exists_congr fun x => exists_congr fun u => and_congr_right ?_)
  intro _
  cases x <;> exact .rfl

/-- A pump makes a move, and goes on as the move says. -/
theorem yields_pump {l : L} {x : Except Fault (List Event)}
    (hcore : w.course.cores[slot]? = some core) :
    Yields (pump ip invoke slot (fuel + 1) l) w x w' ↔
      GoesOn ip invoke slot fuel (w.withCore slot (ip.advance w.textOf l core).2) x w'
        (ip.advance w.textOf l core).1 := by
  obtain ⟨i, rfl, hinstance⟩ := exists_instance hcore
  unfold pump
  refine hinstance.trans (yields_get_bind.trans ?_)
  obtain ⟨m, core'⟩ := ip.advance w.textOf l i.core
  refine yields_modify_bind.trans ?_
  cases m with
  | again next => exact .rfl
  | ask request next =>
      exact yields_attempt_bind
  | pause events => exact yields_pure
  | fail f => exact yields_throw

theorem yields_start {node : Datum} (hrunning : w.running = false)
    (hholds : w.course.Holds slot core) :
    Yields (start ip fuel invoke node) w r w' ↔
      match (ip.setNode node core).1 with
      | .ok _ => Yields (do notify invoke .started; continueDialogue ip fuel invoke)
          (w.entered ip slot core node) r w'
      | .error f => Yields (conclude invoke (.error f))
          ((w.observed ip core (.nodeSet node)).withCore slot (ip.setNode node core).2) r w' := by
  have hcurrent : w.current = some slot := hholds.1
  unfold start
  rw [yields_get_bind, if_neg (by simp [hrunning]), hcurrent]
  refine (yields_observed hholds.2).trans ?_
  obtain ⟨i, rfl, hinstance⟩ := exists_instance
    (w := w.observed ip core (.nodeSet node)) (by rw [World.course_observed]; exact hholds.2)
  refine hinstance.trans ?_
  dsimp only
  cases (ip.setNode node i.core).1 <;> exact .rfl

theorem yields_stop {events : List Event} (hholds : w.course.Holds slot core)
    (hevents : (ip.stop core).1 = .ok events) :
    Yields (stop ip invoke) w r w' ↔
      ∃ y u, Yields (processAll invoke events) (w.stopping ip slot core) y u ∧
        (y = .ok () ∧ r = .ok .ok ∧ w' = u.settled w.dealings.length ∨
          ∃ f, y = .error f ∧ r = .error f ∧ w' = u) := by
  have hcurrent : w.current = some slot := hholds.1
  unfold stop
  refine yields_get_bind.trans (yields_modify_bind.trans (yields_get_bind.trans ?_))
  split
  case h_2 hnone => exact absurd hcurrent (hnone slot)
  case h_1 slot' hslot' =>
  cases hcurrent.symm.trans hslot'
  refine (yields_observed (w := w.dealt .stopping) hholds.2).trans ?_
  obtain ⟨i, rfl, hinstance⟩ := exists_instance
    (w := (w.dealt .stopping).observed ip core .stopped)
    (by rw [World.course_observed]; exact hholds.2)
  refine hinstance.trans ?_
  dsimp only
  rw [hevents]
  refine yields_modify_bind.trans ((yields_of_ok_bind).trans ?_)
  rw [yields_bind]
  constructor
  · rintro (⟨_, u, hpassed, hend⟩ | ⟨f, hpassed, rfl⟩)
    · have hpure := yields_modify_bind.mp hend
      obtain ⟨rfl, rfl⟩ := yields_pure.mp hpure
      exact ⟨_, u, hpassed, .inl ⟨rfl, rfl, rfl⟩⟩
    · exact ⟨_, w', hpassed, .inr ⟨f, rfl, rfl, rfl⟩⟩
  · rintro ⟨y, u, hpassed, ⟨rfl, rfl, rfl⟩ | ⟨f, rfl, rfl, rfl⟩⟩
    · exact .inl ⟨(), u, hpassed, yields_modify_bind.mpr (yields_pure.mpr ⟨rfl, rfl⟩)⟩
    · exact .inr ⟨f, hpassed, rfl⟩

end

/-! ## A batch of commands that can be served -/

theorem course_of_pumped {ip : Interpreter I L} {invoke : Invoke H I} (hinvoke : invoke.Passive)
    {fuel slot : Nat} {core : I} {events : List Event} {w u : World H I}
    (hholds : w.course.Holds slot core)
    (hpump : Yields (pump ip invoke slot fuel (ip.begin core)) (w.begun ip core) (.ok events) u) :
    ∃ core', u.course = w.course.cleared.setCore slot core' := by
  have hcore : (w.begun ip core).course.cores[slot]? = some core := by
    rw [World.course_begun]
    exact hholds.2
  obtain ⟨core', -, hu⟩ := pump_aloof hinvoke.keeps hcore hpump
  exact ⟨core', by rw [hu, World.course_begun]⟩

/-- A batch whose commands can be served is passed on as a whole: each event in its turn, and a
host's sink is told of exactly what it should hear.  Where a `continue` obtained the batch, its
answer and what is shown afterwards can be read off the batch. -/
theorem batch_passed_on (ip : Interpreter I L) {react : Host H I} (hpassive : react.Passive)
    (hcontained : react.Contained) {events : List Event}
    (hevents : ∀ e ∈ events, e.servable = true) (fuel : Nat) :
    ((∀ c, c.passes = true → Ends (calls ip react fuel c)) →
      Ends (processAll (calls ip react fuel) events)) ∧
    (∀ w r w', Yields (processAll (calls ip react fuel) events) w r w' →
      r = .ok () ∧
      PassesAll (calls ip react fuel) w.dealings.length events (w.dealt (.batch events)) w' ∧
      (w.sink = .host → w'.told = w.told ++ events.filterMap Event.notification?)) ∧
    ∀ w u w', Returns ip (calls ip react fuel) fuel w .continue events u →
      Yields (processAll (calls ip react fuel) events) u (.ok ()) w' →
        Yields (exec ip react (fuel + 1) .continue) w
          (.ok (.outcome (if events.any Event.completes then .complete else .ok))) w' ∧
        w'.line = (events.filterMap Event.line?).getLast? ∧
        w'.options = events.flatMap Event.choices ∧
        (w'.running = true ↔ events.any Event.completes = false) := by
  have hinvoke : Invoke.Passive (calls ip react fuel) := callHost_passive hpassive fuel
  have hpasses : ∀ w r w', Yields (processAll (calls ip react fuel) events) w r w' → r = .ok () ∧
      PassesAll (calls ip react fuel) w.dealings.length events (w.dealt (.batch events)) w' := by
    intro w r w' h
    have hdelivered := processAll_delivers hinvoke (callHost_contained hcontained _) h
    exact hdelivered.whole_of_servable hevents
  refine ⟨fun hreturns => processAll_ends hreturns events, ?_, ?_⟩
  · intro w r w' h
    obtain ⟨hr, hchain⟩ := hpasses w r w' h
    exact ⟨hr, hchain, hchain.told (callHost_reports hpassive fuel)⟩
  · rintro w u w' (⟨⟨hrunning, hholds⟩, hpump⟩) hpassed
    obtain ⟨core', hu⟩ := course_of_pumped hinvoke hholds hpump
    have hcourse := (hpasses u _ w' hpassed).2.course hinvoke
    have hline : w'.line = (events.filterMap Event.line?).getLast?.or u.line :=
      (congrArg Course.line hcourse).trans (Course.line_foldl_pass _ _ _)
    have hoptions : w'.options = u.options ++ events.flatMap Event.choices :=
      (congrArg Course.options hcourse).trans (Course.options_foldl_pass _ _ _)
    have hend : w'.running = (u.running && !events.any Event.completes) :=
      (congrArg Course.running hcourse).trans (Course.running_foldl_pass _ _ _)
    rw [show u.line = none from congrArg Course.line hu, Option.or_none] at hline
    rw [show u.options = [] from congrArg Course.options hu, List.nil_append] at hoptions
    rw [show u.running = true from (congrArg Course.running hu).trans hrunning,
      Bool.true_and] at hend
    refine ⟨?_, hline, hoptions, by simp [hend]⟩
    refine yields_exec.mpr ⟨fuel, rfl, yields_bind_pure.mpr
      ⟨.ok (if events.any Event.completes then .complete else .ok), ?_, rfl⟩⟩
    refine (yields_continue hrunning hholds).mpr ⟨_, u, hpump, ?_⟩
    refine yields_bind.mpr (.inl ⟨(), w', hpassed, yields_get_bind.mpr (yields_pure.mpr ⟨?_, rfl⟩)⟩)
    rw [hend]
    cases events.any Event.completes <;> rfl

/-! ### An eventful batch

One handler registers another and fails, and the other takes itself off the list. -/

def clumsy : Host Unit Rehearsal.State := fun host c =>
  match c with
  | .command 1 _ => .request host (.registerCommand (.text "late") (some 2)) fun host _ =>
      .finish host (.error (.accident .value))
  | .command _ _ => .request host (.removeCommand (.text "late")) fun host _ =>
      .finish host (.ok .nothing)
  | _ => .finish host (.ok .nothing)

def changesHandlers : Request I → Bool
  | .registerCommand .. | .removeCommand _ => true
  | _ => false

theorem clumsy_abides (host : Unit) (c : Callback) : (clumsy host c).Abides
    (fun r => changesHandlers r = true) (fun result => ∀ f, result = .error f →
      f = .accident .value ∧ c.tells = false) := by
  unfold clumsy
  split
  · exact ⟨rfl, fun _ _ f hf => by cases hf; exact ⟨rfl, rfl⟩⟩
  · exact ⟨rfl, fun _ _ => nofun⟩
  · nofun

theorem clumsy_passive : clumsy.Passive := by
  intro host c
  refine (clumsy_abides host c).mono ?_ ?_
  · intro r hr
    cases r <;> first | rfl | cases hr
  · rintro (f | d) hresult htells
    · obtain ⟨-, hc⟩ := hresult f rfl
      cases htells.symm.trans hc
    · exact ⟨d, rfl⟩

theorem clumsy_contained : clumsy.Contained := by
  intro host handler arguments
  refine (clumsy_abides host _).mono (fun _ _ => trivial) ?_
  intro result hresult f hf
  rw [(hresult f hf).1]
  decide +kernel

theorem clumsy_ends (c : Callback) : Ends (calls Rehearsal.interpreter clumsy 1 c) := by
  refine callHost_ends ?_ fun host => clumsy_abides host c
  intro r hr
  cases r with
  | registerCommand name handler =>
      exact .bind (.bind (ends_checkKey name) fun _ => .bind ends_get fun _ =>
        .bind (ends_modify _) fun _ => ends_modify _) fun _ => ends_pure _
  | removeCommand name =>
      exact .bind (.bind (ends_checkKey name) fun _ => .bind ends_get fun _ =>
        .bind (ends_modify _) fun _ => ends_pure _) fun _ => ends_pure _
  | _ => cases hr

def eventful : List Event :=
  [.line { id := .text "a" }, .command (.text "boom") [.number .zero], .plain,
    .options [{ id := .int 0, line := { id := .text "b" }, destination := .nothing }],
    .completed, .command (.text "late") [.boolean (.bool true)], .command (.text "late") [],
    .line { id := .text "c" }]

def crowded : World Unit Rehearsal.State where
  host := ()
  sink := .host
  commands := ({} : Commands).register (.text "boom") (some 1)
  instances := [{ core := { pumps := [.ok eventful] } }]
  current := some 0
  running := true

theorem batch_passed_on_of_eventful : ∃ u w',
    clumsy.Passive ∧ clumsy.Contained ∧ (∀ e ∈ eventful, e.servable = true) ∧
      Returns Rehearsal.interpreter (calls Rehearsal.interpreter clumsy 1) 1 crowded .continue
        eventful u ∧
      Yields (exec Rehearsal.interpreter clumsy 2 .continue) crowded
        (.ok (.outcome .complete)) w' ∧
      w'.told.map Notification.method =
        ["on_line", "on_options", "on_dialogue_complete", "on_line"] ∧
      w'.line.map (·.id) = some (.text "c") ∧ w'.options.length = 1 ∧ w'.running = false := by
  have hevents : ∀ e ∈ eventful, e.servable = true := by decide
  obtain ⟨hends, hpassed, hcontinued⟩ := batch_passed_on Rehearsal.interpreter clumsy_passive
    clumsy_contained hevents 1
  obtain ⟨u, hu, hsink, htold⟩ : ∃ u, Returns Rehearsal.interpreter
      (calls Rehearsal.interpreter clumsy 1) 1 crowded .continue eventful u ∧
        u.sink = .host ∧ u.told = [] :=
    ⟨_, .pumped (.continued rfl ⟨rfl, rfl⟩) rfl, rfl, rfl⟩
  obtain ⟨r, w', hyields⟩ := hends (fun c _ => clumsy_ends c) u
  obtain ⟨rfl, -, htold'⟩ := hpassed u r w' hyields
  obtain ⟨hanswer, hline, hoptions, hrunning⟩ := hcontinued crowded u w' hu hyields
  refine ⟨u, w', clumsy_passive, clumsy_contained, hevents, hu, hanswer, ?_, ?_, ?_, ?_⟩
  · rw [htold' hsink, htold]
    rfl
  · rw [hline]
    rfl
  · rw [hoptions]
    rfl
  · rw [← Bool.not_eq_true, hrunning]
    decide

end Session

end Parley
