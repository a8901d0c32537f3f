import Parley.Proofs.Run

/-!
# What the runner's operations come to

For each operation one statement of all it can do: which answer it gives or which
fault ends it, and what it has done to the course by then.  The host is any host.
What calling it does is left open: a pump, a batch passed on and a notification
stand in the statements as they stand in the operations.

An operation on an interpreter that is not there ends in a fault.  No sequence of
requests leads there, but a world can be given like that, and then nothing of the
course is touched.
-/

namespace Parley

namespace Course

variable {I : Type}

def deal (c : Course I) (d : Dealing) : Course I := { c with dealings := c.dealings ++ [d] }

def flag (c : Course I) (running : Bool) (d : Dealing) : Course I := { c.deal d with running }

/-- The course at the beginning of a pump: nothing is shown any more. -/
def cleared (c : Course I) : Course I := { c with line := none, options := [] }.deal .pumping

/-- A new interpreter in place of any earlier one. -/
def made (c : Course I) (core : I) : Course I :=
  { c with
    factory := some core
    cores := c.cores ++ [core]
    current := some c.cores.length }.flag false .made

/-- The runner lets go of the interpreter. -/
def released (c : Course I) : Course I :=
  { c with current := none, line := none, options := [] }

end Course

namespace Event

/-- What the sink is told of an event. -/
def notification? : Event → Option Notification
  | .line l => some (.line l)
  | .options branches => some (.options (branches.map fun b => { branch := some b }))
  | .nodeStarted node => some (.nodeStarted node)
  | .nodeCompleted node => some (.nodeCompleted node)
  | .hints ids => some (.hints ids)
  | .completed => some .completed
  | .command .. | .plain | .alien _ => none

/-- Has the runner no rule for the event? -/
def isUnknown : Event → Bool
  | .plain | .alien _ => true
  | _ => false

end Event

namespace World

variable {H I : Type}

def noted (w : World H I) (n : Note) : World H I := { w with journal := w.journal ++ [.log n] }

def dealt (w : World H I) (d : Dealing) : World H I := { w with dealings := w.dealings ++ [d] }

/-- The dialogue is over, by what stands at a place among the dealings. -/
def settled (w : World H I) (place : Nat) : World H I :=
  { w.dealt (.settled place) with running := false }

/-- What the runner keeps of an event of the batch at a place. -/
def keep (w : World H I) (place : Nat) : Event → World H I
  | .line l => { w with line := some l }
  | .options branches =>
    { w with options := w.options ++ branches.map fun b => { branch := some b } }
  | .completed => w.settled place
  | _ => w

end World

namespace Session

open Act

variable {H I L α : Type}

/-! ## The interpreter in a slot -/

section
variable {ip : Interpreter I L} {slot : Nat} {core : I} {w w' : World H I} {r : Except Fault α}

theorem yields_instance_bind {f : Instance I → Act H I α}
    (hcore : w.course.cores[slot]? = some core) (h : Yields (instance? slot >>= f) w r w') :
    ∃ i, i.core = core ∧ Yields (f i) w r w' := by
  obtain ⟨i, hi, hicore⟩ := World.course_cores.mp hcore
  rcases yields_bind.mp h with ⟨j, w₁, hinstance, hrest⟩ | ⟨e, hinstance, -⟩
  · obtain ⟨⟨_, hj, hr⟩ | ⟨hj, -⟩, rfl⟩ := yields_instance.mp hinstance
    · cases hr
      rw [hi] at hj
      cases hj
      exact ⟨i, hicore, hrest⟩
    · simp [hi] at hj
  · obtain ⟨⟨_, -, hr⟩ | ⟨hj, -⟩, rfl⟩ := yields_instance.mp hinstance
    · cases hr
    · simp [hi] at hj

theorem yields_held_bind {f : Nat → Act H I α} (h : Yields (held >>= f) w r w') :
    (w.current = none ∧ (∃ e, r = .error e) ∧ w' = w) ∨
      ∃ slot, w.current = some slot ∧ Yields (f slot) w r w' := by
  rcases yields_bind.mp h with ⟨slot, w₁, hx, hf⟩ | ⟨e, hx, hr⟩
  · obtain ⟨⟨_, hcurrent, hslot⟩ | ⟨-, he⟩, rfl⟩ := yields_held.mp hx
    · cases hslot
      exact .inr ⟨slot, hcurrent, hf⟩
    · cases he
  · obtain ⟨⟨_, -, hslot⟩ | ⟨hcurrent, -⟩, rfl⟩ := yields_held.mp hx
    · cases hslot
    · exact .inl ⟨hcurrent, ⟨e, hr⟩, rfl⟩

theorem yields_observe_bind {call : EngineCall} {act : Act H I α}
    (hcore : w.course.cores[slot]? = some core)
    (h : Yields (observe ip slot call >>= fun _ => act) w r w') :
    ∃ w₁, w₁.course = w.course ∧ Yields act w₁ r w' := by
  rcases yields_bind.mp h with ⟨_, w₁, hobserve, hrest⟩ | ⟨e, hobserve, -⟩
  · exact ⟨w₁, (observe_keeps (R := OnCourse Eq) ip slot call w _ w₁ hobserve).symm, hrest⟩
  · obtain ⟨i, -, hobserve⟩ := yields_instance_bind hcore hobserve
    split at hobserve
    · cases (yields_modify.mp hobserve).1
    · cases (yields_pure.mp hobserve).1

theorem yields_setCore_bind {act : Act H I α}
    (h : Yields (setCore slot core >>= fun _ => act) w r w') :
    ∃ w₁, w₁.course = w.course.setCore slot core ∧ Yields act w₁ r w' := by
  rcases yields_bind.mp h with ⟨_, w₁, hset, hrest⟩ | ⟨e, hset, -⟩
  · exact ⟨w₁, (yields_setCore hset).2.1, hrest⟩
  · cases (yields_setCore hset).1

theorem yields_observe_bind_of_none {call : EngineCall} {f : Unit → Act H I α}
    (hcore : w.course.cores[slot]? = none) (h : Yields (observe ip slot call >>= f) w r w') :
    (∃ e, r = .error e) ∧ w' = w := by
  have hnone : w.instances[slot]? = none := by
    simpa [World.course] using hcore
  have hfails : ∀ x w₁, Yields (observe ip slot call) w x w₁ → (∃ e, x = .error e) ∧ w₁ = w := by
    intro x w₁ hobserve
    rcases yields_bind.mp hobserve with ⟨i, w₂, hinstance, -⟩ | ⟨e, hinstance, hx⟩
    · obtain ⟨⟨_, hi, -⟩ | ⟨-, hr⟩, -⟩ := yields_instance.mp hinstance
      · simp [hnone] at hi
      · cases hr
    · exact ⟨⟨e, hx⟩, (yields_instance.mp hinstance).2⟩
  rcases yields_bind.mp h with ⟨_, w₁, hobserve, -⟩ | ⟨e, hobserve, hr⟩
  · obtain ⟨⟨e, he⟩, -⟩ := hfails _ _ hobserve
    cases he
  · exact ⟨⟨e, hr⟩, (hfails _ _ hobserve).2⟩

end

/-- What an operation comes to when its interpreter fails: an outcome for a fault of a
dialogue, and any other fault as it is. -/
inductive Faulted (f : Fault) : Except Fault Outcome → Prop where
  | outcome : f.isA .dialogue = true → Faulted f (.ok (.ofClass f.cls))
  | fault : f.isA .dialogue = false → Faulted f (.error f)

theorem yields_faulted {f : Fault} {w w' : World H I} {r : Except Fault Outcome}
    (h : Yields (if f.isA .dialogue then do
        log (.interpreterFailed f)
        outcomeOf f
      else throw f) w r w') : Faulted f r ∧ w'.course = w.course := by
  refine ⟨?_, ?_⟩
  · split at h
    · next hf =>
      rw [outcomeOf_yields (yields_modify_bind.mp h)]
      exact .outcome hf
    · next hf =>
      obtain ⟨rfl, -⟩ := yields_throw.mp h
      exact .fault (by simpa using hf)
  · have hkeeps : Keeps (OnCourse Eq) (if f.isA .dialogue then do
        log (.interpreterFailed f)
        outcomeOf f
      else throw f : Act H I Outcome) := by
      split
      · exact .bind (keeps_log _) fun _ => outcomeOf_keeps _
      · exact keeps_throw _
    exact (hkeeps w r w' h).symm

theorem Faulted.ne {f : Fault} {r : Except Fault Outcome} (h : Faulted f r) {o : Outcome}
    (ho : o ∉ Outcome.ofFaults) : r ≠ .ok o := by
  cases h with
  | outcome =>
      intro heq
      cases heq
      exact ho (Outcome.ofClass_mem_ofFaults _)
  | fault =>
      intro heq
      cases heq

theorem isError_ofClass {f : Fault} : (Outcome.ofClass f.cls).isError = true := by
  have hall : ∀ o ∈ Outcome.ofFaults, o.isError = true := by decide
  exact hall _ (Outcome.ofClass_mem_ofFaults _)

/-- What an answer to options comes to when the interpreter refuses it. -/
inductive Refused (f : Fault) : Except Fault Outcome → Prop where
  | outcome : f.isA .dialogue = true → Refused f (.ok (.ofClass f.cls))
  | fault : f.isA .dialogue = false → Refused f (.error f)

theorem yields_refused {id : Datum} {f : Fault} {w w' : World H I} {r : Except Fault Outcome}
    (h : Yields (if f.isA .dialogue then do
        log (.optionRejected id f)
        outcomeOf f
      else throw f) w r w') : Refused f r ∧ w'.course = w.course := by
  refine ⟨?_, ?_⟩
  · split at h
    · next hf =>
      rw [outcomeOf_yields (yields_modify_bind.mp h)]
      exact .outcome hf
    · next hf =>
      obtain ⟨rfl, -⟩ := yields_throw.mp h
      exact .fault (by simpa using hf)
  · have hkeeps : Keeps (OnCourse Eq) (if f.isA .dialogue then do
        log (.optionRejected id f)
        outcomeOf f
      else throw f : Act H I Outcome) := by
      split
      · exact .bind (keeps_log _) fun _ => outcomeOf_keeps _
      · exact keeps_throw _
    exact (hkeeps w r w' h).symm

/-! ## Setting up -/

/-- All a setup can do: without anything to make an interpreter nothing happens. -/
theorem setup_cases {ip : Interpreter I L} {factory : Option I} {w w' : World H I}
    {r : Except Fault Unit} (h : Yields (setup ip factory) w r w') :
    (factory.or w.factory = none ∧ r = .error .noFactory ∧ w' = w) ∨
    ∃ core w₁, factory.or w.factory = some core ∧ w₁.course = w.course.made core ∧
      Yields (build ip none) w₁ r w' := by
  have hensure : ∀ {x : Except Fault Unit} {u u' : World H I}, Yields ensureProvider u x u' →
      x = .ok () ∧ u'.course = u.course := by
    intro x u u' h
    refine ⟨?_, (ensureProvider_keeps (R := OnCourse Eq) u x u' h).symm⟩
    have h := yields_get_bind.mp h
    split at h
    · rcases yields_bind.mp h with ⟨_, w₁, -, hmodify⟩ | ⟨e, hnotes, -⟩
      · exact (yields_modify.mp hmodify).1
      · cases yields_forM_ok (fun n _ _ _ hlog => (yields_modify.mp hlog).1) hnotes
    · exact (yields_pure.mp h).1
  have hmake : ∀ {core : I} {u : World H I}, Yields (do
        ensureProvider
        modify fun w => { w with
          instances := w.instances ++ [{ core, functions := .standard }]
          current := some w.instances.length }
        flag false .made
        log (.interpreterReady (ip.typeName core))
        build ip none) u r w' → u.factory = some core →
      ∃ w₁, w₁.course = u.course.made core ∧ Yields (build ip none) w₁ r w' := by
    intro core u h hfactory
    rcases yields_bind.mp h with ⟨_, u₁, hprovider, hrest⟩ | ⟨e, hprovider, -⟩
    · obtain ⟨-, hu₁⟩ := hensure hprovider
      have hflag := yields_modify_bind.mp hrest
      have hlog := yields_modify_bind.mp hflag
      have hfactory₁ : u₁.course.factory = some core := by
        rw [hu₁]
        exact hfactory
      refine ⟨_, ?_, yields_modify_bind.mp hlog⟩
      rw [← hu₁]
      simp [World.course, Course.made, Course.flag, Course.deal, ← hfactory₁]
    · cases (hensure hprovider).1
  unfold setup at h
  cases factory with
  | none =>
      have h := yields_get_bind.mp h
      split at h
      · next hnone =>
        obtain ⟨hr, hw'⟩ := yields_throw.mp h
        exact .inl ⟨hnone, hr, hw'⟩
      · next core hcore =>
        obtain ⟨w₁, hw₁, hbuild⟩ := hmake h hcore
        exact .inr ⟨core, w₁, hcore, hw₁, hbuild⟩
  | some core =>
      have h := yields_get_bind.mp (yields_modify_bind.mp h)
      split at h
      · next hnone => cases hnone
      · next core' hcore' =>
        cases hcore'
        obtain ⟨w₁, hw₁, hbuild⟩ := hmake h rfl
        exact .inr ⟨core, w₁, rfl, hw₁, hbuild⟩

/-! ## Passing an event on -/

/-- All that passing on an event can do.  Of what the sink is told of, something is kept once it
was told; a command is dispatched; for anything else there is no rule. -/
theorem process_cases {invoke : Invoke H I} {place : Nat} {e : Event} {w w' : World H I}
    {r : Except Fault Unit} (h : Yields (process invoke place e) w r w') :
    (∃ n, e.notification? = some n ∧
      ((∃ f, r = .error f ∧ Yields (notify invoke n) w (.error f) w') ∨
        ∃ u, r = .ok () ∧ Yields (notify invoke n) w (.ok ()) u ∧ w' = u.keep place e)) ∨
    (∃ name parameters, e = .command name parameters ∧
      Yields (discard (dispatch invoke name parameters)) w r w') ∨
    (e.isUnknown = true ∧ r = .ok () ∧ w' = w.noted (.eventIgnored e.shown)) := by
  have hkept : ∀ {n : Notification} {f : World H I → World H I}, (∀ u, f u = u.keep place e) →
      Yields (notify invoke n >>= fun _ => modify f) w r w' →
        (∃ f, r = .error f ∧ Yields (notify invoke n) w (.error f) w') ∨
          ∃ u, r = .ok () ∧ Yields (notify invoke n) w (.ok ()) u ∧ w' = u.keep place e := by
    intro n f hf h
    rcases yields_bind.mp h with ⟨_, u, hnotify, hmodify⟩ | ⟨e, hnotify, hr⟩
    · obtain ⟨hr, rfl⟩ := yields_modify.mp hmodify
      exact .inr ⟨u, hr, hnotify, hf u⟩
    · exact .inl ⟨e, hr, hnotify⟩
  have hbare : ∀ {n : Notification}, w'.keep place e = w' → Yields (notify invoke n) w r w' →
      (∃ f, r = .error f ∧ Yields (notify invoke n) w (.error f) w') ∨
        ∃ u, r = .ok () ∧ Yields (notify invoke n) w (.ok ()) u ∧ w' = u.keep place e := by
    intro n hsame h
    cases r with
    | error f => exact .inl ⟨f, rfl, h⟩
    | ok _ => exact .inr ⟨w', rfl, h, hsame.symm⟩
  cases e with
  | line | options | completed => exact .inl ⟨_, rfl, hkept (fun _ => rfl) h⟩
  | nodeStarted | nodeCompleted | hints => exact .inl ⟨_, rfl, hbare rfl h⟩
  | command name parameters => exact .inr (.inl ⟨name, parameters, rfl, h⟩)
  | plain | alien =>
      obtain ⟨hr, rfl⟩ := yields_modify.mp h
      exact .inr (.inr ⟨rfl, hr, rfl⟩)

/-! ## Running -/

section
variable {ip : Interpreter I L} {invoke : Invoke H I} {fuel : Nat} {w w' : World H I}
  {r : Except Fault Outcome}

theorem start_cases {node : Datum} (h : Yields (start ip fuel invoke node) w r w') :
    (w.running = true ∧ r = .ok .alreadyRunning ∧
      w' = { w with journal := w.journal ++ [.log (.startRefused node)] }) ∨
    (w.running = false ∧ w.current = none ∧ r = .ok .notConfigured ∧ w' = w) ∨
    (w.running = false ∧ ∃ slot, w.current = some slot ∧ w.course.cores[slot]? = none ∧
      (∃ f, r = .error f) ∧ w'.course = w.course) ∨
    (w.running = false ∧ ∃ slot core, w.current = some slot ∧
      w.course.cores[slot]? = some core ∧
      ((∃ f, (ip.setNode node core).1 = .error f ∧ Faulted f r ∧
          w'.course = w.course.setCore slot (ip.setNode node core).2) ∨
        ∃ w₁, (ip.setNode node core).1 = .ok () ∧
          w₁.course = (w.course.setCore slot (ip.setNode node core).2).flag true .entered ∧
          Yields (do notify invoke .started; continueDialogue ip fuel invoke) w₁ r w')) := by
  unfold start at h
  have h := yields_get_bind.mp h
  by_cases hrunning : w.running = true
  · rw [if_pos hrunning] at h
    have hpure := yields_modify_bind.mp h
    obtain ⟨hr, hw'⟩ := yields_pure.mp hpure
    exact .inl ⟨hrunning, hr, hw'⟩
  · rw [if_neg hrunning] at h
    rw [Bool.not_eq_true] at hrunning
    cases hcurrent : w.current with
    | none =>
        rw [hcurrent] at h
        obtain ⟨hr, hw'⟩ := yields_pure.mp h
        exact .inr (.inl ⟨hrunning, rfl, hr, hw'⟩)
    | some slot =>
        rw [hcurrent] at h
        cases hcore : w.course.cores[slot]? with
        | none =>
            exact .inr (.inr (.inl
              ⟨hrunning, slot, rfl, hcore,
                (yields_observe_bind_of_none hcore h).imp_right (congrArg World.course)⟩))
        | some core =>
            refine .inr (.inr (.inr ⟨hrunning, slot, core, rfl, hcore, ?_⟩))
            obtain ⟨w₁, hw₁, hinstance⟩ := yields_observe_bind hcore h
            obtain ⟨i, rfl, hset⟩ := yields_instance_bind (hw₁ ▸ hcore) hinstance
            obtain ⟨w₂, hw₂, hresult⟩ := yields_setCore_bind hset
            rw [hw₁] at hw₂
            split at hresult
            · next f hf =>
              obtain ⟨hfaulted, hw'⟩ := yields_faulted hresult
              exact .inl ⟨f, hf, hfaulted, hw'.trans hw₂⟩
            · next hok =>
              refine .inr ⟨_, hok, ?_, yields_modify_bind.mp hresult⟩
              rw [← hw₂]
              rfl

/-- How a pump goes on after a move. -/
def GoesOn (ip : Interpreter I L) (invoke : Invoke H I) (slot fuel : Nat) (w : World H I)
    (r : Except Fault (List Event)) (w' : World H I) : Move L → Prop
  | .again next => Yields (pump ip invoke slot fuel next) w r w'
  | .ask request next => ∃ answer w₁, Yields (serve invoke slot request) w answer w₁ ∧
      Yields (pump ip invoke slot fuel (next answer)) w₁ r w'
  | .pause events => r = .ok events ∧ w' = w
  | .fail f => r = .error f ∧ w' = w

/-- All a pump can do: a move, and what comes after it. -/
theorem pump_cases {slot : Nat} {l : L} {r : Except Fault (List Event)}
    (h : Yields (pump ip invoke slot (fuel + 1) l) w r w') :
    (w.course.cores[slot]? = none ∧ (∃ f, r = .error f) ∧ w' = w) ∨
    ∃ core m core' w₁, w.course.cores[slot]? = some core ∧
      ip.advance w.textOf l core = (m, core') ∧ w₁.course = w.course.setCore slot core' ∧
      GoesOn ip invoke slot fuel w₁ r w' m := by
  rcases yields_bind.mp h with ⟨i, w₀, hinstance, hrest⟩ | ⟨e, hinstance, rfl⟩
  · obtain ⟨⟨_, hi, hr⟩ | ⟨-, hr⟩, rfl⟩ := yields_instance.mp hinstance <;> cases hr
    have hcore : w₀.course.cores[slot]? = some i.core := World.course_cores.mpr ⟨i, hi, rfl⟩
    have hadvance := yields_get_bind.mp hrest
    obtain ⟨w₁, hw₁, hmove⟩ := yields_setCore_bind hadvance
    refine .inr ⟨i.core, _, _, w₁, hcore, rfl, hw₁, ?_⟩
    split at hmove
    · next next hnext =>
      rw [hnext]
      exact hmove
    · next request next hnext =>
      rw [hnext]
      exact yields_attempt_bind.mp hmove
    · next events hnext =>
      rw [hnext]
      exact yields_pure.mp hmove
    · next f hnext =>
      rw [hnext]
      exact yields_throw.mp hmove
  · obtain ⟨⟨_, -, hr⟩ | ⟨hi, -⟩, rfl⟩ := yields_instance.mp hinstance
    · cases hr
    · exact .inl ⟨by simpa [World.course] using hi, ⟨e, rfl⟩, rfl⟩

theorem continue_cases (h : Yields (continueDialogue ip fuel invoke) w r w') :
    (w.running = false ∧ r = .ok .notRunning ∧ w' = w) ∨
    (w.running = true ∧ w.course.core? = none ∧ (∃ f, r = .error f) ∧
      w'.course = w.course.cleared) ∨
    (w.running = true ∧ ∃ slot core x w₁ w₂, w.current = some slot ∧
      w.course.cores[slot]? = some core ∧ w₁.course = w.course.cleared ∧
      Yields (pump ip invoke slot fuel (ip.begin core)) w₁ x w₂ ∧
      ((∃ f, x = .error f ∧ Faulted f r ∧ w'.course = w₂.course) ∨
        ∃ events y, x = .ok events ∧ Yields (processAll invoke events) w₂ y w' ∧
          r = y.map fun _ => if w'.running then .ok else .complete)) := by
  unfold continueDialogue at h
  have h := yields_get_bind.mp h
  cases hrunning : w.running with
  | false =>
      rw [if_pos (by simp [hrunning])] at h
      exact .inl ⟨rfl, yields_pure.mp h⟩
  | true =>
      rw [if_neg (by simp [hrunning])] at h
      have hdeal := yields_modify_bind.mp h
      obtain ⟨w₀, hw₀, hheld⟩ : ∃ w₀, w₀.course = w.course.cleared ∧ Yields _ w₀ r w' :=
        ⟨_, rfl, yields_modify_bind.mp hdeal⟩
      have hcurrent₀ : w₀.current = w.current := congrArg Course.current hw₀
      have hcores₀ : w₀.course.cores = w.course.cores := by
        rw [hw₀]
        rfl
      rw [← hcores₀]
      rcases yields_held_bind hheld with ⟨hcurrent, hr, rfl⟩ | ⟨slot, hcurrent, hobserve⟩
      · have hcore : w.course.core? = none :=
          congrArg (Option.bind · _) (hcurrent₀.symm.trans hcurrent)
        exact .inr (.inl ⟨rfl, hcore, hr, hw₀⟩)
      · rw [hcurrent₀] at hcurrent
        cases hcore : w₀.course.cores[slot]? with
        | none =>
            have hcore? : w.course.core? = none :=
              (congrArg (Option.bind · _) hcurrent).trans (hcores₀ ▸ hcore)
            obtain ⟨hr, rfl⟩ := yields_observe_bind_of_none hcore hobserve
            exact .inr (.inl ⟨rfl, hcore?, hr, hw₀⟩)
        | some core =>
            obtain ⟨w₁, hw₁, hinstance⟩ := yields_observe_bind hcore hobserve
            have hcore₁ : w₁.course.cores[slot]? = some core := hw₁ ▸ hcore
            rw [hw₀] at hw₁
            obtain ⟨i, rfl, hpump⟩ := yields_instance_bind hcore₁ hinstance
            obtain ⟨x, w₂, hpump, hrest⟩ := yields_attempt_bind.mp hpump
            refine .inr (.inr ⟨rfl, slot, _, x, w₁, w₂, hcurrent, hcore, hw₁, hpump, ?_⟩)
            cases x with
            | error f =>
                obtain ⟨hfaulted, hw'⟩ := yields_faulted hrest
                exact .inl ⟨f, rfl, hfaulted, hw'⟩
            | ok events =>
                refine .inr ⟨events, ?_⟩
                rcases yields_bind.mp hrest with ⟨_, w₃, hpassed, hanswer⟩ | ⟨e, hpassed, rfl⟩
                · have hpure := yields_get_bind.mp hanswer
                  obtain ⟨rfl, rfl⟩ := yields_pure.mp hpure
                  exact ⟨.ok (), rfl, hpassed, rfl⟩
                · exact ⟨.error e, rfl, hpassed, rfl⟩

theorem select_cases {choice : Option Choice} (h : Yields (select ip choice) w r w') :
    (w.current = none ∧ r = .ok .notConfigured ∧ w' = w) ∨
    (choice.bind (·.branch) = none ∧ r = .ok .optionId ∧ w' = w) ∨
    (w.current ≠ none ∧ w.course.core? = none ∧ (∃ f, r = .error f) ∧ w'.course = w.course) ∨
    (∃ slot core b, w.current = some slot ∧ w.course.cores[slot]? = some core ∧
      choice.bind (·.branch) = some b ∧
      w'.course = w.course.setCore slot (ip.select b.id core).2 ∧
      ((ip.select b.id core).1 = .ok () ∧ r = .ok .ok ∨
        ∃ f, (ip.select b.id core).1 = .error f ∧ Refused f r)) := by
  unfold select at h
  have h := yields_get_bind.mp h
  cases hcurrent : w.current with
  | none =>
      rw [hcurrent] at h
      obtain ⟨hr, hw'⟩ := yields_pure.mp h
      exact .inl ⟨rfl, hr, hw'⟩
  | some slot =>
      rw [hcurrent] at h
      cases hbranch : choice.bind (·.branch) with
      | none =>
          rw [hbranch] at h
          exact .inr (.inl ⟨rfl, yields_pure.mp h⟩)
      | some b =>
          rw [hbranch] at h
          cases hcore : w.course.cores[slot]? with
          | none =>
              have hcore? : w.course.core? = none :=
                (congrArg (Option.bind · _) hcurrent).trans hcore
              refine .inr (.inr (.inl ⟨by simp, hcore?, ?_⟩))
              exact (yields_observe_bind_of_none hcore h).imp_right (congrArg World.course)
          | some core =>
              refine .inr (.inr (.inr ⟨slot, core, b, rfl, hcore, rfl, ?_⟩))
              obtain ⟨w₁, hw₁, hinstance⟩ := yields_observe_bind hcore h
              obtain ⟨i, rfl, hset⟩ := yields_instance_bind (hw₁ ▸ hcore) hinstance
              obtain ⟨w₂, hw₂, hresult⟩ := yields_setCore_bind hset
              rw [hw₁] at hw₂
              split at hresult
              · next hok =>
                obtain ⟨rfl, rfl⟩ := yields_pure.mp hresult
                exact ⟨hw₂, .inl ⟨hok, rfl⟩⟩
              · next f hf =>
                obtain ⟨hrefused, hw'⟩ := yields_refused hresult
                exact ⟨hw'.trans hw₂, .inr ⟨f, hf, hrefused⟩⟩

theorem stop_cases (h : Yields (stop ip invoke) w r w') :
    ∃ w₁ : World H I, w₁.course = w.course.deal .stopping ∧
      ((w.current = none ∧ r = .ok .ok ∧
        w'.course = w₁.course.flag false (.settled w.dealings.length)) ∨
      (w.current ≠ none ∧ w.course.core? = none ∧ (∃ f, r = .error f) ∧
        w'.course = w₁.course) ∨
      (∃ slot core, w.current = some slot ∧ w.course.cores[slot]? = some core ∧
        ((∃ f, (ip.stop core).1 = .error f ∧ r = .error f ∧
            w'.course = w₁.course.setCore slot (ip.stop core).2) ∨
          ∃ (events : List Event) (w₂ w₃ : World H I) (y : Except Fault Unit),
            (ip.stop core).1 = .ok events ∧
            w₂.course = w₁.course.setCore slot (ip.stop core).2 ∧
            Yields (processAll invoke events) w₂ y w₃ ∧
            ((∃ f, y = .error f ∧ r = .error f ∧ w'.course = w₃.course) ∨
              y = .ok () ∧ r = .ok .ok ∧
                w'.course = w₃.course.flag false (.settled w.dealings.length))))) := by
  have hend : ∀ {w₁ : World H I}, Yields (do
        flag false (.settled w.dealings.length)
        return Outcome.ok) w₁ r w' →
      r = .ok .ok ∧ w'.course = w₁.course.flag false (.settled w.dealings.length) := by
    intro w₁ h
    have hpure := yields_modify_bind.mp h
    obtain ⟨rfl, rfl⟩ := yields_pure.mp hpure
    exact ⟨rfl, rfl⟩
  unfold stop at h
  have h := yields_get_bind.mp h
  obtain ⟨w₁, hw₁, hstop⟩ : ∃ w₁ : World H I, w₁.course = w.course.deal .stopping ∧
      Yields _ w₁ r w' := ⟨_, rfl, yields_modify_bind.mp h⟩
  have hstop := yields_get_bind.mp hstop
  have hcurrent₁ : w₁.current = w.current := congrArg Course.current hw₁
  have hcores₁ : w₁.course.cores = w.course.cores := by
    rw [hw₁]
    rfl
  refine ⟨w₁, hw₁, ?_⟩
  split at hstop
  · next slot hslot =>
      rw [hcurrent₁] at hslot
      rw [← hcores₁]
      cases hcore : w₁.course.cores[slot]? with
      | none =>
          have hcore? : w.course.core? = none :=
            (congrArg (Option.bind · _) hslot).trans (hcores₁ ▸ hcore)
          have hheld : w.current ≠ none := by
            simp [hslot]
          refine .inr (.inl ⟨hheld, hcore?, ?_⟩)
          exact (yields_observe_bind_of_none hcore hstop).imp_right (congrArg World.course)
      | some core =>
          refine .inr (.inr ⟨slot, core, hslot, hcore, ?_⟩)
          obtain ⟨w₂, hw₂, hinstance⟩ := yields_observe_bind hcore hstop
          obtain ⟨i, rfl, hset⟩ := yields_instance_bind (hw₂ ▸ hcore) hinstance
          obtain ⟨w₃, hw₃, hresult⟩ := yields_setCore_bind hset
          rw [hw₂] at hw₃
          rcases yields_bind.mp hresult with ⟨events, _, hof, hrest⟩ | ⟨f, hof, rfl⟩
          · obtain ⟨hevents, rfl⟩ := yields_of.mp hof
            rcases yields_bind.mp hrest with ⟨_, w₄, hpassed, htail⟩ | ⟨f, hpassed, rfl⟩
            · obtain ⟨hr, hw'⟩ := hend htail
              exact .inr ⟨events, _, w₄, _, hevents.symm, hw₃, hpassed, .inr ⟨rfl, hr, hw'⟩⟩
            · exact .inr ⟨events, _, w', _, hevents.symm, hw₃, hpassed, .inl ⟨f, rfl, rfl, rfl⟩⟩
          · obtain ⟨hf, rfl⟩ := yields_of.mp hof
            exact .inl ⟨f, hf.symm, rfl, hw₃⟩
  · next hnone =>
      have hcurrent : w.current = none := by
        rw [← hcurrent₁]
        exact Option.eq_none_iff_forall_ne_some.mpr hnone
      exact .inl ⟨hcurrent, hend hstop⟩

end

end Session

end Parley
