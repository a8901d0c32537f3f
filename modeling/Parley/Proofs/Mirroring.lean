import Parley.Proofs.Accepted
import Parley.Proofs.Backstage
import Parley.Proofs.Drive

/-!
# Operations that differ in how they call the host

What is to hold whenever the host is called is not said by the worlds before and after an
operation.  It is said by a second operation, which calls the host in another way, only where the
thing holds for instance.  `Mirrors Q act act'`: from courses and stocks with `Q`, whatever `act`
comes to `act'` comes to as well, and `Q` holds again.  It goes one way: `act'` may have no end
where `Q` does not hold.

Operations mirror each other if their calls of the host do.  There is one lemma for each operation
that calls the host, and the others mirror themselves by what they keep (`Mirrors.same`).  `Q` has
to admit what is done between two calls.

* To the course only the runner does anything by itself, and `Course.Step` lists it.  Two of the
  steps have a condition: a dialogue begins only where there is an interpreter, and the interpreter
  is let go only where no dialogue runs.  `start` looks before it steps; `cleanup` has stopped the
  dialogue, and nobody is called in between.
* To the stock there are changes, each of them announced.  A variable is assigned under a name
  that is valid and with a value as it is stored (`Admits`).
-/

namespace Parley

/-- What the runner does to its course by itself. -/
inductive Course.Step {I : Type} (c : Course I) : Course I → Prop where
  /-- interpreters change their states -/
  | cores (cores : List I) : cores.length = c.cores.length → Step c { c with cores }
  | programs (ps : List Program) : Step c { c with programs := ps }
  | shown (line : Option Line) (options : List Choice) : Step c { c with line, options }
  | dealt (d : Dealing) : Step c (c.deal d)
  | made (core : I) : Step c (c.made core)
  | entered : c.current ≠ none → Step c (c.flag true .entered)
  | settled (place : Nat) : Step c (c.flag false (.settled place))
  | released : c.running = false → Step c c.released

/-- Is it a call by which a listener is told of a variable written? -/
def Callback.tellsWrite : Callback → Bool
  | .listener _ (.variableChanged ..) => true
  | _ => false

namespace Session

open Act

variable {H I L α β : Type} {Q : Course I → Stock → Prop}

/-- `Q` withstands all that the runner does by itself. -/
def Endures (Q : Course I → Stock → Prop) : Prop := ∀ c c' s, c.Step c' → Q c s → Q c' s

/-- Where `Q` holds, a write may come to this assignment. -/
def Admits (Q : Course I → Stock → Prop) (name value : Datum) : Prop :=
  ∃ c s d, Q c s ∧ isValidName s.settings name = .ok true ∧ stored d = .ok value

/-- What held of the course and the stock still does. -/
def Upholds (Q : Course I → Stock → Prop) (w w' : World H I) : Prop :=
  Q w.course w.stock → Q w'.course w'.stock

instance : OverlooksCalls (Upholds Q : World H I → World H I → Prop) where
  refl _ := id
  trans _ _ _ h₁ h₂ := h₂ ∘ h₁
  same := by
    intro w w' hcourse hstock _
    unfold Upholds
    rw [hcourse, hstock]
    exact id
  called _ _ := id

instance : OverlooksShowings (Upholds Q : World H I → World H I → Prop) where
  showing _ _ := id

instance : OverlooksBus (Upholds Q : World H I → World H I → Prop) where
  published _ _ := id

theorem upholds_of_step (hQ : Endures Q) {w w' : World H I} (hstep : w.course.Step w'.course)
    (hstock : w'.stock = w.stock) : Upholds Q w w' := by
  unfold Upholds
  rw [hstock]
  exact hQ _ _ _ hstep

theorem keeps_step (hQ : Endures Q) {f : World H I → World H I}
    (hf : ∀ w, w.course.Step (f w).course ∧ (f w).stock = w.stock) :
    Keeps (Upholds Q) (modify f : Act H I PUnit) :=
  keeps_modify_of fun w => upholds_of_step hQ (hf w).1 (hf w).2

/-! ## Composed operations -/

/-- From where `Q` holds the second comes to whatever the first does, and `Q` holds again. -/
def Mirrors (Q : Course I → Stock → Prop) (act act' : Act H I α) : Prop :=
  ∀ w r w', Q w.course w.stock → Yields act w r w' →
    Yields act' w r w' ∧ Q w'.course w'.stock

/-- What upholds `Q` mirrors itself. -/
theorem Mirrors.same {act : Act H I α} (h : Keeps (Upholds Q) act) : Mirrors Q act act :=
  fun w r w' hw hact => ⟨hact, h w r w' hact hw⟩

theorem Mirrors.bind {act act' : Act H I α} {f f' : α → Act H I β} (hact : Mirrors Q act act')
    (hf : ∀ a, Mirrors Q (f a) (f' a)) : Mirrors Q (act >>= f) (act' >>= f') := by
  intro w r w' hw h
  rcases yields_bind.mp h with ⟨a, w₁, h₁, h₂⟩ | ⟨e, h₁, rfl⟩
  · obtain ⟨h₁', hw₁⟩ := hact w _ w₁ hw h₁
    obtain ⟨h₂', hw'⟩ := hf a w₁ r w' hw₁ h₂
    exact ⟨yields_bind.mpr (.inl ⟨a, w₁, h₁', h₂'⟩), hw'⟩
  · obtain ⟨h₁', hw'⟩ := hact w _ w' hw h₁
    exact ⟨yields_bind.mpr (.inr ⟨e, h₁', rfl⟩), hw'⟩

theorem Mirrors.attempt {act act' : Act H I α} (h : Mirrors Q act act') :
    Mirrors Q (Act.attempt act) (Act.attempt act') := by
  intro w r w' hw hact
  obtain ⟨a, rfl, ha⟩ := yields_attempt.mp hact
  obtain ⟨ha', hw'⟩ := h w a w' hw ha
  exact ⟨yields_attempt.mpr ⟨a, rfl, ha'⟩, hw'⟩

theorem mirrors_pure (a : α) : Mirrors Q (pure a : Act H I α) (pure a) := .same (keeps_pure a)

theorem Mirrors.discard {act act' : Act H I α} (h : Mirrors Q act act') :
    Mirrors Q (Functor.discard act : Act H I PUnit) (Functor.discard act') :=
  h.bind fun _ => mirrors_pure _

theorem mirrors_forM {f f' : α → Act H I PUnit} (xs : List α)
    (hf : ∀ x ∈ xs, Mirrors Q (f x) (f' x)) : Mirrors Q (xs.forM f) (xs.forM f') := by
  induction xs with
  | nil => exact mirrors_pure _
  | cons x xs ih =>
      obtain ⟨hx, hxs⟩ := List.forall_mem_cons.mp hf
      exact hx.bind fun _ => ih hxs

theorem mirrors_mapM {f f' : α → Act H I β} (xs : List α)
    (hf : ∀ x ∈ xs, Mirrors Q (f x) (f' x)) : Mirrors Q (xs.mapM f) (xs.mapM f') := by
  induction xs with
  | nil =>
      rw [List.mapM_nil, List.mapM_nil]
      exact mirrors_pure _
  | cons x xs ih =>
      obtain ⟨hx, hxs⟩ := List.forall_mem_cons.mp hf
      rw [List.mapM_cons, List.mapM_cons]
      exact hx.bind fun _ => (ih hxs).bind fun _ => mirrors_pure _

theorem mirrors_get_bind {f f' : World H I → Act H I β}
    (hf : ∀ w : World H I, Q w.course w.stock → Mirrors Q (f w) (f' w)) :
    Mirrors Q (get >>= f) (get >>= f') := by
  intro w r w' hw h
  exact hf w hw w r w' hw h

theorem yields_bind_of_upholds {P : Course I → Stock → Prop} (hPQ : ∀ c s, P c s → Q c s)
    {act : Act H I α} (hact : Keeps (Upholds P) act) {f f' : α → Act H I β} {w w' : World H I}
    {r : Except Fault β}
    (hf : ∀ a (u : World H I), P u.course u.stock → Yields (f a) u r w' →
      Yields (f' a) u r w' ∧ Q w'.course w'.stock)
    (hw : P w.course w.stock) (h : Yields (act >>= f) w r w') :
    Yields (act >>= f') w r w' ∧ Q w'.course w'.stock := by
  rcases yields_bind.mp h with ⟨a, u, hu, hrest⟩ | ⟨e, he, rfl⟩
  · obtain ⟨hrest', hw'⟩ := hf a u (hact w _ u hu hw) hrest
    exact ⟨yields_bind.mpr (.inl ⟨a, u, hu, hrest'⟩), hw'⟩
  · exact ⟨yields_bind.mpr (.inr ⟨e, he, rfl⟩), hPQ _ _ (hact w _ w' he hw)⟩

theorem mirrors_of_bind {x : Except Fault α} {f f' : α → Act H I β}
    (hf : ∀ a, x = .ok a → Mirrors Q (f a) (f' a)) : Mirrors Q (of x >>= f) (of x >>= f') := by
  cases x with
  | ok a => exact hf a rfl
  | error e => exact .same (keeps_throw e)

theorem only_mirrors {act act' : Act H I Unit} (h : Mirrors Q act act') :
    Mirrors Q (only act) (only act') :=
  h.bind fun _ => mirrors_pure _

/-! ## What the runner does by itself -/

theorem allowsLoading_of_upholds {ip : Interpreter I L}
    (hcores : ∀ c s cores, cores.length = c.cores.length → Q c s → Q { c with cores } s)
    (hprograms : ∀ c s ps, Q c s → Q { c with programs := ps } s) :
    AllowsLoading ip (Upholds Q : World H I → World H I → Prop) where
  load := by
    intro w w' slot core p _ hcourse hstock _
    unfold Upholds
    rw [hcourse, hstock]
    exact hcores _ _ _ List.length_set
  unload := by
    intro w w' slot hcourse hstock _
    unfold Upholds
    rw [hcourse, hstock]
    exact hcores _ _ _ (List.length_modify _ _ _)
  programs := by
    intro w w' ps hcourse hstock _
    unfold Upholds
    rw [hcourse, hstock]
    exact hprograms _ _ _

section
variable {ip : Interpreter I L} (hQ : Endures Q)
include hQ

theorem Endures.allowsLoading : AllowsLoading ip (Upholds Q : World H I → World H I → Prop) :=
  allowsLoading_of_upholds (fun _ _ cores hcores => hQ _ _ _ (.cores cores hcores))
    fun _ _ ps => hQ _ _ _ (.programs ps)

theorem setCore_upholds (slot : Nat) (core : I) :
    Keeps (Upholds Q) (setCore slot core : Act H I Unit) := by
  intro w r w' h
  obtain ⟨-, hcourse, hstock, -⟩ := yields_setCore h
  exact upholds_of_step hQ (hcourse ▸ .cores _ List.length_set) hstock

theorem setup_upholds (factory : Option I) :
    Keeps (Upholds Q) (setup ip factory : Act H I Unit) := by
  intro w r w' h hw
  rcases setup_cases h with ⟨-, -, rfl⟩ | ⟨core, w₁, -, hw₁, hbuild⟩
  · exact hw
  · have hstock : w.stock = w'.stock := setup_keeps_aside (R := OnStock Eq) factory w r w' h
    have hstock₁ : w₁.stock = w'.stock :=
      build_keeps (R := OnStock Eq) (OverlooksRunner.allowsLoading ip) none w₁ r w' hbuild
    refine build_keeps (Endures.allowsLoading hQ) none w₁ r w' hbuild ?_
    rw [hw₁, hstock₁, ← hstock]
    exact hQ _ _ _ (.made core) hw

end

/-! ## Telling the host -/

section
variable {invoke invoke' : Invoke H I}

theorem publish_mirrors {n : Notice}
    (hn : ∀ l, Mirrors Q (invoke (.listener l n)) (invoke' (.listener l n))) :
    Mirrors Q (publish invoke n) (publish invoke' n) :=
  .bind (.same (keeps_modify_of fun w => OverlooksBus.published w n)) fun _ =>
    mirrors_get_bind fun _ _ => mirrors_forM _ fun l _ => (hn l).discard

variable (hinvoke : ∀ c, c.tellsWrite = false → Mirrors Q (invoke c) (invoke' c))
include hinvoke

theorem runHandler_mirrors (name : Datum) (handler : Handle) (arguments : List Datum) :
    Mirrors Q (runHandler invoke name handler arguments)
      (runHandler invoke' name handler arguments) := by
  refine .bind (hinvoke _ rfl).attempt fun result => ?_
  cases result with
  | ok => exact mirrors_pure _
  | error f =>
      dsimp only
      split
      · exact .same (.bind (keeps_log _) fun _ => keeps_pure _)
      · exact .same (keeps_throw _)

theorem dispatch_mirrors (name : Datum) (parameters : List Datum) :
    Mirrors Q (dispatch invoke name parameters) (dispatch invoke' name parameters) := by
  refine .bind (.same (commandHandler_keeps name)) fun handler => ?_
  cases handler with
  | none => exact .same (.bind (keeps_log _) fun _ => keeps_pure _)
  | some handler => exact mirrors_of_bind fun _ _ => runHandler_mirrors hinvoke _ _ _

theorem callFunction_mirrors (f : ScriptFunction) (values : List Datum) :
    Mirrors Q (callFunction invoke f values) (callFunction invoke' f values) := by
  refine mirrors_of_bind fun arguments _ => ?_
  cases f.body with
  | standard s =>
      dsimp only
      exact .same (.bind (runStandard_keeps _ _) fun _ => keeps_of _)
  | host handle =>
      dsimp only
      exact .bind (hinvoke _ rfl) fun _ => .same (keeps_of _)

theorem bring_mirrors (n : Notification) : Mirrors Q (bring invoke n) (bring invoke' n) := by
  refine mirrors_get_bind fun w _ => ?_
  cases w.sink with
  | silent => exact mirrors_pure _
  | host => exact (hinvoke _ rfl).discard
  | bus => exact publish_mirrors fun _ => hinvoke _ rfl

theorem notify_mirrors (n : Notification) : Mirrors Q (notify invoke n) (notify invoke' n) :=
  .bind (.same (keeps_mark _)) fun _ =>
    (bring_mirrors hinvoke n).bind fun _ => .same (keeps_mark _)

end

/-! ## Writing

Operations that write variables mirror each other as soon as assigning and clearing do. -/

section
variable {invoke invoke' : Invoke H I}

theorem changed_mirrors {f : World H I → World H I} {n : Notice}
    (hf : ∀ w, ({ f w with announced := (f w).announced ++ [n] } : World H I) = w.tell n)
    (hchange : ∀ c s, Q c s → Q c (s.change n))
    (hpublish : ∀ (w : World H I) r w', Q w.course w.stock →
      Yields (publish invoke n) (w.tell n) r w' →
        Yields (publish invoke' n) (w.tell n) r w' ∧ Q w'.course w'.stock) :
    Mirrors Q (modify f >>= fun _ => announce invoke n)
      (modify f >>= fun _ => announce invoke' n) := by
  intro w r w' hw h
  have hannounce : Yields (announce invoke n) (f w) r w' := yields_modify_bind.mp h
  have hgo : ∀ {invoke : Invoke H I}, Yields (announce invoke n) (f w) r w' ↔
      Yields (do if (← get).announces then publish invoke n) (w.tell n) r w' := by
    intro invoke
    unfold announce
    rw [yields_modify_bind, hf]
  rw [yields_modify_bind, hgo]
  rw [hgo] at hannounce
  rw [yields_get_bind] at hannounce ⊢
  split at hannounce
  · next hannounces =>
    rw [if_pos hannounces]
    exact hpublish w r w' hw hannounce
  · next hannounces =>
    rw [if_neg hannounces]
    obtain ⟨-, rfl⟩ := yields_pure.mp hannounce
    exact ⟨hannounce, hchange _ _ hw⟩

theorem changed_mirrors_of_listeners {f : World H I → World H I} {n : Notice}
    (hf : ∀ w, ({ f w with announced := (f w).announced ++ [n] } : World H I) = w.tell n)
    (hchange : ∀ c s, Q c s → Q c (s.change n))
    (hn : ∀ l, Mirrors Q (invoke (.listener l n)) (invoke' (.listener l n))) :
    Mirrors Q (modify f >>= fun _ => announce invoke n)
      (modify f >>= fun _ => announce invoke' n) :=
  changed_mirrors hf hchange fun w r w' hw => publish_mirrors hn (w.tell n) r w' (hchange _ _ hw)

theorem clearVariables_mirrors
    (hinvoke : ∀ c, c.tellsWrite = false → Mirrors Q (invoke c) (invoke' c))
    (hclear : ∀ c s, Q c s → Q c (s.change .storeCleared)) :
    Mirrors Q (clearVariables invoke) (clearVariables invoke') :=
  changed_mirrors_of_listeners (fun _ => rfl) hclear fun _ => hinvoke _ rfl

variable (hassign : ∀ name value, Admits Q name value →
    Mirrors Q (assign invoke name value) (assign invoke' name value))
include hassign

theorem setVariable_mirrors (name value : Datum) :
    Mirrors Q (setVariable invoke name value) (setVariable invoke' name value) := by
  refine mirrors_get_bind fun w hw => ?_
  cases w.writeStub with
  | some result => exact mirrors_pure _
  | none =>
      refine mirrors_of_bind fun valid hvalid => ?_
      cases valid with
      | false =>
          simp only [Bool.false_eq_true, if_false]
          exact .same (.bind (keeps_of _) fun _ => .bind (keeps_log _) fun _ => keeps_pure _)
      | true =>
          simp only [if_true]
          cases hstored : stored value with
          | ok d =>
              have hadmits : Admits Q name d := ⟨_, _, value, hw, hvalid, hstored⟩
              exact (hassign _ _ hadmits).bind fun _ => mirrors_pure _
          | error f =>
              dsimp only
              split
              · exact .same (.bind (keeps_log _) fun _ => keeps_pure _)
              · exact .same (keeps_throw _)

theorem setVariables_mirrors (entries : List (Datum × Datum)) :
    Mirrors Q (setVariables invoke entries) (setVariables invoke' entries) :=
  mirrors_mapM _ fun _ _ => (setVariable_mirrors hassign _ _).bind fun _ => mirrors_pure _

theorem setValue_mirrors (name value : Datum) :
    Mirrors Q (setValue invoke name value) (setValue invoke' name value) := by
  refine mirrors_of_bind fun d _ => .bind (setVariable_mirrors hassign _ _) ?_
  intro result
  cases result with
  | ok => exact mirrors_pure _
  | invalidName | unknown => exact .same (keeps_throw _)

theorem setValues_mirrors (entries : List (Datum × Datum)) :
    Mirrors Q (setValues invoke entries) (setValues invoke' entries) :=
  mirrors_forM _ fun _ _ => setValue_mirrors hassign _ _

variable (hcleared : Mirrors Q (clearVariables invoke) (clearVariables invoke'))
include hcleared

theorem restore_mirrors (entries : List (Datum × Datum)) :
    Mirrors Q (restore invoke entries) (restore invoke' entries) :=
  hcleared.bind fun _ => (setVariables_mirrors hassign entries).discard

end

/-! ## Driving the runner -/

theorem running_of_stop_ok {ip : Interpreter I L} {invoke : Invoke H I} {w w' : World H I}
    {x : PUnit} (h : Yields (discard (stop ip invoke)) w (.ok x) w') : w'.running = false := by
  obtain ⟨r, hstop, hr⟩ := yields_discard.mp h
  obtain ⟨w₁, -, hcases⟩ := stop_cases hstop
  rcases hcases with ⟨-, -, hw'⟩ | ⟨-, -, ⟨f, rfl⟩, -⟩ | ⟨slot, core, -, -, hcases⟩
  · exact congrArg Course.running hw'
  · cases hr
  · rcases hcases with ⟨f, -, rfl, -⟩ | ⟨events, w₂, w₃, y, -, -, -, hcases⟩
    · cases hr
    · rcases hcases with ⟨f, -, rfl, -⟩ | ⟨-, -, hw'⟩
      · cases hr
      · exact congrArg Course.running hw'

section
variable {ip : Interpreter I L} {invoke invoke' : Invoke H I} (hQ : Endures Q)
  (hinvoke : ∀ c, c.tellsWrite = false → Mirrors Q (invoke c) (invoke' c))
include hQ hinvoke

theorem process_mirrors (place : Nat) (e : Event) :
    Mirrors Q (process invoke place e) (process invoke' place e) := by
  cases e with
  | line l =>
      exact .bind (notify_mirrors hinvoke _) fun _ =>
        .same (keeps_step hQ fun w => ⟨.shown (some l) w.options, rfl⟩)
  | options branches =>
      exact .bind (notify_mirrors hinvoke _) fun _ =>
        .same (keeps_step hQ fun w => ⟨.shown w.line _, rfl⟩)
  | completed =>
      exact .bind (notify_mirrors hinvoke _) fun _ =>
        .same (keeps_step hQ fun _ => ⟨.settled place, rfl⟩)
  | command name parameters => exact (dispatch_mirrors hinvoke _ _).discard
  | nodeStarted | nodeCompleted | hints => exact notify_mirrors hinvoke _
  | plain | alien => exact .same (keeps_log _)

theorem processAll_mirrors (events : List Event) :
    Mirrors Q (processAll invoke events) (processAll invoke' events) :=
  mirrors_get_bind fun _ _ => .bind (.same (keeps_step hQ fun _ => ⟨.dealt _, rfl⟩)) fun _ =>
    mirrors_forM _ fun e _ => process_mirrors hQ hinvoke _ e

theorem stop_mirrors : Mirrors Q (stop ip invoke) (stop ip invoke') := by
  have hend : ∀ place, Mirrors Q (do
      flag false (.settled place)
      return .ok : Act H I Outcome) (do
      flag false (.settled place)
      return .ok) := fun place =>
    .same (.bind (keeps_step hQ fun _ => ⟨.settled place, rfl⟩) fun _ => keeps_pure _)
  refine mirrors_get_bind fun w _ => .bind (.same (keeps_step hQ fun _ => ⟨.dealt _, rfl⟩))
    fun _ => mirrors_get_bind fun w' _ => ?_
  cases w'.current with
  | none =>
      dsimp only
      exact hend _
  | some slot =>
      dsimp only
      exact .bind (.same (observe_keeps ip _ _)) fun _ => .bind (.same (keeps_instance _))
        fun i => .bind (.same (setCore_upholds hQ _ _)) fun _ => mirrors_of_bind fun events _ =>
          .bind (processAll_mirrors hQ hinvoke events) fun _ => hend _

/-- A stop that goes through leaves no dialogue running, and until the interpreter is let go
nobody is called. -/
theorem cleanup_mirrors : Mirrors Q (cleanup ip invoke) (cleanup ip invoke') := by
  have hloads : AllowsLoading ip
      (Upholds fun c s => Q c s ∧ c.running = false : World H I → World H I → Prop) :=
    allowsLoading_of_upholds
      (fun _ _ cores hcores h => ⟨hQ _ _ _ (.cores cores hcores) h.1, h.2⟩)
      fun _ _ ps h => ⟨hQ _ _ _ (.programs ps) h.1, h.2⟩
  have hrelease : Keeps (Upholds fun c s => Q c s ∧ c.running = false) (do
      unload ip (← held)
      modify fun w => { w.blank with current := none } : Act H I PUnit) :=
    .bind keeps_held fun _ => .bind (unload_keeps hloads _) fun _ =>
      keeps_modify_of fun w h => ⟨hQ _ _ _ (.released h.2) h.1, h.2⟩
  intro w r w' hw h
  unfold cleanup at h ⊢
  rw [yields_get_bind] at h ⊢
  cases hcurrent : w.current with
  | none =>
      rw [hcurrent] at h
      simp only [Option.isSome_none, Bool.false_eq_true, if_false] at h ⊢
      obtain ⟨rfl, rfl⟩ := yields_modify.mp h
      have hreleased : w.course.released = { w.course with line := none, options := [] } := by
        have hnone : w.course.current = none := hcurrent
        unfold Course.released
        rw [← hnone]
      refine ⟨h, ?_⟩
      show Q w.course.released w.stock
      rw [hreleased]
      exact hQ w.course _ _ (.shown none []) hw
  | some slot =>
      rw [hcurrent] at h
      simp only [Option.isSome_some, if_true] at h ⊢
      have hstops : Mirrors Q (discard (stop ip invoke)) (discard (stop ip invoke')) :=
        (stop_mirrors hQ hinvoke).discard
      rcases yields_bind.mp h with ⟨_, w₁, hstop, hrest⟩ | ⟨e, hstop, rfl⟩
      · obtain ⟨hstop', hw₁⟩ := hstops w _ w₁ hw hstop
        have hidle : w₁.running = false := running_of_stop_ok hstop
        exact ⟨yields_bind.mpr (.inl ⟨_, w₁, hstop', hrest⟩),
          (hrelease w₁ r w' hrest ⟨hw₁, hidle⟩).1⟩
      · obtain ⟨hstop', hw'⟩ := hstops w _ w' hw hstop
        exact ⟨yields_bind.mpr (.inr ⟨e, hstop', rfl⟩), hw'⟩

variable (hassign : ∀ name value, Admits Q name value →
    Mirrors Q (assign invoke name value) (assign invoke' name value))
include hassign

omit hQ in
theorem serve_mirrors (slot : Nat) (a : Ask) :
    Mirrors Q (serve invoke slot a) (serve invoke' slot a) := by
  cases a with
  | write name value => exact (setValue_mirrors hassign _ _).bind fun _ => mirrors_pure _
  | call function arguments =>
      refine .bind (.same (keeps_checkKey function)) fun _ => .bind (.same (keeps_instance slot)) ?_
      intro i
      cases i.functions.get? function with
      | some f =>
          exact .bind (.same (keeps_of arguments)) fun values => callFunction_mirrors hinvoke f values
      | none => exact .same (keeps_throw _)

theorem pump_mirrors (slot fuel : Nat) (l : L) :
    Mirrors Q (pump ip invoke slot fuel l) (pump ip invoke' slot fuel l) := by
  induction fuel generalizing l with
  | zero => exact .same keeps_endless
  | succ fuel ih =>
      refine .bind (.same (keeps_instance slot)) fun i => mirrors_get_bind fun w _ =>
        .bind (.same (setCore_upholds hQ _ _)) fun _ => ?_
      cases (ip.advance w.textOf l i.core).1 with
      | again next => exact ih next
      | ask request next =>
          exact .bind (serve_mirrors hinvoke hassign slot request).attempt fun _ => ih _
      | pause events => exact mirrors_pure _
      | fail f => exact .same (keeps_throw f)

theorem continueDialogue_mirrors (fuel : Nat) :
    Mirrors Q (continueDialogue ip fuel invoke) (continueDialogue ip fuel invoke') := by
  refine mirrors_get_bind fun w _ => ?_
  cases w.running with
  | false =>
      simp only [Bool.not_false, if_true]
      exact mirrors_pure _
  | true =>
      simp only [Bool.not_true, Bool.false_eq_true, if_false]
      refine .bind (.same (keeps_step hQ fun _ => ⟨.shown none [], rfl⟩)) fun _ =>
        .bind (.same (keeps_step hQ fun _ => ⟨.dealt _, rfl⟩)) fun _ =>
          .bind (.same keeps_held) fun slot => .bind (.same (observe_keeps ip _ _)) fun _ =>
            .bind (.same (keeps_instance _)) fun i =>
              .bind (pump_mirrors hQ hinvoke hassign slot fuel _).attempt ?_
      intro result
      cases result with
      | error f =>
          dsimp only
          split
          · exact .same (.bind (keeps_log _) fun _ => outcomeOf_keeps _)
          · exact .same (keeps_throw _)
      | ok events =>
          exact .bind (processAll_mirrors hQ hinvoke _) fun _ =>
            mirrors_get_bind fun _ _ => mirrors_pure _

theorem start_mirrors (fuel : Nat) (node : Datum) :
    Mirrors Q (start ip fuel invoke node) (start ip fuel invoke' node) := by
  intro w r w' hw h
  unfold start at h ⊢
  rw [yields_get_bind] at h ⊢
  cases hrunning : w.running with
  | true =>
      rw [hrunning] at h
      simp only [if_true] at h ⊢
      exact Mirrors.same (.bind (keeps_log _) fun _ => keeps_pure _) w r w' hw h
  | false =>
      rw [hrunning] at h
      simp only [Bool.false_eq_true, if_false] at h ⊢
      cases hcurrent : w.current with
      | none =>
          rw [hcurrent] at h
          exact mirrors_pure _ w r w' hw h
      | some slot =>
          rw [hcurrent] at h
          dsimp only at h ⊢
          let Held : Course I → Stock → Prop := fun c s => Q c s ∧ c.current = some slot
          have hset : ∀ core, Keeps (Upholds Held) (setCore slot core : Act H I Unit) := by
            intro core u x u' h hu
            obtain ⟨-, hcourse, -⟩ := yields_setCore h
            refine ⟨setCore_upholds hQ slot core u x u' h hu.1, ?_⟩
            rw [hcourse]
            exact hu.2
          refine yields_bind_of_upholds (P := Held) (fun _ _ => And.left) (observe_keeps ip _ _)
            (fun _ u₁ hu₁ h => ?_) ⟨hw, hcurrent⟩ h
          refine yields_bind_of_upholds (P := Held) (fun _ _ => And.left) (keeps_instance slot)
            (fun i u₂ hu₂ h => ?_) hu₁ h
          refine yields_bind_of_upholds (P := Held) (fun _ _ => And.left) (hset _)
            (fun _ u₃ hu₃ h => ?_) hu₂ h
          cases hresult : (ip.setNode node i.core).1 with
          | error f =>
              rw [hresult] at h
              refine Mirrors.same ?_ u₃ r w' hu₃.1 h
              dsimp only
              split
              · exact .bind (keeps_log _) fun _ => outcomeOf_keeps _
              · exact keeps_throw _
          | ok _ =>
              rw [hresult] at h
              have hentered : u₃.course.Step (u₃.course.flag true .entered) :=
                .entered (by simp [hu₃.2])
              have hcontinue : Mirrors Q (continueDialogue ip fuel invoke)
                  (continueDialogue ip fuel invoke') :=
                continueDialogue_mirrors hQ hinvoke hassign fuel
              exact ((notify_mirrors hinvoke .started).bind fun _ => hcontinue) _ r w'
                (hQ _ _ _ hentered hu₃.1) (yields_modify_bind.mp h)

/-- A request mirrors itself if the calls of the host do.  One that has the bus tell of a variable
asks for more. -/
theorem perform_mirrors (hclear : ∀ c s, Q c s → Q c (s.change .storeCleared)) (fuel : Nat)
    {r : Request I} (hr : ∀ n, r = .publish n →
      ∀ l, Mirrors Q (invoke (.listener l n)) (invoke' (.listener l n))) :
    Mirrors Q (perform ip fuel invoke r) (perform ip fuel invoke' r) := by
  have hcleared := clearVariables_mirrors hinvoke hclear
  -- whoever is not called may as well have no end
  have hidle : ∀ {r : Request I}, r.drives = false → r.writes = false →
      (∀ invoke : Invoke H I, perform ip fuel invoke r = perform ip fuel (fun _ => endless) r) →
      Mirrors Q (perform ip fuel invoke r) (perform ip fuel invoke' r) := by
    intro r hdrives hwrites hcalls
    rw [hcalls invoke, hcalls invoke']
    exact .same (perform_keeps_of_not_writes (fun _ => keeps_endless) ip fuel r hdrives hwrites)
  cases r with
  | publish n => exact only_mirrors (publish_mirrors (hr n rfl))
  | setVariable name value =>
      exact (setVariable_mirrors hassign name value).bind fun _ => mirrors_pure _
  | setVariables entries =>
      exact (setVariables_mirrors hassign entries).bind fun _ => mirrors_pure _
  | clearVariables => exact only_mirrors hcleared
  | restoreState entries => exact only_mirrors (restore_mirrors hassign hcleared entries)
  | setValue name value => exact only_mirrors (setValue_mirrors hassign name value)
  | setValues entries => exact only_mirrors (setValues_mirrors hassign entries)
  | dispatch name parameters =>
      exact (dispatch_mirrors hinvoke name parameters).bind fun _ => mirrors_pure _
  | setup factory => exact .same (only_keeps (setup_upholds hQ factory))
  | cleanup => exact only_mirrors (cleanup_mirrors hQ hinvoke)
  | build programs =>
      exact .same (only_keeps (build_keeps (Endures.allowsLoading hQ) programs))
  | clearPrograms =>
      exact .same (only_keeps (clearPrograms_keeps (Endures.allowsLoading hQ)))
  | start node =>
      exact (start_mirrors hQ hinvoke hassign fuel node).bind fun _ => mirrors_pure _
  | «continue» =>
      exact (continueDialogue_mirrors hQ hinvoke hassign fuel).bind fun _ => mirrors_pure _
  | stop => exact (stop_mirrors hQ hinvoke).bind fun _ => mirrors_pure _
  | select p => exact .same (selectPick_keeps_of_setCore (setCore_upholds hQ) p)
  | _ => exact hidle rfl rfl fun _ => rfl

end

/-! ## Callbacks -/

section
variable {answer answer' : Request I → Act H I Answer} {p : Request I → Prop}
  {q : Except Fault Datum → Prop} (hanswer : ∀ r, p r → Mirrors Q (answer r) (answer' r))
include hanswer

theorem runScript_mirrors {s : Script H I} (hs : s.Abides p q) :
    Mirrors Q (runScript answer s) (runScript answer' s) := by
  have hhost : ∀ host, Keeps (Upholds Q) (setHost host : Act H I Unit) := fun _ =>
    keeps_modify fun _ => ⟨rfl, rfl, rfl⟩
  induction s with
  | finish host result => exact .same (.bind (hhost host) fun _ => keeps_of _)
  | request host r next ih =>
      obtain ⟨hr, hnext⟩ := hs
      exact .bind (.same (hhost host)) fun _ => .bind (hanswer r hr).attempt fun a =>
        .bind (.same (keeps_record rfl)) fun _ =>
          mirrors_get_bind fun _ _ => ih _ _ (hnext _ _)

theorem callHost_mirrors {react : Host H I} {c : Callback}
    (hreact : ∀ host, (react host c).Abides p q) :
    Mirrors Q (callHost react answer c) (callHost react answer' c) :=
  .bind (.same (keeps_called c)) fun _ =>
    mirrors_get_bind fun _ _ => runScript_mirrors hanswer (hreact _)

end

end Session

end Parley
