import Parley.Interpreter.Script
import Parley.Proofs.Clearing
import Parley.Proofs.Holding

/-!
# Letting the interpreter go

A cleanup looks whether an interpreter is held, stops it, unloads what is held by then, and lets
it go.  Between the look and the unloading the host may be told of a completion, and it may ask
for anything.

| when the cleanup begins | what it comes to |
| :-- | :-- |
| no interpreter is held | nothing is left |
| one is held, at no node | nobody is told, and nothing is left |
| one is held, at a node, and telling the sink fails | the same fault |
| ... the sink is told, and one is held after that | nothing is left |
| ... the sink is told, and none is held after that | `Parted.forestalled`, a fault |

In the fourth line it need not be the interpreter that was stopped.  A callback may have set up
another and started a dialogue on it, which are let go as well.  The fifth line is a callback that
has the runner cleaned up itself, and nothing else is: of all requests only a cleanup leaves the
runner without an interpreter (`equipped_after_notify`).  What the first cleanup released stays
so; the second fails over it.

The table is for the interpreter of scripts, whose stop never fails and brings no more than a
completion.
-/

namespace Parley

/-- Does the request let the interpreter go? -/
def Request.releases {I : Type} : Request I → Bool
  | .cleanup => true
  | _ => false

/-- The callbacks may ask for anything, and hear what the runner tells without failing. -/
def Host.Unfailing {H I : Type} (react : Host H I) : Prop :=
  ∀ host c, (react host c).Abides (fun _ => True)
    (fun result => c.tells = true → ∃ d, result = .ok d)

/-- Nothing is left of the dialogues. -/
structure World.Vacant {H I : Type} (w : World H I) : Prop where
  current : w.current = none
  running : w.running = false
  line : w.line = none
  options : w.options = []

/-- The world in which the sink hears that the dialogue is complete, since it was stopped. -/
def World.closing {H : Type} (w : World H Script.State) (slot : Nat) (s : Script.State) :
    World H Script.State :=
  (w.stopping Script.interpreter slot s).dealt (.batch [.completed])

namespace Course

/-- Where an interpreter was held one is held. -/
def StaysEquipped {I : Type} (c c' : Course I) : Prop := c.current ≠ none → c'.current ≠ none

instance {I : Type} : IsPreorder (Course I) StaysEquipped where
  refl _ := id
  trans _ _ _ h₁ h₂ := h₂ ∘ h₁

instance {I : Type} : OverlooksDialogue (StaysEquipped (I := I)) where
  dialogue := by
    rintro c c' - (hsame | hsome) h
    · rwa [hsame]
    · exact hsome

end Course

namespace Session

open Act
open Course (StaysEquipped StaysManned manned_law)

variable {H I L : Type}

/-! ## After the stop -/

section
variable {ip : Interpreter I L} {w w' : World H I} {r : Except Fault Unit}

/-- With the dialogue stopped, the interpreter that is held by now is let go.  It need not be
the one that was stopped, but one must be. -/
theorem released_cases {place : Nat} (hmanned : w.course.Manned)
    (h : Yields (do
      unload ip (← held)
      modify fun w => { w.blank with current := none }) (w.settled place) r w') :
    (w.current ≠ none ∧ r = .ok () ∧ w'.Vacant) ∨
      (w.current = none ∧ r = .error (.accident .noAttribute) ∧ w' = w.settled place) := by
  have hsame : (w.settled place).current = w.current := rfl
  cases hcurrent : w.current with
  | none =>
      rw [held, bind_assoc, yields_get_bind, hsame, hcurrent] at h
      exact .inr ⟨rfl, yields_throw.mp h⟩
  | some slot =>
      obtain ⟨core, hholds⟩ := hmanned.holds hcurrent
      have hcore : (w.settled place).course.cores[slot]? = some core := hholds.2
      rw [yields_held_of_current (hsame.trans hcurrent), yields_unload_bind hcore] at h
      obtain ⟨rfl, rfl⟩ := yields_modify.mp h
      exact .inl ⟨Option.some_ne_none slot, rfl, rfl, rfl, rfl, rfl⟩

end

/-! ## The completion a stop brings -/

section
variable {invoke : Invoke H I} {w w' : World H I} {y : Except Fault Unit}

theorem yields_processAll_nil :
    Yields (processAll invoke []) w y w' ↔ y = .ok () ∧ w' = w.dealt (.batch []) := by
  unfold processAll
  rw [yields_get_bind]
  exact yields_pure

theorem completion_cases (h : Yields (processAll invoke [.completed]) w y w') :
    ∃ x u, Yields (notify invoke .completed) (w.dealt (.batch [.completed])) x u ∧
      ((∃ f, x = .error f ∧ y = .error f ∧ w' = u) ∨
        x = .ok () ∧ y = .ok () ∧ w' = u.settled w.dealings.length) := by
  have hprocess := yields_modify_bind.mp (yields_get_bind.mp h)
  rcases yields_bind.mp hprocess with ⟨_, u₁, hcompleted, hrest⟩ | ⟨f, hcompleted, rfl⟩
  · obtain ⟨rfl, rfl⟩ := yields_pure.mp hrest
    rcases yields_bind.mp hcompleted with ⟨_, u, hnotify, hflag⟩ | ⟨f, -, hf⟩
    · obtain ⟨-, rfl⟩ := yields_modify.mp hflag
      exact ⟨_, u, hnotify, .inr ⟨rfl, rfl, rfl⟩⟩
    · cases hf
  · rcases yields_bind.mp hcompleted with ⟨_, u, hnotify, hflag⟩ | ⟨f, hnotify, hf⟩
    · cases (yields_modify.mp hflag).1
    · cases hf
      exact ⟨_, w', hnotify, .inl ⟨f, rfl, rfl, rfl⟩⟩

end

/-- How a cleanup ends that told the sink of a completion: by what became of the telling, and by
whether an interpreter is held then. -/
inductive Parted (u w' : World H I) : Except Fault Unit → Except Fault Unit → Prop where
  | failed (f : Fault) : Parted u w' (.error f) (.error f)
  | released (hheld : u.current ≠ none) (hvacant : w'.Vacant) : Parted u w' (.ok ()) (.ok ())
  | forestalled (hnone : u.current = none) (hcurrent : w'.current = none)
      (hrunning : w'.running = false) :
      Parted u w' (.ok ()) (.error (.accident .noAttribute))

section
variable {ip : Interpreter I L} {invoke : Invoke H I} {w w' : World H I} {r : Except Fault Unit}

theorem cleanup_of_none (hsound : w.course.Sound) (hnone : w.current = none)
    (h : Yields (cleanup ip invoke) w r w') : r = .ok () ∧ w'.Vacant := by
  have hrunning : w.running = false :=
    Bool.eq_false_iff.mpr fun hrunning => hsound.running hrunning hnone
  unfold cleanup at h
  rw [yields_get_bind, hnone] at h
  obtain ⟨rfl, rfl⟩ := yields_modify.mp h
  exact ⟨rfl, rfl, hrunning, rfl, rfl⟩

theorem cleanup_of_holds {slot : Nat} {core : I} {events : List Event}
    (hholds : w.course.Holds slot core) (hevents : (ip.stop core).1 = .ok events)
    (h : Yields (cleanup ip invoke) w r w') :
    ∃ y u, Yields (processAll invoke events) (w.stopping ip slot core) y u ∧
      ((∃ f, y = .error f ∧ r = .error f ∧ w' = u) ∨
        y = .ok () ∧ Yields (do
          unload ip (← held)
          modify fun w => { w.blank with current := none })
            (u.settled w.dealings.length) r w') := by
  unfold cleanup at h
  rw [yields_get_bind, if_pos (by rw [show w.current = some slot from hholds.1]; rfl)] at h
  rcases yields_bind.mp h with ⟨_, v, hstop, hrest⟩ | ⟨f, hstop, rfl⟩
  all_goals
    obtain ⟨x, hstop, hx⟩ := yields_discard.mp hstop
    obtain ⟨y, u, hpassed, hend⟩ := (yields_stop hholds hevents).mp hstop
    rcases hend with ⟨rfl, rfl, rfl⟩ | ⟨f', rfl, rfl, rfl⟩
  · exact ⟨_, u, hpassed, .inr ⟨rfl, hrest⟩⟩
  · cases hx
  · cases hx
  · cases hx
    exact ⟨_, w', hpassed, .inl ⟨f, rfl, rfl, rfl⟩⟩

end

section
variable {invoke : Invoke H Script.State} {w w' : World H Script.State} {r : Except Fault Unit}
  {slot : Nat} {s : Script.State}

theorem World.course_stopping (w : World H I) (ip : Interpreter I L) (slot : Nat) (core : I) :
    (w.stopping ip slot core).course = (w.course.deal .stopping).setCore slot (ip.stop core).2 := by
  rw [World.stopping, World.course_withCore, World.course_observed]
  rfl

theorem manned_stopping (hmanned : w.course.Manned) :
    (w.stopping Script.interpreter slot s).course.Manned := by
  intro slot' hslot'
  rw [World.course_stopping] at hslot' ⊢
  exact (hmanned slot' hslot').trans_eq List.length_set.symm

theorem cleanup_of_resting (hmanned : w.course.Manned) (hholds : w.course.Holds slot s)
    (hnode : s.node = .nothing) (h : Yields (cleanup Script.interpreter invoke) w r w') :
    r = .ok () ∧ w'.Vacant := by
  have hevents : (Script.interpreter.stop s).1 = .ok [] := by
    rw [show Script.interpreter.stop s = Script.stop s from rfl, Script.stop, hnode]
    rfl
  obtain ⟨y, u, hpassed, hend⟩ := cleanup_of_holds hholds hevents h
  obtain ⟨rfl, hu⟩ := yields_processAll_nil.mp hpassed
  have hcourse : u.course = (w.stopping Script.interpreter slot s).course.deal (.batch []) := by
    rw [hu]
    rfl
  have hstopped : u.course.Manned := by
    rw [hcourse]
    exact manned_stopping hmanned
  have hcurrent : u.current = some slot := by
    show u.course.current = some slot
    rw [hcourse]
    exact hholds.1
  obtain ⟨f, hf, -⟩ | ⟨-, hrest⟩ := hend
  · cases hf
  · rcases released_cases hstopped hrest with ⟨-, hr, hw'⟩ | ⟨hnone, -⟩
    · exact ⟨hr, hw'⟩
    · cases hcurrent.symm.trans hnone

/-- With the sink told of the completion, whatever interpreter is held is let go. -/
theorem cleanup_of_open (hinvoke : ∀ c, Keeps (OnCourse StaysManned) (invoke c))
    (hmanned : w.course.Manned) (hholds : w.course.Holds slot s) (hnode : s.node ≠ .nothing)
    (h : Yields (cleanup Script.interpreter invoke) w r w') :
    ∃ x u, Yields (notify invoke .completed) (w.closing slot s) x u ∧ Parted u w' x r := by
  have hevents : (Script.interpreter.stop s).1 = .ok [.completed] := by
    rw [show Script.interpreter.stop s = Script.stop s from rfl, Script.stop,
      if_pos (Datum.isSomething_iff.mpr hnode)]
  obtain ⟨y, u₁, hpassed, hend⟩ := cleanup_of_holds hholds hevents h
  obtain ⟨x, u, hnotify, ⟨f, rfl, rfl, rfl⟩ | ⟨rfl, rfl, rfl⟩⟩ := completion_cases hpassed
  · refine ⟨_, u₁, hnotify, ?_⟩
    obtain ⟨f', hf, rfl, rfl⟩ | ⟨hf, -⟩ := hend
    · cases hf
      exact .failed f
    · cases hf
  · refine ⟨_, u, hnotify, ?_⟩
    have htold : StaysManned (w.closing slot s).course u.course :=
      notify_keeps hinvoke .completed _ _ _ hnotify
    have hu : (u.settled (w.stopping Script.interpreter slot s).dealings.length).course.Manned :=
      htold.2 (manned_stopping hmanned)
    obtain ⟨f', hf, -⟩ | ⟨-, hrest⟩ := hend
    · cases hf
    · rcases released_cases hu hrest with ⟨hheld, rfl, hw'⟩ | ⟨hnone, rfl, rfl⟩
      · exact .released hheld hw'
      · exact .forestalled hnone hnone rfl

end

/-! ## Runs -/

section
variable {react : Host H Script.State} {w₀ w u : World H Script.State} {fuel : Nat}
  {x : Except Fault Unit}

/-- A host of which no callback asks for a cleanup leaves an interpreter with the runner. -/
theorem equipped_after_notify
    (hreact : ∀ host c, (react host c).Abides (fun r => r.releases = false) fun _ => True)
    (hheld : w.current ≠ none) {n : Notification}
    (h : Yields (notify (calls Script.interpreter react fuel) n) w x u) : u.current ≠ none := by
  have hallows : AllowsOwning (fun r : Request Script.State => r.releases = false) StaysEquipped :=
    { listed := fun _ _ _ => id
      emptied := fun _ _ => id
      released := nofun }
  have hinvoke : ∀ c, Keeps (OnCourse StaysEquipped) (calls Script.interpreter react fuel c) :=
    fun c => callHost_keeps (fun r hr => exec_keeps_owned hallows hreact fuel r hr)
      fun host => hreact host c
  have hstays : StaysEquipped w.course u.course := notify_keeps hinvoke n w x u h
  exact hstays hheld

/-- Wherever a run has led, a cleanup ends if the calls of the host end.  Without a dialogue it
lets the interpreter go, and nothing is left.  With one it tells the sink first, and lets go what
the runner holds then, which must be something.  So it fails in two ways: with the sink, or since
somebody cleaned up meanwhile.  A host that does neither always gets everything released. -/
theorem released_after_cleanup {steps : List (Request Script.State × Except Fault Answer)}
    (h₀ : w₀.Fresh) (hrun : Run Script.interpreter react w₀ steps w) :
    (∀ fuel, (∀ c, c.passes = true → Ends (calls Script.interpreter react fuel c)) →
      ∃ a w', Yields (exec Script.interpreter react (fuel + 1) .cleanup) w a w') ∧
    ∀ fuel a w', Yields (exec Script.interpreter react (fuel + 1) .cleanup) w a w' →
      ∃ r, a = r.map (fun _ => Answer.done) ∧
        ((∀ slot s, w.course.Holds slot s → s.node = .nothing) → r = .ok () ∧ w'.Vacant) ∧
        (∀ slot s, w.course.Holds slot s → s.node ≠ .nothing → ∃ x u,
          Yields (notify (calls Script.interpreter react fuel) .completed) (w.closing slot s) x u ∧
            Parted u w' x r) ∧
        (react.Unfailing → r = .ok () ∧ w'.Vacant ∨
          r = .error (.accident .noAttribute) ∧ w'.current = none ∧ w'.running = false) ∧
        (react.Unfailing →
          (∀ host c, (react host c).Abides (fun r => r.releases = false) fun _ => True) →
          r = .ok () ∧ w'.Vacant) := by
  have hsound : w.course.Sound :=
    (hrun.within lasts_sound (p := fun _ => True) (fun _ _ => trivial) (sound_of_fresh h₀)).1
  have hmanned := hrun.manned h₀
  refine ⟨fun fuel hends => ?_, fun fuel a w' h => ?_⟩
  · obtain ⟨r, w', hcleanup⟩ := cleanup_ends hends Script.interpreter w
    exact ⟨r.map fun _ => .done, w',
      yields_exec.mpr ⟨fuel, rfl, yields_bind_pure.mpr ⟨r, hcleanup, rfl⟩⟩⟩
  · obtain ⟨fuel', heq, hperform⟩ := yields_exec.mp h
    obtain rfl : fuel = fuel' := Nat.succ.inj heq
    obtain ⟨r, hcleanup, rfl⟩ := yields_bind_pure.mp hperform
    have hresting : (∀ slot s, w.course.Holds slot s → s.node = .nothing) →
        r = .ok () ∧ w'.Vacant := by
      intro hnode
      by_cases hnone : w.current = none
      · exact cleanup_of_none hsound hnone hcleanup
      · obtain ⟨slot, s, hholds⟩ := hsound.exists_holds hnone
        exact cleanup_of_resting hmanned hholds (hnode slot s hholds) hcleanup
    have hopen : ∀ slot s, w.course.Holds slot s → s.node ≠ .nothing → ∃ x u,
        Yields (notify (calls Script.interpreter react fuel) .completed) (w.closing slot s) x u ∧
          Parted u w' x r := by
      intro slot s hholds hnode
      have hinvoke : ∀ c, Keeps (OnCourse StaysManned) (calls Script.interpreter react fuel c) :=
        fun c => callHost_keeps (fun r _ => exec_stays_manned Script.interpreter react fuel r)
          fun _ => Script.abides_true _
      exact cleanup_of_open hinvoke hmanned hholds hnode hcleanup
    -- a host that does not fail is told, if there is anything to tell
    have htold : react.Unfailing → (r = .ok () ∧ w'.Vacant) ∨ ∃ slot s u, w.course.Holds slot s ∧
        Yields (notify (calls Script.interpreter react fuel) .completed) (w.closing slot s)
          (.ok ()) u ∧ Parted u w' (.ok ()) r := by
      intro hheard
      by_cases hnode : ∃ slot s, w.course.Holds slot s ∧ s.node ≠ .nothing
      · obtain ⟨slot, s, hholds, hs⟩ := hnode
        obtain ⟨x, u, hnotify, hparted⟩ := hopen slot s hholds hs
        obtain rfl := notify_heard (calls_hear hheard fuel) hnotify
        exact .inr ⟨slot, s, u, hholds, hnotify, hparted⟩
      · exact .inl (hresting fun slot s hholds =>
          of_not_not fun hs => hnode ⟨slot, s, hholds, hs⟩)
    refine ⟨r, rfl, hresting, hopen, fun hheard => ?_, fun hheard hreact => ?_⟩
    · rcases htold hheard with hdone | ⟨slot, s, u, -, -, hparted⟩
      · exact .inl hdone
      · cases hparted with
        | released _ hvacant => exact .inl ⟨rfl, hvacant⟩
        | forestalled _ hcurrent hrunning => exact .inr ⟨rfl, hcurrent, hrunning⟩
    · rcases htold hheard with hdone | ⟨slot, s, u, hholds, hnotify, hparted⟩
      · exact hdone
      · have hheld : (w.closing slot s).current ≠ none := by
          show w.current ≠ none
          rw [show w.current = some slot from hholds.1]
          exact Option.some_ne_none slot
        cases hparted with
        | released _ hvacant => exact ⟨rfl, hvacant⟩
        | forestalled hnone => exact absurd hnone (equipped_after_notify hreact hheld hnotify)

end

/-! ## Cleaning up, and again meanwhile -/

/-- Told that the dialogue is complete, the host has the runner cleaned up. -/
def tidying : Host Bool Script.State
  | host, .sink .completed => .request host .cleanup fun host _ => .finish host (.ok .nothing)
  | host, _ => .finish host (.ok .nothing)

theorem tidying_unfailing : tidying.Unfailing := by
  intro host c
  unfold tidying
  split
  · exact ⟨trivial, fun _ _ _ => ⟨_, rfl⟩⟩
  · exact fun _ => ⟨_, rfl⟩

/-- Told that the dialogue is complete, the host has the runner stopped, set up and started at
another node. -/
def carryingOn : Host Bool Script.State
  | true, .sink .completed =>
    .request false .stop fun host _ => .request host (.setup none) fun host _ =>
      .request host (.start (.text "Next")) fun host _ => .finish host (.ok .nothing)
  | host, _ => .finish host (.ok .nothing)

theorem carryingOn_unfailing : carryingOn.Unfailing := by
  intro host c
  unfold carryingOn
  split
  · exact ⟨trivial, fun _ _ => ⟨trivial, fun _ _ => ⟨trivial, fun _ _ _ => ⟨_, rfl⟩⟩⟩⟩
  · exact fun _ => ⟨_, rfl⟩

theorem carryingOn_keeps_interpreter (host : Bool) (c : Callback) :
    (carryingOn host c).Abides (fun r => r.releases = false) fun _ => True := by
  unfold carryingOn
  split
  · exact ⟨rfl, fun _ _ => ⟨rfl, fun _ _ => ⟨rfl, fun _ _ => trivial⟩⟩⟩
  · trivial

/-- A cleanup ends in a fault of that class. -/
def cleanupFails (react : Host Bool Script.State) (c : ErrorClass) (w : World Bool Script.State) :
    Bool :=
  ((exec Script.interpreter react 9 .cleanup).run.run w).any fun p =>
    match p.1 with
    | .ok _ => false
    | .error f => f.cls == c

/-- A cleanup fails though nobody else does: by the time its stop has told the sink, the sink has
had the interpreter released. -/
theorem released_meanwhile : ∃ steps w f w', twoNodes.Fresh ∧
    Run Script.interpreter tidying twoNodes steps w ∧ tidying.Unfailing ∧
    Yields (exec Script.interpreter tidying 9 .cleanup) w (.error f) w' ∧
    f.cls = .noAttribute := by
  have hfollow : (follow Script.interpreter tidying 9 [.setup none, .start (.text "Next")]
      twoNodes).any (fun p => cleanupFails tidying .noAttribute p.2) = true := by
    decide +kernel
  obtain ⟨steps, w, hrun, hw⟩ := run_of_follow_any hfollow
  obtain ⟨⟨a, w'⟩, hcleanup, hfails⟩ := (Option.any_eq_true _ _).mp hw
  cases a with
  | ok => cases hfails
  | error f =>
      exact ⟨steps, w, f, w', fresh_twoNodes, hrun, tidying_unfailing, hcleanup, eq_of_beq hfails⟩

/-- A cleanup comes to an end with an interpreter made that was not there before. -/
def cleansUpSecond (w : World Bool Script.State) : Bool :=
  w.running && ((exec Script.interpreter carryingOn 9 .cleanup).run.run w).any fun p =>
    w.instances.length == 1 && p.2.instances.length == 2

/-- The runner is set up and started again while it cleans up, and lets the second interpreter
go. -/
theorem released_after_cleanup_of_carryingOn : ∃ steps w w', twoNodes.Fresh ∧
    Run Script.interpreter carryingOn twoNodes steps w ∧ carryingOn.Unfailing ∧
    w.running = true ∧ w.instances.length = 1 ∧
    Yields (exec Script.interpreter carryingOn 9 .cleanup) w (.ok .done) w' ∧
    w'.instances.length = 2 ∧ w'.Vacant := by
  have hfollow : (follow Script.interpreter carryingOn 9 [.setup none, .start (.text "Next")]
      twoNodes).any (fun p => cleansUpSecond p.2) = true := by
    decide +kernel
  obtain ⟨steps, w, hrun, hw⟩ := run_of_follow_any hfollow
  obtain ⟨hrunning, hcleans⟩ := Bool.and_eq_true_iff.mp hw
  obtain ⟨⟨a, w'⟩, hcleanup, hmade⟩ := (Option.any_eq_true _ _).mp hcleans
  obtain ⟨hone, htwo⟩ := Bool.and_eq_true_iff.mp hmade
  obtain ⟨r, rfl, -, -, -, hdone⟩ := (released_after_cleanup fresh_twoNodes hrun).2 8 a w' hcleanup
  obtain ⟨rfl, hvacant⟩ := hdone carryingOn_unfailing carryingOn_keeps_interpreter
  exact ⟨steps, w, w', fresh_twoNodes, hrun, carryingOn_unfailing, hrunning, eq_of_beq hone,
    hcleanup, eq_of_beq htwo, hvacant⟩

end Session

end Parley
