import Parley.Proofs.Obtaining
import Parley.Proofs.Settling
import Parley.Proofs.Watching

/-!
# A dialogue runs only where an interpreter is held

The flag and the interpreter are changed by different operations, and the host is called in
between.  What ties them together is small.

| | what it does | what it has made sure of, with nobody called since |
| :-- | :-- | :-- |
| `start` | raises the flag | there is an interpreter |
| `setup` | puts a new interpreter in its place | |
| `cleanup` | lets the interpreter go | the flag is down, as a stop went through |
| anything else | lowers the flag, or leaves both alone | |

So wherever the host looks, a dialogue runs only where an interpreter is held, and to continue is
to pump that one (`held_while_running`).  A callback may set up, start, continue, stop and clean up,
to any depth, and fail at any point: a `cleanup` whose stop fails does not get as far as letting go.

Interpreters call the host only while they are pumped.  One that did so when it takes a node or
forgets its programs would come between the looks and the steps of the table.
-/

namespace Parley

theorem Course.Sound.step {I : Type} {c c' : Course I} (hstep : c.Step c') (h : c.Sound) :
    c'.Sound := by
  cases hstep with
  | cores cores hcores =>
      refine ⟨fun slot hslot => ?_, h.running⟩
      show slot < cores.length
      rw [hcores]
      exact h.held slot hslot
  | programs | shown | dealt => exact ⟨h.held, h.running⟩
  | made core =>
      refine ⟨fun slot hslot => ?_, fun h => absurd h Bool.false_ne_true⟩
      cases hslot
      simp [made, flag, deal]
  | entered hcurrent => exact ⟨h.held, fun _ => hcurrent⟩
  | settled place => exact ⟨h.held, fun h => absurd h Bool.false_ne_true⟩
  | released hrunning =>
      refine ⟨fun slot hslot => ?_, fun h => ?_⟩
      · cases hslot
      · exact absurd (hrunning.symm.trans h) Bool.false_ne_true

namespace Session

open Act

variable {H I L : Type} {ip : Interpreter I L} {react : Host H I} {w₀ w : World H I}

/-- If a dialogue runs, an interpreter is held, and to continue is to pump it. -/
def Attended (ip : Interpreter I L) (w : World H I) : Prop :=
  w.running = true → ∃ slot core, w.course.Holds slot core ∧
    ∀ fuel (invoke : Invoke H I) r w', Yields (continueDialogue ip fuel invoke) w r w' ↔
      ∃ x u, Yields (pump ip invoke slot fuel (ip.begin core)) (w.begun ip core) x u ∧
        Yields (conclude invoke x) u r w'

theorem attended_of_sound (h : w.course.Sound) : Attended ip w := by
  intro hrunning
  obtain ⟨slot, core, hholds⟩ := h.exists_holds (h.running hrunning)
  exact ⟨slot, core, hholds, fun _ _ _ _ => yields_continue hrunning hholds⟩

theorem lasts_sound : Lasts fun (c : Course I) _ => c.Sound where
  endures _ _ _ := Course.Sound.step
  clear _ _ := id
  assign _ _ _ _ _ := id

/-- Whatever the host's callbacks do to the runner, a dialogue runs only where an interpreter is
held: after every request of a run, and during the next one whenever the host is called and
whenever a request of a callback has come to its result. -/
theorem held_while_running {steps : List (Request I × Except Fault Answer)} (h₀ : w₀.Fresh)
    (hrun : Run ip react w₀ steps w) :
    Attended ip w ∧ ∀ fuel r a w', Yields (exec ip react fuel r) w a w' →
      Yields (execWithin ip react (Attended ip) fuel r) w a w' := by
  have hwithin := hrun.within lasts_sound (p := Attended ip) (fun _ h => attended_of_sound h)
    (sound_of_fresh h₀)
  exact ⟨attended_of_sound hwithin.1, hwithin.2⟩

/-- Told that the dialogue is complete, the host has the runner cleaned up, set up and started at
another node, and then fails. -/
def restless : Host Bool Script.State
  | true, .sink .completed =>
    .request false .cleanup fun host _ => .request host (.setup none) fun host _ =>
      .request host (.start (.text "Next")) fun host _ => .finish host (.error (.accident .value))
  | host, _ => .finish host (.ok .nothing)

/-- To start ends in a fault, and leaves a dialogue running on the second interpreter. -/
def startedOver (w : World Bool Script.State) : Bool :=
  ((exec Script.interpreter restless 9 (.start (.text "Start"))).run.run w).any fun p =>
    match p.1 with
    | .ok _ => false
    | .error _ => p.2.running && p.2.current == some 1

theorem held_while_running_of_restless : ∃ steps w f w', twoNodes.Fresh ∧
    Run Script.interpreter restless twoNodes steps w ∧
    Yields (exec Script.interpreter restless 9 (.start (.text "Start"))) w (.error f) w' ∧
    w'.running = true ∧ w'.current = some 1 ∧
    Yields (execWithin Script.interpreter restless (Attended Script.interpreter) 9
      (.start (.text "Start"))) w (.error f) w' ∧
    Attended Script.interpreter w' := by
  have hfollow : (follow Script.interpreter restless 9 [.setup none] twoNodes).any
      (fun p => startedOver p.2) = true := by
    decide +kernel
  obtain ⟨steps, w, hrun, hw⟩ := run_of_follow_any hfollow
  obtain ⟨⟨a, w'⟩, hstart, hw'⟩ := (Option.any_eq_true _ _).mp hw
  cases a with
  | ok => cases hw'
  | error f =>
      obtain ⟨hrunning, hcurrent⟩ := Bool.and_eq_true_iff.mp hw'
      have hwithin := (held_while_running fresh_twoNodes hrun).2 9 _ _ w' hstart
      exact ⟨steps, w, f, w', fresh_twoNodes, hrun, hstart, hrunning, eq_of_beq hcurrent, hwithin,
        (yields_execWithin.mp hwithin).2⟩

end Session

end Parley
