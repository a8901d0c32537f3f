import Parley.Proofs.Run

/-!
# What the runner does behind what it shows

Answering options and pumping touch an interpreter's state and nothing else that is the runner's
(`select_keeps_of_setCore`, `pump_keeps_of_setCore`); a pump may write variables and call functions
of the host besides.  Setting up and loading programs change interpreters, programs and the
dealings.  All of these leave the line and the options as they are, and of the notifications none
is theirs.  So they keep every relation that overlooks the rest of the course (`OverlooksRunner`).

Starting, continuing and ending a dialogue show what there is to show, and touch neither the
programs nor which interpreter the runner holds (`OverlooksTalk`).  That leaves cleaning up, which
lets go of the interpreter.

A relation that overlooks the whole course, and what is shown and sent, is kept by all the runner
does (`exec_keeps_besides`).  What is left for it to look at is the stock and where notifications
go.
-/

namespace Parley.Session

open Act

variable {H I L : Type}

/-! ## What touches an interpreter's state -/

section
variable {R : World H I → World H I → Prop} {ip : Interpreter I L}

theorem selectPick_keeps_of_select [IsPreorder (World H I) R]
    (hselect : ∀ choice, Keeps R (select ip choice : Act H I Outcome)) (p : Pick) :
    Keeps R (selectPick ip p : Act H I Answer) := by
  cases p with
  | given c => exact .bind (hselect c) fun _ => keeps_pure _
  | current i =>
      refine .bind keeps_get fun w => ?_
      split
      · exact .bind (hselect _) fun _ => keeps_pure _
      · exact keeps_pure _
  | shown i =>
      refine .bind keeps_get fun w => ?_
      split
      · exact .bind (hselect _) fun _ => keeps_pure _
      · exact keeps_throw _

variable [Overlooks R] (hcore : ∀ slot core, Keeps R (setCore slot core : Act H I Unit))
include hcore

theorem select_keeps_of_setCore (choice : Option Choice) :
    Keeps R (select ip choice : Act H I Outcome) := by
  refine .bind keeps_get fun w => ?_
  split
  · exact keeps_pure _
  · split
    · exact keeps_pure _
    · refine .bind (observe_keeps ip _ _) fun _ => .bind (keeps_instance _) fun i =>
        .bind (hcore _ _) fun _ => ?_
      split
      · exact keeps_pure _
      · split
        · exact .bind (keeps_log _) fun _ => outcomeOf_keeps _
        · exact keeps_throw _

theorem selectPick_keeps_of_setCore (p : Pick) : Keeps R (selectPick ip p : Act H I Answer) :=
  selectPick_keeps_of_select (select_keeps_of_setCore hcore) p

theorem pump_keeps_of_setCore [OverlooksBus R] [AllowsWriting R] {invoke : Invoke H I}
    (hinvoke : ∀ c, Keeps R (invoke c)) (slot fuel : Nat) (l : L) :
    Keeps R (pump ip invoke slot fuel l) := by
  induction fuel generalizing l with
  | zero => exact keeps_endless
  | succ fuel ih =>
      refine .bind (keeps_instance slot) fun i => .bind keeps_get fun w =>
        .bind (hcore slot _) fun _ => ?_
      split
      · exact ih _
      · exact .bind (serve_keeps hinvoke slot _).attempt fun _ => ih _
      · exact keeps_pure _
      · exact keeps_throw _

end

/-! ## What shows nothing -/

section
variable {R : World H I → World H I → Prop} [OverlooksRunner R] {ip : Interpreter I L}

theorem setup_keeps_aside (factory : Option I) :
    Keeps R (setup ip factory : Act H I Unit) := by
  have hmake : ∀ core, Keeps R (do
      ensureProvider
      modify fun w => { w with
        instances := w.instances ++ [{ core, functions := .standard }]
        current := some w.instances.length }
      flag false .made
      log (.interpreterReady (ip.typeName core))
      build ip none : Act H I Unit) := fun core =>
    .bind ensureProvider_keeps fun _ => .bind (keeps_modify_aside fun _ => ⟨rfl, rfl, rfl, rfl⟩)
      fun _ => .bind (keeps_modify_aside fun _ => ⟨rfl, rfl, rfl, rfl⟩) fun _ =>
        .bind (keeps_log _) fun _ => build_keeps (OverlooksRunner.allowsLoading ip) none
  cases factory with
  | none =>
      refine .bind keeps_get fun w => ?_
      split
      · exact keeps_throw _
      · exact hmake _
  | some core =>
      refine .bind (keeps_modify_aside fun _ => ⟨rfl, rfl, rfl, rfl⟩) fun _ =>
        .bind keeps_get fun w => ?_
      split
      · exact keeps_throw _
      · exact hmake _

theorem setCore_keeps_aside (slot : Nat) (core : I) : Keeps R (setCore slot core : Act H I Unit) :=
  keeps_modify_aside fun _ => ⟨rfl, rfl, rfl, rfl⟩

variable [OverlooksBus R] [AllowsWriting R] {invoke : Invoke H I}
  (hinvoke : ∀ c, Keeps R (invoke c))
include hinvoke

theorem pump_keeps_aside (slot fuel : Nat) (l : L) : Keeps R (pump ip invoke slot fuel l) :=
  pump_keeps_of_setCore setCore_keeps_aside hinvoke slot fuel l

/-- Of the requests only those that pass a batch on may show something. -/
theorem perform_keeps_aside (fuel : Nat) {r : Request I} (hr : r.passes = false) :
    Keeps R (perform ip fuel invoke r) := by
  cases hdrives : r.drives with
  | false => exact perform_keeps_of_not_drives hinvoke ip fuel r hdrives
  | true =>
      cases r with
      | setup factory => exact only_keeps (setup_keeps_aside factory)
      | build programs =>
          exact only_keeps (build_keeps (OverlooksRunner.allowsLoading ip) programs)
      | clearPrograms =>
          exact only_keeps (clearPrograms_keeps (OverlooksRunner.allowsLoading ip))
      | select p => exact selectPick_keeps_of_setCore setCore_keeps_aside p
      | cleanup | start | «continue» | stop => cases hr
      | _ => cases hdrives

end

/-! ## What a dialogue leaves alone

Starting, continuing and ending a dialogue change what is shown and dealt, show what there is to
show, and call the host. -/

section
variable {R : World H I → World H I → Prop} [OverlooksTalk R] {ip : Interpreter I L}

theorem keeps_modify_talk {f : World H I → World H I}
    (hf : ∀ w, (f w).programs = w.programs ∧ (f w).current = w.current ∧
      (f w).stock = w.stock ∧ (f w).reception = w.reception) :
    Keeps R (modify f : Act H I PUnit) :=
  keeps_modify_of fun w => OverlooksTalk.talk (hf w).1 (hf w).2.1 (hf w).2.2.1 (hf w).2.2.2

theorem setCore_keeps_talk (slot : Nat) (core : I) : Keeps R (setCore slot core : Act H I Unit) :=
  keeps_modify_talk fun _ => ⟨rfl, rfl, rfl, rfl⟩

variable [OverlooksShowings R]

theorem blank_overlooked (w : World H I) : R w w.blank := by
  have hcleared : R { w with showings := w.showings ++ [.cleared] } w.blank :=
    OverlooksTalk.talk rfl rfl rfl rfl
  exact trans_of R (OverlooksShowings.showing w .cleared) hcleared

variable [OverlooksBus R] {invoke : Invoke H I} (hinvoke : ∀ c, Keeps R (invoke c))
include hinvoke

theorem process_keeps_talk (place : Nat) (e : Event) : Keeps R (process invoke place e) := by
  cases e with
  | line | options | completed =>
      exact .bind (notify_keeps hinvoke _) fun _ => keeps_modify_talk fun _ => ⟨rfl, rfl, rfl, rfl⟩
  | command name parameters => exact (dispatch_keeps hinvoke _ _).discard
  | nodeStarted | nodeCompleted | hints => exact notify_keeps hinvoke _
  | plain | alien => exact keeps_log _

theorem processAll_keeps_talk (events : List Event) : Keeps R (processAll invoke events) :=
  .bind keeps_get fun _ => .bind (keeps_modify_talk fun _ => ⟨rfl, rfl, rfl, rfl⟩) fun _ =>
    keeps_forM _ fun e _ => process_keeps_talk hinvoke _ e

theorem stop_keeps_talk : Keeps R (stop ip invoke) := by
  have hend : ∀ place, Keeps R (do
      flag false (.settled place)
      return .ok : Act H I Outcome) := fun _ =>
    .bind (keeps_modify_talk fun _ => ⟨rfl, rfl, rfl, rfl⟩) fun _ => keeps_pure _
  refine .bind keeps_get fun w => .bind (keeps_modify_talk fun _ => ⟨rfl, rfl, rfl, rfl⟩) fun _ =>
    .bind keeps_get fun w' => ?_
  split
  · exact .bind (observe_keeps ip _ _) fun _ => .bind (keeps_instance _) fun i =>
      .bind (setCore_keeps_talk _ _) fun _ => .bind (keeps_of _) fun events =>
        .bind (processAll_keeps_talk hinvoke events) fun _ => hend _
  · exact hend _

theorem cleanup_keeps_of_release (hrelease : Keeps R
    (modify fun w => { w.blank with current := none } : Act H I Unit)) :
    Keeps R (cleanup ip invoke) := by
  refine .bind keeps_get fun w => ?_
  split
  · exact .bind (stop_keeps_talk hinvoke).discard fun _ => .bind keeps_held fun _ =>
      .bind (.bind (observe_keeps ip _ _) fun _ =>
        keeps_modify_talk fun _ => ⟨rfl, rfl, rfl, rfl⟩) fun _ => hrelease
  · exact hrelease

variable [AllowsWriting R]

theorem continueDialogue_keeps_talk (fuel : Nat) :
    Keeps R (continueDialogue ip fuel invoke) := by
  refine .bind keeps_get fun w => ?_
  split
  · exact keeps_pure _
  · refine .bind (keeps_modify_of blank_overlooked) fun _ =>
      .bind (keeps_modify_talk fun _ => ⟨rfl, rfl, rfl, rfl⟩) fun _ => .bind keeps_held fun slot =>
        .bind (observe_keeps ip _ _) fun _ => .bind (keeps_instance _) fun i =>
          .bind (pump_keeps_of_setCore setCore_keeps_talk hinvoke slot fuel _).attempt ?_
    intro result
    split
    · split
      · exact .bind (keeps_log _) fun _ => outcomeOf_keeps _
      · exact keeps_throw _
    · exact .bind (processAll_keeps_talk hinvoke _) fun _ => .bind keeps_get fun _ =>
        keeps_pure _

theorem start_keeps_talk (fuel : Nat) (node : Datum) :
    Keeps R (start ip fuel invoke node) := by
  refine .bind keeps_get fun w => ?_
  split
  · exact .bind (keeps_log _) fun _ => keeps_pure _
  · split
    · exact keeps_pure _
    · refine .bind (observe_keeps ip _ _) fun _ => .bind (keeps_instance _) fun i =>
        .bind (setCore_keeps_talk _ _) fun _ => ?_
      split
      · split
        · exact .bind (keeps_log _) fun _ => outcomeOf_keeps _
        · exact keeps_throw _
      · exact .bind (keeps_modify_talk fun _ => ⟨rfl, rfl, rfl, rfl⟩) fun _ =>
          .bind (notify_keeps hinvoke _) fun _ => continueDialogue_keeps_talk hinvoke fuel

/-- A request that passes a batch on keeps such a relation, but for letting go of the
interpreter. -/
theorem perform_keeps_talk (fuel : Nat) {r : Request I} (hr : r.passes = true)
    (hrelease : r = .cleanup → Keeps R
      (modify fun w => { w.blank with current := none } : Act H I Unit)) :
    Keeps R (perform ip fuel invoke r) := by
  cases r with
  | cleanup => exact only_keeps (cleanup_keeps_of_release hinvoke (hrelease rfl))
  | start node => exact .bind (start_keeps_talk hinvoke fuel node) fun _ => keeps_pure _
  | «continue» => exact .bind (continueDialogue_keeps_talk hinvoke fuel) fun _ => keeps_pure _
  | stop => exact .bind (stop_keeps_talk hinvoke) fun _ => keeps_pure _
  | _ => cases hr

end

/-! ## Whatever becomes of the course

A relation that overlooks the course is kept by every request of every host. -/

section
variable {R : World H I → World H I → Prop} [OverlooksCourse R] [OverlooksShowings R]
  [OverlooksBus R] [AllowsWriting R]

theorem perform_keeps_besides (ip : Interpreter I L) {invoke : Invoke H I}
    (hinvoke : ∀ c, Keeps R (invoke c)) (fuel : Nat) (r : Request I) :
    Keeps R (perform ip fuel invoke r) := by
  have hreleased (w : World H I) : R w.blank { w.blank with current := none } :=
    OverlooksCourse.besides rfl rfl
  have hrelease : Keeps R (modify fun w => { w.blank with current := none } : Act H I Unit) :=
    keeps_modify_of fun w => trans_of R (blank_overlooked w) (hreleased w)
  cases hpasses : r.passes with
  | false => exact perform_keeps_aside hinvoke fuel hpasses
  | true => exact perform_keeps_talk hinvoke fuel hpasses fun _ => hrelease

variable [OverlooksCalls R]

theorem exec_keeps_besides (ip : Interpreter I L) (react : Host H I) (fuel : Nat)
    (r : Request I) : Keeps R (exec ip react fuel r) :=
  exec_keeps (fun _ _ => Script.abides_true _)
    (fun fuel _ hinvoke r _ => perform_keeps_besides ip hinvoke fuel r) fuel r trivial

theorem calls_keep_besides (ip : Interpreter I L) (react : Host H I) (fuel : Nat)
    (c : Callback) : Keeps R (calls ip react fuel c) :=
  callHost_keeps (fun r _ => exec_keeps_besides ip react fuel r) fun _ => Script.abides_true _

end

end Parley.Session
