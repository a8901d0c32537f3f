import Parley.Proofs.Passing
import Parley.Proofs.Settling

/-!
# Whether a dialogue runs after a stop

A stop has three parts: the interpreter is stopped, the batch it returns is passed on, and the
flag for a running dialogue goes down.  Nothing makes sure of the third when the second ends
in a fault, so how a stop ends decides over the flag:

| the stop | its answer | the flag |
|---|---|---|
| goes through, or there is no interpreter | done | down |
| is refused by the interpreter | its fault | as it was |
| is cut at an event of the batch | the callback's | down if it was, or a completion came before |

The first line holds of any host, as the flag is written after all callbacks have returned.
The last is for hosts whose callbacks leave the runner alone (`Host.Aloof`): they may do
anything else, and may fail with anything at any point.  What stood behind the event is lost
in that case, so that a completion at which the sink fails does not end the dialogue either.

A start is refused as one too many exactly if the flag is up, so it is refused after a stop that
was cut there.
-/

namespace Parley

namespace Course

variable {I L : Type}

/-! ## The interpreter of any host's runner is there -/

/-- If the runner holds an interpreter, it is there. -/
def Manned (c : Course I) : Prop := ∀ slot, c.current = some slot → slot < c.cores.length

theorem Manned.holds {c : Course I} (h : c.Manned) {slot : Nat} (hslot : c.current = some slot) :
    ∃ core, c.Holds slot core :=
  ⟨_, hslot, List.getElem?_eq_getElem (h slot hslot)⟩

/-- The dealings go on, and the runner's interpreter goes on being there. -/
def StaysManned (c c' : Course I) : Prop :=
  c.dealings <+: c'.dealings ∧ (c.Manned → c'.Manned)

instance : IsPreorder (Course I) StaysManned where
  refl _ := ⟨List.prefix_rfl, id⟩
  trans _ _ _ := fun h₁ h₂ => ⟨h₁.1.trans h₂.1, h₂.2 ∘ h₁.2⟩

theorem StaysManned.of_length {c c' : Course I} (hdealings : c.dealings <+: c'.dealings)
    (hcurrent : c'.current = c.current) (hcores : c'.cores.length = c.cores.length) :
    StaysManned c c' := by
  refine ⟨hdealings, fun h => ?_⟩
  unfold Manned
  rw [hcurrent, hcores]
  exact h

theorem manned_law (ip : Interpreter I L) :
    Law ip (fun _ => True) (fun _ => True) (fun _ => True) (StaysManned (I := I)) where
  load _ _ _ _ _ := .of_length List.prefix_rfl rfl List.length_set
  unload _ _ := .of_length List.prefix_rfl rfl (List.length_modify _ _ _)
  programs _ _ := .of_length List.prefix_rfl rfl rfl
  grows _ _ := And.left
  made c core _ := by
    refine ⟨List.prefix_append _ _, fun _ slot hslot => ?_⟩
    cases hslot
    simp [made, flag, deal]
  shown _ _ _ := .of_length List.prefix_rfl rfl rfl
  released _ := ⟨List.prefix_rfl, fun _ _ => nofun⟩
  called _ _ _ _ _ _ := .of_length List.prefix_rfl rfl List.length_set
  entered _ := .of_length (List.prefix_append _ _) rfl rfl
  pumping _ := .of_length (List.prefix_append _ _) rfl rfl
  stopping _ := .of_length (List.prefix_append _ _) rfl rfl
  batch _ _ _ := .of_length (List.prefix_append _ _) rfl rfl
  settled _ _ _ _ _ := .of_length (List.prefix_append _ _) rfl rfl
  begins _ := trivial
  leads textOf l core _ := by
    cases (ip.advance textOf l core).1 <;> simp [Move.Leads]
  stops _ _ _ := trivial

end Course

namespace Session

open Act
open Course (Follows StaysManned manned_law)

variable {H I L : Type} {ip : Interpreter I L} {react : Host H I} {w₀ w w' : World H I}

theorem exec_stays_manned (ip : Interpreter I L) (react : Host H I) (fuel : Nat) (r : Request I) :
    Keeps (OnCourse StaysManned) (exec ip react fuel r) :=
  exec_keeps_of_law (manned_law ip)
    (fun host c => Script.abides_of_forall (q := fun _ => True) supplies_true (fun _ => trivial)
      (react host c)) fuel r (supplies_true r)

theorem Run.manned {steps : List (Request I × Except Fault Answer)} (h₀ : w₀.Fresh)
    (hrun : Run ip react w₀ steps w) : w.course.Manned := by
  have hstays : StaysManned w₀.course w.course :=
    hrun.keeps (p := fun _ => True) (fun fuel r _ => exec_stays_manned ip react fuel r)
      fun _ _ => trivial
  refine hstays.2 fun slot hslot => ?_
  cases h₀.current.symm.trans hslot

/-! ## A batch that is cut anywhere -/

section
variable {invoke : Invoke H I} {place : Nat} {e : Event} {events : List Event} {f : Fault}

theorem known_of_process_error (h : Yields (process invoke place e) w (.error f) w') :
    e.isUnknown = false := by
  cases e with
  | plain | alien => cases (yields_modify.mp h).1
  | _ => rfl

/-- A batch that fails fails at one of its events.  If the host leaves the runner alone, those
before it were passed on and that is all. -/
theorem cut_of_processAll_error (h : Yields (processAll invoke events) w (.error f) w') :
    ∃ before e after, events = before ++ e :: after ∧ e.isUnknown = false ∧
      ((∀ c, Keeps (OnCourse Eq) (invoke c)) → w'.course =
        before.foldl (Course.pass w.dealings.length) (w.course.deal (.batch events))) := by
  have hevents := yields_modify_bind.mp (yields_get_bind.mp h)
  obtain ⟨before, e, after, u, hsplit, hbefore, he⟩ := exists_of_yields_forM_error hevents
  refine ⟨before, e, after, hsplit, known_of_process_error he, fun hinvoke => ?_⟩
  rw [course_of_process_error hinvoke he, course_of_events_ok hinvoke hbefore]
  rfl

end

/-! ## Stopping -/

/-- How a stop can end, and whether a dialogue runs then.  The last line is for a host that is
aloof. -/
inductive Halted (ip : Interpreter I L) (c : Course I) (aloof : Prop) :
    Except Fault Outcome → Bool → Prop where
  | done : Halted ip c aloof (.ok .ok) false
  | refused {slot : Nat} {core : I} {f : Fault} (hheld : c.Holds slot core)
      (hstop : (ip.stop core).1 = .error f) : Halted ip c aloof (.error f) c.running
  | cut {slot : Nat} {core : I} {before : List Event} {e : Event} {after : List Event} {f : Fault}
      {running : Bool} (hheld : c.Holds slot core)
      (hstop : (ip.stop core).1 = .ok (before ++ e :: after)) (he : e.isUnknown = false)
      (hrunning : aloof → running = (c.running && !before.any Event.completes)) :
      Halted ip c aloof (.error f) running

theorem Halted.mono {c : Course I} {p q : Prop} {r : Except Fault Outcome} {running : Bool}
    (h : Halted ip c p r running) (hqp : q → p) : Halted ip c q r running := by
  cases h with
  | done => exact .done
  | refused hheld hf => exact .refused hheld hf
  | cut hheld hevents he hrunning => exact .cut hheld hevents he fun hq => hrunning (hqp hq)

theorem stop_halted {invoke : Invoke H I} {r : Except Fault Outcome} (hmanned : w.course.Manned)
    (h : Yields (stop ip invoke) w r w') :
    Halted ip w.course (∀ c, Keeps (OnCourse Eq) (invoke c)) r w'.running := by
  obtain ⟨w₁, hw₁, h⟩ := stop_cases h
  have hrunning₁ : w₁.course.running = w.course.running := by
    rw [hw₁]
    rfl
  rcases h with ⟨-, rfl, hw'⟩ | ⟨hheld, hcore, -, -⟩ | ⟨slot, core, hslot, hcore, h⟩
  · rw [show w'.running = false from congrArg Course.running hw']
    exact .done
  · obtain ⟨slot, hslot⟩ := Option.ne_none_iff_exists'.mp hheld
    obtain ⟨core, hholds⟩ := hmanned.holds hslot
    cases hcore.symm.trans hholds.core?
  · have hholds : w.course.Holds slot core := ⟨hslot, hcore⟩
    rcases h with ⟨f, hf, rfl, hw'⟩ | ⟨events, w₂, w₃, y, hevents, hw₂, hpassed, h⟩
    · have hrunning' : w'.running = w.course.running :=
        (congrArg Course.running hw').trans hrunning₁
      rw [hrunning']
      exact .refused hholds hf
    · rcases h with ⟨f, rfl, rfl, hw'⟩ | ⟨-, rfl, hw'⟩
      · obtain ⟨before, e, after, rfl, he, hcourse⟩ := cut_of_processAll_error hpassed
        refine .cut hholds hevents he fun hinvoke => ?_
        have hrunning₂ : w₂.course.running = w.course.running := by
          rw [hw₂]
          exact hrunning₁
        rw [show w'.running = w₃.course.running from congrArg Course.running hw',
          hcourse hinvoke, Course.running_foldl_pass, ← hrunning₂]
        rfl
      · rw [show w'.running = false from congrArg Course.running hw']
        exact .done

/-! ## Starting afterwards -/

theorem start_alreadyRunning_iff {invoke : Invoke H I} {fuel : Nat} {node : Datum}
    {r : Except Fault Outcome} (h : Yields (start ip fuel invoke node) w r w') :
    r = .ok .alreadyRunning ↔ w.running = true := by
  rcases start_cases h with
      ⟨hrunning, hr, -⟩ | ⟨hrunning, -, rfl, -⟩ | ⟨hrunning, _, -, -, ⟨f, rfl⟩, -⟩ |
        ⟨hrunning, slot, core, -, -, h⟩
  · exact iff_of_true hr hrunning
  all_goals refine iff_of_false ?_ (by simp [hrunning])
  · nofun
  · nofun
  · rcases h with ⟨f, -, hfaulted, -⟩ | ⟨w₁, -, -, hrest⟩
    · exact hfaulted.ne (by decide)
    · rcases yields_bind.mp hrest with ⟨_, w₂, -, hcontinue⟩ | ⟨f, -, rfl⟩
      · rcases continue_cases hcontinue with
            ⟨-, rfl, -⟩ | ⟨-, -, ⟨f, rfl⟩, -⟩ | ⟨-, _, _, _, _, _, -, -, -, -, h⟩
        · nofun
        · nofun
        · rcases h with ⟨f, -, hfaulted, -⟩ | ⟨events, y, -, -, rfl⟩
          · exact hfaulted.ne (by decide)
          · cases y with
            | error f => nofun
            | ok _ =>
                show Except.ok (if w'.running then Outcome.ok else .complete) ≠ _
                split <;> nofun
      · nofun

/-! ## Runs -/

/-- Wherever a run has led, a stop ends in one of three ways if the calls of the host end.  The
flag is what the dealings come to, whatever callbacks do meanwhile, and it decides whether a
start is refused afterwards. -/
theorem running_after_stop {steps : List (Request I × Except Fault Answer)} (h₀ : w₀.Fresh)
    (hrun : Run ip react w₀ steps w) :
    (∀ fuel, (∀ c, c.passes = true → Ends (calls ip react fuel c)) →
      ∃ a w', Yields (exec ip react (fuel + 1) .stop) w a w') ∧
    ∀ fuel a w', Yields (exec ip react fuel .stop) w a w' →
      (∃ r, a = r.map Answer.outcome ∧ Halted ip w.course react.Aloof r w'.running) ∧
      (∃ t, w'.dealings = w.dealings ++ t ∧ w'.running = t.foldl Dealing.flag w.running) ∧
      ∀ fuel' node b u, Yields (exec ip react fuel' (.start node)) w' b u →
        (b = .ok (.outcome .alreadyRunning) ↔ w'.running = true) := by
  constructor
  · intro fuel hends
    obtain ⟨r, w', hstop⟩ := stop_ends hends ip w
    exact ⟨r.map .outcome, w', yields_exec.mpr ⟨fuel, rfl, yields_bind_pure.mpr ⟨r, hstop, rfl⟩⟩⟩
  · intro fuel a w' h
    refine ⟨?_, ?_, ?_⟩
    · obtain ⟨fuel, rfl, hperform⟩ := yields_exec.mp h
      obtain ⟨r, hstop, rfl⟩ := yields_bind_pure.mp hperform
      have hhalted := stop_halted (hrun.manned h₀) hstop
      exact ⟨r, rfl, hhalted.mono fun hreact => callHost_aloof hreact fuel⟩
    · obtain ⟨t, hdealings, hrunning, -⟩ := exec_follows ip react fuel .stop w a w' h
      exact ⟨t, hdealings, hrunning⟩
    · intro fuel' node b u hb
      obtain ⟨fuel', rfl, hperform⟩ := yields_exec.mp hb
      obtain ⟨r, hstart, rfl⟩ := yields_bind_pure.mp hperform
      rw [← start_alreadyRunning_iff hstart]
      cases r with
      | error f => simp [Except.map]
      | ok o => simp [Except.map]

/-! ## A sink that fails at the end -/

/-- The sink stumbles when it is told that the dialogue is complete. -/
def stumbling : Host Bool Script.State
  | host, .sink .completed => .finish host (.error (.accident .value))
  | host, _ => .finish host (.ok .nothing)

theorem stumbling_aloof : stumbling.Aloof := by
  intro host c
  unfold stumbling
  split <;> trivial

/-- A stop fails, and after it a start is refused as one too many. -/
def isStuck (w : World Bool Script.State) : Bool :=
  ((exec Script.interpreter stumbling 9 .stop).run.run w).any fun p =>
    failed p.1 && p.2.running &&
      ((exec Script.interpreter stumbling 9 (.start (.text "Next"))).run.run p.2).any fun q =>
        refused q.1
where
  failed : Except Fault Answer → Bool
    | .error _ => true
    | .ok _ => false
  refused : Except Fault Answer → Bool
    | .ok (.outcome .alreadyRunning) => true
    | _ => false

theorem stuck_run : ∃ steps w f w' u, Run Script.interpreter stumbling twoNodes steps w ∧
    Yields (exec Script.interpreter stumbling 9 .stop) w (.error f) w' ∧ w'.running = true ∧
    Yields (exec Script.interpreter stumbling 9 (.start (.text "Next"))) w'
      (.ok (.outcome .alreadyRunning)) u := by
  have hfollow : (follow Script.interpreter stumbling 9 [.setup none, .start (.text "Next")]
      twoNodes).any (fun p => isStuck p.2) = true := by
    decide +kernel
  obtain ⟨steps, w, hrun, hw⟩ := run_of_follow_any hfollow
  obtain ⟨⟨a, w'⟩, hstop, hw'⟩ := (Option.any_eq_true _ _).mp hw
  rw [Bool.and_eq_true, Bool.and_eq_true] at hw'
  obtain ⟨⟨hfailed, hrunning⟩, hstart⟩ := hw'
  obtain ⟨⟨b, u⟩, hstart, hrefused⟩ := (Option.any_eq_true _ _).mp hstart
  cases a with
  | ok => cases hfailed
  | error f =>
      unfold isStuck.refused at hrefused
      split at hrefused
      · next hb =>
        cases hb
        exact ⟨steps, w, f, w', u, hrun, hstop, hrunning, hstart⟩
      · cases hrefused

/-- A dialogue may run after a stop has failed, and then no other can be started. -/
theorem running_after_failed_stop : ∃ steps w f w' u, twoNodes.Fresh ∧
    Run Script.interpreter stumbling twoNodes steps w ∧
    Yields (exec Script.interpreter stumbling 9 .stop) w (.error f) w' ∧ w'.running = true ∧
    Yields (exec Script.interpreter stumbling 9 (.start (.text "Next"))) w'
      (.ok (.outcome .alreadyRunning)) u := by
  obtain ⟨steps, w, f, w', u, hstuck⟩ := stuck_run
  exact ⟨steps, w, f, w', u, fresh_twoNodes, hstuck⟩

/-- The stop is cut at the completion that the interpreter returned. -/
theorem running_after_stop_of_stumbling : ∃ steps w f w', twoNodes.Fresh ∧
    Run Script.interpreter stumbling twoNodes steps w ∧ stumbling.Aloof ∧
    Yields (exec Script.interpreter stumbling 9 .stop) w (.error f) w' ∧
    Halted Script.interpreter w.course stumbling.Aloof (.error f) true ∧
    ∀ fuel node b u, Yields (exec Script.interpreter stumbling fuel (.start node)) w' b u →
      b = .ok (.outcome .alreadyRunning) := by
  obtain ⟨steps, w, f, w', u, hrun, hstop, hrunning, -⟩ := stuck_run
  obtain ⟨-, hhalted⟩ := running_after_stop fresh_twoNodes hrun
  obtain ⟨⟨r, hr, hhalted⟩, -, hstart⟩ := hhalted 9 (.error f) w' hstop
  cases r with
  | ok => cases hr
  | error =>
      cases hr
      rw [hrunning] at hhalted
      exact ⟨steps, w, f, w', fresh_twoNodes, hrun, stumbling_aloof, hstop, hhalted,
        fun fuel node b u hb => (hstart fuel node b u hb).mpr hrunning⟩

end Session

end Parley
