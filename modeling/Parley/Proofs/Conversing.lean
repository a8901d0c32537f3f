import Parley.Proofs.Obtaining
import Parley.Proofs.Running

/-!
# Conversations that fail by outcomes only

An interpreter that fails by dialogue faults only (`Interpreter.Dialogic`) should leave a host
with nothing to catch: starting, continuing, answering and stopping always come to an outcome,
and whatever batch they obtain is passed on to its end.  `answered_or_cut` says how far that is
so.

| the batch a request obtains | the request | the batch |
| :-- | :-- | :-- |
| none | an outcome | |
| every command can be served | an outcome | passed on as a whole |
| a command cannot be served | a fault | passed on up to that command |

The last row is the odd one.  Dispatching contains what a handler does wrong, but not
the conversion of the parameters before it, so that a script value of no kind at a command that
has a handler ends the request.  What stood behind the command in the batch is lost.  If the
dialogue's completion is among it, the runner goes on holding the dialogue for running
(`completion_lost_behind_command`).
-/

namespace Parley

/-- In the states `p` the interpreter fails by faults of a dialogue only, and a `stop` of it does
not fail; entering nodes and pumping keep it in such states. -/
structure Interpreter.Dialogic {I L : Type} (ip : Interpreter I L) (p : I → Prop) : Prop where
  setNode : ∀ node core, p core → p (ip.setNode node core).2 ∧
    ∀ f, (ip.setNode node core).1 = .error f → f.isA .dialogue = true
  select : ∀ id core, p core → ∀ f, (ip.select id core).1 = .error f → f.isA .dialogue = true
  stop : ∀ core, p core → ∀ f, (ip.stop core).1 ≠ .error f
  advance : ∀ textOf l core, p core → p (ip.advance textOf l core).2 ∧
    ∀ f, (ip.advance textOf l core).1 = .fail f → f.isA .dialogue = true

/-- Is it a request by which a host converses? -/
def Request.converses {I : Type} : Request I → Bool
  | .start _ | .continue | .stop | .select (.given _) => true
  | _ => false

/-- The world after a batch was passed on: a `stop` ends the dialogue in any case. -/
def Request.leave {H I : Type} (r : Request I) (place : Nat) (w : World H I) : World H I :=
  match r with
  | .stop => w.settled place
  | _ => w

theorem Pumps.dialogue_of_error {I L : Type} {ip : Interpreter I L} {p : I → Prop}
    (hip : ip.Dialogic p) {l : L} {core core' : I} {f : Fault}
    (h : Pumps ip l core (.error f) core') (hcore : p core) : f.isA .dialogue = true := by
  generalize hr : Except.error f = r at h
  induction h with
  | @again textOf l core _ _ _ _ hadvance _ ih =>
      have hnext := (hip.advance textOf l core hcore).1
      rw [hadvance] at hnext
      exact ih hnext hr
  | @ask textOf l core _ _ _ _ _ _ hadvance _ ih =>
      have hnext := (hip.advance textOf l core hcore).1
      rw [hadvance] at hnext
      exact ih hnext hr
  | pause => cases hr
  | @fail textOf l core _ _ hadvance =>
      cases hr
      exact (hip.advance textOf l core hcore).2 f (by rw [hadvance])

namespace Session

open Act

variable {H I L : Type}

/-- How a request of a conversation ends. -/
inductive Conversed (ip : Interpreter I L) (invoke : Invoke H I) (fuel : Nat) (w : World H I)
    (r : Request I) : Except Fault Answer → World H I → Prop where
  /-- with an outcome, no batch being obtained -/
  | still {o : Outcome} {w' : World H I} :
      (∀ events u, ¬ Returns ip invoke fuel w r events u) →
      Conversed ip invoke fuel w r (.ok (.outcome o)) w'
  /-- with an outcome, the batch being passed on, and no completion in it lost -/
  | whole {o : Outcome} {events : List Event} {u u' : World H I} :
      Returns ip invoke fuel w r events u →
      PassesAll invoke u.dealings.length events (u.dealt (.batch events)) u' →
      (events.any Event.completes = true → u'.running = false) →
      Conversed ip invoke fuel w r (.ok (.outcome o)) (r.leave w.dealings.length u')
  /-- with a fault, at a command that cannot be served -/
  | cut {events : List Event} {f : Fault} {u w' : World H I} :
      Returns ip invoke fuel w r events u →
      Delivered invoke u.dealings.length events (.error f) (u.dealt (.batch events)) w' →
      Conversed ip invoke fuel w r (.error f) w'

section
variable {ip : Interpreter I L} {invoke : Invoke H I} {fuel : Nat} {w w' : World H I}

/-! ## What is obtained -/

theorem not_returns {r : Request I} (hpumping : ∀ slot core u, ¬ Pumping ip invoke w r slot core u)
    (hstop : r ≠ .stop) (events : List Event) (u : World H I) :
    ¬ Returns ip invoke fuel w r events u := by
  rintro (⟨hpumping', -⟩ | -)
  · exact hpumping _ _ _ hpumping'
  · exact hstop rfl

theorem Pumping.sound_of_start {node : Datum} {slot : Nat} {core : I} {u : World H I}
    (h : Pumping ip invoke w (.start node) slot core u) : w.running = false ∧
      ∃ core₀, w.course.Holds slot core₀ ∧ (ip.setNode node core₀).1 = .ok () ∧
        core = (ip.setNode node core₀).2 := by
  cases h with
  | started hrunning hholds hnode => exact ⟨hrunning, _, hholds, hnode, rfl⟩

theorem Pumping.unique {r : Request I} {slot slot' : Nat} {core core' : I} {u u' : World H I}
    (h : Pumping ip invoke w r slot core u) (h' : Pumping ip invoke w r slot' core' u') :
    slot = slot' ∧ core = core' ∧ u = u' := by
  cases h with
  | continued _ hholds =>
      cases h' with
      | continued _ hholds' =>
          obtain ⟨rfl, rfl⟩ := hholds.unique hholds'
          exact ⟨rfl, rfl, rfl⟩
  | started _ hholds _ hnotify =>
      cases h' with
      | started _ hholds' _ hnotify' =>
          obtain ⟨rfl, rfl⟩ := hholds.unique hholds'
          obtain ⟨-, rfl⟩ := hnotify.unique hnotify'
          exact ⟨rfl, rfl, rfl⟩

section
variable (hpassive : invoke.Passive) {p : I → Prop} (hip : ip.Dialogic p)
include hpassive

theorem Pumping.course {r : Request I} {slot : Nat} {core : I} {u : World H I}
    (h : Pumping ip invoke w r slot core u) : u.course.cores[slot]? = some core := by
  cases h with
  | continued _ hholds =>
      rw [World.course_begun]
      exact hholds.2
  | started _ hholds _ hnotify =>
      rw [World.course_begun, (notify_passive hpassive hnotify).2, World.course_entered]
      exact (hholds.setCore _).2

include hip

/-- What a pump comes to is an outcome, or a fault of a command in its batch. -/
theorem conversed_of_pumping (hcontained : invoke.Contained) {r : Request I} (hstop : r ≠ .stop)
    {slot : Nat} {core : I} {u : World H I} (hpumping : Pumping ip invoke w r slot core u)
    (hcore : p core) {x : Except Fault (List Event)} {u' : World H I}
    (hpump : Yields (pump ip invoke slot fuel (ip.begin core)) u x u') {y : Except Fault Outcome}
    (h : Yields (conclude invoke x) u' y w') :
    Conversed ip invoke fuel w r (y.map .outcome) w' := by
  have hleave : ∀ v : World H I, r.leave w.dealings.length v = v := by
    intro v
    cases r <;> first | rfl | exact absurd rfl hstop
  obtain ⟨core', hpumps, -⟩ := pump_aloof hpassive.keeps (hpumping.course hpassive) hpump
  cases x with
  | error f =>
      have hf := hpumps.dialogue_of_error hip hcore
      have hy : y = .ok (.ofClass f.cls) := by
        cases (yields_faulted h).1 with
        | outcome => rfl
        | fault hnot => cases hf.symm.trans hnot
      rw [hy]
      refine .still (fun events v hreturns => ?_)
      cases hreturns with
      | pumped hpumping' hpump' =>
          obtain ⟨rfl, rfl, rfl⟩ := hpumping.unique hpumping'
          cases (hpump.unique hpump').1
      | stopped => exact hstop rfl
  | ok events =>
      have hreturns : Returns ip invoke fuel w r events u' := .pumped hpumping hpump
      rcases yields_bind.mp h with ⟨_, v, hpassed, hanswer⟩ | ⟨f, hpassed, rfl⟩
      · have hpure := yields_get_bind.mp hanswer
        obtain ⟨rfl, rfl⟩ := yields_pure.mp hpure
        cases processAll_delivers hpassive hcontained hpassed with
        | whole hchain =>
            have hrunning := (congrArg Course.running (hchain.course hpassive)).trans
              (Course.running_foldl_pass _ _ _)
            have hwhole := Conversed.whole (o := if w'.running then .ok else .complete) hreturns
              hchain fun hcompletes => by
                rw [hcompletes] at hrunning
                exact hrunning.trans (Bool.and_false _)
            rw [hleave] at hwhole
            exact hwhole
      · exact .cut hreturns (processAll_delivers hpassive hcontained hpassed)

/-! ## The requests -/

theorem continue_conversed (hcontained : invoke.Contained) (hsound : w.course.Sound)
    (hp : ∀ slot core, w.course.Holds slot core → p core) {y : Except Fault Outcome}
    (h : Yields (continueDialogue ip fuel invoke) w y w') :
    Conversed ip invoke fuel w .continue (y.map .outcome) w' := by
  cases hrunning : w.running with
  | false =>
      unfold continueDialogue at h
      have h := yields_get_bind.mp h
      rw [if_pos (by simp [hrunning])] at h
      obtain ⟨rfl, rfl⟩ := yields_pure.mp h
      refine .still (not_returns ?_ (by simp))
      rintro slot core u (⟨hrunning', -⟩)
      cases hrunning.symm.trans hrunning'
  | true =>
      obtain ⟨slot, core, hholds⟩ := hsound.exists_holds (hsound.running hrunning)
      obtain ⟨x, u, hpump, hconclude⟩ := (yields_continue hrunning hholds).mp h
      exact conversed_of_pumping hpassive hip hcontained (by simp) (.continued hrunning hholds)
        (hp slot core hholds) hpump hconclude

theorem start_conversed (hcontained : invoke.Contained) (hsound : w.course.Sound)
    (hp : ∀ slot core, w.course.Holds slot core → p core) {node : Datum}
    {y : Except Fault Outcome} (h : Yields (start ip fuel invoke node) w y w') :
    Conversed ip invoke fuel w (.start node) (y.map .outcome) w' := by
  rcases start_cases h with
      ⟨hrunning, rfl, -⟩ | ⟨-, hcurrent, rfl, -⟩ | ⟨-, slot, hcurrent, hnone, -⟩ |
      ⟨hrunning, slot, core, hcurrent, hcore, hcase⟩
  · refine .still (not_returns (fun slot core u hpumping => ?_) (by simp))
    cases hrunning.symm.trans hpumping.sound_of_start.1
  · refine .still (not_returns (fun slot core u hpumping => ?_) (by simp))
    obtain ⟨-, _, hholds, -⟩ := hpumping.sound_of_start
    cases hcurrent.symm.trans hholds.1
  · exact absurd hnone (by simp [hsound.held slot hcurrent])
  · have hholds : w.course.Holds slot core := ⟨hcurrent, hcore⟩
    rcases hcase with ⟨f, hf, hfaulted, -⟩ | ⟨-, hnode, -⟩
    · have hdialogue := (hip.setNode node core (hp slot core hholds)).2 f hf
      have hy : y = .ok (.ofClass f.cls) := by
        cases hfaulted with
        | outcome => rfl
        | fault hnot => cases hdialogue.symm.trans hnot
      rw [hy]
      refine .still (not_returns (fun slot' core' u hpumping => ?_) (by simp))
      obtain ⟨-, core₀, hholds', hnode, -⟩ := hpumping.sound_of_start
      obtain ⟨rfl, rfl⟩ := hholds.unique hholds'
      rw [hf] at hnode
      cases hnode
    · have hstarted := (yields_start hrunning hholds).mp h
      rw [hnode] at hstarted
      rcases yields_bind.mp hstarted with ⟨_, u, hnotify, hcontinue⟩ | ⟨_, hnotify, -⟩
      · have hu : u.course = _ :=
          (notify_passive hpassive hnotify).2.trans (World.course_entered ..)
        have hholds' : u.course.Holds slot (ip.setNode node core).2 := by
          rw [hu]
          exact hholds.setCore _
        have hrunning' : u.running = true := congrArg Course.running hu
        obtain ⟨x, v, hpump, hconclude⟩ := (yields_continue hrunning' hholds').mp hcontinue
        exact conversed_of_pumping hpassive hip hcontained (by simp)
          (.started hrunning hholds hnode hnotify) (hip.setNode node core (hp slot core hholds)).1
          hpump hconclude
      · cases (notify_passive hpassive hnotify).1

omit hpassive in
theorem select_conversed (hsound : w.course.Sound)
    (hp : ∀ slot core, w.course.Holds slot core → p core) {choice : Option Choice}
    {y : Except Fault Outcome} (h : Yields (select ip choice) w y w') :
    Conversed ip invoke fuel w (.select (.given choice)) (y.map .outcome) w' := by
  have hstill : ∀ {o : Outcome}, y = .ok o →
      Conversed ip invoke fuel w (.select (.given choice)) (y.map .outcome) w' := by
    rintro o rfl
    exact .still (not_returns (fun _ _ _ hpumping => by cases hpumping) (by simp))
  rcases select_cases h with
      ⟨-, hy, -⟩ | ⟨-, hy, -⟩ | ⟨hheld, hnone, -⟩ |
      ⟨slot, core, b, hcurrent, hcore, hbranch, -, ⟨-, hy⟩ | ⟨f, hf, hrefused⟩⟩
  · exact hstill hy
  · exact hstill hy
  · exact absurd hnone (hsound.core?_ne_none hheld)
  · exact hstill hy
  · have hdialogue := hip.select b.id core (hp slot core ⟨hcurrent, hcore⟩) f hf
    cases hrefused with
    | outcome => exact hstill rfl
    | fault hnot => cases hdialogue.symm.trans hnot

theorem stop_conversed (hcontained : invoke.Contained) (hsound : w.course.Sound)
    (hp : ∀ slot core, w.course.Holds slot core → p core) {y : Except Fault Outcome}
    (h : Yields (stop ip invoke) w y w') :
    Conversed ip invoke fuel w .stop (y.map .outcome) w' := by
  obtain ⟨-, -, ⟨hcurrent, rfl, -⟩ | ⟨hheld, hnone, -⟩ | ⟨slot, core, hcurrent, hcore, -⟩⟩ :=
    stop_cases h
  · refine .still ?_
    rintro events u (⟨⟨⟩, -⟩ | ⟨hholds, -⟩)
    cases hcurrent.symm.trans hholds.1
  · exact absurd hnone (hsound.core?_ne_none hheld)
  · have hholds : w.course.Holds slot core := ⟨hcurrent, hcore⟩
    cases hevents : (ip.stop core).1 with
    | error f => exact absurd hevents (hip.stop core (hp slot core hholds) f)
    | ok events =>
        have hreturns : Returns ip invoke fuel w .stop events (w.stopping ip slot core) :=
          .stopped hholds hevents
        obtain ⟨x, u, hpassed, ⟨rfl, rfl, rfl⟩ | ⟨f, rfl, rfl, rfl⟩⟩ :=
          (yields_stop hholds hevents).mp h
        · cases processAll_delivers hpassive hcontained hpassed with
          | whole hchain =>
              have hrunning := (congrArg Course.running (hchain.course hpassive)).trans
                (Course.running_foldl_pass _ _ _)
              refine Conversed.whole hreturns hchain fun hcompletes => ?_
              rw [hcompletes] at hrunning
              exact hrunning.trans (Bool.and_false _)
        · exact .cut hreturns (processAll_delivers hpassive hcontained hpassed)

end

/-! ## They come to an end -/

section
variable (hinvoke : ∀ c, c.passes = true → Ends (invoke c))
include hinvoke

theorem conclude_ends (x : Except Fault (List Event)) : Ends (conclude invoke x) := by
  cases x with
  | error f =>
      show Ends (if f.isA .dialogue then do
        log (.interpreterFailed f)
        outcomeOf f
      else throw f)
      split
      · exact .bind (ends_modify _) fun _ => outcomeOf_ends f
      · exact ends_throw f
  | ok events =>
      exact .bind (processAll_ends hinvoke events) fun _ => .bind ends_get fun _ => ends_pure _

variable (hpassive : invoke.Passive) (hsound : w.course.Sound)
include hsound

theorem exists_continue (hpumps : ∀ slot core u, Pumping ip invoke w .continue slot core u →
      ∃ x u', Yields (pump ip invoke slot fuel (ip.begin core)) u x u') :
    ∃ y w', Yields (continueDialogue ip fuel invoke) w y w' := by
  cases hrunning : w.running with
  | false =>
      refine ⟨.ok .notRunning, w, yields_get_bind.mpr ?_⟩
      rw [if_pos (by simp [hrunning])]
      exact yields_pure.mpr ⟨rfl, rfl⟩
  | true =>
      obtain ⟨slot, core, hholds⟩ := hsound.exists_holds (hsound.running hrunning)
      obtain ⟨x, u, hpump⟩ := hpumps slot core _ (.continued hrunning hholds)
      obtain ⟨y, w', hconclude⟩ := conclude_ends hinvoke x u
      exact ⟨y, w', (yields_continue hrunning hholds).mpr ⟨x, u, hpump, hconclude⟩⟩

include hpassive

theorem exists_start {node : Datum}
    (hpumps : ∀ slot core u, Pumping ip invoke w (.start node) slot core u →
      ∃ x u', Yields (pump ip invoke slot fuel (ip.begin core)) u x u') :
    ∃ y w', Yields (start ip fuel invoke node) w y w' := by
  by_cases hrunning : w.running = true
  · refine ⟨.ok .alreadyRunning, w.noted (.startRefused node), yields_get_bind.mpr ?_⟩
    rw [if_pos hrunning]
    exact yields_modify_bind.mpr (yields_pure.mpr ⟨rfl, rfl⟩)
  · cases hcurrent : w.current with
    | none =>
        refine ⟨.ok .notConfigured, w, yields_get_bind.mpr ?_⟩
        rw [if_neg hrunning, hcurrent]
        exact yields_pure.mpr ⟨rfl, rfl⟩
    | some slot =>
        rw [Bool.not_eq_true] at hrunning
        obtain ⟨slot, core, hholds⟩ := hsound.exists_holds (by simp [World.course, hcurrent])
        simp only [yields_start hrunning hholds]
        cases hnode : (ip.setNode node core).1 with
        | error f => exact conclude_ends hinvoke (.error f) _
        | ok _ =>
            obtain ⟨z, u, hnotify⟩ := notify_ends hinvoke .started (w.entered ip slot core node)
            obtain ⟨rfl, hu⟩ := notify_passive hpassive hnotify
            rw [World.course_entered] at hu
            have hholds' : u.course.Holds slot (ip.setNode node core).2 := by
              rw [hu]
              exact hholds.setCore _
            have hrunning' : u.running = true := congrArg Course.running hu
            obtain ⟨x, v, hpump⟩ := hpumps slot _ _ (.started hrunning hholds hnode hnotify)
            obtain ⟨y, w', hconclude⟩ := conclude_ends hinvoke x v
            exact ⟨y, w', yields_bind.mpr (.inl ⟨(), u, hnotify,
              (yields_continue hrunning' hholds').mpr ⟨x, v, hpump, hconclude⟩⟩)⟩

end

end

end Session

/-! ## Rehearsed conversations -/

namespace Rehearsal

/-- The cue is no fault but one of a dialogue. -/
def Cue.civil : Cue → Bool
  | .ok _ => true
  | .error f => f.isA .dialogue

/-- No cue is a fault but of a dialogue, and no cue of a `stop` is one at all. -/
def State.tame (s : State) : Bool :=
  (s.setNodes.all Cue.civil && s.selects.all Cue.civil && s.pumps.all Cue.civil) &&
    s.stops.all Except.isOk

theorem cue_mem {queue : List Cue} {f : Fault} (h : cue queue = .error f) : .error f ∈ queue := by
  cases queue with
  | nil => cases h
  | cons c cs =>
      obtain rfl : c = .error f := h
      exact List.mem_cons_self

theorem dialogue_of_civil {queue : List Cue} (hqueue : queue.all Cue.civil = true) {f : Fault}
    (h : cue queue = .error f) : f.isA .dialogue = true :=
  List.all_eq_true.mp hqueue _ (cue_mem h)

theorem all_tail {queue : List Cue} {p : Cue → Bool} (h : queue.all p = true) :
    queue.tail.all p = true :=
  List.all_eq_true.mpr fun c hc => List.all_eq_true.mp h c (List.mem_of_mem_tail hc)

theorem tame_iff {s : State} : s.tame = true ↔
    ((s.setNodes.all Cue.civil = true ∧ s.selects.all Cue.civil = true) ∧
      s.pumps.all Cue.civil = true) ∧ s.stops.all Except.isOk = true := by
  simp only [State.tame, Bool.and_eq_true]

theorem silent_eq_error {queue : List Cue} {f : Fault} (h : silent queue = .error f) :
    cue queue = .error f := by
  unfold silent at h
  cases hcue : cue queue with
  | ok events =>
      rw [hcue] at h
      cases h
  | error e =>
      rw [hcue] at h
      cases h
      rfl

theorem dialogic : interpreter.Dialogic fun s => s.tame = true where
  setNode node s hs := by
    obtain ⟨⟨⟨hnodes, hselects⟩, hpumps⟩, hstops⟩ := tame_iff.mp hs
    refine ⟨?_, fun f hf => ?_⟩
    · show (setNode node s).2.tame = true
      unfold setNode
      split <;> exact tame_iff.mpr ⟨⟨⟨all_tail hnodes, hselects⟩, hpumps⟩, hstops⟩
    · have hf : (setNode node s).1 = .error f := hf
      unfold setNode at hf
      split at hf
      · cases hf
      · next e he =>
        cases hf
        exact dialogue_of_civil hnodes he
  select id s hs f hf := by
    obtain ⟨⟨⟨-, hselects⟩, -⟩, -⟩ := tame_iff.mp hs
    exact dialogue_of_civil hselects (silent_eq_error hf)
  stop s hs f hf := by
    have hok := List.all_eq_true.mp (tame_iff.mp hs).2 _ (cue_mem hf)
    cases hok
  advance textOf l s hs := by
    obtain ⟨⟨⟨hnodes, hselects⟩, hpumps⟩, hstops⟩ := tame_iff.mp hs
    refine ⟨tame_iff.mpr ⟨⟨⟨hnodes, hselects⟩, all_tail hpumps⟩, hstops⟩, fun f hf => ?_⟩
    refine dialogue_of_civil hpumps ?_
    have hf : (advance textOf l s).1 = .fail f := hf
    unfold advance at hf
    split at hf
    · cases hf
    · next e he =>
      cases hf
      exact he

end Rehearsal

namespace Session

open Act

theorem rehearsed_pump_ends {H : Type} (invoke : Invoke H Rehearsal.State) (slot fuel : Nat)
    (l : Unit) : Ends (pump Rehearsal.interpreter invoke slot (fuel + 1) l) := by
  refine .bind (instance_ends slot) fun i => .bind ends_get fun w =>
    .bind (ends_modify _) fun _ => ?_
  have hadvance : (∃ events, (Rehearsal.interpreter.advance w.textOf l i.core).1 = .pause events) ∨
      ∃ f, (Rehearsal.interpreter.advance w.textOf l i.core).1 = .fail f := by
    show (∃ events, (Rehearsal.advance w.textOf l i.core).1 = .pause events) ∨
      ∃ f, (Rehearsal.advance w.textOf l i.core).1 = .fail f
    unfold Rehearsal.advance
    cases Rehearsal.cue i.core.pumps <;> simp
  rcases hadvance with ⟨events, hevents⟩ | ⟨f, hf⟩
  · rw [hevents]
    exact ends_pure events
  · rw [hf]
    exact ends_throw f

theorem quiet_contained {H I : Type} : (quiet : Host H I).Contained := fun _ _ _ => nofun

theorem quiet_ends {I L : Type} (ip : Interpreter I L) (fuel : Nat) (c : Callback) :
    Ends (calls ip (quiet : Host Unit I) fuel c) :=
  callHost_ends (p := fun _ => False) (q := fun _ => True) (fun _ => False.elim) fun _ => trivial

/-! ## Runs -/

section
variable {ip : Interpreter I L} {react : Host H I} {w₀ w : World H I}
  {steps : List (Request I × Except Fault Answer)}

/-- Asked anywhere in a run, a request of the conversation comes to an end if what it calls does,
and then it has come to an outcome, or a command that cannot be served has cut its batch. -/
theorem answered_or_cut {p : I → Prop} (hip : ip.Dialogic p) (hpassive : react.Passive)
    (hcontained : react.Contained) (h₀ : w₀.Fresh) (hrun : Run ip react w₀ steps w)
    (hp : ∀ slot core, w.course.Holds slot core → p core) {r : Request I}
    (hr : r.converses = true) (fuel : Nat) :
    ((∀ c, c.passes = true → Ends (calls ip react fuel c)) →
      (∀ slot core u, Pumping ip (calls ip react fuel) w r slot core u →
        ∃ x u', Yields (pump ip (calls ip react fuel) slot fuel (ip.begin core)) u x u') →
      ∃ a w', Yields (exec ip react (fuel + 1) r) w a w') ∧
    ∀ a w', Yields (exec ip react (fuel + 1) r) w a w' →
      Conversed ip (calls ip react fuel) fuel w r a w' := by
  have hinvoke : Invoke.Passive (calls ip react fuel) := callHost_passive hpassive fuel
  have hhandlers : Invoke.Contained (calls ip react fuel) := callHost_contained hcontained _
  have hsound : w.course.Sound := hrun.sound hpassive h₀
  have houtcome : ∀ {act : Act H I Outcome}, (∃ y w', Yields act w y w') →
      ∃ a w', Yields (act >>= fun o => pure (Answer.outcome o)) w a w' := by
    rintro act ⟨y, w', h⟩
    exact ⟨_, w', yields_bind_pure.mpr ⟨y, h, rfl⟩⟩
  constructor
  · intro hreturns hpumps
    cases r with
    | start node => exact houtcome (exists_start hreturns hinvoke hsound hpumps)
    | «continue» => exact houtcome (exists_continue hreturns hsound hpumps)
    | stop => exact houtcome (stop_ends hreturns ip w)
    | select pick =>
        cases pick with
        | given choice => exact houtcome (select_ends ip choice w)
        | _ => cases hr
    | _ => cases hr
  · intro a w' h
    cases r with
    | start node =>
        obtain ⟨y, hstart, rfl⟩ := yields_bind_pure.mp h
        exact start_conversed hinvoke hip hhandlers hsound hp hstart
    | «continue» =>
        obtain ⟨y, hcontinue, rfl⟩ := yields_bind_pure.mp h
        exact continue_conversed hinvoke hip hhandlers hsound hp hcontinue
    | stop =>
        obtain ⟨y, hstop, rfl⟩ := yields_bind_pure.mp h
        exact stop_conversed hinvoke hip hhandlers hsound hp hstop
    | select pick =>
        cases pick with
        | given choice =>
            obtain ⟨y, hselect, rfl⟩ := yields_bind_pure.mp h
            exact select_conversed hip hsound hp hselect
        | _ => cases hr
    | _ => cases hr

end

/-! ### On a stage -/

/-- A runner whose interpreter was given its batches beforehand; one command has a handler. -/
def stage (pumps : List Rehearsal.Cue) : World Unit Rehearsal.State where
  host := ()
  sink := .host
  commands := ({} : Commands).register (.text "boom") (some 1)
  factory := some { pumps }

theorem fresh_stage (pumps : List Rehearsal.Cue) : (stage pumps).Fresh := ⟨rfl, rfl, rfl, rfl⟩

theorem tame_of_instances {w : World Unit Rehearsal.State}
    (h : (w.instances.all fun i => i.core.tame) = true) (slot : Nat) (core : Rehearsal.State)
    (hholds : w.course.Holds slot core) : core.tame = true := by
  obtain ⟨i, hi, rfl⟩ := World.course_cores.mp hholds.2
  exact List.all_eq_true.mp h i (List.mem_of_getElem? hi)

/-- A value of no kind stands before the completion. -/
def lopsided : List Event := [.command (.text "boom") [.bare (.int 5)], .completed]

/-- Was a completion among what was dealt? -/
def bringsCompletion : Dealing → Bool
  | .batch events => events.any Event.completes
  | _ => false

/-- A start that fails to convert something, though it obtained a completion, of which no sink
heard; the dialogue goes on running. -/
def loses (w : World Unit Rehearsal.State) : Bool :=
  ((exec Rehearsal.interpreter quiet 2 (.start (.text "Start"))).run.run w).any fun p =>
    match p with
    | (.ok _, _) => false
    | (.error f, w') => f.isA .conversion && w'.dealings.any bringsCompletion && w'.running &&
        w'.told.map Notification.method == ["on_dialogue_start"]

/-- A request of the conversation raises, and the completion in its batch is lost. -/
theorem completion_lost_behind_command : ∃ steps w f w' events,
    Rehearsal.interpreter.Dialogic (fun s => s.tame = true) ∧
      (quiet : Host Unit Rehearsal.State).Passive ∧
      (quiet : Host Unit Rehearsal.State).Contained ∧
      (∀ c, Ends (calls Rehearsal.interpreter (quiet : Host Unit Rehearsal.State) 1 c)) ∧
      (stage [.ok lopsided]).Fresh ∧
      Run Rehearsal.interpreter quiet (stage [.ok lopsided]) steps w ∧
      (∀ slot core, w.course.Holds slot core → core.tame = true) ∧
      Yields (exec Rehearsal.interpreter quiet 2 (.start (.text "Start"))) w (.error f) w' ∧
      f.isA .conversion = true ∧ .batch events ∈ w'.dealings ∧
      events.any Event.completes = true ∧ w'.running = true ∧
      w'.told.map Notification.method = ["on_dialogue_start"] := by
  have hfollow : (follow Rehearsal.interpreter quiet 2 [.setup none] (stage [.ok lopsided])).any
      (fun p => (p.2.instances.all fun i => i.core.tame) && loses p.2) = true := by
    decide +kernel
  obtain ⟨steps, w, hrun, hw⟩ := run_of_follow_any hfollow
  obtain ⟨htame, hloses⟩ := Bool.and_eq_true_iff.mp hw
  obtain ⟨⟨a, w'⟩, hyields, ha⟩ := (Option.any_eq_true _ _).mp hloses
  cases a with
  | ok _ => cases ha
  | error f =>
      simp only [Bool.and_eq_true, beq_iff_eq] at ha
      obtain ⟨⟨⟨hf, hdealings⟩, hrunning⟩, htold⟩ := ha
      obtain ⟨d, hd, hcompletes⟩ := List.any_eq_true.mp hdealings
      cases d with
      | batch events =>
          exact ⟨steps, w, f, w', events, Rehearsal.dialogic, quiet_passive, quiet_contained,
            quiet_ends _ _, fresh_stage _, hrun, tame_of_instances htame, hyields, hf, hd,
            hcompletes, hrunning, htold⟩
      | _ => cases hcompletes

/-- A line, and then the completion behind a command. -/
def balanced : List Rehearsal.Cue :=
  [.ok [.line { id := .text "a" }],
    .ok [.command (.text "boom") [.boolean (.bool true)], .completed]]

/-- Going on completes the dialogue. -/
def closes (w : World Unit Rehearsal.State) : Bool :=
  ((exec Rehearsal.interpreter quiet 2 .continue).run.run w).any fun p =>
    match p with
    | (.ok (.outcome .complete), w') => !w'.running
    | _ => false

/-- With a truth value in place of the value of no kind, the completion is passed on. -/
theorem answered_or_cut_of_parameter : ∃ steps w w',
    Rehearsal.interpreter.Dialogic (fun s => s.tame = true) ∧
      (quiet : Host Unit Rehearsal.State).Passive ∧
      (quiet : Host Unit Rehearsal.State).Contained ∧ (stage balanced).Fresh ∧
      Run Rehearsal.interpreter quiet (stage balanced) steps w ∧
      (∀ slot core, w.course.Holds slot core → core.tame = true) ∧
      Yields (exec Rehearsal.interpreter quiet 2 .continue) w (.ok (.outcome .complete)) w' ∧
      w'.running = false ∧
      Conversed Rehearsal.interpreter (calls Rehearsal.interpreter quiet 1) 1 w .continue
        (.ok (.outcome .complete)) w' := by
  have hfollow : (follow Rehearsal.interpreter quiet 2 [.setup none, .start (.text "Start")]
      (stage balanced)).any
      (fun p => (p.2.instances.all fun i => i.core.tame) && closes p.2) = true := by
    decide +kernel
  obtain ⟨steps, w, hrun, hw⟩ := run_of_follow_any hfollow
  obtain ⟨htame, hcloses⟩ := Bool.and_eq_true_iff.mp hw
  obtain ⟨hends, hconversed⟩ := answered_or_cut Rehearsal.dialogic quiet_passive quiet_contained
    (fresh_stage _) hrun (tame_of_instances htame) (r := .continue) rfl 1
  obtain ⟨a, w', hyields⟩ := hends (fun c _ => quiet_ends _ _ c) fun slot core u _ =>
    rehearsed_pump_ends _ slot 0 _ u
  obtain ⟨⟨a', w''⟩, hyields', ha⟩ := (Option.any_eq_true _ _).mp hcloses
  obtain ⟨rfl, rfl⟩ := hyields.unique hyields'
  split at ha
  · next hp =>
    cases hp
    exact ⟨steps, w, _, Rehearsal.dialogic, quiet_passive, quiet_contained, fresh_stage _, hrun,
      tame_of_instances htame, hyields, by simpa using ha, hconversed _ _ hyields⟩
  · cases ha

end Session

end Parley
