import Parley.Interpreter.Rehearsal
import Parley.Proofs.Inheriting
import Parley.Proofs.Mirroring
import Parley.Proofs.Obtaining
import Parley.Proofs.Running

/-!
# What a refusal leaves behind

An interpreter refuses by an error of a dialogue: it does not take the node of a start, it does
not take an answer, or it fails in a pump.  The request then answers with the outcome of that
error.  What it leaves is

| the interpreter refuses | the world afterwards |
|---|---|
| a node, an answer | as it was, but for the interpreter's own state and the log |
| a pump | as the pump left it, but for the log |

A pump begins with nothing shown.  While it goes on scripts write variables and call functions,
and those of the host who hear of it may ask the runner for something, to go on with the dialogue
or to stop it; a refusal does not undo that.  The pump itself calls for nothing that the runner
passes on, neither a notification nor a command (`offstage`).  And where nobody drove the runner
meanwhile (`undriven`) the dialogue runs and nothing is shown, as when the pump began.
-/

namespace Parley

open Outcome (ofClass)

namespace World

variable {H I L : Type}

/-- Only the journal has grown, by no call of the host. -/
def Logged (w w' : World H I) : Prop :=
  ∃ entries, w' = { w with journal := w.journal ++ entries } ∧ ∀ c, Record.called c ∉ entries

/-- The refusal is noted, and so is an error whose outcome is not known. -/
def refused (w : World H I) (n : Note) (f : Fault) : World H I :=
  if ofClass f.cls = .unknown then (w.noted n).noted (.unmapped f) else w.noted n

variable {w w₁ w₂ : World H I}

theorem Logged.refl (w : World H I) : w.Logged w :=
  ⟨[], by rw [List.append_nil], fun _ => List.not_mem_nil⟩

theorem Logged.trans (h₁ : w.Logged w₁) (h₂ : w₁.Logged w₂) : w.Logged w₂ := by
  obtain ⟨es₁, rfl, hes₁⟩ := h₁
  obtain ⟨es₂, rfl, hes₂⟩ := h₂
  refine ⟨es₁ ++ es₂, by rw [List.append_assoc], fun c hc => ?_⟩
  exact (List.mem_append.mp hc).elim (hes₁ c) (hes₂ c)

theorem logged_noted (w : World H I) (n : Note) : w.Logged (w.noted n) :=
  ⟨[.log n], rfl, fun _ hc => nomatch List.mem_singleton.mp hc⟩

theorem logged_refused (w : World H I) (n : Note) (f : Fault) : w.Logged (w.refused n f) := by
  unfold refused
  split
  · exact (logged_noted w n).trans (logged_noted _ _)
  · exact logged_noted w n

theorem logged_observed (w : World H I) (ip : Interpreter I L) (core : I) (c : EngineCall) :
    w.Logged (w.observed ip core c) := by
  unfold observed
  split
  · exact ⟨[.engine c], rfl, fun _ hc => nomatch List.mem_singleton.mp hc⟩
  · exact .refl w

theorem Logged.withCore (h : w.Logged w₁) (slot : Nat) (core : I) :
    (w.withCore slot core).Logged (w₁.withCore slot core) := by
  obtain ⟨es, rfl, hes⟩ := h
  exact ⟨es, rfl, hes⟩

theorem Logged.course (h : w.Logged w₁) : w₁.course = w.course := by
  obtain ⟨es, rfl, -⟩ := h
  rfl

theorem Logged.reception (h : w.Logged w₁) : w₁.reception = w.reception := by
  obtain ⟨es, rfl, hes⟩ := h
  refine reception_eq rfl rfl rfl rfl rfl fun x hx => ?_
  cases x with
  | called c => exact absurd hx (hes c)
  | _ => rfl

end World

namespace Session

open Act

variable {H I L : Type} {ip : Interpreter I L} {react : Host H I}

/-! ## Calls behind the scenes -/

/-- Calling the host for nothing that the runner passes on. -/
def offstage (invoke : Invoke H I) : Invoke H I
  | .sink _ | .command .. | .listener _ (.told _) => endless
  | c => invoke c

theorem serve_offstage (invoke : Invoke H I) (slot : Nat) (a : Ask) :
    serve (offstage invoke) slot a = serve invoke slot a := by
  cases a <;> rfl

/-- A pump calls listeners of the variables and functions, and nothing else. -/
theorem pump_offstage (invoke : Invoke H I) (slot fuel : Nat) (l : L) :
    pump ip (offstage invoke) slot fuel l = pump ip invoke slot fuel l := by
  induction fuel generalizing l with
  | zero => rfl
  | succ fuel ih =>
      unfold pump
      simp only [ih, serve_offstage]

theorem offstage_keeps {R : World H I → World H I → Prop} {invoke : Invoke H I}
    (hinvoke : ∀ c, Keeps R (muted invoke c)) (c : Callback) : Keeps R (offstage invoke c) := by
  cases c with
  | sink | command => exact keeps_endless
  | function handle arguments => exact hinvoke (.function handle arguments)
  | listener l n =>
      cases n with
      | told => exact keeps_endless
      | _ => exact hinvoke (.listener l _)

theorem pump_undriven {slot fuel depth : Nat} {l : L} {core : I} {w w' : World H I}
    {r : Except Fault (List Event)} (hcore : w.course.cores[slot]? = some core)
    (h : Yields (pump ip (undriven ip react depth) slot fuel l) w r w') :
    (∃ core', w'.course = w.course.setCore slot core') ∧ SameReception w w' := by
  constructor
  · obtain ⟨core', -, hcourse⟩ := pump_aloof (undriven_keeps depth) hcore h
    exact ⟨core', hcourse⟩
  · rw [← pump_offstage] at h
    have hcalls : ∀ c, Keeps SameReception (offstage (undriven ip react depth) c) :=
      offstage_keeps (muted_callHost_keeps (execUndriven_keeps_reception depth))
    exact pump_keeps_aside hcalls slot fuel l _ _ _ h

/-- What comes to an end with the runner out of reach comes to the same with it. -/
theorem undriven_mirrors (fuel : Nat) (c : Callback) :
    Mirrors (fun _ _ => True) (undriven ip react fuel c) (calls ip react fuel c) := by
  induction fuel generalizing c with
  | zero =>
      exact callHost_mirrors (fun _ _ => .same keeps_endless) fun _ => Script.abides_true _
  | succ fuel ih =>
      refine callHost_mirrors (fun r _ => ?_) fun _ => Script.abides_true _
      unfold execUndriven
      cases r.drives with
      | true => exact fun _ _ _ _ h => (not_yields_endless h).elim
      | false =>
          exact perform_mirrors (fun _ _ _ _ _ => trivial) (fun c _ => ih c)
            (fun _ _ _ => changed_mirrors_of_listeners (fun _ => rfl) (fun _ _ _ => trivial)
              fun _ => ih _)
            (fun _ _ _ => trivial) fuel fun _ _ _ => ih _

theorem pump_of_undriven {slot fuel depth : Nat} {l : L} {w w' : World H I}
    {r : Except Fault (List Event)}
    (h : Yields (pump ip (undriven ip react depth) slot fuel l) w r w') :
    Yields (pump ip (calls ip react depth) slot fuel l) w r w' :=
  (pump_mirrors (Q := fun _ _ => True) (fun _ _ _ _ _ => trivial)
    (fun c _ => undriven_mirrors depth c)
    (fun _ _ _ => changed_mirrors_of_listeners (fun _ => rfl) (fun _ _ _ => trivial)
      fun _ => undriven_mirrors depth _) slot fuel l w r w' trivial h).1

/-! ## Refused nodes and answers -/

section
variable {invoke : Invoke H I} {fuel : Nat} {w : World H I} {slot : Nat} {core : I} {f : Fault}

theorem yields_conclude_error (hf : f.isA .dialogue = true) :
    Yields (conclude invoke (.error f)) w (.ok (ofClass f.cls))
      (w.refused (.interpreterFailed f) f) := by
  have hconclude : conclude invoke (.error f) = (do
      log (.interpreterFailed f)
      outcomeOf f : Act H I Outcome) := if_pos hf
  rw [hconclude]
  exact yields_modify_bind.mpr (yields_outcomeOf.mpr ⟨rfl, rfl⟩)

theorem yields_start_of_error {node : Datum} (hf : f.isA .dialogue = true)
    (hrunning : w.running = false) (hholds : w.course.Holds slot core)
    (hset : (ip.setNode node core).1 = .error f) :
    Yields (start ip fuel invoke node) w (.ok (ofClass f.cls))
      (((w.observed ip core (.nodeSet node)).withCore slot (ip.setNode node core).2).refused
        (.interpreterFailed f) f) := by
  refine (yields_start hrunning hholds).mpr ?_
  rw [hset]
  exact yields_conclude_error hf

theorem yields_select_of_error {b : Branch} (hf : f.isA .dialogue = true)
    (hholds : w.course.Holds slot core) (hselect : (ip.select b.id core).1 = .error f) :
    Yields (select ip (some { branch := some b })) w (.ok (ofClass f.cls))
      (((w.observed ip core (.selected b.id)).withCore slot (ip.select b.id core).2).refused
        (.optionRejected b.id f) f) := by
  have hcurrent : w.current = some slot := hholds.1
  unfold select
  rw [yields_get_bind, hcurrent]
  refine (yields_observed hholds.2).mpr ?_
  obtain ⟨i, rfl, hinstance⟩ := exists_instance
    (w := w.observed ip core (.selected b.id)) (by rw [World.course_observed]; exact hholds.2)
  refine hinstance.mpr ?_
  dsimp only
  rw [hselect]
  refine yields_modify_bind.mpr ?_
  dsimp only
  rw [if_pos hf]
  exact yields_modify_bind.mpr (yields_outcomeOf.mpr ⟨rfl, rfl⟩)

end

/-! ## Refused pumps -/

/-- Where a pump of the request begins: a `continue` where it was asked, and a `start` once the
interpreter has taken the node and the notification of the start has returned. -/
inductive Arrives (ip : Interpreter I L) (react : Host H I) (fuel : Nat) (w : World H I) :
    Request I → World H I → Prop where
  | continued : Arrives ip react fuel w .continue w
  | started {node : Datum} {slot : Nat} {core : I} {v : World H I} : w.running = false →
      w.course.Holds slot core → (ip.setNode node core).1 = .ok () →
      Yields (notify (calls ip react fuel) .started) (w.entered ip slot core node) (.ok ()) v →
      Arrives ip react fuel w (.start node) v

/-- The request answers as a `continue` asked there does. -/
theorem Arrives.answers {fuel : Nat} {w v w' : World H I} {r : Request I} {o : Outcome}
    (h : Arrives ip react fuel w r v)
    (hanswer : Yields (continueDialogue ip fuel (calls ip react fuel)) v (.ok o) w') :
    Yields (exec ip react (fuel + 1) r) w (.ok (.outcome o)) w' := by
  refine yields_exec.mpr ⟨fuel, rfl, ?_⟩
  cases h with
  | continued => exact yields_bind_pure.mpr ⟨.ok o, hanswer, rfl⟩
  | started hrunning hholds hset hnotify =>
      refine yields_bind_pure.mpr ⟨.ok o, (yields_start hrunning hholds).mpr ?_, rfl⟩
      rw [hset]
      exact yields_bind.mpr (.inl ⟨(), v, hnotify, hanswer⟩)

theorem Arrives.refused {fuel slot : Nat} {core : I} {f : Fault} {w v u : World H I} {r : Request I}
    (h : Arrives ip react fuel w r v) (hf : f.isA .dialogue = true) (hrunning : v.running = true)
    (hholds : v.course.Holds slot core)
    (hpump : Yields (pump ip (calls ip react fuel) slot fuel (ip.begin core)) (v.begun ip core)
      (.error f) u) :
    Yields (exec ip react (fuel + 1) r) w (.ok (.outcome (ofClass f.cls)))
      (u.refused (.interpreterFailed f) f) :=
  h.answers ((yields_continue hrunning hholds).mpr ⟨_, u, hpump, yields_conclude_error hf⟩)

/-- A pump of the interpreter in a slot began from `v` and was refused at `u`, and the request
that had asked for it left `w'`. -/
structure RefusedPump (ip : Interpreter I L) (react : Host H I) (fuel slot : Nat) (core : I)
    (f : Fault) (v u w' : World H I) : Prop where
  /-- it began with nothing shown, and with the course as it was besides -/
  began : (v.begun ip core).course = v.course.cleared
  /-- it called for no notification and for no command by itself -/
  itself : Yields (pump ip (offstage (calls ip react fuel)) slot fuel (ip.begin core))
    (v.begun ip core) (.error f) u
  /-- after it only the log has grown -/
  logged : u.Logged w'
  /-- if nobody drove the runner meanwhile, the dialogue runs, nothing is shown, and nothing was
  told of -/
  alone : Yields (pump ip (undriven ip react fuel) slot fuel (ip.begin core)) (v.begun ip core)
      (.error f) u →
    w'.running = true ∧ w'.line = none ∧ w'.options = [] ∧
      (∃ core', w'.course = v.course.cleared.setCore slot core') ∧
      w'.told = v.told ∧ w'.showings = v.showings ++ [.cleared]

theorem refused_pump {fuel slot : Nat} {core : I} {f : Fault} {v u w' : World H I}
    (hrunning : v.running = true) (hholds : v.course.Holds slot core)
    (hpump : Yields (pump ip (calls ip react fuel) slot fuel (ip.begin core)) (v.begun ip core)
      (.error f) u) (hlogged : u.Logged w') : RefusedPump ip react fuel slot core f v u w' where
  began := World.course_begun v ip core
  itself := by
    rw [pump_offstage]
    exact hpump
  logged := hlogged
  alone := by
    intro hundriven
    have hcore : (v.begun ip core).course.cores[slot]? = some core := by
      rw [World.course_begun]
      exact hholds.2
    obtain ⟨⟨core', hcourse⟩, hsame⟩ := pump_undriven hcore hundriven
    rw [← hlogged.course, World.course_begun] at hcourse
    have hbegun : (v.begun ip core).reception = (v.blank.dealt .pumping).reception :=
      (World.logged_observed _ ip core _).reception
    have hreception := hlogged.reception.trans hsame
    rw [hbegun] at hreception
    have htold : w'.reception.told = _ := congrArg Reception.told hreception
    have hshowings : w'.reception.showings = _ := congrArg Reception.showings hreception
    exact ⟨(congrArg Course.running hcourse).trans hrunning, congrArg Course.line hcourse,
      congrArg Course.options hcourse, ⟨core', hcourse⟩, htold, hshowings⟩

/-- Every error of a dialogue is answered with its outcome, which is a failure.  A start whose
node is refused, and an answer that is refused, leave the world as it was but for the log and the
interpreter's own state.  A pump that is refused, of a `continue` or the first of a start, leaves
it as the pump did: with nothing shown and the dialogue running, unless a callback of that pump
drove the runner. -/
theorem refusals_answered (ip : Interpreter I L) (react : Host H I) (fuel : Nat) {f : Fault}
    (hf : f.isA .dialogue = true) :
    (ofClass f.cls).isError = true ∧
    (∀ w node slot core, w.running = false → w.course.Holds slot core →
      (ip.setNode node core).1 = .error f →
      ∃ w', Yields (exec ip react (fuel + 1) (.start node)) w
          (.ok (.outcome (ofClass f.cls))) w' ∧
        (w.withCore slot (ip.setNode node core).2).Logged w') ∧
    (∀ w b slot core, w.course.Holds slot core → (ip.select b.id core).1 = .error f →
      ∃ w', Yields (exec ip react (fuel + 1) (.select (.given (some { branch := some b })))) w
          (.ok (.outcome (ofClass f.cls))) w' ∧
        (w.withCore slot (ip.select b.id core).2).Logged w') ∧
    ∀ w r v slot core u, Arrives ip react fuel w r v → v.running = true →
      v.course.Holds slot core →
      Yields (pump ip (calls ip react fuel) slot fuel (ip.begin core)) (v.begun ip core)
        (.error f) u →
      ∃ w', Yields (exec ip react (fuel + 1) r) w (.ok (.outcome (ofClass f.cls))) w' ∧
        RefusedPump ip react fuel slot core f v u w' := by
  refine ⟨isError_ofClass, ?_, ?_, ?_⟩
  · intro w node slot core hrunning hholds hset
    refine ⟨_, yields_exec.mpr ⟨fuel, rfl, yields_bind_pure.mpr ⟨.ok (ofClass f.cls),
      yields_start_of_error hf hrunning hholds hset, rfl⟩⟩, ?_⟩
    exact ((World.logged_observed w ip core _).withCore slot _).trans (World.logged_refused _ _ _)
  · intro w b slot core hholds hselect
    have hanswer := yields_select_of_error hf hholds hselect
    refine ⟨_, yields_exec.mpr ⟨fuel, rfl, yields_bind_pure.mpr ⟨_, hanswer, rfl⟩⟩, ?_⟩
    exact ((World.logged_observed w ip core _).withCore slot _).trans (World.logged_refused _ _ _)
  · intro w r v slot core u harrives hrunning hholds hpump
    exact ⟨_, harrives.refused hf hrunning hholds hpump, refused_pump hrunning hholds hpump
      (World.logged_refused u _ f)⟩

/-! ## A detour

A script delivers a line, writes a variable, delivers another line, writes again and goes on in a
node that is missing.  The host goes on with the dialogue as soon as it hears of a write, but once
only. -/

def hasty : Host Bool Script.State
  | true, .listener .. => .request false .continue fun host _ => .finish host (.ok .nothing)
  | host, _ => .finish host (.ok .nothing)

def detour : World Bool Script.State where
  host := true
  sink := .host
  bus := ({} : Bus).subscribe .variableChanged { handle := 0 }
  factory := some {}
  programs := [.dict [(.text "Start", .dict [(.text "steps", .list [
    .tuple [.text "line", .text "a", .text "One."],
    .tuple [.text "set", .text "$a", .boolean (.bool true)],
    .tuple [.text "line", .text "b", .text "Two."],
    .tuple [.text "set", .text "$b", .boolean (.bool true)],
    .tuple [.text "jump", .text "Missing"]])])]]

/-- The next pump is refused by an error of a dialogue; what is shown then is as `p` says. -/
def refusesPump (invoke : Invoke Bool Script.State) (p : Option Line → Bool)
    (w : World Bool Script.State) : Bool :=
  w.running && w.current == some 0 && (w.course.cores[0]?).any fun s =>
    ((pump Script.interpreter invoke 0 8 .begin).run.run (w.begun Script.interpreter s)).any fun x =>
      match x.1 with
      | .ok _ => false
      | .error f => f.isA .dialogue && p x.2.line

theorem exists_of_refusesPump {invoke : Invoke Bool Script.State} {p : Option Line → Bool}
    {w : World Bool Script.State} (h : refusesPump invoke p w = true) :
    ∃ s f u, w.running = true ∧ w.course.Holds 0 s ∧ f.isA .dialogue = true ∧
      Yields (pump Script.interpreter invoke 0 8 (Script.interpreter.begin s))
        (w.begun Script.interpreter s) (.error f) u ∧ p u.line = true := by
  unfold refusesPump at h
  simp only [Bool.and_eq_true, beq_iff_eq, Option.any_eq_true] at h
  obtain ⟨⟨hrunning, hcurrent⟩, s, hs, ⟨x, u⟩, hpump, hx⟩ := h
  cases x with
  | ok => cases hx
  | error f =>
      obtain ⟨hf, hp⟩ := Bool.and_eq_true_iff.mp hx
      exact ⟨s, f, u, hrunning, ⟨hcurrent, hs⟩, hf, hpump, hp⟩

/-- The pump is refused, and a line is shown all the same. -/
theorem refused_pump_shows_line : ∃ steps w s f u w', detour.Fresh ∧
    Run Script.interpreter hasty detour steps w ∧ w.running = true ∧ w.course.Holds 0 s ∧
    f.isA .dialogue = true ∧
    Yields (pump Script.interpreter (calls Script.interpreter hasty 8) 0 8
      (Script.interpreter.begin s)) (w.begun Script.interpreter s) (.error f) u ∧
    Yields (exec Script.interpreter hasty 9 .continue) w (.ok (.outcome (ofClass f.cls))) w' ∧
    w'.line ≠ none := by
  have hfollow : (follow Script.interpreter hasty 9 [.setup none, .start (.text "Start")]
      detour).any (fun p => refusesPump (calls Script.interpreter hasty 8) Option.isSome p.2) =
        true := by
    decide +kernel
  obtain ⟨steps, w, hrun, hw⟩ := run_of_follow_any hfollow
  obtain ⟨s, f, u, hrunning, hholds, hf, hpump, hline⟩ := exists_of_refusesPump hw
  have hlogged := World.logged_refused u (.interpreterFailed f) f
  refine ⟨steps, w, s, f, u, _, ⟨rfl, rfl, rfl, rfl⟩, hrun, hrunning, hholds, hf, hpump,
    Arrives.continued.refused hf hrunning hholds hpump, fun hnone => ?_⟩
  rw [show World.line _ = u.line from congrArg Course.line hlogged.course] at hnone
  cases (congrArg Option.isSome hnone).symm.trans hline

def door : Branch where
  id := .int 0
  line := { id := .text "a" }
  destination := .text "Cellar"

/-- An interpreter that takes no node and no answer. -/
def unwilling : World Unit Rehearsal.State where
  host := ()
  instances := [{ core := {
    setNodes := [.error (.invalidNode (.text "Cellar"))]
    selects := [.error (.invalidNode (.text "Cellar"))] } }]
  current := some 0

/-- Where the host has gone on already, it hears of the second write in a pump that is refused, and
nothing is shown. -/
theorem refusals_answered_of_detour : (∃ steps w s, ∃ f : Fault, ∃ w',
    Run Script.interpreter hasty { detour with host := false } steps w ∧
      w.course.Holds 0 s ∧ f.isA .dialogue = true ∧
      Yields (exec Script.interpreter hasty 9 .continue) w (.ok (.outcome (ofClass f.cls))) w' ∧
      (ofClass f.cls).isError = true ∧ w'.running = true ∧ w'.line = none ∧ w'.options = [] ∧
      w'.told = w.told) ∧
    (∃ w', Yields (exec Rehearsal.interpreter quiet 1 (.start (.text "Cellar"))) unwilling
      (.ok (.outcome .invalidNode)) w' ∧ w'.course.running = false) ∧
    ∃ w', Yields (exec Rehearsal.interpreter quiet 1
      (.select (.given (some { branch := some door })))) unwilling
        (.ok (.outcome .invalidNode)) w' ∧ w'.course.running = false := by
  refine ⟨?_, ?_⟩
  · have hfollow : (follow Script.interpreter hasty 9
        [.setup none, .start (.text "Start"), .continue] { detour with host := false }).any
        (fun p => refusesPump (undriven Script.interpreter hasty 8) Option.isNone p.2) = true := by
      decide +kernel
    obtain ⟨steps, w, hrun, hw⟩ := run_of_follow_any hfollow
    obtain ⟨s, f, u, hrunning, hholds, hf, hpump, -⟩ := exists_of_refusesPump hw
    obtain ⟨hfailure, -, -, hpumps⟩ := refusals_answered Script.interpreter hasty 8 hf
    obtain ⟨w', hanswer, hrefused⟩ := hpumps w .continue w 0 s u .continued hrunning hholds
      (pump_of_undriven hpump)
    obtain ⟨hruns, hline, hoptions, -, htold, -⟩ := hrefused.alone hpump
    exact ⟨steps, w, s, f, w', hrun, hholds, hf, hanswer, hfailure, hruns, hline, hoptions, htold⟩
  · have hf : (Fault.invalidNode (.text "Cellar")).isA .dialogue = true := by decide +kernel
    have houtcome : ofClass (Fault.invalidNode (.text "Cellar")).cls = .invalidNode := by
      decide +kernel
    obtain ⟨-, hstarts, hselects, -⟩ := refusals_answered Rehearsal.interpreter quiet 0 hf
    rw [houtcome] at hstarts hselects
    obtain ⟨w₁, hstart, hlogged₁⟩ := hstarts unwilling (.text "Cellar") 0 _ rfl ⟨rfl, rfl⟩ rfl
    obtain ⟨w₂, hselect, hlogged₂⟩ := hselects unwilling door 0 _ ⟨rfl, rfl⟩ rfl
    exact ⟨⟨w₁, hstart, congrArg Course.running hlogged₁.course⟩,
      ⟨w₂, hselect, congrArg Course.running hlogged₂.course⟩⟩

end Session

end Parley
