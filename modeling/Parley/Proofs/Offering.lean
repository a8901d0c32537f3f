import Parley.Proofs.Running
import Parley.Proofs.Scripted

/-!
# Options on offer

While an interpreter of scripts waits for an answer, what has the host to choose from?
The state it waits in keeps the branches, the runner keeps the choices it shows, and
nothing but the order of requests ties the two.

A pump clears the choices before the interpreter is asked to go on.  An interpreter
that waits refuses, and the choices stay cleared until a pump succeeds, which takes an
answer first.  So the invariant, `Posed`, has to know of the requests so far whether the
last pump was refused like that.
-/

namespace Parley

/-! ## Pumps of scripts -/

namespace Script

variable {s s' : State} {l : Local} {r : Except Fault (List Event)}

/-- A pump of a state that waits for nothing makes it wait only by a batch that ends with
its branches. -/
theorem pumps_of_not_waiting {events : List Event} (h : Pumps interpreter l s r s')
    (hl : l.Gathers events) (hs : s.waiting = false) :
    s'.waiting = false ∨ ∃ announced, r = .ok (announced ++ [.options s'.branches]) ∧
      ∀ e ∈ announced, e.announces = true := by
  induction h with
  | again hadvance _ ih =>
      have hmoved := moved_of_advance hadvance hl
      rcases hmoved.offers with ⟨-, hwaiting⟩ | ⟨_, hpause, -⟩
      · exact ih hmoved.leads (hwaiting.trans hs)
      · cases hpause
  | ask hadvance _ ih =>
      have hmoved := moved_of_advance hadvance hl
      rcases hmoved.offers with ⟨-, hwaiting⟩ | ⟨_, hpause, -⟩
      · exact ih (hmoved.leads _) (hwaiting.trans hs)
      · cases hpause
  | pause hadvance =>
      rcases (moved_of_advance hadvance hl).offers with
          ⟨-, hwaiting⟩ | ⟨announced, hpause, hannounced, -⟩
      · exact .inl (hwaiting.trans hs)
      · exact .inr ⟨announced, congrArg Except.ok (Move.pause.inj hpause), hannounced⟩
  | fail hadvance =>
      rcases (moved_of_advance hadvance hl).offers with ⟨-, hwaiting⟩ | ⟨_, hpause, -⟩
      · exact .inl (hwaiting.trans hs)
      · cases hpause

theorem pumps_of_waiting (h : Pumps interpreter .begin s r s') (hs : s.waiting = true) :
    r = .error (.raised .continueOnOptions []) ∧ s' = s := by
  have hrefuses : ∀ textOf, interpreter.advance textOf .begin s =
      (.fail (.raised .continueOnOptions []), s) := fun textOf => if_pos hs
  cases h with
  | again hadvance => cases (hrefuses _).symm.trans hadvance
  | ask hadvance => cases (hrefuses _).symm.trans hadvance
  | pause hadvance => cases (hrefuses _).symm.trans hadvance
  | fail hadvance =>
      cases (hrefuses _).symm.trans hadvance
      exact ⟨rfl, rfl⟩

end Script

namespace Course

/-- Passing on a batch that announces and then offers: nothing of it can fail. -/
theorem Passed.of_offer {I : Type} {place : Nat} {c c' : Course I} {announced : List Event}
    {branches : List Branch} {y : Except Fault Unit}
    (h : c.Passed place (announced ++ [.options branches]) y c')
    (hannounced : ∀ e ∈ announced, e.announces = true) :
    y = .ok () ∧ c' = c.pass place (.options branches) := by
  have hkept : ∀ {announced : List Event}, (∀ e ∈ announced, e.announces = true) →
      announced.foldl (pass place) c = c := by
    intro announced hannounced
    induction announced with
    | nil => rfl
    | cons e announced ih =>
        obtain ⟨he, hrest⟩ := List.forall_mem_cons.mp hannounced
        have hpass : c.pass place e = c := by
          cases e <;> first | rfl | cases he
        rw [List.foldl_cons, hpass, ih hrest]
  obtain ⟨rfl, rfl⟩ := h.whole_of_not_command (Event.not_command_concat hannounced nofun)
  rw [List.foldl_append, hkept hannounced]
  exact ⟨rfl, rfl⟩

end Course

namespace Session

open Act

/-! ## Refused pumps -/

/-- Whether the last pump was refused for the options it came upon, after one more
request.  A pump that ends otherwise without success leaves nobody waiting. -/
def refusedAfter {I : Type} (refused : Bool) : Request I × Except Fault Answer → Bool
  | (.continue, .ok (.outcome .continueOnOptions)) => true
  | (.continue, .ok (.outcome .ok)) | (.start _, .ok (.outcome .ok)) => false
  | _ => refused

def lastRefused {I : Type} (steps : List (Request I × Except Fault Answer)) : Bool :=
  steps.foldl refusedAfter false

/-! ## The invariant -/

/-- The branches a state waits with are the last batch the runner obtained, and they are
shown, unless the last pump was refused. -/
structure Offers (s : Script.State) (refused : Bool) (c : Course Script.State) : Prop where
  running : c.running = true
  options : c.options = if refused then [] else s.branches.map fun b => { branch := some b }
  dealt : ∃ before announced after,
    c.dealings = before ++ .batch (announced ++ [.options s.branches]) :: after ∧
      (∀ e ∈ announced, e.announces = true) ∧ (∀ d ∈ after, d = .pumping) ∧
      (refused = true ↔ after ≠ [])

/-- No interpreter is made waiting, and the one held, when it waits, has its branches on
offer. -/
structure Posed (refused : Bool) (c : Course Script.State) : Prop where
  factory : ∀ s, c.factory = some s → s.waiting = false
  held : ∀ slot s, c.Holds slot s → s.waiting = true → Offers s refused c

variable {b : Bool} {c c' : Course Script.State}

theorem Posed.of_same (h : Posed b c) (hfactory : c'.factory = c.factory)
    (hrunning : c'.running = c.running) (hoptions : c'.options = c.options)
    (hdealings : c'.dealings = c.dealings)
    (hheld : ∀ slot s', c'.Holds slot s' → s'.waiting = true →
      ∃ s, c.Holds slot s ∧ s.waiting = true ∧ s.branches = s'.branches) :
    Posed b c' where
  factory := hfactory ▸ h.factory
  held slot s' hholds hwaiting := by
    obtain ⟨s, hs, hwaiting, hbranches⟩ := hheld slot s' hholds hwaiting
    obtain ⟨running, options, dealt⟩ := h.held slot s hs hwaiting
    rw [hbranches] at options dealt
    exact ⟨hrunning.trans running, hoptions.trans options, hdealings ▸ dealt⟩

theorem posed_of_offers {slot : Nat} {s : Script.State}
    (hfactory : ∀ s, c.factory = some s → s.waiting = false) (hholds : c.Holds slot s)
    (hs : s.waiting = true → Offers s b c) : Posed b c where
  factory := hfactory
  held slot' s' hs' := by
    obtain ⟨-, rfl⟩ := hholds.unique hs'
    exact hs

theorem posed_of_holds {slot : Nat} {s : Script.State}
    (hfactory : ∀ s, c.factory = some s → s.waiting = false) (hholds : c.Holds slot s)
    (hs : s.waiting = false) : Posed b c :=
  posed_of_offers hfactory hholds fun hwaiting => by
    rw [hs] at hwaiting
    cases hwaiting

theorem posed_of_none (hfactory : ∀ s, c.factory = some s → s.waiting = false)
    (hnone : c.current = none) : Posed b c where
  factory := hfactory
  held slot s hs := by
    cases hnone.symm.trans hs.1

theorem Posed.of_loads (h : Posed b c) (hloads : c.Loads Script.interpreter c') :
    Posed b c' := by
  have hcurrent : c'.current = c.current := hloads.frame (·.current) fun _ _ _ => rfl
  refine h.of_same (hloads.frame (·.factory) fun _ _ _ => rfl)
    (hloads.frame (·.running) fun _ _ _ => rfl) (hloads.frame (·.options) fun _ _ _ => rfl)
    (hloads.frame (·.dealings) fun _ _ _ => rfl) fun slot s' hs' hwaiting => ?_
  obtain ⟨s, hs, hbare⟩ := Script.exists_of_bare hloads.bare hs'.2
  have hwaiting' : s.bare.waiting = s'.bare.waiting := congrArg (·.waiting) hbare
  have hbranches : s.bare.branches = s'.bare.branches := congrArg (·.branches) hbare
  exact ⟨s, ⟨hcurrent.symm.trans hs'.1, hs⟩, hwaiting'.trans hwaiting, hbranches⟩

/-- A batch with options, obtained by a pump with nothing shown before, is on offer. -/
theorem offers_of_passed {place : Nat} {s : Script.State} {announced : List Event}
    {y : Except Fault Unit} (hrunning : c.running = true) (hoptions : c.options = [])
    (hannounced : ∀ e ∈ announced, e.announces = true)
    (h : (c.deal (.batch (announced ++ [.options s.branches]))).Passed place
      (announced ++ [.options s.branches]) y c') : y = .ok () ∧ Offers s false c' := by
  obtain ⟨rfl, rfl⟩ := h.of_offer hannounced
  refine ⟨rfl, hrunning, ?_, c.dealings, announced, [], rfl, hannounced, by simp, by simp⟩
  show c.options ++ _ = _
  rw [hoptions]
  rfl

theorem Pumped.posed_of_not_waiting {slot : Nat} {s : Script.State} {r : Except Fault Outcome}
    (h : Pumped Script.interpreter slot s c r c') (hholds : c.Holds slot s)
    (hwaiting : s.waiting = false) (hrunning : c.running = true) (hoptions : c.options = [])
    (hfactory : ∀ s, c.factory = some s → s.waiting = false) (hb : r = .ok .ok → b = false) :
    Posed b c' := by
  cases h with
  | failed hpumps _ =>
      rcases Script.pumps_of_not_waiting hpumps rfl hwaiting with hnot | ⟨_, herror, -⟩
      · exact posed_of_holds hfactory (hholds.setCore _) hnot
      · cases herror
  | @passed events s' _ _ hpumps hpassed =>
      have hholds' := hpassed.holds (hholds.setCore s')
      have hfactory' : ∀ s, c'.factory = some s → s.waiting = false := by
        rw [hpassed.frame (·.factory) (Course.factory_pass _)]
        exact hfactory
      rcases Script.pumps_of_not_waiting hpumps rfl hwaiting with
          hnot | ⟨announced, hevents, hannounced⟩
      · exact posed_of_holds hfactory' hholds' hnot
      · cases hevents
        obtain ⟨rfl, hoffers⟩ := offers_of_passed (c := c.setCore slot s') hrunning hoptions
          hannounced hpassed
        rw [hb (by rw [hoffers.running]; rfl)]
        exact posed_of_offers hfactory' hholds' fun _ => hoffers

/-- A refused pump: the choices are cleared and nothing else is changed. -/
theorem Offers.refused {s : Script.State} (h : Offers s b c) :
    Offers s true c.cleared where
  running := h.running
  options := rfl
  dealt := by
    obtain ⟨before, announced, after, hdealings, hannounced, hafter, -⟩ := h.dealt
    refine ⟨before, announced, after ++ [.pumping], ?_, hannounced, ?_, by simp⟩
    · show c.dealings ++ [.pumping] = _
      rw [hdealings, List.append_assoc, List.cons_append]
    · exact List.forall_mem_append.mpr ⟨hafter, List.forall_mem_singleton.mpr rfl⟩

/-! ## Turns -/

theorem Posed.answered {choice : Option Choice} {r : Except Fault Outcome} (hp : Posed b c)
    (h : Answered Script.interpreter c choice r c') : Posed b c' := by
  cases h with
  | unconfigured | empty => exact hp
  | taken hholds _ hok =>
      exact posed_of_holds hp.factory (hholds.setCore _) (Script.select_of_ok hok)
  | refused hholds _ hf =>
      rw [show (Script.interpreter.select _ _).2 = _ from Script.select_of_error hf,
        Course.setCore_same hholds.2]
      exact hp

theorem posed_of_stopped {r : Except Fault Outcome}
    (hfactory : ∀ s, c.factory = some s → s.waiting = false)
    (h : Stopped Script.interpreter c r c') : Posed b c' := by
  have hpassed : ∀ {slot : Nat} {s : Script.State} {events : List Event} {place : Nat}
      {y : Except Fault Unit} {c' : Course Script.State}, c.Holds slot s →
      (((c.deal .stopping).setCore slot (Script.stop s).2).deal (.batch events)).Passed place
        events y c' → (∀ s, c'.factory = some s → s.waiting = false) ∧
          c'.Holds slot (Script.stop s).2 := by
    intro slot s events place y c' hholds hpassed
    constructor
    · rw [hpassed.frame (·.factory) (Course.factory_pass _)]
      exact hfactory
    · exact hpassed.holds (hholds.setCore _)
  cases h with
  | bare hnone => exact posed_of_none hfactory hnone
  | failed _ hf => cases hf
  | cut hholds _ h =>
      obtain ⟨hfactory', hholds'⟩ := hpassed hholds h
      exact posed_of_holds hfactory' hholds' rfl
  | whole hholds _ h =>
      obtain ⟨hfactory', hholds'⟩ := hpassed hholds h
      exact posed_of_holds hfactory' hholds' rfl

theorem refusedAfter_of_not_drives {r : Request Script.State} (hr : r.drives = false)
    (a : Except Fault Answer) : refusedAfter b (r, a) = b := by
  cases r with
  | start | «continue» => cases hr
  | _ => rfl

theorem Pumped.posed {slot : Nat} {s : Script.State} {r : Except Fault Outcome}
    (h : Pumped Script.interpreter slot s c.cleared r c') (hholds : c.Holds slot s)
    (hp : Posed b c) (hrunning : c.running = true) :
    Posed (refusedAfter b ((.continue : Request Script.State), r.map .outcome)) c' := by
  cases hwaiting : s.waiting with
  | false =>
      refine h.posed_of_not_waiting hholds hwaiting hrunning rfl hp.factory ?_
      rintro rfl
      rfl
  | true =>
      have hcleared : c.cleared.Holds slot s := hholds
      have hoffers := hp.held slot s hholds hwaiting
      cases h with
      | failed hpumps hfaulted =>
          obtain ⟨hf, rfl⟩ := Script.pumps_of_waiting hpumps hwaiting
          cases hf
          rw [Course.setCore_same hcleared.2]
          cases hfaulted with
          | outcome => exact posed_of_offers hp.factory hcleared fun _ => hoffers.refused
          | fault hdialogue => cases hdialogue
      | passed hpumps => cases (Script.pumps_of_waiting hpumps hwaiting).1

theorem Turn.posed {r : Request Script.State} {a : Except Fault Answer}
    (h : Turn Script.interpreter c r a c') (hr : r.Supplies fun s => s.waiting = false)
    (hp : Posed b c) : Posed (refusedAfter b (r, a)) c' := by
  have hidle : c.running = false → ∀ {b' : Bool}, Posed b' c := by
    intro hrunning b'
    refine ⟨hp.factory, fun slot s hs hwaiting => ?_⟩
    cases hrunning.symm.trans (hp.held slot s hs hwaiting).running
  cases h with
  | refused | unpicked | unmade => exact hp
  | unconfigured hrunning | idle hrunning => exact hidle hrunning
  | unentered hrunning hholds hf =>
      rw [show (Script.interpreter.setNode _ _).2 = _ from Script.setNode_of_error hf,
        Course.setCore_same hholds.2]
      exact hidle hrunning
  | entered _ hholds hok hpumped =>
      refine hpumped.posed_of_not_waiting (hholds.setCore _) (Script.setNode_of_ok hok) rfl rfl
        hp.factory ?_
      rintro rfl
      rfl
  | pumped hrunning hholds hpumped => exact hpumped.posed hholds hp hrunning
  | answered h => exact hp.answered h
  | stopped h => exact posed_of_stopped hp.factory h
  | let_go => exact posed_of_none hp.factory rfl
  | kept _ h => exact posed_of_stopped hp.factory h
  | cleaned _ h => exact posed_of_none (posed_of_stopped (b := b) hp.factory h).factory rfl
  | @made factory s _ _ hs hloads =>
      have hwaiting : s.waiting = false := by
        cases factory with
        | none => exact hp.factory s hs
        | some core =>
            cases hs
            exact hr
      have hmade : (c.made s).Holds c.cores.length s := ⟨rfl, List.getElem?_concat_length⟩
      have hfactory : ∀ s', (c.made s).factory = some s' → s'.waiting = false := by
        intro s' hs'
        cases hs'
        exact hwaiting
      exact (posed_of_holds hfactory hmade hwaiting).of_loads hloads
  | built hloads | unloaded hloads => exact hp.of_loads hloads
  | aside hdrives =>
      rw [refusedAfter_of_not_drives hdrives]
      exact hp

/-! ## Runs -/

section
variable {H : Type} {react : Host H Script.State} {w₀ w : World H Script.State}
  {steps : List (Request Script.State × Except Fault Answer)}

theorem Run.posed (hreact : react.Passive) (h₀ : w₀.Fresh)
    (hfactory : ∀ s, w₀.factory = some s → s = {})
    (hrun : Run Script.interpreter react w₀ steps w)
    (hsteps : ∀ step ∈ steps, step.1.Supplies fun s => s = {}) :
    Posed (lastRefused steps) w.course := by
  have hnone : w₀.course.current = none := h₀.current
  refine (hrun.invariant hreact h₀
    (fun steps c => (∀ step ∈ steps, step.1.Supplies fun s => s = {}) →
      Posed (lastRefused steps) c) ?_ ?_).2 hsteps
  · intro _
    refine posed_of_none (fun s hs => ?_) hnone
    rw [hfactory s hs]
  · intro steps c r a c' _ hp hturn hsteps
    rw [List.forall_mem_append, List.forall_mem_singleton] at hsteps
    rw [lastRefused, List.foldl_append, List.foldl_cons, List.foldl_nil]
    refine hturn.posed (hsteps.2.mono fun s hs => ?_) (hp hsteps.1)
    rw [hs]

theorem yields_isWaiting {I L : Type} {ip : Interpreter I L} {w w' : World H I} :
    Yields (isWaiting ip) w (.ok true) w' ↔
      (∃ slot core, w.course.Holds slot core ∧ ip.isWaiting core = true) ∧ w' = w := by
  unfold isWaiting ask
  rw [yields_get_bind]
  cases hcurrent : w.current with
  | none =>
      constructor
      · intro h
        cases (yields_pure.mp h).1
      · rintro ⟨⟨slot, _, hholds, -⟩, -⟩
        cases hcurrent.symm.trans hholds.1
  | some slot =>
      constructor
      · intro h
        obtain ⟨x, hinstance, hx⟩ := yields_bind_pure.mp h
        obtain ⟨⟨i, hi, rfl⟩ | ⟨-, rfl⟩, rfl⟩ := yields_instance.mp hinstance
        · refine ⟨⟨slot, i.core, ⟨hcurrent, World.course_cores.mpr ⟨i, hi, rfl⟩⟩, ?_⟩, rfl⟩
          exact (Except.ok.inj hx).symm
        · cases hx
      · rintro ⟨⟨slot', core, ⟨hslot', hcore⟩, hwaiting⟩, rfl⟩
        cases hcurrent.symm.trans hslot'
        obtain ⟨i, hi, rfl⟩ := World.course_cores.mp hcore
        refine yields_bind_pure.mpr ⟨.ok i, yields_instance.mpr ⟨.inl ⟨i, hi, rfl⟩, rfl⟩, ?_⟩
        rw [Except.map, hwaiting]

/-- While the interpreter waits for an answer, its branches are the last batch the runner
obtained.  The current options wrap them, in order, as long as no pump was refused since
the last that succeeded.  After a refused one there are none. -/
theorem options_while_waiting (hreact : react.Passive) (h₀ : w₀.Fresh)
    (hfactory : ∀ s, w₀.factory = some s → s = {})
    (hrun : Run Script.interpreter react w₀ steps w)
    (hsteps : ∀ step ∈ steps, step.1.Supplies fun s => s = {}) {w' : World H Script.State}
    (hwaiting : Yields (isWaiting Script.interpreter) w (.ok true) w') :
    ∃ s before announced after, w.course.core? = some s ∧ s.waiting = true ∧
      w.dealings = before ++ .batch (announced ++ [.options s.branches]) :: after ∧
      (∀ e ∈ announced, e.announces = true) ∧ (∀ d ∈ after, d = .pumping) ∧
      (lastRefused steps = true ↔ after ≠ []) ∧
      w.options =
        if lastRefused steps then [] else s.branches.map fun b => { branch := some b } := by
  obtain ⟨⟨slot, s, hholds, hs⟩, -⟩ := yields_isWaiting.mp hwaiting
  have hposed := Run.posed hreact h₀ hfactory hrun hsteps
  obtain ⟨-, hoptions, before, announced, after, hdealt⟩ := hposed.held slot s hholds hs
  obtain ⟨hdealings, hannounced, hafter, hlast⟩ := hdealt
  exact ⟨s, before, announced, after, hholds.core?, hs, hdealings, hannounced, hafter, hlast,
    hoptions⟩

end

/-! ## A fork

A node that offers two ways, and a host that goes on without choosing one. -/

def fork : World Unit Script.State where
  host := ()
  factory := some {}
  programs := [.dict [
    (.text "Start", .dict [(.text "steps", .list [.tuple [.text "options", .list [
      .tuple [.text "a", .text "Go left", .text "Left", .bool true],
      .tuple [.text "b", .text "Go right", .text "Right", .bool true]]]])]),
    (.text "Left", .dict []), (.text "Right", .dict [])]]

theorem fresh_fork : fork.Fresh := ⟨rfl, rfl, rfl, rfl⟩

/-- Going on was refused, the interpreter waits all the same, and there is no option. -/
def withheld (p : List (Request Script.State × Except Fault Answer) × World Unit Script.State) :
    Bool :=
  match p.1, p.2.course.core? with
  | [(.setup none, _), (.start _, _), (.continue, _)], some s =>
    s.waiting && !s.branches.isEmpty && p.2.options.isEmpty
  | _, _ => false

theorem forked_run : ∃ steps w slot s, Run Script.interpreter quiet fork steps w ∧
    (∀ step ∈ steps, step.1.Supplies fun s => s = {}) ∧ w.course.Holds slot s ∧
    s.waiting = true ∧ s.branches ≠ [] ∧ w.options = [] := by
  have hfollow : (follow Script.interpreter quiet 9
      [.setup none, .start (.text "Start"), .continue] fork).any withheld = true := by
    decide +kernel
  obtain ⟨steps, w, hrun, hw⟩ := run_of_follow_any hfollow
  unfold withheld at hw
  split at hw
  · next s hpath hs =>
      obtain rfl : steps = _ := hpath
      simp only [Bool.and_eq_true, Bool.not_eq_true', List.isEmpty_iff,
        List.isEmpty_eq_false_iff] at hw
      obtain ⟨⟨hwaiting, hbranches⟩, hoptions⟩ := hw
      obtain ⟨slot, hholds⟩ := Course.core?_eq_some.mp hs
      refine ⟨_, w, slot, s, hrun, ?_, hholds, hwaiting, hbranches, hoptions⟩
      simp [Request.Supplies]
  · cases hw

/-- After a refused pump there is nothing to choose from, though the interpreter waits. -/
theorem refused_pump_hides_options : ∃ steps w s,
    (quiet : Host Unit Script.State).Passive ∧ fork.Fresh ∧ fork.factory = some {} ∧
      Run Script.interpreter quiet fork steps w ∧
      (∀ step ∈ steps, step.1.Supplies fun s => s = {}) ∧
      Yields (isWaiting Script.interpreter) w (.ok true) w ∧ w.course.core? = some s ∧
      w.options ≠ s.branches.map fun b => { branch := some b } := by
  obtain ⟨steps, w, slot, s, hrun, hsteps, hholds, hwaiting, hbranches, hoptions⟩ := forked_run
  refine ⟨steps, w, s, quiet_passive, fresh_fork, rfl, hrun, hsteps,
    yields_isWaiting.mpr ⟨⟨slot, s, hholds, hwaiting⟩, rfl⟩, hholds.core?, ?_⟩
  rw [hoptions]
  intro h
  exact hbranches (List.map_eq_nil_iff.mp h.symm)

theorem options_while_waiting_at_fork : ∃ steps w,
    (quiet : Host Unit Script.State).Passive ∧ fork.Fresh ∧
      Run Script.interpreter quiet fork steps w ∧
      (∀ step ∈ steps, step.1.Supplies fun s => s = {}) ∧
      Yields (isWaiting Script.interpreter) w (.ok true) w ∧
      ∃ s before announced after, w.course.core? = some s ∧ s.waiting = true ∧
        w.dealings = before ++ .batch (announced ++ [.options s.branches]) :: after ∧
        (∀ e ∈ announced, e.announces = true) ∧ (∀ d ∈ after, d = .pumping) ∧
        (lastRefused steps = true ↔ after ≠ []) ∧
        w.options =
          if lastRefused steps then [] else s.branches.map fun b => { branch := some b } := by
  obtain ⟨steps, w, slot, s, hrun, hsteps, hholds, hwaiting, -, -⟩ := forked_run
  have hyields : Yields (isWaiting Script.interpreter) w (.ok true) w :=
    yields_isWaiting.mpr ⟨⟨slot, s, hholds, hwaiting⟩, rfl⟩
  have hfactory : ∀ s, fork.factory = some s → s = {} := fun s hs => (Option.some.inj hs).symm
  exact ⟨steps, w, quiet_passive, fresh_fork, hrun, hsteps, hyields,
    options_while_waiting quiet_passive fresh_fork hfactory hrun hsteps hyields⟩

end Session

end Parley
