import Parley.Proofs.Halting
import Parley.Proofs.Obtaining
import Parley.Proofs.Owning
import Parley.Proofs.Running

/-!
# The list of programs after it was cleared

The runner keeps the list of programs, and its interpreter what was loaded of them.  Clearing
unloads the one and empties the other, but both only if there is an interpreter:

| the runner | clearing |
|---|---|
| holds an interpreter | unloads it, and the list is empty |
| was not set up, or has let go of its interpreter | does nothing, and the list stays |

A list that is empty stays so until another is handed over, whatever the host asks for and its
callbacks do (`exec_keeps_list`): of all requests only building with programs brings some, and
only clearing takes them.  Loading an empty list unloads and nothing else.  So after the first
line no setup and no build loads anything; after the second, a setup loads the whole list.
-/

namespace Parley

/-- Does the request hand over a list of programs? -/
def Request.lists {I : Type} : Request I → Bool
  | .build (some _) => true
  | _ => false

/-- The list of programs is as it was, or empty. -/
def Course.Drops {I : Type} (c c' : Course I) : Prop :=
  c'.programs = c.programs ∨ c'.programs = []

instance {I : Type} : IsPreorder (Course I) Course.Drops where
  refl _ := .inl rfl
  trans _ _ _ := by
    rintro h₁ (h₂ | h₂)
    · exact h₁.imp h₂.trans h₂.trans
    · exact .inr h₂

/-- The world once the interpreter in a slot was unloaded. -/
def World.unloaded {H I L : Type} (w : World H I) (ip : Interpreter I L) (slot : Nat) (core : I) :
    World H I :=
  { w with
    journal := (w.observed ip core .unloaded).journal
    instances := w.instances.modify slot fun i => { i with core := ip.unload i.core } }

namespace Session

open Act
open Course (Drops)

variable {H I L : Type} {ip : Interpreter I L} {react : Host H I} {w₀ w w' u : World H I}

/-! ## What becomes of the list -/

instance : OverlooksDialogue (Drops (I := I)) where
  dialogue hprograms _ := .inl hprograms

/-- Only a list that is handed over can put anything into an empty one. -/
theorem exec_keeps_list {q : Callback → Except Fault Datum → Prop}
    (hreact : ∀ host c, (react host c).Abides (fun r => r.lists = false) (q c)) (fuel : Nat)
    (r : Request I) (hr : r.lists = false) : Keeps (OnCourse Drops) (exec ip react fuel r) := by
  have hallows : AllowsOwning (fun r : Request I => r.lists = false) Drops :=
    { listed := nofun
      emptied := fun _ _ => .inr rfl
      released := fun _ _ => .inl rfl }
  exact exec_keeps_owned hallows hreact fuel r hr

/-! ## Loading an empty list -/

section
variable {slot : Nat} {core : I}

theorem yields_unload_bind (hcore : w.course.cores[slot]? = some core) {α : Type}
    {f : Unit → Act H I α} {r : Except Fault α} :
    Yields (unload ip slot >>= f) w r w' ↔ Yields (f ()) (w.unloaded ip slot core) r w' := by
  have hunloaded : w.unloaded ip slot core = { w.observed ip core .unloaded with
      instances := (w.observed ip core .unloaded).instances.modify slot fun i =>
        { i with core := ip.unload i.core } } := by
    unfold World.unloaded World.observed
    split <;> rfl
  unfold unload
  rw [bind_assoc, yields_observed hcore, hunloaded]
  exact .rfl

theorem yields_reload_of_nil (hprograms : w.programs = []) (hheld : w.course.Holds slot core) :
    Yields (reload ip) w (.ok ())
      ((w.unloaded ip slot core).noted (.programsLoaded 0 0)) := by
  unfold reload
  refine yields_get_bind.mpr ?_
  rw [show w.current = some slot from hheld.1]
  refine (yields_unload_bind hheld.2).mpr (yields_get_bind.mpr ?_)
  rw [show (w.unloaded ip slot core).programs = [] from hprograms]
  rfl

theorem yields_clear (hheld : w.course.Holds slot core) :
    Yields (clearPrograms ip) w (.ok ()) { w.unloaded ip slot core with programs := [] } := by
  unfold clearPrograms
  refine yields_get_bind.mpr ?_
  rw [show w.current = some slot from hheld.1]
  exact (yields_unload_bind hheld.2).mpr rfl

end

theorem yields_clear_of_none (hnone : w.current = none) :
    Yields (clearPrograms ip) w (.ok ()) w := by
  unfold clearPrograms
  refine yields_get_bind.mpr ?_
  rw [hnone]
  rfl

/-! ## Runs -/

/-- Asked to build again or to set up, the runner unloads its interpreter, or makes one and
unloads it.  The list stays empty, and neither counts a program that was loaded. -/
structure LoadsNothing (ip : Interpreter I L) (react : Host H I) (u : World H I) : Prop where
  build : ∀ fuel, ∃ x, Yields (exec ip react (fuel + 1) (.build none)) u (.ok .done) x ∧
    x.programs = [] ∧ x.current = u.current ∧
    x.instances = u.current.elim u.instances fun slot =>
      u.instances.modify slot fun i => { i with core := ip.unload i.core }
  setup : ∀ fuel factory core, factory.or u.factory = some core →
    ∃ x, Yields (exec ip react (fuel + 1) (.setup factory)) u (.ok .done) x ∧
      x.programs = [] ∧ x.current = some u.instances.length ∧
      x.instances = u.instances ++ [{ core := ip.unload core, functions := .standard, loads := 0 }]

theorem yields_exec_only {r : Request I} {act : Act H I Unit}
    (hperform : ∀ fuel invoke, perform ip fuel invoke r = only act) (h : Yields act w (.ok ()) w')
    (fuel : Nat) : Yields (exec ip react (fuel + 1) r) w (.ok .done) w' := by
  refine yields_exec.mpr ⟨fuel, rfl, ?_⟩
  rw [hperform]
  exact yields_bind_pure.mpr ⟨.ok (), h, rfl⟩

theorem loadsNothing_of_nil (hmanned : u.course.Manned) (hprograms : u.programs = []) :
    LoadsNothing ip react u where
  build := by
    intro fuel
    cases hcurrent : u.current with
    | none =>
        refine ⟨u.noted .noInterpreter, yields_exec_only (fun _ _ => rfl) ?_ fuel, hprograms,
          hcurrent, rfl⟩
        show Yields (reload ip) u (.ok ()) _
        unfold reload
        refine yields_get_bind.mpr ?_
        rw [hcurrent]
        rfl
    | some slot =>
        obtain ⟨core, hheld⟩ := hmanned.holds hcurrent
        exact ⟨_, yields_exec_only (fun _ _ => rfl) (yields_reload_of_nil hprograms hheld) fuel,
          hprograms, hcurrent, rfl⟩
  setup := by
    intro fuel factory core hfactory
    obtain ⟨v, hv, hvprograms, hvinstances⟩ : ∃ v : World H I,
        v = ({ u with factory := some core } : World H I).provided ∧ v.programs = [] ∧
          v.instances = u.instances := by
      refine ⟨_, rfl, ?_⟩
      unfold World.provided
      split <;> exact ⟨hprograms, rfl⟩
    have hheld : (v.equipped ip core).course.Holds v.instances.length core :=
      ⟨rfl, World.course_cores.mpr ⟨_, List.getElem?_concat_length, rfl⟩⟩
    have hsetup : ∀ x, Yields (reload ip) (v.equipped ip core) (.ok ()) x →
        Yields (setup ip factory) u (.ok ()) x := by
      intro x hx
      rw [hv] at hx
      exact (yields_setup hfactory).mpr hx
    have hloaded := hsetup _ (yields_reload_of_nil hvprograms hheld)
    refine ⟨_, yields_exec_only (fun _ _ => rfl) hloaded fuel, hvprograms, ?_, ?_⟩
    · show some v.instances.length = _
      rw [hvinstances]
    · show (v.instances ++ [_]).modify v.instances.length _ = _
      rw [hvinstances, List.modify_eq_take_cons_drop (by simp)]
      simp

/-- Wherever a run has led, clearing answers.  Without an interpreter it does nothing.  With one
it unloads that and empties the list; and as long as nobody hands over a list after it, the list
stays empty, and neither building nor setting up loads a program. -/
theorem programs_after_clear {steps : List (Request I × Except Fault Answer)} (h₀ : w₀.Fresh)
    (hrun : Run ip react w₀ steps w) :
    ∃ w', (∀ fuel, Yields (exec ip react (fuel + 1) .clearPrograms) w (.ok .done) w') ∧
      (w.current = none → w' = w) ∧
      (∀ slot, w.current = some slot → w'.programs = [] ∧ w'.instances =
        w.instances.modify slot fun i => { i with core := ip.unload i.core }) ∧
      (w.current ≠ none ∨ w.programs = [] →
        (∀ host c, (react host c).Abides (fun r => r.lists = false) fun _ => True) →
        ∀ more u, Run ip react w' more u → (∀ step ∈ more, step.1.lists = false) →
          u.programs = [] ∧ LoadsNothing ip react u) := by
  have hmanned := hrun.manned h₀
  obtain ⟨w', hclear, hnone, hsome⟩ : ∃ w', Yields (clearPrograms ip) w (.ok ()) w' ∧
      (w.current = none → w' = w) ∧
      ∀ slot, w.current = some slot → w'.programs = [] ∧ w'.instances =
        w.instances.modify slot fun i => { i with core := ip.unload i.core } := by
    cases hcurrent : w.current with
    | none => exact ⟨w, yields_clear_of_none hcurrent, fun _ => rfl, nofun⟩
    | some slot =>
        obtain ⟨core, hheld⟩ := hmanned.holds hcurrent
        refine ⟨_, yields_clear hheld, nofun, ?_⟩
        rintro _ ⟨⟩
        exact ⟨rfl, rfl⟩
  have hanswer : ∀ fuel, Yields (exec ip react (fuel + 1) .clearPrograms) w (.ok .done) w' :=
    yields_exec_only (fun _ _ => rfl) hclear
  refine ⟨w', hanswer, hnone, hsome, fun hempty hreact more u hmore hlists => ?_⟩
  have hprograms : w'.programs = [] := by
    cases hcurrent : w.current with
    | none => exact hnone hcurrent ▸ hempty.resolve_left fun h => h hcurrent
    | some slot => exact (hsome slot hcurrent).1
  have hdrops : Drops w'.course u.course := hmore.keeps (exec_keeps_list hreact) hlists
  have hu : u.programs = [] := hdrops.elim (fun h => Eq.trans h hprograms) id
  exact ⟨hu, loadsNothing_of_nil (((hrun.step (hanswer 0)).append hmore).manned h₀) hu⟩

/-! ## Clearing without an interpreter -/

/-- Every request of a run is answered with nothing, and the interpreters it made have loaded
that many programs. -/
def loadedInVain (loads : List Nat)
    (p : List (Request Script.State × Except Fault Answer) × World Bool Script.State) : Bool :=
  p.1.all (fun step => done step.2) && p.2.instances.map (·.loads) == loads
where
  done : Except Fault Answer → Bool
    | .ok .done => true
    | _ => false

/-- A list that is cleared before the runner is set up, or after it has let go of its
interpreter, is loaded by the next setup all the same. -/
theorem cleared_then_loaded :
    (∃ steps w, twoNodes.Fresh ∧ Run Script.interpreter quiet twoNodes steps w ∧
      steps.map Prod.fst = [.clearPrograms, .setup none] ∧ w.instances.map (·.loads) = [1]) ∧
    ∃ steps w, twoNodes.Fresh ∧ Run Script.interpreter quiet twoNodes steps w ∧
      steps.map Prod.fst = [.setup none, .cleanup, .clearPrograms, .setup none] ∧
      w.instances.map (·.loads) = [1, 1] := by
  have hrun : ∀ (rs : List (Request Script.State)) (loads : List Nat),
      (follow Script.interpreter quiet 9 rs twoNodes).any (loadedInVain loads) = true →
      ∃ steps w, twoNodes.Fresh ∧ Run Script.interpreter quiet twoNodes steps w ∧
        steps.map Prod.fst = rs ∧ w.instances.map (·.loads) = loads := by
    intro rs loads h
    obtain ⟨⟨steps, w⟩, hfollow, hp⟩ := (Option.any_eq_true _ _).mp h
    obtain ⟨-, hloads⟩ := Bool.and_eq_true_iff.mp hp
    exact ⟨steps, w, fresh_twoNodes, run_of_follow hfollow, requests_of_follow hfollow,
      eq_of_beq hloads⟩
  exact ⟨hrun _ [1] (by decide +kernel), hrun _ [1, 1] (by decide +kernel)⟩

/-- With an interpreter at hand, the list can be cleared, and after that the interpreter can be
let go. -/
def clearsAndLetsGo (w : World Bool Script.State) : Bool :=
  w.current.isSome && w.programs.length == 1 &&
    ((exec Script.interpreter quiet 1 .clearPrograms).run.run w).any fun p =>
      ((exec Script.interpreter quiet 9 .cleanup).run.run p.2).any fun q => q.2.current.isNone

/-- The runner is set up with a program, clears the list, and lets go of its interpreter.  What
it is set up with then has nothing loaded. -/
theorem programs_after_clear_of_letting_go : ∃ steps w w' more u, twoNodes.Fresh ∧
    Run Script.interpreter quiet twoNodes steps w ∧ w.programs.length = 1 ∧
    Yields (exec Script.interpreter quiet 1 .clearPrograms) w (.ok .done) w' ∧
    Run Script.interpreter quiet w' more u ∧ u.current = none ∧ u.programs = [] ∧
    LoadsNothing Script.interpreter quiet u := by
  have hfollow : (follow Script.interpreter quiet 9 [.setup none] twoNodes).any
      (fun p => clearsAndLetsGo p.2) = true := by
    decide +kernel
  obtain ⟨steps, w, hrun, hw⟩ := run_of_follow_any hfollow
  unfold clearsAndLetsGo at hw
  rw [Bool.and_eq_true, Bool.and_eq_true] at hw
  obtain ⟨⟨hheld, hlength⟩, hclears⟩ := hw
  obtain ⟨⟨a, w₁⟩, hclear, hlets⟩ := (Option.any_eq_true _ _).mp hclears
  obtain ⟨⟨b, u⟩, hcleanup, hcurrent⟩ := (Option.any_eq_true _ _).mp hlets
  obtain ⟨w', hanswer, -, -, hafter⟩ := programs_after_clear fresh_twoNodes hrun
  obtain ⟨-, rfl⟩ := Yields.unique hclear (hanswer 0)
  have hmore : Run Script.interpreter quiet w₁ [(.cleanup, b)] u := Run.rest.step hcleanup
  obtain ⟨hprograms, hnothing⟩ := hafter (.inl (Option.isSome_iff_ne_none.mp hheld))
    (fun _ _ => trivial) _ u hmore (List.forall_mem_singleton.mpr rfl)
  exact ⟨steps, w, w₁, _, u, fresh_twoNodes, hrun, eq_of_beq hlength, hanswer 0, hmore,
    Option.isNone_iff_eq_none.mp hcurrent, hprograms, hnothing⟩

end Session

end Parley
