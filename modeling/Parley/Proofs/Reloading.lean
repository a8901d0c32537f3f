import Parley.Proofs.Run

/-!
# Setting up, and what loading programs leaves alone

Before it loads the programs, setting up makes a text provider if there is none
(`World.provided`) and an interpreter (`World.equipped`).  Neither can fail, so setting up is
loading the programs from the world that the two lead to (`yields_setup`).

Loading a list of programs writes to two parts of the world, the journal and the interpreters,
whatever the loader and the interpreter make of the programs and wherever it breaks off.  A
preorder that overlooks these two (`OverlooksReloading`) is kept by all of it.  So a fact about
any other part of the world that holds before a list is loaded holds after it.

`Course.AllowsLoading` says which interpreters are changed, and how; here nothing is said of
that, but of the parts that are no matter of the course as well.
-/

namespace Parley

/-- A preorder that overlooks the journal and the interpreters. -/
class OverlooksReloading {H I : Type} (R : World H I → World H I → Prop) : Prop
    extends IsPreorder (World H I) R where
  reloading : ∀ (w : World H I) (journal : List Record) (instances : List (Instance I)),
    R w { w with journal, instances }

namespace World

variable {H I L : Type}

/-- The world once there is a text provider. -/
def provided (w : World H I) : World H I :=
  if w.provider.isNone then
    { w with
      journal := w.journal ++ (Lexicon.mergeAll w.lexicons).2.map .log
      provider := some { fallback := (Lexicon.mergeAll w.lexicons).1 }
      lexicons := (Lexicon.mergeAll w.lexicons).1.toList ++ w.lexicons.tail }
  else w

/-- The world once the runner has a new interpreter. -/
def equipped (w : World H I) (ip : Interpreter I L) (core : I) : World H I :=
  { w with
    instances := w.instances ++ [{ core, functions := .standard }]
    current := some w.instances.length
    running := false
    dealings := w.dealings ++ [.made]
    journal := w.journal ++ [.log (.interpreterReady (ip.typeName core))] }

end World

namespace Session

open Act

/-! ## Setting up -/

section
variable {H I L : Type} {w w' : World H I} {r : Except Fault Unit}

theorem yields_logs {notes : List Note} :
    Yields (notes.forM log) w r w' ↔
      r = .ok () ∧ w' = { w with journal := w.journal ++ notes.map .log } := by
  induction notes generalizing w with
  | nil =>
      rw [List.map_nil, List.append_nil]
      exact yields_pure
  | cons n notes ih =>
      rw [List.map_cons, List.append_cons]
      exact ih

theorem yields_ensureProvider : Yields ensureProvider w r w' ↔ r = .ok () ∧ w' = w.provided := by
  unfold ensureProvider World.provided
  rw [yields_get_bind]
  cases w.provider.isNone with
  | false => exact yields_pure
  | true =>
      constructor
      · intro h
        rcases yields_bind.mp h with ⟨_, w₁, hlogs, hmodify⟩ | ⟨f, hlogs, -⟩
        · obtain ⟨-, rfl⟩ := yields_logs.mp hlogs
          exact yields_modify.mp hmodify
        · cases (yields_logs.mp hlogs).1
      · rintro ⟨rfl, rfl⟩
        exact yields_bind.mpr (.inl ⟨(), _, yields_logs.mpr ⟨rfl, rfl⟩, rfl⟩)

theorem yields_setup {ip : Interpreter I L} {factory : Option I} {core : I}
    (hfactory : factory.or w.factory = some core) :
    Yields (setup ip factory) w r w' ↔
      Yields (reload ip) (({ w with factory := some core } : World H I).provided.equipped ip core)
        r w' := by
  have hmake : ∀ u : World H I, u.factory = some core → (Yields (setup ip none) u r w' ↔
      Yields (reload ip) (u.provided.equipped ip core) r w') := by
    intro u hu
    refine yields_get_bind.trans ?_
    rw [hu]
    constructor
    · intro h
      rcases yields_bind.mp h with ⟨_, w₁, hensure, hrest⟩ | ⟨f, hensure, -⟩
      · obtain ⟨-, rfl⟩ := yields_ensureProvider.mp hensure
        exact hrest
      · cases (yields_ensureProvider.mp hensure).1
    · intro h
      exact yields_bind.mpr (.inl ⟨(), _, yields_ensureProvider.mpr ⟨rfl, rfl⟩, h⟩)
  cases factory with
  | none =>
      have hsame : ({ w with factory := some core } : World H I) = w := by
        rw [← show w.factory = some core from hfactory]
      rw [hsame]
      exact hmake w hfactory
  | some core' =>
      cases hfactory
      exact hmake { w with factory := some core } rfl

end

/-! ## Loading -/

variable {H I L : Type} {R : World H I → World H I → Prop} [OverlooksReloading R]

theorem keeps_journal (r : Record) : Keeps R (record r : Act H I Unit) :=
  keeps_modify_of fun w => OverlooksReloading.reloading w _ w.instances

theorem keeps_instances (slot : Nat) (f : Instance I → Instance I) :
    Keeps R (modifyInstance slot f : Act H I Unit) :=
  keeps_modify_of fun w => OverlooksReloading.reloading w w.journal _

theorem observe_keeps_rest (ip : Interpreter I L) (slot : Nat) (c : EngineCall) :
    Keeps R (observe ip slot c : Act H I Unit) := by
  refine .bind (keeps_instance slot) ?_
  intro i
  split
  · exact keeps_journal _
  · exact keeps_pure _

theorem prepare_keeps_rest (p : Program) : Keeps R (prepare p : Act H I Program) := by
  refine .bind keeps_get ?_
  intro w
  split
  · exact keeps_pure _
  · exact .bind (keeps_journal _) fun _ => keeps_of _

theorem addProgram_keeps_rest (ip : Interpreter I L) (p : Program) :
    Keeps R (addProgram ip p : Act H I Unit) := by
  refine .bind keeps_held fun slot => .bind (keeps_instance slot) fun i => ?_
  exact .bind (keeps_instances _ _) fun _ => .bind (keeps_of _) fun _ =>
    .bind (keeps_instances _ _) fun _ => observe_keeps_rest ip slot _

theorem loadOne_keeps_rest (ip : Interpreter I L) (p : Program) (index : Nat) :
    Keeps R (loadOne ip p index : Act H I Nat) := by
  have hskip : ∀ (f : Fault) (shown : Program), Keeps R (if isLoadFault f then do
      log (.loadFailed f index shown)
      return 0
    else throw f : Act H I Nat) := by
    intro f shown
    split
    · exact .bind (keeps_journal _) fun _ => keeps_pure _
    · exact keeps_throw _
  refine .bind (prepare_keeps_rest p).attempt ?_
  intro ready
  cases ready with
  | error f => exact hskip f p
  | ok ready =>
      refine .bind (addProgram_keeps_rest ip ready).attempt ?_
      intro loaded
      cases loaded with
      | error f => exact hskip f ready
      | ok _ => exact keeps_pure _

theorem unload_keeps_rest (ip : Interpreter I L) (slot : Nat) :
    Keeps R (unload ip slot : Act H I Unit) :=
  .bind (observe_keeps_rest ip slot _) fun _ => keeps_instances _ _

/-- Loading the list of programs keeps whatever overlooks the journal and the interpreters. -/
theorem reload_keeps_rest (ip : Interpreter I L) : Keeps R (reload ip : Act H I Unit) := by
  refine .bind keeps_get ?_
  intro w
  split
  · exact keeps_journal _
  · exact .bind (unload_keeps_rest ip _) fun _ => .bind keeps_get fun _ =>
      .bind (keeps_mapM (fun _ => loadOne_keeps_rest ip _ _) _) fun _ => keeps_journal _

end Session

end Parley
