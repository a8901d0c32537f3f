import Parley.Session
import Parley.Proofs.Act
import Mathlib.Order.Defs.Unbundled

/-!
# The course of a dialogue and the stock of variables

The runner's part of a world is its `Course`: whether a dialogue runs, the states
of the interpreters, the current line and options, the dealings.  The variables' part
is its `Stock`: what is stored, what was announced, and what decides over a write.  The
sink's part is its `Reception`: what the host's sink was told.  Most requests touch none
of them, but nearly all of them may call the host, and a host may ask for anything.

`Keeps R act` says that the worlds before and after `act` are related by `R`,
whatever the result.  For a preorder `R` this goes through everything made of parts
that keep it, contained faults included.  So there is one lemma for each operation
outside the runner, and each says: it keeps `R` if calling the host does.  `R` may
look at these parts only (`Overlooks`), and what writes variables asks that `R` admit a
change that is announced (`AllowsWriting`).

* `OnCourse R` looks at the course alone.  With `R` equality the course is left alone,
  which is what a host that does not drive the runner amounts to; other preorders are
  the laws of a host that does.
* `OnStock S` looks at the stock alone.
* `SameReception` looks at the reception alone.  A call of the sink changes it, so that of
  the three this one is not kept by calling the host (`OverlooksCalls`).
-/

namespace Parley

/-- The runner's part of a world.  Of an interpreter it has the state only; the
functions scripts can call are no part of the course. -/
structure Course (I : Type) where
  running : Bool
  current : Option Nat
  cores : List I
  line : Option Line
  options : List Choice
  programs : List Program
  loader : Option Loader
  factory : Option I
  dealings : List Dealing

def World.course {H I : Type} (w : World H I) : Course I where
  running := w.running
  current := w.current
  cores := w.instances.map (·.core)
  line := w.line
  options := w.options
  programs := w.programs
  loader := w.loader
  factory := w.factory
  dealings := w.dealings

/-! ## The variables' part -/

/-- A change that the store can make is one under a text. -/
def Notice.Named : Notice → Prop
  | .variableChanged name _ => ∃ s, name = .text s
  | _ => True

/-- The table after what a notice of the store tells. -/
def Notice.play : Notice → Keyed Datum Datum → Keyed Datum Datum
  | .variableChanged name value, t => t.insert name value
  | .storeCleared, _ => {}
  | _, t => t

/-- The variables' part of a world: what is stored and what the store published, with
what a write goes by. -/
structure Stock where
  settings : Settings
  writeStub : Option WriteResult
  store : Keyed Datum Datum
  announced : List Notice

def World.stock {H I : Type} (w : World H I) : Stock where
  settings := w.settings
  writeStub := w.writeStub
  store := w.store
  announced := w.announced

/-- The store changes by what a notice tells, and announces it. -/
def Stock.change (s : Stock) (n : Notice) : Stock :=
  { s with store := n.play s.store, announced := s.announced ++ [n] }

/-- The world once the change is announced, before anybody is told of it. -/
def World.tell {H I : Type} (w : World H I) (n : Notice) : World H I :=
  { w with store := n.play w.store, announced := w.announced ++ [n] }

/-! ## The sink's part -/

/-- The notification that the record says the host's sink was told. -/
def Record.notification? : Record → Option Notification
  | .called (.sink n) => some n
  | _ => none

/-- The sink's part of a world: where notifications go and whether the store's go to the bus, what
the host's sink was told, what the runner showed and what the bus carried. -/
structure Reception where
  sink : SinkKind
  announces : Bool
  told : List Notification
  showings : List Showing
  published : List Notice

def World.reception {H I : Type} (w : World H I) : Reception where
  sink := w.sink
  announces := w.announces
  told := w.journal.filterMap Record.notification?
  showings := w.showings
  published := w.published

namespace Course

variable {I L : Type}

/-- Change the state of the interpreter in a slot. -/
def setCore (c : Course I) (slot : Nat) (core : I) : Course I :=
  { c with cores := c.cores.set slot core }

/-- The state of the interpreter the runner holds. -/
def core? (c : Course I) : Option I := c.current.bind fun slot => c.cores[slot]?

/-- `R` relates the courses before and after a part of loading programs. -/
structure AllowsLoading (ip : Interpreter I L) (R : Course I → Course I → Prop) : Prop where
  load : ∀ c slot core p, c.cores[slot]? = some core → R c (c.setCore slot (ip.load p core).2)
  unload : ∀ c slot, R c { c with cores := c.cores.modify slot ip.unload }
  programs : ∀ c ps, R c { c with programs := ps }

end Course

namespace World

variable {H I : Type} {w : World H I}

theorem course_cores {slot : Nat} {core : I} :
    w.course.cores[slot]? = some core ↔ ∃ i, w.instances[slot]? = some i ∧ i.core = core := by
  simp [course]

theorem course_modify (w : World H I) (slot : Nat) (f : Instance I → Instance I) (g : I → I)
    (hfg : ∀ i, (f i).core = g i.core) :
    ({ w with instances := w.instances.modify slot f } : World H I).course =
      { w.course with cores := w.course.cores.modify slot g } := by
  have hcores : (w.instances.modify slot f).map (·.core) =
      (w.instances.map (·.core)).modify slot g := by
    apply List.ext_getElem?
    intro n
    simp only [List.getElem?_map, List.getElem?_modify]
    split <;> cases w.instances[n]? <;> simp [hfg]
  simp [course, hcores]

theorem reception_eq {w' : World H I} {xs : List Record} (hsink : w'.sink = w.sink)
    (hannounces : w'.announces = w.announces) (hshowings : w'.showings = w.showings)
    (hpublished : w'.published = w.published) (hjournal : w'.journal = w.journal ++ xs)
    (hxs : ∀ x ∈ xs, x.notification? = none) : w'.reception = w.reception := by
  unfold reception
  rw [hsink, hannounces, hshowings, hpublished, hjournal, List.filterMap_append,
    List.filterMap_eq_nil_iff.mpr hxs, List.append_nil]

end World

/-- Is it a request to the runner that may change the course? -/
def Request.drives {I : Type} : Request I → Bool
  | .setup _ | .cleanup | .build _ | .clearPrograms | .start _ | .continue | .stop | .select _ =>
    true
  | _ => false

/-- Is it a request by which a batch of events may be passed on? -/
def Request.passes {I : Type} : Request I → Bool
  | .cleanup | .start _ | .continue | .stop => true
  | _ => false

/-! ## Relations of worlds -/

section
variable {H I L : Type}

/-- The courses are related. -/
def OnCourse (R : Course I → Course I → Prop) (w w' : World H I) : Prop := R w.course w'.course

/-- The stocks are related. -/
def OnStock (S : Stock → Stock → Prop) (w w' : World H I) : Prop := S w.stock w'.stock

/-- The receptions are the same but for what the bus carried. -/
def SameReception (w w' : World H I) : Prop :=
  w'.reception = { w.reception with published := w'.published }

/-- A preorder that overlooks what belongs neither to the course nor to the stock nor to the
reception. -/
class Overlooks (R : World H I → World H I → Prop) : Prop extends IsPreorder (World H I) R where
  same : ∀ {w w' : World H I}, w'.course = w.course → w'.stock = w.stock →
    w'.reception = w.reception → R w w'

/-- It overlooks as well what the runner does besides showing lines and options. -/
class OverlooksRunner (R : World H I → World H I → Prop) : Prop extends Overlooks R where
  runner : ∀ {w w' : World H I}, w'.line = w.line → w'.options = w.options →
    w'.stock = w.stock → w'.reception = w.reception → R w w'

/-- It overlooks all of the course but the programs and which interpreter the runner holds. -/
class OverlooksTalk (R : World H I → World H I → Prop) : Prop extends Overlooks R where
  talk : ∀ {w w' : World H I}, w'.programs = w.programs → w'.current = w.current →
    w'.stock = w.stock → w'.reception = w.reception → R w w'

/-- It overlooks all of the course. -/
class OverlooksCourse (R : World H I → World H I → Prop) : Prop
    extends IsPreorder (World H I) R where
  besides : ∀ {w w' : World H I}, w'.stock = w.stock → w'.reception = w.reception → R w w'

/-- It overlooks the reception as well, so that calling the host is nothing by itself. -/
class OverlooksCalls (R : World H I → World H I → Prop) : Prop extends Overlooks R where
  called : ∀ (w : World H I) (c : Callback), R w { w with journal := w.journal ++ [.called c] }

/-- It overlooks what the runner shows. -/
class OverlooksShowings (R : World H I → World H I → Prop) : Prop where
  showing : ∀ (w : World H I) (s : Showing), R w { w with showings := w.showings ++ [s] }

/-- It overlooks what the bus carries. -/
class OverlooksBus (R : World H I → World H I → Prop) : Prop where
  published : ∀ (w : World H I) (n : Notice), R w { w with published := w.published ++ [n] }

/-- The relation holds where the variables change and the change is announced. -/
class AllowsWriting (R : World H I → World H I → Prop) : Prop where
  change : ∀ {w w' : World H I} (n : Notice), n.Named → w'.course = w.course →
    w'.stock = w.stock.change n → w'.reception = w.reception → R w w'

/-- The relation holds where a part of loading programs was done. -/
structure AllowsLoading (ip : Interpreter I L) (R : World H I → World H I → Prop) : Prop where
  load : ∀ {w w' : World H I} {slot : Nat} {core : I} (p : Program),
    w.course.cores[slot]? = some core → w'.course = w.course.setCore slot (ip.load p core).2 →
    w'.stock = w.stock → w'.reception = w.reception → R w w'
  unload : ∀ {w w' : World H I} (slot : Nat),
    w'.course = { w.course with cores := w.course.cores.modify slot ip.unload } →
    w'.stock = w.stock → w'.reception = w.reception → R w w'
  programs : ∀ {w w' : World H I} (ps : List Program),
    w'.course = { w.course with programs := ps } → w'.stock = w.stock →
    w'.reception = w.reception → R w w'

theorem OverlooksRunner.allowsLoading (ip : Interpreter I L) {R : World H I → World H I → Prop}
    [OverlooksRunner R] : AllowsLoading ip R where
  load _ _ hcourse :=
    OverlooksRunner.runner (congrArg Course.line hcourse) (congrArg Course.options hcourse)
  unload _ hcourse :=
    OverlooksRunner.runner (congrArg Course.line hcourse) (congrArg Course.options hcourse)
  programs _ hcourse :=
    OverlooksRunner.runner (congrArg Course.line hcourse) (congrArg Course.options hcourse)

theorem Course.AllowsLoading.onCourse {ip : Interpreter I L} {R : Course I → Course I → Prop}
    (h : Course.AllowsLoading ip R) :
    Parley.AllowsLoading ip (OnCourse R : World H I → World H I → Prop) where
  load := by
    intro w w' slot core p hcore hcourse _ _
    unfold OnCourse
    rw [hcourse]
    exact h.load _ slot core p hcore
  unload := by
    intro w w' slot hcourse _ _
    unfold OnCourse
    rw [hcourse]
    exact h.unload _ slot
  programs := by
    intro w w' ps hcourse _ _
    unfold OnCourse
    rw [hcourse]
    exact h.programs _ ps

instance (R : Course I → Course I → Prop) [IsPreorder (Course I) R] :
    OverlooksCalls (OnCourse R : World H I → World H I → Prop) where
  refl _ := refl_of R _
  trans _ _ _ := trans_of R
  same := by
    intro w w' hcourse _ _
    unfold OnCourse
    rw [hcourse]
    exact refl_of R _
  called w _ := refl_of R w.course

instance (R : Course I → Course I → Prop) [IsPreorder (Course I) R] :
    OverlooksShowings (OnCourse R : World H I → World H I → Prop) where
  showing w _ := refl_of R w.course

instance (R : Course I → Course I → Prop) [IsPreorder (Course I) R] :
    OverlooksBus (OnCourse R : World H I → World H I → Prop) where
  published w _ := refl_of R w.course

instance (R : Course I → Course I → Prop) [IsPreorder (Course I) R] :
    AllowsWriting (OnCourse R : World H I → World H I → Prop) where
  change := by
    intro w w' _ _ hcourse _ _
    unfold OnCourse
    rw [hcourse]
    exact refl_of R _

instance (S : Stock → Stock → Prop) [IsPreorder Stock S] :
    OverlooksCalls (OnStock S : World H I → World H I → Prop) where
  refl _ := refl_of S _
  trans _ _ _ := trans_of S
  same := by
    intro w w' _ hstock _
    unfold OnStock
    rw [hstock]
    exact refl_of S _
  called w _ := refl_of S w.stock

instance (R : World H I → World H I → Prop) [OverlooksCourse R] : OverlooksRunner R where
  same _ := OverlooksCourse.besides
  runner _ _ := OverlooksCourse.besides

instance (R : World H I → World H I → Prop) [OverlooksCourse R] : OverlooksTalk R where
  talk _ _ := OverlooksCourse.besides

instance (S : Stock → Stock → Prop) [IsPreorder Stock S] :
    OverlooksCourse (OnStock S : World H I → World H I → Prop) where
  refl _ := refl_of S _
  trans _ _ _ := trans_of S
  besides := by
    intro w w' hstock _
    unfold OnStock
    rw [hstock]
    exact refl_of S _

instance (S : Stock → Stock → Prop) [IsPreorder Stock S] :
    OverlooksShowings (OnStock S : World H I → World H I → Prop) where
  showing w _ := refl_of S w.stock

instance (S : Stock → Stock → Prop) [IsPreorder Stock S] :
    OverlooksBus (OnStock S : World H I → World H I → Prop) where
  published w _ := refl_of S w.stock

theorem sameReception_of_eq {w w' : World H I} (h : w'.reception = w.reception) :
    SameReception w w' := by
  have hpublished : w'.published = w.published := congrArg Reception.published h
  unfold SameReception
  rw [hpublished]
  exact h

instance : OverlooksRunner (SameReception : World H I → World H I → Prop) where
  refl _ := rfl
  trans w₁ w₂ w₃ := by
    intro h₁ h₂
    unfold SameReception at h₁ h₂ ⊢
    rw [h₂, h₁]
  same := fun _ _ hreception => sameReception_of_eq hreception
  runner := fun _ _ _ hreception => sameReception_of_eq hreception

instance : OverlooksBus (SameReception : World H I → World H I → Prop) where
  published _ _ := rfl

instance : AllowsWriting (SameReception : World H I → World H I → Prop) where
  change := fun _ _ _ _ hreception => sameReception_of_eq hreception

end

namespace Act

variable {H I α β : Type} {R : World H I → World H I → Prop}

/-- The worlds before and after are related. -/
def Keeps (R : World H I → World H I → Prop) (act : Act H I α) : Prop :=
  ∀ w r w', Yields act w r w' → R w w'

/-! ## Composed operations -/

theorem Keeps.mono {S : World H I → World H I → Prop} {act : Act H I α} (h : Keeps R act)
    (hRS : ∀ w w', R w w' → S w w') : Keeps S act :=
  fun w r w' hact => hRS _ _ (h w r w' hact)

theorem keeps_modify_of {f : World H I → World H I} (hf : ∀ w, R w (f w)) :
    Keeps R (modify f : Act H I PUnit) := by
  intro w r w' h
  obtain ⟨-, rfl⟩ := yields_modify.mp h
  exact hf w

theorem Keeps.attempt {act : Act H I α} (hact : Keeps R act) : Keeps R (Act.attempt act) := by
  intro w r w' h
  obtain ⟨a, -, h⟩ := yields_attempt.mp h
  exact hact w a w' h

theorem Keeps.discard {act : Act H I α} (hact : Keeps R act) :
    Keeps R (Functor.discard act : Act H I PUnit) := by
  intro w r w' h
  obtain ⟨x, h, -⟩ := yields_discard.mp h
  exact hact w x w' h

/-! ## The interpreters -/

theorem yields_instance {slot : Nat} {w w' : World H I} {r : Except Fault (Instance I)} :
    Yields (instance? slot) w r w' ↔
      ((∃ i, w.instances[slot]? = some i ∧ r = .ok i) ∨
        w.instances[slot]? = none ∧ r = .error (.accident .noAttribute)) ∧ w' = w := by
  unfold instance?
  rw [yields_get_bind]
  cases w.instances[slot]? with
  | none => simp [yields_throw]
  | some i => simp [yields_pure]

theorem yields_held {w w' : World H I} {r : Except Fault Nat} :
    Yields held w r w' ↔
      ((∃ slot, w.current = some slot ∧ r = .ok slot) ∨
        w.current = none ∧ r = .error (.accident .noAttribute)) ∧ w' = w := by
  unfold held
  rw [yields_get_bind]
  cases w.current with
  | none => simp [yields_throw]
  | some slot => simp [yields_pure]

theorem yields_setCore {slot : Nat} {core : I} {w w' : World H I} {r : Except Fault Unit} :
    Yields (setCore slot core) w r w' → r = .ok () ∧ w'.course = w.course.setCore slot core ∧
      w'.stock = w.stock ∧ w'.reception = w.reception := by
  intro h
  obtain ⟨rfl, rfl⟩ := yields_modify.mp h
  have hset : w.course.cores.modify slot (fun _ => core) = w.course.cores.set slot core := by
    apply List.ext_getElem?
    intro n
    simp only [List.getElem?_modify, List.getElem?_set]
    grind
  refine ⟨rfl, ?_, rfl, rfl⟩
  rw [World.course_modify w slot _ (fun _ => core) fun _ => rfl, hset]
  rfl

theorem keeps_endless : Keeps R (endless : Act H I α) :=
  fun _ _ _ h => (not_yields_endless h).elim

section
variable [IsPreorder (World H I) R]

theorem keeps_pure (a : α) : Keeps R (pure a : Act H I α) := by
  intro w r w' h
  obtain ⟨-, rfl⟩ := yields_pure.mp h
  exact refl_of R _

theorem keeps_get : Keeps R (get : Act H I (World H I)) := by
  intro w r w' h
  obtain ⟨-, rfl⟩ := yields_get.mp h
  exact refl_of R _

theorem keeps_throw (f : Fault) : Keeps R (throw f : Act H I α) := by
  intro w r w' h
  obtain ⟨-, rfl⟩ := yields_throw.mp h
  exact refl_of R _

theorem keeps_of (x : Except Fault α) : Keeps R (of x : Act H I α) := by
  intro w r w' h
  obtain ⟨-, rfl⟩ := yields_of.mp h
  exact refl_of R _

theorem Keeps.bind {act : Act H I α} {f : α → Act H I β} (hact : Keeps R act)
    (hf : ∀ a, Keeps R (f a)) : Keeps R (act >>= f) := by
  intro w r w' h
  rcases yields_bind.mp h with ⟨a, w₁, h₁, h₂⟩ | ⟨e, h₁, -⟩
  · exact trans_of R (hact w _ w₁ h₁) (hf a w₁ r w' h₂)
  · exact hact w _ w' h₁

/-- What goes on with a result computed elsewhere goes on only with an answer. -/
theorem keeps_of_bind {x : Except Fault α} {f : α → Act H I β}
    (hf : ∀ a, x = .ok a → Keeps R (f a)) : Keeps R (of x >>= f) := by
  cases x with
  | ok a => exact hf a rfl
  | error e => exact keeps_throw e

theorem keeps_forM {f : α → Act H I PUnit} (xs : List α) (hf : ∀ x ∈ xs, Keeps R (f x)) :
    Keeps R (xs.forM f) := by
  induction xs with
  | nil => exact keeps_pure _
  | cons x xs ih =>
      obtain ⟨hx, hxs⟩ := List.forall_mem_cons.mp hf
      exact .bind hx fun _ => ih hxs

theorem keeps_mapM {f : α → Act H I β} (hf : ∀ a, Keeps R (f a)) (xs : List α) :
    Keeps R (xs.mapM f) := by
  induction xs with
  | nil =>
      rw [List.mapM_nil]
      exact keeps_pure _
  | cons x xs ih =>
      rw [List.mapM_cons]
      exact .bind (hf x) fun _ => .bind ih fun _ => keeps_pure _

theorem keeps_checkKey (d : Datum) : Keeps R (checkKey d : Act H I Unit) := (keeps_of _).discard

theorem keeps_held : Keeps R (held : Act H I Nat) := by
  refine .bind keeps_get ?_
  intro w
  split
  · exact keeps_pure _
  · exact keeps_throw _

theorem keeps_instance (slot : Nat) : Keeps R (instance? slot : Act H I (Instance I)) := by
  refine .bind keeps_get ?_
  intro w
  split
  · exact keeps_pure _
  · exact keeps_throw _

end

theorem keeps_called [OverlooksCalls R] (c : Callback) :
    Keeps R (record (.called c) : Act H I Unit) :=
  keeps_modify_of fun w => OverlooksCalls.called w c

theorem keeps_mark [OverlooksShowings R] (s : Showing) : Keeps R (mark s : Act H I Unit) :=
  keeps_modify_of fun w => OverlooksShowings.showing w s

/-- Anything may be changed of the runner besides what it shows. -/
theorem keeps_modify_aside [OverlooksRunner R] {f : World H I → World H I}
    (hf : ∀ w, (f w).line = w.line ∧ (f w).options = w.options ∧ (f w).stock = w.stock ∧
      (f w).reception = w.reception) : Keeps R (modify f : Act H I PUnit) :=
  keeps_modify_of fun w =>
    OverlooksRunner.runner (hf w).1 (hf w).2.1 (hf w).2.2.1 (hf w).2.2.2

/-! ### Outside the course, the stock and the reception -/

variable [Overlooks R]

theorem keeps_modify {f : World H I → World H I}
    (hf : ∀ w, (f w).course = w.course ∧ (f w).stock = w.stock ∧
      (f w).reception = w.reception) : Keeps R (modify f : Act H I PUnit) :=
  keeps_modify_of fun w => Overlooks.same (hf w).1 (hf w).2.1 (hf w).2.2

theorem keeps_record {x : Record} (hx : x.notification? = none) :
    Keeps R (record x : Act H I Unit) :=
  keeps_modify fun _ =>
    ⟨rfl, rfl, World.reception_eq rfl rfl rfl rfl rfl (List.forall_mem_singleton.mpr hx)⟩

theorem keeps_log (n : Note) : Keeps R (log n : Act H I Unit) := keeps_record rfl

theorem keeps_modifyInstance (slot : Nat) {f : Instance I → Instance I}
    (hf : ∀ i, (f i).core = i.core) : Keeps R (modifyInstance slot f : Act H I Unit) := by
  refine keeps_modify ?_
  intro w
  refine ⟨?_, rfl, rfl⟩
  rw [World.course_modify w slot f id hf, List.modify_id]

end Act

end Parley
