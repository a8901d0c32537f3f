import Parley.World
import Mathlib.Data.List.Forall2

/-!
# What operations come to

`Act.Yields act w r w'`: asked in the world `w`, the operation comes to the result
`r`, an answer or a fault, and leaves the world `w'`.  An operation without an end
yields nothing, so what is shown of every yield is partial correctness.

The lemmas take a composed operation apart into what its parts yield.
-/

namespace Parley

/-! ## Results of a list -/

/-- Where a list has results, each of them is that of the element in its place. -/
theorem mapM_eq_ok_iff {α β ε : Type} {f : α → Except ε β} {xs : List α} {ys : List β} :
    xs.mapM f = .ok ys ↔ List.Forall₂ (fun x y => f x = .ok y) xs ys := by
  constructor
  · intro h
    induction xs generalizing ys with
    | nil =>
        cases h
        exact .nil
    | cons x xs ih =>
        rw [List.mapM_cons] at h
        cases hx : f x with
        | error e =>
            rw [hx] at h
            cases h
        | ok y =>
            rw [hx] at h
            cases hxs : xs.mapM f with
            | error e =>
                rw [hxs] at h
                cases h
            | ok ys =>
                rw [hxs] at h
                cases h
                exact .cons hx (ih hxs)
  · intro h
    induction h with
    | nil => rfl
    | cons hx _ ih =>
        rw [List.mapM_cons, hx, ih]
        rfl

theorem getElem?_of_mapM {α β ε : Type} {f : α → Except ε β} {xs : List α} {ys : List β}
    (h : xs.mapM f = .ok ys) {n : Nat} {y : β} (hy : ys[n]? = some y) :
    ∃ x, xs[n]? = some x ∧ f x = .ok y := by
  have hall := mapM_eq_ok_iff.mp h
  obtain ⟨hn, rfl⟩ := List.getElem?_eq_some_iff.mp hy
  have hlength : n < xs.length := hall.length_eq ▸ hn
  exact ⟨xs[n], List.getElem?_eq_getElem hlength, hall.get hlength hn⟩

theorem mapM_eq_ok {α β ε : Type} {f : α → Except ε β} {g : α → β} {xs : List α}
    (h : ∀ x ∈ xs, f x = .ok (g x)) : xs.mapM f = .ok (xs.map g) :=
  mapM_eq_ok_iff.mpr (List.forall₂_map_right_iff.mpr (List.forall₂_same.mpr h))

theorem Datum.asKey_of_isKey {d : Datum} (h : d.isKey = true) : d.asKey = .ok d := by
  unfold asKey
  rw [Option.isNone_iff_eq_none.mp h]

theorem Datum.isKey_or_error (d : Datum) : d.isKey = true ∨ ∃ f, d.asKey = .error f := by
  unfold asKey isKey
  cases d.mutable? with
  | none => exact .inl rfl
  | some m => exact .inr ⟨_, rfl⟩

namespace Act

variable {H I α β : Type} {w w' : World H I}

/-- Asked in `w`, the operation comes to the result `r` and leaves `w'`. -/
def Yields (act : Act H I α) (w : World H I) (r : Except Fault α) (w' : World H I) : Prop :=
  act.run.run w = some (r, w')

/-- An operation comes to one result at most. -/
theorem Yields.unique {act : Act H I α} {r₁ r₂ : Except Fault α} {w₁ w₂ : World H I}
    (h₁ : Yields act w r₁ w₁) (h₂ : Yields act w r₂ w₂) : r₁ = r₂ ∧ w₁ = w₂ := by
  have h : some (r₁, w₁) = some (r₂, w₂) := h₁.symm.trans h₂
  cases h
  exact ⟨rfl, rfl⟩

theorem yields_pure {a : α} {r : Except Fault α} :
    Yields (pure a : Act H I α) w r w' ↔ r = .ok a ∧ w' = w := by
  constructor
  · intro h
    cases h
    exact ⟨rfl, rfl⟩
  · rintro ⟨rfl, rfl⟩
    rfl

theorem yields_throw {f : Fault} {r : Except Fault α} :
    Yields (throw f : Act H I α) w r w' ↔ r = .error f ∧ w' = w := by
  constructor
  · intro h
    cases h
    exact ⟨rfl, rfl⟩
  · rintro ⟨rfl, rfl⟩
    rfl

theorem yields_get {r : Except Fault (World H I)} :
    Yields (get : Act H I (World H I)) w r w' ↔ r = .ok w ∧ w' = w := by
  constructor
  · intro h
    cases h
    exact ⟨rfl, rfl⟩
  · rintro ⟨rfl, rfl⟩
    rfl

theorem yields_modify {f : World H I → World H I} {r : Except Fault PUnit} :
    Yields (modify f : Act H I PUnit) w r w' ↔ r = .ok ⟨⟩ ∧ w' = f w := by
  constructor
  · intro h
    cases h
    exact ⟨rfl, rfl⟩
  · rintro ⟨rfl, rfl⟩
    rfl

theorem yields_of {x r : Except Fault α} :
    Yields (of x : Act H I α) w r w' ↔ r = x ∧ w' = w := by
  cases x with
  | ok a => exact yields_pure
  | error f => exact yields_throw

theorem not_yields_endless {r : Except Fault α} : ¬ Yields (endless : Act H I α) w r w' := by
  intro h
  cases h

theorem yields_bind {act : Act H I α} {f : α → Act H I β} {r : Except Fault β} :
    Yields (act >>= f) w r w' ↔
      (∃ a w₁, Yields act w (.ok a) w₁ ∧ Yields (f a) w₁ r w') ∨
      ∃ e, Yields act w (.error e) w' ∧ r = .error e := by
  have hnone : act.run.run w = none → (act >>= f).run.run w = none := by
    intro h
    show (act.run.run w).bind _ = _
    rw [h]
    rfl
  have hok : ∀ {a w₁}, act.run.run w = some (.ok a, w₁) →
      (act >>= f).run.run w = (f a).run.run w₁ := by
    intro a w₁ h
    show (act.run.run w).bind _ = _
    rw [h]
    rfl
  have herror : ∀ {e w₁}, act.run.run w = some (.error e, w₁) →
      (act >>= f).run.run w = some (.error e, w₁) := by
    intro e w₁ h
    show (act.run.run w).bind _ = _
    rw [h]
    rfl
  unfold Yields
  cases hact : act.run.run w with
  | none =>
      rw [hnone hact]
      simp
  | some p =>
      obtain ⟨e | a, w₁⟩ := p
      · rw [herror hact]
        grind
      · rw [hok hact]
        grind

/-- What comes to an answer went through its first part. -/
theorem exists_of_yields_bind_ok {act : Act H I α} {f : α → Act H I β} {b : β}
    (h : Yields (act >>= f) w (.ok b) w') :
    ∃ a w₁, Yields act w (.ok a) w₁ ∧ Yields (f a) w₁ (.ok b) w' := by
  rcases yields_bind.mp h with h | ⟨e, -, he⟩
  · exact h
  · cases he

theorem yields_get_bind {f : World H I → Act H I β} {r : Except Fault β} :
    Yields (get >>= f) w r w' ↔ Yields (f w) w r w' := .rfl

theorem yields_modify_bind {f : World H I → World H I} {g : PUnit → Act H I β}
    {r : Except Fault β} : Yields (modify f >>= g) w r w' ↔ Yields (g ⟨⟩) (f w) r w' := .rfl

theorem yields_of_ok_bind {a : α} {f : α → Act H I β} {r : Except Fault β} :
    Yields (of (.ok a) >>= f) w r w' ↔ Yields (f a) w r w' := .rfl

theorem yields_of_error_bind {e : Fault} {f : α → Act H I β} {r : Except Fault β} :
    Yields (of (.error e) >>= f) w r w' ↔ r = .error e ∧ w' = w :=
  yields_throw (α := β)

theorem yields_bind_of {act : Act H I α} {g : α → Except Fault β} {r : Except Fault β} :
    Yields (act >>= fun a => of (g a)) w r w' ↔ ∃ x, Yields act w x w' ∧ r = x >>= g := by
  rw [yields_bind]
  constructor
  · rintro (⟨a, w₁, hact, hof⟩ | ⟨e, hact, rfl⟩)
    · obtain ⟨rfl, rfl⟩ := yields_of.mp hof
      exact ⟨.ok a, hact, rfl⟩
    · exact ⟨.error e, hact, rfl⟩
  · rintro ⟨e | a, hact, rfl⟩
    · exact .inr ⟨e, hact, rfl⟩
    · exact .inl ⟨a, w', hact, yields_of.mpr ⟨rfl, rfl⟩⟩

theorem yields_bind_pure {act : Act H I α} {g : α → β} {r : Except Fault β} :
    Yields (act >>= fun a => pure (g a)) w r w' ↔ ∃ x, Yields act w x w' ∧ r = x.map g := by
  have hmap (x : Except Fault α) : x.map g = x >>= fun a => .ok (g a) := by cases x <;> rfl
  simp only [hmap]
  exact yields_bind_of (g := fun a => .ok (g a))

theorem yields_discard {act : Act H I α} {r : Except Fault PUnit} :
    Yields (discard act) w r w' ↔ ∃ x, Yields act w x w' ∧ r = x.map fun _ => ⟨⟩ :=
  yields_bind_pure

theorem yields_checkKey_bind {name : Datum} (hname : name.isKey = true) {f : Unit → Act H I α}
    {r : Except Fault α} : Yields (checkKey name >>= f) w r w' ↔ Yields (f ()) w r w' := by
  unfold checkKey
  rw [Datum.asKey_of_isKey hname]
  rfl

theorem yields_checkKey_bind_of_error {name : Datum} {e : Fault} (hname : name.asKey = .error e)
    {f : Unit → Act H I α} {r : Except Fault α} :
    Yields (checkKey name >>= f) w r w' ↔ r = .error e ∧ w' = w := by
  unfold checkKey
  rw [hname]
  exact yields_throw

theorem Yields.forM_append {f : α → Act H I PUnit} {xs ys : List α} {w₁ : World H I}
    {r : Except Fault PUnit} (h₁ : Yields (xs.forM f) w (.ok ⟨⟩) w₁)
    (h₂ : Yields (ys.forM f) w₁ r w') : Yields ((xs ++ ys).forM f) w r w' := by
  induction xs generalizing w with
  | nil =>
      obtain ⟨-, rfl⟩ := yields_pure.mp h₁
      exact h₂
  | cons x xs ih =>
      rcases yields_bind.mp h₁ with ⟨_, u, hx, hxs⟩ | ⟨e, -, h⟩
      · exact yields_bind.mpr (.inl ⟨_, u, hx, ih hxs⟩)
      · cases h

theorem yields_forM_concat {f : α → Act H I PUnit} {xs : List α} {x : α}
    {r : Except Fault PUnit} :
    Yields ((xs ++ [x]).forM f) w r w' ↔ Yields (xs.forM f >>= fun _ => f x) w r w' := by
  have hsplit : (xs ++ [x]).forM f = xs.forM f >>= fun _ => [x].forM f := List.forM_append
  have hone : [x].forM f = f x := bind_pure (f x)
  rw [hsplit, hone]

theorem yields_forM_ok {f : α → Act H I PUnit}
    (hf : ∀ x (u u' : World H I) y, Yields (f x) u y u' → y = .ok ⟨⟩) {xs : List α}
    {r : Except Fault PUnit} (h : Yields (xs.forM f) w r w') : r = .ok ⟨⟩ := by
  induction xs generalizing w with
  | nil => exact (yields_pure.mp h).1
  | cons x xs ih =>
      rcases yields_bind.mp h with ⟨_, w₁, -, hrest⟩ | ⟨e, hx, -⟩
      · exact ih hrest
      · cases hf x w w' _ hx

/-- What is done for each of a list fails at one of them, once all before it had their turn. -/
theorem exists_of_yields_forM_error {f : α → Act H I PUnit} {xs : List α} {e : Fault}
    (h : Yields (xs.forM f) w (.error e) w') :
    ∃ before x after u, xs = before ++ x :: after ∧ Yields (before.forM f) w (.ok ⟨⟩) u ∧
      Yields (f x) u (.error e) w' := by
  induction xs generalizing w with
  | nil => cases (yields_pure.mp h).1
  | cons x xs ih =>
      rcases yields_bind.mp h with ⟨_, w₁, hx, hrest⟩ | ⟨e', hx, he⟩
      · obtain ⟨before, y, after, u, rfl, hbefore, hy⟩ := ih hrest
        exact ⟨x :: before, y, after, u, rfl, yields_bind.mpr (.inl ⟨_, w₁, hx, hbefore⟩), hy⟩
      · cases he
        exact ⟨[], x, xs, w, rfl, yields_pure.mpr ⟨rfl, rfl⟩, hx⟩

theorem yields_attempt {act : Act H I α} {r : Except Fault (Except Fault α)} :
    Yields (attempt act) w r w' ↔ ∃ a, r = .ok a ∧ Yields act w a w' := by
  have hrun : (attempt act).run.run w = (act.run.run w).map fun p => (.ok p.1, p.2) := by
    show ((act.run.run w).bind _).bind _ = _
    cases act.run.run w with
    | none => rfl
    | some p => obtain ⟨e | a, w₁⟩ := p <;> rfl
  unfold Yields
  rw [hrun]
  cases act.run.run w with
  | none => simp
  | some p => grind

theorem yields_attempt_bind {act : Act H I α} {f : Except Fault α → Act H I β}
    {r : Except Fault β} :
    Yields (attempt act >>= f) w r w' ↔ ∃ x u, Yields act w x u ∧ Yields (f x) u r w' := by
  rw [yields_bind]
  constructor
  · rintro (⟨x, u, hattempt, hrest⟩ | ⟨e, hattempt, -⟩)
    · obtain ⟨_, hx, hact⟩ := yields_attempt.mp hattempt
      cases hx
      exact ⟨x, u, hact, hrest⟩
    · obtain ⟨_, he, -⟩ := yields_attempt.mp hattempt
      cases he
  · rintro ⟨x, u, hact, hrest⟩
    exact .inl ⟨x, u, yields_attempt.mpr ⟨x, rfl, hact⟩, hrest⟩

/-! ## Ends -/

/-- From every world the operation comes to a result. -/
def Ends (act : Act H I α) : Prop := ∀ w, ∃ r w', Yields act w r w'

theorem ends_pure (a : α) : Ends (pure a : Act H I α) := fun w => ⟨_, w, yields_pure.mpr ⟨rfl, rfl⟩⟩

theorem ends_throw (f : Fault) : Ends (throw f : Act H I α) := fun w =>
  ⟨_, w, yields_throw.mpr ⟨rfl, rfl⟩⟩

theorem ends_of (x : Except Fault α) : Ends (of x : Act H I α) := fun w =>
  ⟨x, w, yields_of.mpr ⟨rfl, rfl⟩⟩

theorem ends_get : Ends (get : Act H I (World H I)) := fun w =>
  ⟨_, w, yields_get.mpr ⟨rfl, rfl⟩⟩

theorem ends_modify (f : World H I → World H I) : Ends (modify f : Act H I PUnit) := fun w =>
  ⟨_, f w, yields_modify.mpr ⟨rfl, rfl⟩⟩

theorem Ends.bind {act : Act H I α} {f : α → Act H I β} (hact : Ends act)
    (hf : ∀ a, Ends (f a)) : Ends (act >>= f) := by
  intro w
  obtain ⟨e | a, w₁, h₁⟩ := hact w
  · exact ⟨_, w₁, yields_bind.mpr (.inr ⟨e, h₁, rfl⟩)⟩
  · obtain ⟨r, w₂, h₂⟩ := hf a w₁
    exact ⟨r, w₂, yields_bind.mpr (.inl ⟨a, w₁, h₁, h₂⟩)⟩

theorem Ends.attempt {act : Act H I α} (hact : Ends act) : Ends (Act.attempt act) := by
  intro w
  obtain ⟨r, w', h⟩ := hact w
  exact ⟨.ok r, w', yields_attempt.mpr ⟨r, rfl, h⟩⟩

theorem Ends.discard {act : Act H I α} (hact : Ends act) :
    Ends (Functor.discard act : Act H I PUnit) :=
  hact.bind fun _ => ends_pure _

theorem ends_forM {f : α → Act H I PUnit} (xs : List α) (hf : ∀ x ∈ xs, Ends (f x)) :
    Ends (xs.forM f) := by
  induction xs with
  | nil => exact ends_pure _
  | cons x xs ih =>
      obtain ⟨hx, hxs⟩ := List.forall_mem_cons.mp hf
      exact hx.bind fun _ => ih hxs

theorem ends_mapM {f : α → Act H I β} (hf : ∀ a, Ends (f a)) (xs : List α) :
    Ends (xs.mapM f) := by
  induction xs with
  | nil =>
      rw [List.mapM_nil]
      exact ends_pure _
  | cons x xs ih =>
      rw [List.mapM_cons]
      exact (hf x).bind fun _ => ih.bind fun _ => ends_pure _

theorem ends_checkKey (d : Datum) : Ends (checkKey d : Act H I Unit) := (ends_of _).discard

end Act

end Parley
