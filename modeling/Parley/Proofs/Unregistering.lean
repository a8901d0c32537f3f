import Parley.Proofs.Publishing

/-!
# Whom unregistering an owner removes

A bus is what its history has made of it, one edit after another.  Said without the table: in line
for a kind stand those who subscribed to it and were removed by no later edit, in the order in
which they subscribed (`Bus.standing`).  One edit is a step of that: it leaves those in line whom
it does not remove, and puts behind them the one it brings (`Bus.listeners_edit`).

Two edits remove by owner, and they take different owners for the same.

| | it removes what is bound to |
| :-- | :-- |
| unsubscribing a listener | the object that the listener is bound to |
| unregistering an owner | every object that compares equal to the owner |

So unregistering removes exactly what is bound to the owner itself only where no listener in line
tells the two apart: none is bound to another object that compares equal, and none to the owner
if that does not compare equal to itself (`Bus.unregister_exact_iff`).  Listeners that are bound
to nothing are never removed.
-/

namespace Parley.Bus

namespace Edit

/-- Does the edit remove the listener from the line of the kind? -/
def removes (k : Notice.Kind) (l : Listener) : Edit → Bool
  | .subscribe .. => false
  | .unsubscribe k' l' => k = k' && l.is l'
  | .unregister o => l.boundTo o
  | .clear => true

/-- Who subscribes to the kind by the edit. -/
def brings (k : Notice.Kind) : Edit → List Listener
  | .subscribe k' l => if k' = k then [l] else []
  | .unsubscribe .. | .unregister _ | .clear => []

end Edit

/-- The bus after a history that began without subscriptions. -/
def after (es : List Edit) : Bus := es.foldl edit {}

/-- Of those who subscribed to the kind, the ones whom no later edit removes. -/
def standing (k : Notice.Kind) : List Edit → List Listener
  | [] => []
  | e :: es => (e.brings k).filter (fun l => !es.any (Edit.removes k l)) ++ standing k es

/-! ## Lines -/

theorem listeners_edit (b : Bus) (e : Edit) (k : Notice.Kind) :
    (b.edit e).listeners k =
      (b.listeners k).filter (fun l => !e.removes k l) ++ e.brings k := by
  cases e with
  | subscribe k' l =>
      have hall : (b.listeners k).filter (fun m => !(Edit.subscribe k' l).removes k m) =
          b.listeners k := List.filter_eq_self.mpr fun _ _ => rfl
      rw [hall, edit, Edit.brings]
      split
      · next hk => rw [← hk, listeners_subscribe]
      · next hk => rw [listeners_subscribe_of_ne hk, List.append_nil]
  | unsubscribe k' l =>
      rw [edit, listeners_unsubscribe, Edit.brings, List.append_nil]
      exact List.filter_congr fun m _ => by simp [Edit.removes]
  | unregister o =>
      rw [edit, listeners_unregister, Edit.brings, List.append_nil]
      rfl
  | clear =>
      have hnone : (b.listeners k).filter (fun m => !Edit.clear.removes k m) = [] :=
        List.filter_eq_nil_iff.mpr fun _ _ => Bool.false_ne_true
      rw [hnone]
      rfl

theorem listeners_foldl (es : List Edit) (b : Bus) (k : Notice.Kind) :
    (es.foldl edit b).listeners k =
      (b.listeners k).filter (fun l => !es.any (Edit.removes k l)) ++ standing k es := by
  induction es generalizing b with
  | nil =>
      have hall : (b.listeners k).filter (fun l => !([] : List Edit).any (Edit.removes k l)) =
          b.listeners k := List.filter_eq_self.mpr fun _ _ => rfl
      rw [hall]
      exact (List.append_nil _).symm
  | cons e es ih =>
      have hlater (ls : List Listener) :
          (ls.filter fun l => !e.removes k l).filter (fun l => !es.any (Edit.removes k l)) =
            ls.filter fun l => !(e :: es).any (Edit.removes k l) := by
        rw [List.filter_filter]
        exact List.filter_congr fun l _ => by simp [Bool.and_comm]
      rw [List.foldl_cons, ih, listeners_edit, List.filter_append, hlater, List.append_assoc]
      rfl

/-- The history says who stands in line. -/
theorem listeners_after (es : List Edit) (k : Notice.Kind) :
    (after es).listeners k = standing k es :=
  listeners_foldl es {} k

/-! ## Owners -/

theorem boundTo_eq (l : Listener) (o : Owner) :
    (!l.boundTo o) = l.owner.all fun p => !p.key.same o.key := by
  unfold Listener.boundTo
  cases l.owner <;> rfl

theorem filter_eq_filter_iff {α : Type} {p q : α → Bool} {xs : List α} :
    xs.filter p = xs.filter q ↔ ∀ x ∈ xs, p x = q x := by
  refine ⟨fun h x hx => ?_, List.filter_congr⟩
  have hmem : x ∈ xs.filter p ↔ x ∈ xs.filter q := by rw [h]
  rw [List.mem_filter, List.mem_filter, and_iff_right hx, and_iff_right hx] at hmem
  exact Bool.eq_iff_iff.mpr hmem

/-- Whatever the history, unregistering an owner leaves in line, in order, those who are bound to
nothing or to an object that compares different.  These are the ones who are not bound to the
owner itself exactly where the objects in line that compare equal to the owner are the owner.
A kind stays listed. -/
theorem unregister_exact_iff (es : List Edit) (o : Owner) :
    (∀ k, (after es).listeners k = standing k es) ∧
    ((after es).unregister o).table.keys = (after es).table.keys ∧
    (∀ k, ((after es).unregister o).listeners k =
      (standing k es).filter fun l => l.owner.all fun p => !p.key.same o.key) ∧
    ((∀ k, ((after es).unregister o).listeners k =
        (standing k es).filter fun l => l.owner.all fun p => p.ident != o.ident) ↔
      ∀ k, ∀ l ∈ standing k es, ∀ p, l.owner = some p →
        (p.key.same o.key = true ↔ p.ident = o.ident)) := by
  have hleft (k : Notice.Kind) : ((after es).unregister o).listeners k =
      (standing k es).filter fun l => l.owner.all fun p => !p.key.same o.key := by
    rw [listeners_unregister, listeners_after]
    exact List.filter_congr fun l _ => boundTo_eq l o
  refine ⟨listeners_after es, ?_, hleft, forall_congr' fun k => ?_⟩
  · rw [unregister, Keyed.keys, Keyed.keys, List.map_map]
    rfl
  · rw [hleft, filter_eq_filter_iff]
    refine forall₂_congr fun l _ => ?_
    cases l.owner with
    | none =>
        refine iff_of_true rfl fun p hp => ?_
        cases hp
    | some p =>
        rw [Option.all_some, Option.all_some]
        have hiff : (!p.key.same o.key) = (p.ident != o.ident) ↔
            (p.key.same o.key = true ↔ p.ident = o.ident) := by
          rw [bne, Bool.not_inj_iff, Bool.eq_iff_iff, beq_iff_eq]
        rw [hiff]
        constructor
        · intro h p' hp'
          cases hp'
          exact h
        · intro h
          exact h p rfl

/-! ## Two objects of one value -/

/-- Two methods, of two objects that compare equal, and a function. -/
def lookalikes : List Edit :=
  [.subscribe .plain ⟨some ⟨"a", .text "x"⟩, 0⟩, .subscribe .plain ⟨some ⟨"b", .text "x"⟩, 1⟩,
    .subscribe .plain ⟨none, 2⟩]

/-- Unregistering the one object removes what is bound to the other. -/
theorem lookalike_unregistered :
    ((after lookalikes).listeners .plain).filter (fun l => l.owner.all fun p => p.ident != "a") =
      [⟨some ⟨"b", .text "x"⟩, 1⟩, ⟨none, 2⟩] ∧
    ((after lookalikes).unregister ⟨"a", .text "x"⟩).listeners .plain = [⟨none, 2⟩] ∧
    ¬ ∀ k, ((after lookalikes).unregister ⟨"a", .text "x"⟩).listeners k =
      ((after lookalikes).listeners k).filter fun l => l.owner.all fun p => p.ident != "a" := by
  refine ⟨rfl, rfl, fun h => ?_⟩
  have hlength := congrArg List.length (h .plain)
  revert hlength
  decide

end Parley.Bus
