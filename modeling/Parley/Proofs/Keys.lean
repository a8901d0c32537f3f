import Parley.Datum
import Parley.Keyed
import Mathlib.Logic.Function.Basic

/-!
# What counts as one key

A table is looked up by what a datum counts as.  `True`, `1` and `1.0` are one key, `-0.0` is
that of `0`, and a tuple goes by its items.  So the sameness of data is none of the lawful
equalities: it has no law at all where a list or a table is inside, and not even a
not-a-number is the same as itself.

Among what may be a key it comes to the equality of a `Token` (`same_iff`).  One of the two
data is enough for that, since what counts as a key may be one.  Hence a key is `Coherent`,
which is all that a table has to know of it.
-/

namespace Parley

/-- Where a double is on the line: at a place, or beyond all of them.  A not-a-number is nowhere. -/
def Double.spot? : Double → Option (Int ⊕ Bool)
  | .nan => none
  | .infinite s => some (.inr s)
  | .finite s n _ => some (.inl (signed s n))

/-- What a key counts as.  Truth values, integers and doubles are on one line. -/
inductive Token where
  | nothing
  | real (spot : Int ⊕ Bool)
  | text (s : String)
  | bytes (bs : List UInt8)
  | tuple (ts : List Token)
  | boolean (payload : Token)
  | number (spot : Int ⊕ Bool)
  | string (payload : Token)
  | bare (payload : Token)

/-- Both are there, and one. -/
def Agree {α : Type} (x y : Option α) : Prop := ∃ t, x = some t ∧ y = some t

theorem agree_some {α : Type} {a : α} {y : Option α} : Agree (some a) y ↔ y = some a := by
  simp [Agree]

theorem agree_map {α β : Type} {f : α → β} (hf : Function.Injective f) {x y : Option α} :
    Agree (x.map f) (y.map f) ↔ Agree x y := by
  cases x <;> cases y <;> simp [Agree, hf.eq_iff]

theorem Double.equals_iff (x y : Double) : x.equals y = true ↔ Agree x.spot? y.spot? := by
  cases x with
  | nan => cases y <;> simp [equals, spot?, Agree]
  | infinite s =>
    cases y <;> simp only [equals, spot?, agree_some, beq_iff_eq, Option.some.injEq, Sum.inr.injEq,
      reduceCtorEq, Bool.false_eq_true]
    exact eq_comm
  | finite s n _ =>
    cases y <;> simp only [equals, spot?, agree_some, beq_iff_eq, Option.some.injEq, Sum.inl.injEq,
      reduceCtorEq, Bool.false_eq_true]
    exact eq_comm

namespace Datum

mutual

def token? : Datum → Option Token
  | .nothing => some .nothing
  | .bool b => (quanta? (.bool b)).map fun q => .real (.inl q)
  | .int i => (quanta? (.int i)).map fun q => .real (.inl q)
  | .float x => x.spot?.map .real
  | .text s => some (.text s)
  | .bytes bs => some (.bytes bs)
  | .tuple xs => (tokens? xs).map .tuple
  | .boolean p => (token? p).map .boolean
  | .number x => x.spot?.map .number
  | .string p => (token? p).map .string
  | .bare p => (token? p).map .bare
  | .list _ | .dict _ | .error .. => none

def tokens? : List Datum → Option (List Token)
  | [] => some []
  | x :: xs => (token? x).bind fun t => (tokens? xs).map (t :: ·)

end

theorem sameNumber_iff (d e : Datum) : d.sameNumber e = true ↔ Agree d.quanta? e.quanta? := by
  unfold sameNumber Agree
  cases d.quanta? <;> cases e.quanta? <;> simp [@eq_comm Int]

theorem token?_eq_place {d : Datum} {q : Int} :
    d.token? = some (.real (.inl q)) ↔ d.quanta? = some q := by
  cases d with
  | float x => cases x <;> simp [token?, quanta?, Double.spot?, Double.scaled?]
  | bool | int => simp [token?]
  | _ => simp [token?, quanta?]

theorem sameNumber_iff_token {d : Datum} {q : Int} (hd : d.quanta? = some q) (e : Datum) :
    d.sameNumber e = true ↔ Agree d.token? e.token? := by
  rw [sameNumber_iff, hd, token?_eq_place.mpr hd, agree_some, agree_some, token?_eq_place]

theorem sameNumber_nan (e : Datum) : (float .nan).sameNumber e = false := rfl

theorem sameNumber_infinite (s : Bool) (e : Datum) :
    (float (.infinite s)).sameNumber e = false := rfl

mutual

/-- Of two data one of which may be a key, both count as one thing exactly if they are the same. -/
theorem same_iff : ∀ {d e : Datum}, d.isKey = true ∨ e.isKey = true →
    (d.same e = true ↔ Agree d.token? e.token?)
  | .nothing, e, _ => by cases e <;> simp [same, token?, Agree]
  | .bool b, e, _ => by
      rw [same]
      exact sameNumber_iff_token rfl e
  | .int i, e, _ => by
      rw [same]
      exact sameNumber_iff_token rfl e
  | .float x, e, _ => by
      cases e with
      | float y => rw [same, Double.equals_iff, token?, token?, agree_map fun _ _ => Token.real.inj]
      | _ =>
        cases x with
        | finite s n h => exact sameNumber_iff_token rfl _
        | nan => simp [same, sameNumber_nan, token?, Double.spot?, Agree]
        | infinite s => simp [same, sameNumber_infinite, token?, Double.spot?, agree_some]
  | .text s, e, _ => by cases e <;> simp [same, token?, Agree, @eq_comm String]
  | .bytes s, e, _ => by cases e <;> simp [same, token?, Agree, @eq_comm (List UInt8)]
  | .tuple xs, e, h => by
      cases e with
      | tuple ys =>
        simp only [isKey, mutable?, Option.isNone_iff_eq_none] at h
        rw [same, sameAll_iff h, token?, token?, agree_map fun _ _ => Token.tuple.inj]
      | _ => simp [same, token?, Agree]
  | .number x, e, _ => by
      cases e with
      | number y =>
        rw [same, Double.equals_iff, token?, token?, agree_map fun _ _ => Token.number.inj]
      | float y => cases x <;> simp [same, token?, Double.spot?, Agree]
      | _ => simp [same, token?, Agree]
  | .boolean p, e, h => by
      cases e with
      | boolean q =>
        rw [same, same_iff (d := p) (e := q) h, token?, token?,
          agree_map fun _ _ => Token.boolean.inj]
      | _ => simp [same, token?, Agree]
  | .string p, e, h => by
      cases e with
      | string q =>
        rw [same, same_iff (d := p) (e := q) h, token?, token?,
          agree_map fun _ _ => Token.string.inj]
      | _ => simp [same, token?, Agree]
  | .bare p, e, h => by
      cases e with
      | bare q =>
        rw [same, same_iff (d := p) (e := q) h, token?, token?,
          agree_map fun _ _ => Token.bare.inj]
      | _ => simp [same, token?, Agree]
  | .list _, e, h | .dict _, e, h => by
      cases e with
      | list | dict => simp [isKey, mutable?] at h
      | _ => simp [same, token?, Agree]
  | .error .., _, _ => by simp [same, token?, Agree]

theorem sameAll_iff : ∀ {xs ys : List Datum}, firstMutable? xs = none ∨ firstMutable? ys = none →
    (sameAll xs ys = true ↔ Agree (tokens? xs) (tokens? ys))
  | [], ys, _ => by cases ys <;> simp [sameAll, tokens?, Agree, Option.bind_eq_some_iff]
  | x :: xs, [], _ => by simp [sameAll, tokens?, Agree, Option.bind_eq_some_iff]
  | x :: xs, y :: ys, h => by
      simp only [firstMutable?, Option.or_eq_none_iff] at h
      have hfirst : x.isKey = true ∨ y.isKey = true := by
        simp only [isKey, Option.isNone_iff_eq_none]
        exact h.imp And.left And.left
      rw [sameAll, Bool.and_eq_true, same_iff hfirst, sameAll_iff (h.imp And.right And.right),
        tokens?, tokens?]
      cases x.token? <;> cases y.token? <;> cases tokens? xs <;> cases tokens? ys <;> simp [Agree]

end

mutual

theorem isKey_of_token : ∀ {d : Datum}, d.token? ≠ none → d.isKey = true
  | .tuple xs, h => by
      rw [token?, ne_eq, Option.map_eq_none_iff] at h
      exact Option.isNone_iff_eq_none.mpr (firstMutable?_of_tokens h)
  | .boolean p, h | .string p, h | .bare p, h => by
      rw [token?, ne_eq, Option.map_eq_none_iff] at h
      exact isKey_of_token (d := p) h
  | .list _, h | .dict _, h => absurd rfl h
  | .nothing, _ | .bool _, _ | .int _, _ | .float _, _ | .text _, _ | .bytes _, _ | .number _, _
  | .error .., _ => rfl

theorem firstMutable?_of_tokens : ∀ {xs : List Datum}, tokens? xs ≠ none → firstMutable? xs = none
  | [], _ => rfl
  | x :: xs, h => by
      obtain ⟨t, ht⟩ := Option.ne_none_iff_exists'.mp h
      obtain ⟨_, hx, hrest⟩ := Option.bind_eq_some_iff.mp ht
      obtain ⟨_, hxs, -⟩ := Option.map_eq_some_iff.mp hrest
      rw [firstMutable?, firstMutable?_of_tokens (by simp [hxs]),
        Option.isNone_iff_eq_none.mp (isKey_of_token (by simp [hx])), Option.or_none]

end

theorem coherent_of_isKey {d : Datum} (h : d.isKey = true) : Keyed.Coherent d := by
  have hagree : ∀ e : Datum, (e == d) = true ↔ Agree e.token? d.token? := fun e =>
    same_iff (.inr h)
  have hkey : ∀ {e : Datum}, Agree e.token? d.token? → e.isKey = true := by
    rintro e ⟨t, ht, -⟩
    exact isKey_of_token (by simp [ht])
  refine fun k other => ⟨fun heq => ?_, fun hk hother => ?_⟩
  · rw [Bool.eq_iff_iff, hagree, hagree]
    constructor
    · intro hk
      obtain ⟨t, ht, hother⟩ := (same_iff (.inl (hkey hk))).mp heq
      exact ⟨t, hother, agree_some.mp (ht ▸ hk)⟩
    · intro hother
      obtain ⟨t, hk, ht⟩ := (same_iff (.inr (hkey hother))).mp heq
      exact ⟨t, hk, agree_some.mp (ht ▸ hother)⟩
  · obtain ⟨t, hk, ht⟩ := (hagree k).mp hk
    obtain ⟨t', hother, ht'⟩ := (hagree other).mp hother
    cases ht.symm.trans ht'
    exact (same_iff (.inl (isKey_of_token (by simp [hk])))).mpr ⟨t, hk, hother⟩

end Datum

end Parley
