import Parley.Proofs.Places
import Mathlib.Data.Rat.Floor
import Mathlib.Data.Sign.Basic

/-!
# The neighbours and the parts of a number

Said of the exact value `q` of a finite number (`Double.value?`):

| | it is | and scripts get |
| :-- | :-- | :-- |
| `inc` | `⌊q⌋ + 1` | the double nearest to it |
| `dec` | `⌈q⌉ - 1` | the double nearest to it |
| `int` | `q` cut toward zero | that |
| `decimal` | `q` less what `int` leaves | that |

The first two ask whether the number is an integer, and go different ways by the answer; next to
an integer and next to what lies between two integers the formula is the same.  The sum is an
integer of any size.  It is no double in general, but it is never too large for one
(`Double.exists_ofInt?`).

The last two give back the number without loss.  Both parts are doubles: the whole part, and the
fraction, since below one the bits of a double remain where they are
(`Double.representable_mod_one`).  And a difference of doubles that is a double is not rounded
(`Double.scaled_sub`).
-/

namespace Parley

namespace Double

variable {x y : Double} {v u : Int} {q : ℚ}

/-! ## Exact values -/

/-- The exact value of a finite number. -/
def value? (x : Double) : Option ℚ := x.scaled?.map fun v : ℤ => (v : ℚ) / one

/-- Cut toward zero. -/
def towardZero (q : ℚ) : ℤ := if 0 ≤ q then ⌊q⌋ else ⌈q⌉

theorem one_cast_ne_zero : (one : ℚ) ≠ 0 := Nat.cast_ne_zero.mpr (Nat.ne_of_gt one_pos)

theorem value?_of_scaled (h : x.scaled? = some v) : x.value? = some ((v : ℚ) / one) := by
  rw [value?, h, Option.map_some]

theorem value?_of_mul_one {i : ℤ} (h : x.scaled? = some (i * one)) : x.value? = some (i : ℚ) := by
  rw [value?_of_scaled h, Int.cast_mul, Int.cast_natCast, mul_div_cancel_right₀ _ one_cast_ne_zero]

theorem scaled?_of_value_intCast {i : ℤ} (h : x.value? = some (i : ℚ)) :
    x.scaled? = some (i * one) := by
  obtain ⟨v, hv, hi⟩ := Option.map_eq_some_iff.mp h
  rw [hv, Option.some_inj]
  have hmul : (v : ℚ) = i * one := (div_eq_iff one_cast_ne_zero).mp hi
  exact_mod_cast hmul

theorem exists_of_value (h : x.value? = some q) :
    ∃ negative n fits, x = .finite negative n fits ∧ q = (signed negative n : ℚ) / one := by
  obtain ⟨v, hv, rfl⟩ := Option.map_eq_some_iff.mp h
  cases x with
  | nan | infinite => cases hv
  | finite negative n fits =>
      cases hv
      exact ⟨negative, n, fits, rfl, rfl⟩

theorem floor?_of_value (h : x.value? = some q) : x.floor? = some ⌊q⌋ := by
  obtain ⟨negative, n, fits, rfl, rfl⟩ := exists_of_value h
  rw [Rat.floor_intCast_div_natCast, floor?]

theorem ceil?_of_value (h : x.value? = some q) : x.ceil? = some ⌈q⌉ := by
  obtain ⟨negative, n, fits, rfl, rfl⟩ := exists_of_value h
  rw [Rat.ceil_intCast_div_natCast, ceil?]

theorem trunc?_of_value (h : x.value? = some q) : x.trunc? = some (towardZero q) := by
  obtain ⟨negative, n, fits, rfl, rfl⟩ := exists_of_value h
  have hone : (0 : ℚ) < one := Nat.cast_pos.mpr one_pos
  have hdiv : ((n / one : ℕ) : ℤ) = (n : ℤ) / one := Int.natCast_ediv n one
  rw [trunc?, Option.some_inj, towardZero]
  cases negative with
  | false =>
      have hsigned : signed false n = n := rfl
      have hn : 0 ≤ ((n : ℤ) : ℚ) / one :=
        div_nonneg (Int.cast_nonneg (Int.natCast_nonneg n)) hone.le
      rw [hsigned, if_pos hn, Rat.floor_intCast_div_natCast]
      exact hdiv
  | true =>
      have hsigned : signed true n = -(n : ℤ) := rfl
      rw [hsigned]
      split
      · next hn =>
          -- only zero is not below zero
          have hzero : n = 0 := by
            rw [le_div_iff₀ hone, zero_mul, Int.cast_nonneg_iff] at hn
            omega
          rw [hzero, Nat.zero_div, Int.natCast_zero, neg_zero, Int.cast_zero, zero_div,
            Int.floor_zero]
          rfl
      · rw [Rat.ceil_intCast_div_natCast, neg_neg, ← hdiv]
        rfl

theorem isIntegral_iff (h : x.value? = some q) : x.isIntegral = true ↔ ∃ i : ℤ, (i : ℚ) = q := by
  constructor
  · obtain ⟨negative, n, fits, rfl, -⟩ := exists_of_value h
    intro hn
    refine ⟨signed negative (n / one), ?_⟩
    have hmul : n / one * one = n := Nat.div_mul_cancel (Nat.dvd_of_mod_eq_zero (beq_iff_eq.mp hn))
    have hscaled : (Double.finite negative n fits).scaled? =
        some (signed negative (n / one) * one) := by
      rw [scaled?, ← signed_mul, hmul]
    exact Option.some.inj ((value?_of_mul_one hscaled).symm.trans h)
  · rintro ⟨i, rfl⟩
    obtain ⟨hwhole, -⟩ := Standard.whole_of_scaled (scaled?_of_value_intCast h)
    obtain ⟨negative, n, fits, rfl, -⟩ := exists_of_value h
    exact Except.ok.inj hwhole

/-! ## Cutting toward zero -/

theorem sub_towardZero (q : ℚ) : |q - towardZero q| < 1 ∧
    (q - towardZero q ≠ 0 → SignType.sign (q - towardZero q) = SignType.sign q) := by
  rw [towardZero]
  split
  · next h =>
      have hlow := Int.floor_le q
      have hhigh := Int.lt_floor_add_one q
      have hzero : (0 : ℚ) ≤ ⌊q⌋ := Int.cast_nonneg (Int.floor_nonneg.mpr h)
      refine ⟨by rw [abs_lt]; constructor <;> linarith, fun hne => ?_⟩
      have hpos : 0 < q - ⌊q⌋ := lt_of_le_of_ne (by linarith) hne.symm
      rw [sign_pos hpos, sign_pos (by linarith)]
  · next h =>
      have hlow := Int.ceil_lt_add_one q
      have hhigh := Int.le_ceil q
      have hzero : (⌈q⌉ : ℚ) ≤ 0 := by
        rw [Int.cast_nonpos, Int.ceil_le, Int.cast_zero]
        exact le_of_not_ge h
      refine ⟨by rw [abs_lt]; constructor <;> linarith, fun hne => ?_⟩
      have hneg : q - ⌈q⌉ < 0 := lt_of_le_of_ne (by linarith) hne
      rw [sign_neg hneg, sign_neg (by linarith)]

/-! ## Differences -/

theorem signed_not (negative : Bool) (n : Nat) : signed (!negative) n = -signed negative n := by
  cases negative with
  | false => rfl
  | true => exact (Int.neg_neg (n : Int)).symm

/-- A difference that a double can hold is not rounded. -/
theorem scaled_sub (hx : x.scaled? = some v) (hy : y.scaled? = some u)
    (h : Representable (v - u).natAbs) : (x.sub y).scaled? = some (v - u) := by
  cases x with
  | nan | infinite => cases hx
  | finite s n fits =>
      cases y with
      | nan | infinite => cases hy
      | finite t m fits' =>
          cases hx
          cases hy
          have hsum : signed s n + signed (!t) m = signed s n - signed t m := by
            rw [signed_not, Int.sub_eq_add_neg]
          rw [sub, neg, withSign, isNegative, add, hsum]
          split
          · next hzero =>
              rw [hzero, scaled?]
              cases s && !t <;> rfl
          · obtain ⟨hfits, hround⟩ := round_one h (Nat.le_of_eq (rounded_of_representable h))
              (decide (signed s n - signed t m < 0))
            have hvalue := signed_mul_natAbs (signed s n - signed t m) 1
            rw [Nat.mul_one, Int.natCast_one, Int.mul_one] at hvalue
            rw [hround, scaled?, rounded_of_representable h, hvalue]

theorem representable_mod_one {n : Nat} (h : Representable n) : Representable (n % one) := by
  obtain ⟨m, k, rfl, hm, hk, -⟩ := exists_scale h
  rcases Nat.le_total 1074 k with hlarge | hsmall
  · rw [two_pow_eq_mul_one hlarge, ← Nat.mul_assoc, Nat.mul_mod_left]
    exact representable_zero
  · -- the bits below one remain, where they are
    have hone : one = 2 ^ (1074 - k) * 2 ^ k := by
      rw [← Nat.pow_add, two_pow_eq_one (Nat.sub_add_cancel hsmall)]
    rw [hone, Nat.mul_mod_mul_right]
    exact ⟨_, k, (Nat.mod_le _ _).trans_lt hm, hk, rfl⟩

theorem signed_sub_whole (negative : Bool) (n : Nat) :
    signed negative n - signed negative (n / one) * one = signed negative (n % one) := by
  have hn := congrArg (Nat.cast : ℕ → ℤ) (Nat.div_add_mod' n one)
  rw [Int.natCast_add, Int.natCast_mul] at hn
  cases negative with
  | false =>
      show (n : ℤ) - ((n / one : ℕ) : ℤ) * one = ((n % one : ℕ) : ℤ)
      omega
  | true =>
      show -(n : ℤ) - -((n / one : ℕ) : ℤ) * one = -((n % one : ℕ) : ℤ)
      rw [Int.neg_mul]
      omega

/-- The whole part of a number is a double, and nothing is lost when it is taken away. -/
theorem exists_whole_part (hx : x.value? = some q) : ∃ y, ofInt? (towardZero q) = some y ∧
    y.value? = some (towardZero q : ℚ) ∧ (x.sub y).value? = some (q - towardZero q) := by
  have hcut := trunc?_of_value hx
  obtain ⟨negative, n, fits, rfl, rfl⟩ := exists_of_value hx
  generalize towardZero _ = t at hcut ⊢
  rw [trunc?, Option.some_inj] at hcut
  have hwhole : Representable (t.natAbs * one) := by
    rw [← hcut, natAbs_signed]
    exact representable_whole fits
  have hvalue : (Double.finite (decide (t < 0)) (t.natAbs * one) hwhole).scaled? =
      some (t * one) := by
    rw [scaled?, signed_mul_natAbs]
  have hfits : Representable (signed negative n - t * one).natAbs := by
    rw [← hcut, signed_sub_whole, natAbs_signed]
    exact representable_mod_one fits
  have hsub := scaled_sub (x := .finite negative n fits) rfl hvalue hfits
  refine ⟨_, ofInt?_of_representable rfl hwhole, value?_of_mul_one hvalue, ?_⟩
  rw [value?_of_scaled hsub, Int.cast_sub, Int.cast_mul, Int.cast_natCast, sub_div,
    mul_div_cancel_right₀ _ one_cast_ne_zero]

/-! ## Integers next to a double -/

theorem add_one_lt_limit {n : Nat} (h : Representable n) : n + one < limit := by
  obtain ⟨m, k, hm, hk, rfl⟩ := h
  obtain ⟨e, he⟩ : ∃ e, e = 2044 := ⟨_, rfl⟩
  have hmul : m * 2 ^ k ≤ (2 ^ 53 - 1) * 2 ^ (e + 1) :=
    Nat.mul_le_mul (Nat.le_sub_one_of_lt hm) (Nat.pow_le_pow_right Nat.two_pos (by omega))
  have hone : one < 2 ^ e := one_lt_two_pow.mpr (by omega)
  have hlimit := limit_eq he
  rw [Nat.pow_succ'] at hmul
  rw [Nat.pow_eq]
  omega

theorem exists_ofInt? (hx : x.scaled? = some v) {i : ℤ} (h : (i * one - v).natAbs ≤ one) :
    ∃ y, ofInt? i = some y ∧ (i.natAbs ≤ 2 ^ 53 → y.value? = some (i : ℚ)) := by
  cases x with
  | nan | infinite => cases hx
  | finite negative n fits =>
      cases hx
      have hsize : i.natAbs * one = (i * one).natAbs := by
        rw [Int.natAbs_mul, Int.natAbs_natCast]
      have hn := natAbs_signed negative n
      have hlimit := add_one_lt_limit fits
      have hlt : i.natAbs * one < limit * 1 := by omega
      obtain ⟨hfits, hround⟩ := round_of_lt Nat.one_pos hlt (decide (i < 0))
      have hy : ofInt? i = some (.finite (decide (i < 0)) (ratio (i.natAbs * one) 1) hfits) := by
        rw [ofInt?, hround]
        rfl
      refine ⟨_, hy, fun hsmall => ?_⟩
      rw [ofInt?_of_representable rfl (representable_mul_one hsmall), Option.some_inj] at hy
      rw [← hy]
      exact value?_of_mul_one (by rw [scaled?, signed_mul_natAbs])

theorem natAbs_neighbours_le (v : ℤ) : ((⌊(v : ℚ) / one⌋ + 1) * one - v).natAbs ≤ one ∧
    ((⌈(v : ℚ) / one⌉ - 1) * one - v).natAbs ≤ one := by
  have hone : (0 : ℤ) < one := Int.natCast_pos.mpr one_pos
  have hlow := Int.ediv_mul_le v (ne_of_gt hone)
  have hhigh := Int.lt_ediv_add_one_mul_self v hone
  have hlow' := Int.ediv_mul_le (-v) (ne_of_gt hone)
  have hhigh' := Int.lt_ediv_add_one_mul_self (-v) hone
  rw [Rat.floor_intCast_div_natCast, Rat.ceil_intCast_div_natCast]
  rw [Int.add_mul, Int.one_mul] at hhigh hhigh'
  rw [Int.add_mul, Int.sub_mul, Int.one_mul, Int.neg_mul]
  constructor
  all_goals omega

end Double

namespace Standard

open Double

variable {x : Double} {q : ℚ}

/-! ## The functions -/

theorem isWhole_float (x : Double) (hx : x.value? = some q) :
    isWhole (.float x) = .ok x.isIntegral := by
  obtain ⟨negative, n, fits, rfl, -⟩ := exists_of_value hx
  rfl

/-- Whether or not the number is an integer, the next integer above is one more than the last one
that is not above. -/
theorem increase_of_value (hx : x.value? = some q) :
    increase (.float x) = .ok (⌊q⌋ + 1) := by
  rw [increase, isWhole_float x hx, ok_bind]
  by_cases hwhole : x.isIntegral = true
  · obtain ⟨i, rfl⟩ := (isIntegral_iff hx).mp hwhole
    obtain ⟨-, hint⟩ := whole_of_scaled (scaled?_of_value_intCast hx)
    rw [if_pos hwhole, hint, Int.floor_intCast]
    rfl
  · have hbetween : q ∉ Set.range ((↑) : ℤ → ℚ) := fun h => hwhole ((isIntegral_iff hx).mpr h)
    rw [if_neg hwhole, ← (Int.ceil_eq_floor_add_one_iff_notMem q).mpr hbetween]
    show Num.whole ceil? (.real x) = _
    rw [Num.whole, ceil?_of_value hx]

theorem decrease_of_value (hx : x.value? = some q) :
    decrease (.float x) = .ok (⌈q⌉ - 1) := by
  rw [decrease, isWhole_float x hx, ok_bind]
  by_cases hwhole : x.isIntegral = true
  · obtain ⟨i, rfl⟩ := (isIntegral_iff hx).mp hwhole
    obtain ⟨-, hint⟩ := whole_of_scaled (scaled?_of_value_intCast hx)
    rw [if_pos hwhole, hint, Int.ceil_intCast]
    rfl
  · have hbetween : q ∉ Set.range ((↑) : ℤ → ℚ) := fun h => hwhole ((isIntegral_iff hx).mpr h)
    rw [if_neg hwhole, (Int.ceil_eq_floor_add_one_iff_notMem q).mpr hbetween,
      Int.add_sub_cancel]
    show Num.whole floor? (.real x) = _
    rw [Num.whole, floor?_of_value hx]

theorem fractionOf_of_value (hx : x.value? = some q) {y : Double}
    (hy : ofInt? (towardZero q) = some y) : fractionOf (.float x) = .ok (.real (x.sub y)) := by
  have htrunc : (Num.real x).trunc = .ok (towardZero q) := by
    rw [Num.trunc, Num.whole, trunc?_of_value hx]
  show ((Num.real x).trunc >>= fun t => (Num.real x).sub (.int t)) = _
  rw [htrunc, ok_bind]
  simp only [Num.sub, Num.combine, Num.toDouble, doubleOfInt_of_some hy, ok_bind]
  rfl

theorem run_lift {α : Type} (r : Except Fault α) (g : α → Datum) (s : Source) :
    ((do return g (← r)) : Chance Datum).run s = (r.map g, s) := by
  cases r <;> rfl

end Standard

namespace Session

open Act Double Standard

variable {H I : Type}

theorem yields_undrawn (f : Standard) (hf : f.returns = .int) (w : World H I) {x : Double} {i : ℤ}
    {y : Double} (hrun : ∀ s, (f.apply [.float x]).run s = (.ok (.int i), s))
    (hy : ofInt? i = some y) :
    Yields (callStandard f.name (.ok [.number x])) w (.ok (.number y)) w.undrawn := by
  have hcall := yields_integer f hf w [x] (hrun _) hy
  rwa [List.map_nil, List.append_nil] at hcall

/-- Of a finite number: `inc` and `dec` come to the integers after the last one that is not above,
and before the first one that is not below; `int` and `decimal` take it apart without loss, into
what is left when it is cut toward zero and the rest, which is less than one and has its sign. -/
theorem parts_of_number (w : World H I) {x : Double} {q : ℚ} (hx : x.value? = some q) :
    (increase (.float x) = .ok (⌊q⌋ + 1) ∧
      ∃ y, Yields (callStandard "inc" (.ok [.number x])) w (.ok (.number y)) w.undrawn ∧
        ofInt? (⌊q⌋ + 1) = some y ∧
        ((⌊q⌋ + 1).natAbs ≤ 2 ^ 53 → y.value? = some ((⌊q⌋ + 1 : ℤ) : ℚ))) ∧
    (decrease (.float x) = .ok (⌈q⌉ - 1) ∧
      ∃ y, Yields (callStandard "dec" (.ok [.number x])) w (.ok (.number y)) w.undrawn ∧
        ofInt? (⌈q⌉ - 1) = some y ∧
        ((⌈q⌉ - 1).natAbs ≤ 2 ^ 53 → y.value? = some ((⌈q⌉ - 1 : ℤ) : ℚ))) ∧
    ∃ y z, Yields (callStandard "int" (.ok [.number x])) w (.ok (.number y)) w.undrawn ∧
      y.value? = some (towardZero q : ℚ) ∧
      Yields (callStandard "decimal" (.ok [.number x])) w (.ok (.number z)) w.undrawn ∧
      z.value? = some (q - towardZero q) ∧ |q - towardZero q| < 1 ∧
      (q - towardZero q ≠ 0 → SignType.sign (q - towardZero q) = SignType.sign q) := by
  have hinc := increase_of_value hx
  have hdec := decrease_of_value hx
  obtain ⟨v, hv, hq⟩ := Option.map_eq_some_iff.mp hx
  obtain ⟨habove, hbelow⟩ := natAbs_neighbours_le v
  rw [hq] at habove hbelow
  obtain ⟨above, habove, hexact⟩ := exists_ofInt? hv habove
  obtain ⟨below, hbelow, hexact'⟩ := exists_ofInt? hv hbelow
  obtain ⟨y, hy, hwhole, hrest⟩ := exists_whole_part hx
  refine ⟨⟨hinc, above, yields_undrawn .inc rfl w (fun s => ?_) habove, habove, hexact⟩,
    ⟨hdec, below, yields_undrawn .dec rfl w (fun s => ?_) hbelow, hbelow, hexact'⟩,
    y, x.sub y, yields_undrawn .int rfl w (fun s => ?_) hy, hwhole, ?_, hrest, sub_towardZero q⟩
  · rw [apply, run_lift, hinc]
    rfl
  · rw [apply, run_lift, hdec]
    rfl
  · have htrunc : (Num.real x).trunc = .ok (towardZero q) := by
      rw [Num.trunc, Num.whole, trunc?_of_value hx]
    rw [apply]
    show ((do return .int (← (Num.real x).trunc)) : Chance Datum).run s = _
    rw [run_lift, htrunc]
    rfl
  · have hrun (s : Source) : (apply .decimal [.float x]).run s = (.ok (.float (x.sub y)), s) := by
      rw [apply, run_lift, fractionOf_of_value hx hy]
      rfl
    have hcall := yields_callStandard .decimal w [x] (hrun _)
    rw [ok_bind, List.map_nil, List.append_nil] at hcall
    exact hcall

/-- Two and a half below zero. -/
theorem parts_of_number_of_five_halves : ∃ y z : Double,
    (ofBits 0xc004000000000000).value? = some (-5 / 2) ∧
    increase (.float (ofBits 0xc004000000000000)) = .ok (-2) ∧
    decrease (.float (ofBits 0xc004000000000000)) = .ok (-3) ∧
    Yields (callStandard "int" (.ok [.number (ofBits 0xc004000000000000)])) unused
      (.ok (.number y)) unused ∧ y.value? = some (-2) ∧
    Yields (callStandard "decimal" (.ok [.number (ofBits 0xc004000000000000)])) unused
      (.ok (.number z)) unused ∧ z.value? = some (-1 / 2) := by
  have hx : (ofBits 0xc004000000000000).value? = some (-5 / 2) := by
    have hscaled : (ofBits 0xc004000000000000).scaled? = some (-5 * halfOne : ℤ) := by
      decide +kernel
    have hhalf : (halfOne : ℚ) ≠ 0 := Nat.cast_ne_zero.mpr (Nat.ne_of_gt halfOne_pos)
    rw [value?_of_scaled hscaled, one_eq, Option.some_inj]
    push_cast
    field_simp
  have hfloor : ⌊(-5 / 2 : ℚ)⌋ = -3 := by norm_num
  have hceil : ⌈(-5 / 2 : ℚ)⌉ = -2 := by norm_num
  have hzero : towardZero (-5 / 2) = -2 := by
    rw [towardZero, if_neg (by norm_num), hceil]
  obtain ⟨⟨hinc, -⟩, ⟨hdec, -⟩, y, z, hint, hy, hdecimal, hz, -⟩ := parts_of_number unused hx
  rw [hfloor] at hinc
  rw [hceil] at hdec
  rw [hzero] at hy hz
  refine ⟨y, z, hx, hinc, hdec, hint, ?_, hdecimal, ?_⟩
  · rw [hy]
    norm_num
  · rw [hz]
    norm_num

end Session

end Parley
