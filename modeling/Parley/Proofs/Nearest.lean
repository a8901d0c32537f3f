import Parley.Proofs.Accepted
import Parley.Proofs.Rounding
import Parley.Session.Function

/-!
# The nearest integer, halves away from zero

`round` adds a half to the magnitude and cuts.  Where the sum is a double the result is the
nearest integer.  A sum that is none has been rounded itself before it is cut, which matters
where rounding reaches the next integer:

    the double next below one half        the sum is rounded up to one
    odd integers from 2^52 to 2^53        the sum lies halfway between two doubles, and is
                                          rounded to the next integer, since that is even

`Overshoots` says when.  That there are no others is shown by cases of the power of two that
the magnitude is a multiple of (`Double.exists_scale`):

    more than one            a half is too little to change the magnitude
    one                      the sum lies halfway, and goes to the even integer
    one half or less         the sum is a double, or it is rounded to less than the next integer

In the last case monotony is enough where the half leads past no integer: the number halfway
to the next one is a double.  Where it leads past one, the sum needs no more bits than the
magnitude, since no power of two lies between them; below one half there is no such integer,
and only there the gap of the doubles matters.
-/

namespace Parley

namespace Double

/-! ## The nearest integer -/

/-- No integer number of `d` quanta is nearer to `v` quanta than `i` is, and of those that are
as near none is further from zero. -/
structure NearestAway (d : Nat) (v i : Int) : Prop where
  nearest : ∀ j : Int, (v - i * d).natAbs ≤ (v - j * d).natAbs
  away : ∀ j : Int, (v - j * d).natAbs = (v - i * d).natAbs → j.natAbs ≤ i.natAbs

section
variable {d h : Nat} {v i j : Int}

theorem NearestAway.unique (hd : 0 < d) (hi : NearestAway d v i) (hj : NearestAway d v j) :
    i = j := by
  have hsame : (v - i * d).natAbs = (v - j * d).natAbs :=
    Nat.le_antisymm (hi.nearest j) (hj.nearest i)
  have hsize : i.natAbs = j.natAbs :=
    Nat.le_antisymm (hj.away i hsame) (hi.away j hsame.symm)
  rcases Int.natAbs_eq_natAbs_iff.mp hsize with heq | hneg
  · exact heq
  · -- zero is nearer than two opposite integers that are equally near
    have hzero := hj.nearest 0
    rw [hneg, Int.neg_mul] at hsame
    rw [Int.zero_mul, Int.sub_zero] at hzero
    have hmul : j * d = 0 := by omega
    rcases Int.mul_eq_zero.mp hmul with h | h <;> omega

theorem NearestAway.neg (hi : NearestAway d v i) : NearestAway d (-v) (-i) := by
  have hflip (j : Int) : (-v - j * d).natAbs = (v - -j * d).natAbs := by
    rw [Int.neg_mul, Int.sub_neg, ← Int.natAbs_neg, Int.neg_sub, Int.sub_neg, Int.add_comm]
  refine ⟨fun j => ?_, fun j hj => ?_⟩
  · rw [hflip, hflip, Int.neg_neg]
    exact hi.nearest (-j)
  · rw [hflip, hflip, Int.neg_neg] at hj
    rw [Int.natAbs_neg, ← Int.natAbs_neg j]
    exact hi.away (-j) hj

theorem nearestAway_mul (hd : 0 < d) : NearestAway d (i * d) i := by
  refine ⟨fun j => ?_, fun j hj => ?_⟩
  · rw [Int.sub_self]
    exact Nat.zero_le _
  · rw [Int.sub_self, Int.natAbs_zero, Int.natAbs_eq_zero, ← Int.sub_mul] at hj
    rcases Int.mul_eq_zero.mp hj with h | h <;> omega

theorem nearestAway_zero (hv : 2 * v.natAbs < d) : NearestAway d v 0 := by
  have hmul {j : Int} (hj : j ≠ 0) : d ≤ (j * d).natAbs := by
    rw [Int.natAbs_mul, Int.natAbs_natCast]
    exact Nat.le_mul_of_pos_left d (Int.natAbs_pos.mpr hj)
  refine ⟨fun j => ?_, fun j hj => ?_⟩
  all_goals
    rcases eq_or_ne j 0 with rfl | hne
    · exact Nat.le_refl _
    · have hfar := hmul hne
      omega

/-- Adding half the divisor and dividing without a rest finds the nearest multiple. -/
theorem nearestAway_div (hd : 0 < d) (hhalf : d = 2 * h) (n : Nat) :
    NearestAway d n ((n + h) / d : Nat) := by
  obtain ⟨t, ht⟩ : ∃ t, t = (n + h) / d := ⟨_, rfl⟩
  have hlow : t * d ≤ n + h := ht ▸ Nat.div_mul_le_self _ _
  have hhigh : n + h < t * d + d := ht ▸ Nat.lt_div_mul_add hd
  rw [← ht]
  -- the integers above, the next one below, and those below that
  have hcases (j : Int) : j = t ∨ (t : Int) * d + d ≤ j * d ∨
      (j = t - 1 ∧ j * d = (t : Int) * d - d) ∨ j * d ≤ (t : Int) * d - 2 * d := by
    rcases Int.lt_trichotomy j t with hlt | heq | hgt
    · rcases Int.lt_or_eq_of_le (Int.le_sub_one_of_lt hlt) with hlt' | heq
      · have hmul := Int.mul_le_mul_of_nonneg_right (show j ≤ t - 2 by omega) (Int.natCast_nonneg d)
        rw [Int.sub_mul] at hmul
        exact .inr (.inr (.inr hmul))
      · refine .inr (.inr (.inl ⟨heq, ?_⟩))
        rw [heq, Int.sub_mul, Int.one_mul]
    · exact .inl heq
    · have hmul := Int.mul_le_mul_of_nonneg_right (Int.add_one_le_of_lt hgt) (Int.natCast_nonneg d)
      rw [Int.add_mul, Int.one_mul] at hmul
      exact .inr (.inl hmul)
  refine ⟨fun j => ?_, fun j hj => ?_⟩
  · rcases hcases j with rfl | h | h | h <;> omega
  · rcases hcases j with rfl | h | ⟨rfl, h⟩ | h
    · exact Nat.le_refl _
    · omega
    · have hpos : t ≠ 0 := by
        rintro rfl
        rw [Nat.zero_mul] at hhigh
        omega
      omega
    · omega

theorem nearestAway_signed (hd : 0 < d) (hhalf : d = 2 * h) (negative : Bool) (n : Nat) :
    NearestAway d (signed negative n) (signed negative ((n + h) / d)) := by
  cases negative with
  | false => exact nearestAway_div hd hhalf n
  | true => exact (nearestAway_div hd hhalf n).neg

end

/-! ## One and one half -/

/-- The quanta in one half. -/
def halfOne : Nat := Nat.pow 2 1073

/-- The quanta from one half down to the next double. -/
def gap : Nat := Nat.pow 2 1020

-- the exponents stand behind equations, so that no tactic works out the powers
theorem two_pow_units {e : Nat} : (e = 1074 → 2 ^ e = one) ∧ (e = 1073 → 2 ^ e = halfOne) ∧
    (e = 1020 → 2 ^ e = gap) := by
  refine ⟨?_, ?_, ?_⟩
  all_goals
    rintro rfl
    decide +kernel

theorem two_pow_eq_one {e : Nat} : e = 1074 → 2 ^ e = one := two_pow_units.1

theorem two_pow_eq_halfOne {e : Nat} : e = 1073 → 2 ^ e = halfOne := two_pow_units.2.1

theorem two_pow_eq_gap {e : Nat} : e = 1020 → 2 ^ e = gap := two_pow_units.2.2

theorem one_eq : one = 2 * halfOne := by
  obtain ⟨e, he⟩ : ∃ e, e = 1073 := ⟨_, rfl⟩
  rw [← two_pow_eq_halfOne he, ← two_pow_eq_one (congrArg Nat.succ he), Nat.pow_succ']

theorem halfOne_eq : halfOne = 2 ^ 53 * gap := by
  obtain ⟨e, he⟩ : ∃ e, e = 1020 := ⟨_, rfl⟩
  rw [← two_pow_eq_gap he, ← two_pow_eq_halfOne (congrArg (53 + ·) he), Nat.pow_add]

theorem gap_pos : 0 < gap := by
  obtain ⟨e, he⟩ : ∃ e, e = 1020 := ⟨_, rfl⟩
  rw [← two_pow_eq_gap he]
  exact Nat.two_pow_pos e

theorem halfOne_pos : 0 < halfOne := by
  have hhalf := halfOne_eq
  have hpos := gap_pos
  omega

theorem halfOne_lt_one : halfOne < one := by
  have hone := one_eq
  have hpos := halfOne_pos
  omega

theorem one_pos : 0 < one := Nat.zero_lt_of_lt halfOne_lt_one

theorem two_pow_le_of_eq {c e k : Nat} (hc : 2 ^ e = c) (hk : k ≤ e) : 2 ^ k ≤ c :=
  hc ▸ Nat.pow_le_pow_right Nat.two_pos hk

theorem one_lt_two_pow {k : Nat} : one < 2 ^ k ↔ 1074 < k := by
  obtain ⟨e, he⟩ : ∃ e, e = 1074 := ⟨_, rfl⟩
  rw [← two_pow_eq_one he, ← he, Nat.pow_lt_pow_iff_right Nat.one_lt_two]

theorem two_pow_eq_mul_one {k : Nat} (hk : 1074 ≤ k) : 2 ^ k = 2 ^ (k - 1074) * one := by
  obtain ⟨e, he⟩ : ∃ e, e = 1074 := ⟨_, rfl⟩
  rw [← two_pow_eq_one he, ← Nat.pow_add, he, Nat.sub_add_cancel hk]

theorem scale_add_le {c m k : Nat} (hm : m < 2 ^ 53) (hk : 2 ^ k ≤ c) :
    m * 2 ^ k + c ≤ 2 ^ 53 * c := by
  have hmul := Nat.mul_le_mul (Nat.le_sub_one_of_lt hm) hk
  omega

theorem representable_mul_one {t : Nat} (ht : t ≤ 2 ^ 53) : Representable (t * one) := by
  obtain ⟨k, hk⟩ : ∃ k, k = 1074 := ⟨_, rfl⟩
  rw [← two_pow_eq_one hk]
  exact representable_scale ht (by omega)

theorem representable_mul_half {t : Nat} (ht : t ≤ 2 ^ 53) : Representable (t * halfOne) := by
  obtain ⟨k, hk⟩ : ∃ k, k = 1073 := ⟨_, rfl⟩
  rw [← two_pow_eq_halfOne hk]
  exact representable_scale ht (by omega)

theorem representable_halfOne : Representable halfOne := by
  have h := representable_mul_half (t := 1) (by decide)
  rwa [Nat.one_mul] at h

theorem half_eq : Standard.half = .finite false halfOne representable_halfOne := by decide +kernel

theorem div_one_add (t : Nat) {r : Nat} (hr : r < one) : (t * one + r) / one = t := by
  rw [Nat.mul_comm, Nat.mul_add_div (Nat.zero_lt_of_lt hr), Nat.div_eq_of_lt hr, Nat.add_zero]

/-! ## The sum with a half -/

/-- From `2 ^ 53` on a half is too little to change the double. -/
theorem rounded_add_half_of_far {m k : Nat} (hm : 2 ^ 52 ≤ m) (hm' : m < 2 ^ 53) (hk : 1074 < k) :
    rounded (m * 2 ^ k + halfOne) = m * 2 ^ k := by
  have hlt : 2 * halfOne < 2 ^ k := one_eq ▸ one_lt_two_pow.mpr hk
  rw [rounded_scale_add hm hm' (by omega), if_pos hlt]

/-- Between the odd and the even integer the sum goes to the even one. -/
theorem rounded_add_half_of_tie {t : Nat} (ht : 2 ^ 52 ≤ t) (ht' : t < 2 ^ 53) :
    rounded (t * one + halfOne) = (t + t % 2) * one := by
  obtain ⟨k, hk⟩ : ∃ k, k = 1074 := ⟨_, rfl⟩
  have hone := one_eq
  have h := rounded_scale_add (k := k) (r := halfOne) ht ht'
  rw [two_pow_eq_one hk] at h
  rw [h halfOne_lt_one, if_neg (by omega), if_neg (by omega)]

theorem rounded_of_last {r : Nat} (hr : r < 2 * gap) :
    rounded ((2 ^ 53 - 1) * (2 * gap) + r) =
      if r < gap then (2 ^ 53 - 1) * (2 * gap) else one := by
  obtain ⟨k, hk⟩ : ∃ k, k = 1020 := ⟨_, rfl⟩
  have hgap : 2 ^ (k + 1) = 2 * gap := by
    rw [Nat.pow_succ', two_pow_eq_gap hk]
  have hone := one_eq
  have hhalf := halfOne_eq
  rw [← hgap] at hr ⊢
  rw [rounded_scale_add (by decide) (by decide) hr]
  split_ifs <;> omega

/-- Just below one half the sum lies halfway below one, and goes there. -/
theorem rounded_add_half_of_gap {n : Nat} (h : n + gap = halfOne) :
    rounded (n + halfOne) = one := by
  have hpos := gap_pos
  have hhalf := halfOne_eq
  have hsum : n + halfOne = (2 ^ 53 - 1) * (2 * gap) + gap := by omega
  rw [hsum, rounded_of_last (by omega), if_neg (Nat.lt_irrefl gap)]

theorem rounded_add_half_lt_one {n : Nat} (h : n + gap < halfOne) :
    rounded (n + halfOne) < one := by
  have hpos := gap_pos
  have hone := one_eq
  have hhalf := halfOne_eq
  have hsum : n + halfOne ≤ (2 ^ 53 - 1) * (2 * gap) + (gap - 1) := by omega
  have hle := rounded_mono hsum
  rw [rounded_of_last (by omega), if_pos (by omega)] at hle
  omega

/-- Where the half leads past no integer, the sum does not come to the next one. -/
theorem rounded_add_half_of_le {n t : Nat} (h : n ≤ t * one) (hn : n + halfOne ≤ 2 ^ 53 * halfOne) :
    rounded (n + halfOne) < (t + 1) * one := by
  have hodd : t * one + halfOne = (2 * t + 1) * halfOne := by
    rw [one_eq, Nat.add_mul, Nat.one_mul, Nat.mul_left_comm, Nat.mul_assoc]
  have hsum : n + halfOne ≤ min (2 * t + 1) (2 ^ 53) * halfOne := by
    rcases Nat.le_total (2 * t + 1) (2 ^ 53) with hle | hle
    · rw [Nat.min_eq_left hle, ← hodd]
      exact Nat.add_le_add_right h _
    · rw [Nat.min_eq_right hle]
      exact hn
  calc rounded (n + halfOne) ≤ min (2 * t + 1) (2 ^ 53) * halfOne :=
        rounded_le (representable_mul_half (Nat.min_le_right _ _)) hsum
    _ ≤ (2 * t + 1) * halfOne := Nat.mul_le_mul_right _ (Nat.min_le_left _ _)
    _ = t * one + halfOne := hodd.symm
    _ < t * one + one := Nat.add_lt_add_left halfOne_lt_one _
    _ = (t + 1) * one := (Nat.succ_mul t one).symm

theorem representable_add_half {m k t : Nat} (hk : k ≤ 1073) (ht : 0 < t)
    (h : t * one < m * 2 ^ k) (hm : m < 2 ^ 53) (h' : m * 2 ^ k + halfOne < (t + 1) * one) :
    Representable (m * 2 ^ k + halfOne) := by
  have hhalf : halfOne = 2 ^ (1073 - k) * 2 ^ k := by
    rw [← Nat.pow_add, two_pow_eq_halfOne (Nat.sub_add_cancel hk)]
  have hsum : m * 2 ^ k + halfOne = (m + 2 ^ (1073 - k)) * 2 ^ k := by
    rw [Nat.add_mul, ← hhalf]
  have hbound : m * 2 ^ k < 2 ^ (53 + k) := by
    rw [Nat.pow_add]
    exact Nat.mul_lt_mul_of_pos_right hm (Nat.two_pow_pos k)
  have hexponent : 1074 < 53 + k := one_lt_two_pow.mp <|
    calc one ≤ t * one := Nat.le_mul_of_pos_left one ht
      _ < m * 2 ^ k := h
      _ < 2 ^ (53 + k) := hbound
  -- the next power of two is an integer, and not below the next one
  have hpower : 2 ^ (53 + k) = 2 ^ (53 + k - 1074) * one :=
    two_pow_eq_mul_one (Nat.le_of_lt hexponent)
  have hnext : t + 1 ≤ 2 ^ (53 + k - 1074) := by
    refine Nat.lt_of_mul_lt_mul_right (a := one) ?_
    rw [← hpower]
    exact h.trans hbound
  have hlt : (m + 2 ^ (1073 - k)) * 2 ^ k < 2 ^ 53 * 2 ^ k :=
    calc (m + 2 ^ (1073 - k)) * 2 ^ k = m * 2 ^ k + halfOne := hsum.symm
      _ < (t + 1) * one := h'
      _ ≤ 2 ^ (53 + k - 1074) * one := Nat.mul_le_mul_right _ hnext
      _ = 2 ^ 53 * 2 ^ k := by rw [← hpower, Nat.pow_add]
  rw [hsum]
  exact representable_scale (Nat.le_of_lt (Nat.lt_of_mul_lt_mul_right hlt)) (by omega)

theorem add_gap_le_halfOne {m k : Nat} (hm : m < 2 ^ 53) (hbits : k = 0 ∨ 2 ^ 52 ≤ m)
    (h : m * 2 ^ k < halfOne) : m * 2 ^ k + gap ≤ halfOne := by
  obtain ⟨e, he⟩ : ∃ e, e = 1020 := ⟨_, rfl⟩
  have hhalf := halfOne_eq
  rcases Nat.lt_or_ge e k with hk | hk
  · have hleast : 2 ^ 52 ≤ m := hbits.resolve_left (by omega)
    have hpow : 2 * gap ≤ 2 ^ k := by
      rw [← two_pow_eq_gap he, ← Nat.pow_succ']
      exact Nat.pow_le_pow_right Nat.two_pos hk
    have hmul := Nat.mul_le_mul hleast hpow
    omega
  · rw [hhalf]
    exact scale_add_le hm (two_pow_le_of_eq (two_pow_eq_gap he) hk)

/-! ## What is cut from the sum -/

/-- Below `2 ^ 53` halves the sum is cut as if it were exact, unless it comes from the double
next below one half. -/
theorem div_rounded_of_near {m k : Nat} (hm : m < 2 ^ 53) (hbits : k = 0 ∨ 2 ^ 52 ≤ m)
    (hk : k ≤ 1073) (hgap : m * 2 ^ k + gap ≠ halfOne) :
    rounded (m * 2 ^ k + halfOne) / one = (m * 2 ^ k + halfOne) / one := by
  have hsum : m * 2 ^ k + halfOne ≤ 2 ^ 53 * halfOne :=
    scale_add_le hm (two_pow_le_of_eq (two_pow_eq_halfOne rfl) hk)
  obtain ⟨t, ht⟩ : ∃ t, t = (m * 2 ^ k + halfOne) / one := ⟨_, rfl⟩
  have hone := one_pos
  have hlow : t * one ≤ m * 2 ^ k + halfOne := ht ▸ Nat.div_mul_le_self _ _
  have hhigh : m * 2 ^ k + halfOne < (t + 1) * one := by
    rw [ht, Nat.succ_mul]
    exact Nat.lt_div_mul_add hone
  have hbound : t ≤ 2 ^ 53 := by
    refine Nat.le_of_mul_le_mul_right (hlow.trans (hsum.trans ?_)) hone
    exact Nat.mul_le_mul_left _ (Nat.le_of_lt halfOne_lt_one)
  rw [← ht]
  refine Nat.div_eq_of_lt_le (le_rounded (representable_mul_one hbound) hlow) ?_
  rcases Nat.lt_or_ge (t * one) (m * 2 ^ k) with hlt | hle
  · rcases Nat.eq_zero_or_pos t with rfl | hpos
    · rw [Nat.zero_add, Nat.one_mul] at hhigh ⊢
      have hbelow : m * 2 ^ k < halfOne := by
        have hdouble := one_eq
        omega
      exact rounded_add_half_lt_one
        (Nat.lt_of_le_of_ne (add_gap_le_halfOne hm hbits hbelow) hgap)
    · rw [rounded_of_representable (representable_add_half hk hpos hlt hm hhigh)]
      exact hhigh
  · exact rounded_add_half_of_le hle hsum

/-- Adding a half to the magnitude and cutting gives one more than the nearest integer: just
below one half, and where the sum is halfway from an odd integer to the even one after it. -/
def Overshoots (n : Nat) : Prop :=
  n + gap = halfOne ∨ ∃ t, t % 2 = 1 ∧ 2 ^ 52 ≤ t ∧ t < 2 ^ 53 ∧ n = t * one

theorem Overshoots.pos {n : Nat} (h : Overshoots n) : 0 < n := by
  rcases h with h | ⟨t, -, ht, -, hn⟩
  · have hhalf := halfOne_eq
    have hpos := gap_pos
    omega
  · rw [hn]
    exact Nat.mul_pos (by omega) one_pos

theorem div_rounded_of_overshoots {n : Nat} (h : Overshoots n) :
    rounded (n + halfOne) / one = (n + halfOne) / one + 1 := by
  have hone := one_pos
  rcases h with h | ⟨t, hodd, ht, ht', hn⟩
  · have hlt : n + halfOne < one := by
      have hpos := gap_pos
      have hdouble := one_eq
      omega
    rw [rounded_add_half_of_gap h, Nat.div_self hone, Nat.div_eq_of_lt hlt]
  · rw [hn, rounded_add_half_of_tie ht ht', hodd, Nat.mul_div_cancel _ hone,
      div_one_add t halfOne_lt_one]

theorem div_rounded {n : Nat} (hn : Representable n) (h : ¬ Overshoots n) :
    rounded (n + halfOne) / one = (n + halfOne) / one := by
  have hone := one_pos
  obtain ⟨m, k, rfl, hm, -, hbits⟩ := exists_scale hn
  rcases Nat.lt_trichotomy k 1074 with hk | hk | hk
  · exact div_rounded_of_near hm hbits (Nat.le_of_lt_succ hk) fun hgap => h (.inl hgap)
  · have hleast : 2 ^ 52 ≤ m := hbits.resolve_left (by omega)
    rw [two_pow_eq_one hk] at h ⊢
    have heven : m % 2 = 0 := Nat.mod_two_ne_one.mp fun hodd => h (.inr ⟨m, hodd, hleast, hm, rfl⟩)
    rw [rounded_add_half_of_tie hleast hm, heven, Nat.add_zero, Nat.mul_div_cancel _ hone,
      div_one_add m halfOne_lt_one]
  · have hleast : 2 ^ 52 ≤ m := hbits.resolve_left (by omega)
    rw [rounded_add_half_of_far hleast hm hk, two_pow_eq_mul_one (Nat.le_of_lt hk), ← Nat.mul_assoc,
      div_one_add _ halfOne_lt_one, Nat.mul_div_cancel _ hone]

theorem exists_rounded_add_half_le {n : Nat} (hn : Representable n) :
    ∃ u, Representable u ∧ rounded (n + halfOne) ≤ u := by
  obtain ⟨m, k, heq, hm, -, hbits⟩ := exists_scale hn
  rcases Nat.lt_or_ge 1074 k with hk | hk
  · refine ⟨n, hn, Nat.le_of_eq ?_⟩
    rw [heq, rounded_add_half_of_far (hbits.resolve_left (by omega)) hm hk]
  · have hsum : n + halfOne ≤ 2 ^ 53 * one := by
      have hle := scale_add_le hm (two_pow_le_of_eq (two_pow_eq_one rfl) hk)
      rw [← heq] at hle
      exact (Nat.add_le_add_left (Nat.le_of_lt halfOne_lt_one) n).trans hle
    have hfits := representable_mul_one (Nat.le_refl (2 ^ 53))
    exact ⟨_, hfits, rounded_le hfits hsum⟩

/-! ## Whole doubles -/

theorem representable_whole {n : Nat} (h : Representable n) : Representable (n / one * one) := by
  obtain ⟨m, k, heq, hm, -, -⟩ := exists_scale h
  have hone := one_pos
  rcases Nat.le_total k 1074 with hk | hk
  · refine representable_mul_one (Nat.div_le_of_le_mul ?_)
    rw [heq, Nat.mul_comm one]
    exact Nat.mul_le_mul (Nat.le_of_lt hm) (two_pow_le_of_eq (two_pow_eq_one rfl) hk)
  · have hwhole : n = m * 2 ^ (k - 1074) * one := by
      rw [heq, two_pow_eq_mul_one hk, Nat.mul_assoc]
    rwa [hwhole, Nat.mul_div_cancel _ hone, ← hwhole]

theorem ofInt?_of_representable {i : Int} {t : Nat} (hi : i.natAbs = t)
    (h : Representable (t * one)) : ofInt? i = some (.finite (decide (i < 0)) (t * one) h) := by
  have hexact := rounded_of_representable h
  obtain ⟨fits, hround⟩ := round_one h (Nat.le_of_eq hexact) (decide (i < 0))
  rw [ofInt?, hi, hround]
  simp only [hexact, inRange?]

theorem add_half {n : Nat} (fits : Representable n) : ∃ fits',
    (Double.finite false n fits).add Standard.half =
      .finite false (rounded (n + halfOne)) fits' := by
  obtain ⟨u, hu, hle⟩ := exists_rounded_add_half_le fits
  obtain ⟨fits', hround⟩ := round_one hu hle false
  have hpos : n + halfOne ≠ 0 := by
    have hhalf := halfOne_pos
    omega
  rw [half_eq, add_magnitudes hpos, hround]
  exact ⟨fits', rfl⟩

theorem natAbs_signed (negative : Bool) (n : Nat) : (signed negative n).natAbs = n := by
  cases negative with
  | false => exact Int.natAbs_natCast n
  | true => exact (Int.natAbs_neg n).trans (Int.natAbs_natCast n)

theorem signed_succ_sub_sign (negative : Bool) (a : Nat) {n : Nat} (hn : 0 < n) :
    signed negative (a + 1) - (signed negative n).sign = signed negative a := by
  have hsign : (n : Int).sign = 1 := Int.sign_eq_one_of_pos (Int.natCast_pos.mpr hn)
  cases negative with
  | false =>
      show ((a + 1 : Nat) : Int) - (n : Int).sign = a
      rw [hsign]
      omega
  | true =>
      show -((a + 1 : Nat) : Int) - (-(n : Int)).sign = -(a : Int)
      rw [Int.sign_neg, hsign]
      omega

theorem signed_mul_natAbs (i : Int) (d : Nat) :
    signed (decide (i < 0)) (i.natAbs * d) = i * d := by
  rcases Int.lt_or_le i 0 with hi | hi
  · rw [decide_eq_true hi, signed, if_pos rfl, Int.natCast_mul,
      Int.ofNat_natAbs_of_nonpos (Int.le_of_lt hi), Int.neg_mul, Int.neg_neg]
  · rw [decide_eq_false (Int.not_lt.mpr hi), signed, if_neg Bool.false_ne_true, Int.natCast_mul,
      Int.natAbs_of_nonneg hi]

end Double

namespace Standard

open Double

/-! ## The function -/

theorem doubleOfInt_eq : Num.doubleOfInt = fun i =>
    (ofInt? i).elim (.error (.accident .overflow)) .ok := by
  unfold Num.doubleOfInt
  -- under its own name the rounding would be computed, in quanta
  generalize ofInt? = f
  funext i
  cases f i <;> rfl

theorem doubleOfInt_of_some {i : Int} {x : Double} (h : ofInt? i = some x) :
    Num.doubleOfInt i = .ok x := by
  rw [doubleOfInt_eq]
  dsimp only
  rw [h, Option.elim_some]

theorem doubleOfInt_natCast {t : Nat} (h : Representable (t * one)) :
    Num.doubleOfInt (t : Int) = .ok (.finite false (t * one) h) := by
  have hdouble := ofInt?_of_representable (Int.natAbs_natCast t) h
  rw [decide_eq_false (Int.not_lt.mpr (Int.natCast_nonneg t))] at hdouble
  exact doubleOfInt_of_some hdouble

theorem ok_bind {ε α β : Type} (a : α) (f : α → Except ε β) : (Except.ok a >>= f) = f a := rfl

theorem roundHalfAway_finite (negative : Bool) {n : Nat} (fits : Representable n) :
    Representable (rounded (n + halfOne) / one * one) ∧
      roundHalfAway (.real (.finite negative n fits)) =
        .ok (signed negative (rounded (n + halfOne) / one)) := by
  have hone := one_pos
  obtain ⟨u, hu⟩ : ∃ u, u = rounded (n + halfOne) := ⟨_, rfl⟩
  obtain ⟨fits', hadd⟩ := add_half fits
  rw [← hu]
  simp only [← hu] at fits' hadd
  have hwhole := representable_whole fits'
  have hsum : (Num.real (.finite negative n fits)).abs.add (.real half) =
      .ok (.real (.finite false u fits')) :=
    congrArg (fun x => Except.ok (Num.real x)) hadd
  have hfloor : (Num.real (.finite false u fits')).floor = .ok ((u / one : Nat) : Int) := by
    rw [Int.natCast_ediv, Num.floor, Num.whole, floor?]
    simp only [signed, if_neg Bool.false_ne_true]
  have hsign : (Num.real (.finite negative n fits)).toDouble =
      .ok (.finite negative n fits) := rfl
  refine ⟨hwhole, ?_⟩
  rw [roundHalfAway, hsum, ok_bind, hfloor, ok_bind, doubleOfInt_natCast hwhole, ok_bind, hsign,
    ok_bind, withSign, isNegative, Num.trunc, Num.whole, trunc?, Nat.mul_div_cancel _ hone]

theorem apply_round {x : Double} {i : Int} (hi : roundHalfAway (.real x) = .ok i)
    (source : Source) : (apply .round [.float x]).run source = (.ok (.int i), source) := by
  have hstep : apply .round [.float x] =
      (do return .int (← (liftM (roundHalfAway (.real x)) : Chance Int))) := by
    rw [apply]
    rfl
  rw [hstep, hi]
  rfl

end Standard

namespace Session

open Act Double Standard

variable {H I : Type}

theorem lookup_name (f : Standard) :
    standardFunctions.lookup f.name = some ⟨f.name, .standard f, f.returns⟩ := by
  cases f <;> rfl

theorem arguments_numbers (xs : List Double) :
    ScriptFunction.arguments (xs.map .number) = .ok (xs.map .float) := by
  unfold ScriptFunction.arguments
  induction xs with
  | nil => rfl
  | cons x xs ih =>
      rw [List.map_cons, List.mapM_cons, ih]
      rfl

/-- Scripts call a standard function by its name, and get its result as a script value.  What was
drawn is entered in the journal. -/
theorem yields_callStandard (f : Standard) (w : World H I) (xs : List Double)
    {result : Except Fault Datum} {source : Source}
    (hrun : (f.apply (xs.map .float)).run { w.source with drawn := [] } = (result, source)) :
    Yields (callStandard f.name (.ok (xs.map .number))) w
      (result >>= ScriptFunction.finish ⟨f.name, .standard f, f.returns⟩)
      { w with source, journal := w.journal ++ source.drawn.map .draw } := by
  have hstandard : Yields (runStandard f (xs.map .float)) w result
      { w with source, journal := w.journal ++ source.drawn.map .draw } := by
    rw [runStandard]
    refine yields_get_bind.mpr ?_
    rw [hrun]
    exact yields_modify_bind.mpr (yields_of.mpr ⟨rfl, rfl⟩)
  rw [callStandard, lookup_name]
  refine yields_of_ok_bind.mpr ?_
  rw [callFunction, arguments_numbers]
  exact yields_of_ok_bind.mpr (yields_bind_of.mpr ⟨result, hstandard, rfl⟩)

theorem finish_int {f : ScriptFunction} (hf : f.returns = .int) {i : Int} {y : Double}
    (hy : ofInt? i = some y) : f.finish (.int i) = .ok (.number y) := by
  rw [ScriptFunction.finish, Datum.toValue_int, hy, hf]
  rfl

theorem yields_integer (f : Standard) (hf : f.returns = .int) (w : World H I) (xs : List Double)
    {i : Int} {y : Double} {source : Source}
    (hrun : (f.apply (xs.map .float)).run { w.source with drawn := [] } = (.ok (.int i), source))
    (hy : ofInt? i = some y) :
    Yields (callStandard f.name (.ok (xs.map .number))) w (.ok (.number y))
      { w with source, journal := w.journal ++ source.drawn.map .draw } := by
  have hcall := yields_callStandard f w xs hrun
  rwa [ok_bind, finish_int hf hy] at hcall

theorem yields_round (w : World H I) {x y : Double} {i : Int}
    (hi : roundHalfAway (.real x) = .ok i) (hy : ofInt? i = some y) :
    Yields (callStandard "round" (.ok [.number x])) w (.ok (.number y))
      { w with source := { w.source with drawn := [] } } := by
  have hcall := yields_integer .round rfl w [x] (apply_round hi _) hy
  rwa [List.map_nil, List.append_nil] at hcall

/-- Of a finite number scripts get the nearest integer, halves away from zero, except exactly
where adding the half overshoots; there they get the next one away from zero.  So an integer
is kept and less than one half becomes zero, with these exceptions. -/
theorem rounds_to_nearest (w : World H I) {x : Double} {v : Int} (hx : x.scaled? = some v) :
    ∃ i y, roundHalfAway (.real x) = .ok i ∧
      Yields (callStandard "round" (.ok [.number x])) w (.ok (.number y))
        { w with source := { w.source with drawn := [] } } ∧
      y.scaled? = some (i * one) ∧
      (NearestAway one v i ↔ ¬ Overshoots v.natAbs) ∧
      (Overshoots v.natAbs → NearestAway one v (i - v.sign)) ∧
      (∀ k : Int, v = k * one → (i = k ↔ ¬ Overshoots v.natAbs)) ∧
      (2 * v.natAbs < one → (i = 0 ↔ ¬ Overshoots v.natAbs)) := by
  cases x with
  | nan => cases hx
  | infinite _ => cases hx
  | finite negative n fits =>
      obtain rfl : signed negative n = v := Option.some.inj hx
      have hone := one_pos
      obtain ⟨hwhole, hround⟩ := roundHalfAway_finite negative fits
      have hdouble := ofInt?_of_representable (natAbs_signed negative _) hwhole
      have hnear := nearestAway_signed hone one_eq negative n
      have hexact := div_rounded fits
      have hover := div_rounded_of_overshoots (n := n)
      rw [natAbs_signed]
      generalize rounded (n + halfOne) / one = t at *
      generalize (n + halfOne) / one = a at *
      have hiff : NearestAway one (signed negative n) (signed negative t) ↔ ¬ Overshoots n := by
        refine ⟨fun h ho => ?_, fun h => hexact h ▸ hnear⟩
        have hsize := congrArg Int.natAbs (h.unique hone hnear)
        rw [natAbs_signed, natAbs_signed, hover ho] at hsize
        omega
      have hsame {k : Int} (hk : NearestAway one (signed negative n) k) :
          signed negative t = k ↔ ¬ Overshoots n := by
        refine ⟨fun h => hiff.mp (h ▸ hk), fun h => (hiff.mpr h).unique hone hk⟩
      refine ⟨_, _, hround, yields_round w hround hdouble, ?_, hiff, fun ho => ?_,
        fun k hk => hsame (hk ▸ nearestAway_mul hone), fun h => hsame (nearestAway_zero ?_)⟩
      · have hvalue := signed_mul_natAbs (signed negative t) one
        rw [natAbs_signed] at hvalue
        rw [scaled?, hvalue]
      · rw [hover ho, signed_succ_sub_sign negative a ho.pos]
        exact hnear
      · rwa [natAbs_signed]

/-- A session in which nothing has happened. -/
def unused : World Unit Unit := { host := () }

theorem ok_of_toOption {ε α : Type} {x : Except ε α} {a : α} (h : x.toOption = some a) :
    x = .ok a := by
  cases x with
  | error e => cases h
  | ok b => exact congrArg Except.ok (Option.some.inj h)

/-- Two and a half is a half that goes away from zero. -/
theorem rounds_to_nearest_of_five_halves : ∃ i y,
    (ofBits 0x4004000000000000).scaled? = some (5 * halfOne : Int) ∧
    roundHalfAway (.real (ofBits 0x4004000000000000)) = .ok i ∧
    Yields (callStandard "round" (.ok [.number (ofBits 0x4004000000000000)])) unused
      (.ok (.number y)) unused ∧
    y.scaled? = some (i * one) ∧ NearestAway one (5 * halfOne) i ∧ i = 3 := by
  have hv : (ofBits 0x4004000000000000).scaled? = some (5 * halfOne : Int) := by decide +kernel
  have hthree : roundHalfAway (.real (ofBits 0x4004000000000000)) = .ok 3 :=
    ok_of_toOption (by decide +kernel)
  have hlands : ¬ Overshoots (5 * halfOne : Int).natAbs := by
    have hdouble := one_eq
    have hhalf := halfOne_eq
    have hpos := gap_pos
    have hsize : (5 * halfOne : Int).natAbs = 5 * halfOne := by omega
    rw [hsize]
    rintro (h | ⟨t, -, ht, -, h⟩)
    · omega
    · have hmul := Nat.mul_le_mul_right one ht
      omega
  obtain ⟨i, y, hround, hyields, hy, hiff, -⟩ := rounds_to_nearest unused hv
  refine ⟨i, y, hv, hround, hyields, hy, hiff.mpr hlands, ?_⟩
  exact Except.ok.inj (hround.symm.trans hthree)

/-- Less than one half becomes one, and an integer becomes the one after it. -/
theorem overshoots_below_half_and_at_odd :
    ((ofBits 0x3fdfffffffffffff).scaled? = some (halfOne - gap : Int) ∧
      2 * (halfOne - gap : Int) < one ∧ ¬ NearestAway one (halfOne - gap) 1 ∧
      roundHalfAway (.real (ofBits 0x3fdfffffffffffff)) = .ok 1 ∧
      Yields (callStandard "round" (.ok [.number (ofBits 0x3fdfffffffffffff)])) unused
        (.ok (.number (ofBits 0x3ff0000000000000))) unused) ∧
    ((ofBits 0x4330000000000001).scaled? = some ((2 ^ 52 + 1 : Int) * one) ∧
      ¬ NearestAway one ((2 ^ 52 + 1 : Int) * one) (2 ^ 52 + 2) ∧
      roundHalfAway (.real (ofBits 0x4330000000000001)) = .ok (2 ^ 52 + 2) ∧
      Yields (callStandard "round" (.ok [.number (ofBits 0x4330000000000001)])) unused
        (.ok (.number (ofBits 0x4330000000000002))) unused) := by
  have hone := one_pos
  have hsmall : 2 * (halfOne - gap : Int) < one := by decide +kernel
  have hless : gap < halfOne := by decide +kernel
  have hbelow : roundHalfAway (.real (ofBits 0x3fdfffffffffffff)) = .ok 1 :=
    ok_of_toOption (by decide +kernel)
  have hodd : roundHalfAway (.real (ofBits 0x4330000000000001)) = .ok (2 ^ 52 + 2) :=
    ok_of_toOption (by decide +kernel)
  refine ⟨⟨by decide +kernel, hsmall, fun h => ?_, hbelow, yields_round unused hbelow ?_⟩,
    by decide +kernel, fun h => ?_, hodd, yields_round unused hodd ?_⟩
  · have hzero := h.unique hone (nearestAway_zero (by omega))
    omega
  · decide +kernel
  · have hself := h.unique hone (nearestAway_mul hone)
    omega
  · decide +kernel

end Session

end Parley
