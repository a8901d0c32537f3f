import Parley.Double
import Mathlib.Algebra.Order.Ring.Nat

/-!
# Rounding to a double

A sum of doubles is an exact number of quanta, rounded once.  `rounded` is what rounding
makes of such a number, whatever its size: a multiple of a power of two that leaves 53 bits.
It keeps what a double can hold (`rounded_of_representable`) and it is monotone
(`rounded_mono`), so it never passes a number that a double can hold.

A positive number that a double can hold is a 53-bit significand times a power of two, and
only a number below `2 ^ 52` quanta has a shorter significand (`Representable.exists_scale`).
Cases about doubles are cases of that power.
-/

namespace Parley.Double

/-! ## Nearest integers -/

section
variable {n n' d : Nat}

theorem nearestEven_eq : nearestEven n d =
    if 2 * (n % d) < d then n / d else if d < 2 * (n % d) then n / d + 1
    else n / d + n / d % 2 := by
  simp only [nearestEven]
  split_ifs <;> omega

/-- What is left over by the multiples of the divisor decides which integer is nearest. -/
theorem nearestEven_add (t : Nat) {r : Nat} (hr : r < d) : nearestEven (t * d + r) d =
    if 2 * r < d then t else if d < 2 * r then t + 1 else t + t % 2 := by
  have hd : 0 < d := Nat.zero_lt_of_lt hr
  have hquotient : (t * d + r) / d = t := by
    rw [Nat.mul_comm, Nat.mul_add_div hd, Nat.div_eq_of_lt hr, Nat.add_zero]
  have hrest : (t * d + r) % d = r := by
    rw [Nat.mul_comm, Nat.mul_add_mod, Nat.mod_eq_of_lt hr]
  rw [nearestEven_eq, hquotient, hrest]

theorem nearestEven_mul (t : Nat) (hd : 0 < d) : nearestEven (t * d) d = t := by
  have h := nearestEven_add t hd
  rw [Nat.add_zero, Nat.mul_zero, if_pos hd] at h
  exact h

theorem nearestEven_mono (h : n ≤ n') : nearestEven n d ≤ nearestEven n' d := by
  have hquotient : n / d ≤ n' / d := Nat.div_le_div_right h
  rcases Nat.lt_or_eq_of_le hquotient with hlt | heq
  · have hle : nearestEven n d ≤ n / d + 1 := by
      rw [nearestEven_eq]
      split_ifs <;> omega
    have hge : n' / d ≤ nearestEven n' d := by
      rw [nearestEven_eq]
      split_ifs <;> omega
    exact hle.trans (Nat.le_trans hlt hge)
  · have hrest : n % d ≤ n' % d := by
      have hn := Nat.div_add_mod n d
      have hn' := Nat.div_add_mod n' d
      rw [heq] at hn
      omega
    rw [nearestEven_eq, nearestEven_eq, heq]
    split_ifs <;> omega

end

/-! ## Rounding quanta -/

/-- What a number of quanta is rounded to, be it too large for a double or not. -/
def rounded (n : Nat) : Nat := nearestEven n (2 ^ excess n 1) * 2 ^ excess n 1

theorem excess_of_bits {n k : Nat} (h : 2 ^ (52 + k) ≤ n) (h' : n < 2 ^ (53 + k)) :
    excess n 1 = k := by
  have hne : n ≠ 0 := Nat.ne_of_gt (Nat.lt_of_lt_of_le (Nat.two_pow_pos _) h)
  have hlog : n.log2 = 52 + k := (Nat.log2_eq_iff hne).mpr ⟨h, by rwa [Nat.add_right_comm]⟩
  rw [excess, Nat.div_one, hlog, Nat.add_sub_cancel_left]

theorem rounded_of_bits {n k : Nat} (h : 2 ^ (52 + k) ≤ n) (h' : n < 2 ^ (53 + k)) :
    rounded n = nearestEven n (2 ^ k) * 2 ^ k := by
  rw [rounded, excess_of_bits h h']

theorem excess_of_lt {n : Nat} (h : n < 2 ^ 53) : excess n 1 = 0 := by
  rw [excess, Nat.div_one]
  rcases Nat.eq_zero_or_pos n with rfl | hn
  · rfl
  · have hlt : n.log2 < 53 := (Nat.log2_lt (Nat.ne_of_gt hn)).mpr h
    omega

theorem nearestEven_of_lt {n : Nat} (h : n < 2 ^ 53) : nearestEven n (2 ^ excess n 1) = n := by
  have hn := nearestEven_mul n Nat.one_pos
  rwa [Nat.mul_one, ← Nat.pow_zero 2, ← excess_of_lt h] at hn

theorem rounded_of_lt {n : Nat} (h : n < 2 ^ 53) : rounded n = n := by
  rw [rounded, nearestEven_of_lt h, excess_of_lt h, Nat.pow_zero, Nat.mul_one]

/-- A number that a double can hold has no more bits than 53 above a power of two, and no
less unless that power is one. -/
theorem exists_scale {n : Nat} (h : Representable n) :
    ∃ m k, n = m * 2 ^ k ∧ m < 2 ^ 53 ∧ k ≤ 2045 ∧ (k = 0 ∨ 2 ^ 52 ≤ m) := by
  obtain ⟨m, j, hm, hj, rfl⟩ := h
  simp only [Nat.pow_eq] at *
  induction j generalizing m with
  | zero => exact ⟨m, 0, rfl, hm, hj, .inl rfl⟩
  | succ j ih =>
      by_cases hbits : 2 ^ 52 ≤ m
      · exact ⟨m, j + 1, rfl, hm, hj, .inr hbits⟩
      · -- there is room for one more bit
        obtain ⟨m', k, heq, hrest⟩ := ih (m * 2) (by omega) (by omega)
        refine ⟨m', k, ?_, hrest⟩
        rw [← heq, Nat.pow_succ, Nat.mul_assoc, Nat.mul_comm 2]

theorem representable_scale {m k : Nat} (hm : m ≤ 2 ^ 53) (hk : k < 2045) :
    Representable (m * 2 ^ k) := by
  rcases Nat.lt_or_eq_of_le hm with hlt | rfl
  · exact ⟨m, k, hlt, Nat.le_of_lt hk, rfl⟩
  · exact representable_carry hk

theorem rounded_scale_add {m k r : Nat} (hm : 2 ^ 52 ≤ m) (hm' : m < 2 ^ 53) (hr : r < 2 ^ k) :
    rounded (m * 2 ^ k + r) =
      (if 2 * r < 2 ^ k then m else if 2 ^ k < 2 * r then m + 1 else m + m % 2) * 2 ^ k := by
  have hlow : 2 ^ (52 + k) ≤ m * 2 ^ k + r := by
    rw [Nat.pow_add]
    exact Nat.le_add_right_of_le (Nat.mul_le_mul_right _ hm)
  have hhigh : m * 2 ^ k + r < 2 ^ (53 + k) :=
    calc m * 2 ^ k + r < m * 2 ^ k + 2 ^ k := Nat.add_lt_add_left hr _
      _ = (m + 1) * 2 ^ k := (Nat.succ_mul m _).symm
      _ ≤ 2 ^ 53 * 2 ^ k := Nat.mul_le_mul_right _ hm'
      _ = 2 ^ (53 + k) := (Nat.pow_add 2 53 k).symm
  rw [rounded_of_bits hlow hhigh, nearestEven_add m hr]

theorem rounded_of_representable {n : Nat} (h : Representable n) : rounded n = n := by
  obtain ⟨m, k, rfl, hm, -, hbits⟩ := exists_scale h
  rcases hbits with rfl | hbits
  · rw [Nat.pow_zero, Nat.mul_one]
    exact rounded_of_lt hm
  · have hexact := rounded_scale_add hbits hm (Nat.two_pow_pos k)
    rwa [Nat.add_zero, Nat.mul_zero, if_pos (Nat.two_pow_pos k)] at hexact

theorem exists_bits {n : Nat} (h : 2 ^ 52 ≤ n) : ∃ k, 2 ^ (52 + k) ≤ n ∧ n < 2 ^ (53 + k) := by
  have hne : n ≠ 0 := Nat.ne_of_gt (Nat.lt_of_lt_of_le (Nat.two_pow_pos 52) h)
  have hlog : 52 ≤ n.log2 := (Nat.le_log2 hne).mpr h
  obtain ⟨k, hk⟩ := Nat.exists_eq_add_of_le hlog
  obtain ⟨hlow, hhigh⟩ := (Nat.log2_eq_iff hne).mp hk
  exact ⟨k, hlow, by rwa [Nat.add_right_comm] at hhigh⟩

theorem nearestEven_of_bits {n k : Nat} (h : 2 ^ (52 + k) ≤ n) (h' : n < 2 ^ (53 + k)) :
    2 ^ 52 ≤ nearestEven n (2 ^ k) ∧ nearestEven n (2 ^ k) ≤ 2 ^ 53 := by
  have hpos := Nat.two_pow_pos k
  rw [Nat.pow_add] at h h'
  constructor
  · calc 2 ^ 52 = nearestEven (2 ^ 52 * 2 ^ k) (2 ^ k) := (nearestEven_mul _ hpos).symm
      _ ≤ nearestEven n (2 ^ k) := nearestEven_mono h
  · calc nearestEven n (2 ^ k) ≤ nearestEven (2 ^ 53 * 2 ^ k) (2 ^ k) :=
          nearestEven_mono (Nat.le_of_lt h')
      _ = 2 ^ 53 := nearestEven_mul _ hpos

theorem rounded_mem_bits {n k : Nat} (h : 2 ^ (52 + k) ≤ n) (h' : n < 2 ^ (53 + k)) :
    2 ^ (52 + k) ≤ rounded n ∧ rounded n ≤ 2 ^ (53 + k) := by
  obtain ⟨hlow, hhigh⟩ := nearestEven_of_bits h h'
  rw [rounded_of_bits h h', Nat.pow_add, Nat.pow_add]
  exact ⟨Nat.mul_le_mul_right _ hlow, Nat.mul_le_mul_right _ hhigh⟩

theorem rounded_mono {n n' : Nat} (h : n ≤ n') : rounded n ≤ rounded n' := by
  by_cases hshort' : n' < 2 ^ 53
  · rw [rounded_of_lt (Nat.lt_of_le_of_lt h hshort'), rounded_of_lt hshort']
    exact h
  · obtain ⟨k', hlow', hhigh'⟩ := exists_bits (n := n') (by omega)
    have hrounded' := (rounded_mem_bits hlow' hhigh').1
    by_cases hsame : 2 ^ (52 + k') ≤ n
    · rw [rounded_of_bits hsame (Nat.lt_of_le_of_lt h hhigh'), rounded_of_bits hlow' hhigh']
      exact Nat.mul_le_mul_right _ (nearestEven_mono h)
    · -- a power of two lies between them
      refine Nat.le_trans ?_ hrounded'
      by_cases hshort : n < 2 ^ 53
      · rw [rounded_of_lt hshort]
        omega
      · obtain ⟨k, hlow, hhigh⟩ := exists_bits (n := n) (by omega)
        have hk : 52 + k < 52 + k' :=
          (Nat.pow_lt_pow_iff_right Nat.one_lt_two).mp (Nat.lt_of_le_of_lt hlow (Nat.not_le.mp hsame))
        exact (rounded_mem_bits hlow hhigh).2.trans
          (Nat.pow_le_pow_right Nat.two_pos (by omega))

/-- What is not above a number that a double can hold is not rounded above it. -/
theorem rounded_le {n u : Nat} (hu : Representable u) (h : n ≤ u) : rounded n ≤ u :=
  (rounded_mono h).trans_eq (rounded_of_representable hu)

theorem le_rounded {n u : Nat} (hu : Representable u) (h : u ≤ n) : u ≤ rounded n :=
  (rounded_of_representable hu).symm.trans_le (rounded_mono h)

/-! ## Doubles -/

/-- A result that is not too large has a significand and an exponent in their bounds, unless
the significand is rounded up to the next power of two. -/
theorem carry_of_not_fits {n u : Nat} (hu : Representable u) (hle : rounded n ≤ u)
    (h : ¬(nearestEven n (2 ^ excess n 1) < 2 ^ 53 ∧ excess n 1 ≤ 2045)) :
    nearestEven n (2 ^ excess n 1) = 2 ^ 53 ∧ excess n 1 < 2045 := by
  by_cases hshort : n < 2 ^ 53
  · rw [nearestEven_of_lt hshort, excess_of_lt hshort] at h
    exact absurd ⟨hshort, Nat.zero_le _⟩ h
  · obtain ⟨k, hlow, hhigh⟩ := exists_bits (n := n) (by omega)
    obtain ⟨hleast, hmost⟩ := nearestEven_of_bits hlow hhigh
    obtain ⟨m', k', rfl, hm', hk', -⟩ := exists_scale hu
    rw [rounded_of_bits hlow hhigh] at hle
    rw [excess_of_bits hlow hhigh] at h ⊢
    generalize nearestEven n (2 ^ k) = m at h hle hleast hmost ⊢
    have hexponent {e : Nat} (he : 2 ^ e ≤ m) : e + k < 53 + k' :=
      (Nat.pow_lt_pow_iff_right Nat.one_lt_two).mp <|
        calc 2 ^ (e + k) = 2 ^ e * 2 ^ k := Nat.pow_add 2 e k
          _ ≤ m * 2 ^ k := Nat.mul_le_mul_right _ he
          _ ≤ m' * 2 ^ k' := hle
          _ < 2 ^ 53 * 2 ^ k' := Nat.mul_lt_mul_of_pos_right hm' (Nat.two_pow_pos k')
          _ = 2 ^ (53 + k') := (Nat.pow_add 2 53 k').symm
    have hk := hexponent hleast
    have hm : 2 ^ 53 ≤ m := Nat.not_lt.mp fun hm => h ⟨hm, by omega⟩
    have hk := hexponent hm
    exact ⟨Nat.le_antisymm hmost hm, by omega⟩

/-- Rounding quanta gives as many as `rounded` says, unless they are too many for a double. -/
theorem round_one {n u : Nat} (hu : Representable u) (hle : rounded n ≤ u) (negative : Bool) :
    ∃ fits, round negative n 1 = .finite negative (rounded n) fits := by
  have hrounded : rounded n =
      nearestEven n (1 * Nat.pow 2 (excess n 1)) * Nat.pow 2 (excess n 1) := by
    rw [Nat.one_mul]
    rfl
  by_cases hfits : nearestEven n (1 * Nat.pow 2 (excess n 1)) < Nat.pow 2 53 ∧ excess n 1 ≤ 2045
  · rw [hrounded]
    exact ⟨_, dif_pos hfits⟩
  · -- the significand is rounded up to the next power of two
    obtain ⟨hpow, hlt⟩ : nearestEven n (1 * Nat.pow 2 (excess n 1)) = Nat.pow 2 53 ∧
        excess n 1 < 2045 := by
      rw [Nat.one_mul] at hfits ⊢
      exact carry_of_not_fits hu hle hfits
    rw [hrounded, hpow]
    exact ⟨_, (dif_neg hfits).trans (dif_pos hlt)⟩

/-- Magnitudes are added exactly and rounded once. -/
theorem add_magnitudes {n n' : Nat} {fits : Representable n} {fits' : Representable n'}
    (hpos : n + n' ≠ 0) :
    (Double.finite false n fits).add (.finite false n' fits') = round false (n + n') 1 := by
  have hne : (n : Int) + n' ≠ 0 := by omega
  have hsign : decide ((n : Int) + n' < 0) = false := decide_eq_false (by omega)
  have hsum : ((n : Int) + n').natAbs = n + n' := by omega
  rw [← hsign, ← hsum]
  exact if_neg hne

end Parley.Double
