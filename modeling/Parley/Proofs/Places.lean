import Parley.Proofs.Drawing

/-!
# Rounding to places

A number is scaled by a power of ten, rounded to an integer and scaled back.  For places from
zero up the power is an integer, which becomes a double where it meets the number; below zero it
is a double from the start.  So the way ends at four borders:

    309 places                the power is too large for a double
    0 to 308 places           the product is too large, or everything fits
    -323 to -1 places         everything fits
    -324 places               the power is rounded to zero, and dividing by it is refused

What is too large is said by one number of quanta, `Double.limit`, and `round_of_lt` and
`round_of_le` say that it is the exact border, for quotients of any two integers.  Multiplying
reaches it only with a power of one or more, since the others are doubles of at most one
(`factor_of_neg`).  Adding the half never reaches it (`roundHalfAway_finite`), and neither does
dividing an integer by an integer.  Dividing by a double may: below zero places the result can be
infinite, which is a number.
-/

namespace Parley

namespace Double

/-! ## Quotients -/

section
variable {n d m : Nat}

/-- A tie goes to the even integer, so that one is reached from half way on. -/
theorem nearestEven_lt_iff (hd : 0 < d) (hm : m % 2 = 0) :
    nearestEven n d < m ↔ 2 * n + d < 2 * (m * d) := by
  have hrest := Nat.mod_lt n hd
  have hn : n / d * d + n % d = n := Nat.div_add_mod' n d
  have hnearest := nearestEven_add (n / d) hrest
  rw [hn] at hnearest
  rw [hnearest]
  rcases Nat.lt_trichotomy (n / d + 1) m with hlt | rfl | hgt
  · have hmul := Nat.mul_le_mul_right d (show n / d + 2 ≤ m by omega)
    rw [Nat.add_mul] at hmul
    split_ifs <;> omega
  · rw [Nat.add_mul, Nat.one_mul]
    split_ifs <;> omega
  · have hmul := Nat.mul_le_mul_right d (show m ≤ n / d by omega)
    split_ifs <;> omega

/-- What a quotient is rounded to, be it too large for a double or not. -/
def ratio (n d : Nat) : Nat := nearestEven n (d * 2 ^ excess n d) * 2 ^ excess n d

theorem rounded_eq_ratio (n : Nat) : rounded n = ratio n 1 := by
  rw [ratio, Nat.one_mul, rounded]

theorem lt_of_excess (hd : 0 < d) : n < 2 ^ 53 * (d * 2 ^ excess n d) := by
  have hlog : n / d < 2 ^ (53 + excess n d) :=
    Nat.lt_log2_self.trans_le (Nat.pow_le_pow_right Nat.two_pos (by rw [excess]; omega))
  rw [Nat.div_lt_iff_lt_mul hd, Nat.pow_add] at hlog
  rwa [Nat.mul_comm d, ← Nat.mul_assoc]

theorem le_of_excess (h : 0 < excess n d) : 2 ^ 52 * (d * 2 ^ excess n d) ≤ n := by
  have hlog : 52 + excess n d = (n / d).log2 := by
    rw [excess] at h ⊢
    omega
  have hne : n / d ≠ 0 := by
    intro hzero
    rw [hzero, Nat.log2_zero] at hlog
    omega
  have hpow := Nat.log2_self_le hne
  rw [← hlog, Nat.pow_add] at hpow
  calc 2 ^ 52 * (d * 2 ^ excess n d) = 2 ^ 52 * 2 ^ excess n d * d := by
        rw [Nat.mul_comm d, Nat.mul_assoc]
    _ ≤ n / d * d := Nat.mul_le_mul_right d hpow
    _ ≤ n := Nat.div_mul_le_self n d

theorem mul_two_pow_excess_le (h : d ≤ n) : d * 2 ^ excess n d ≤ n := by
  rcases Nat.eq_zero_or_pos (excess n d) with hzero | hpos
  · rwa [hzero, Nat.pow_zero, Nat.mul_one]
  · exact (Nat.le_mul_of_pos_left _ (Nat.two_pow_pos 52)).trans (le_of_excess hpos)

/-- A quotient of at least one is not rounded to zero, and to less than twice its size. -/
theorem ratio_of_le (hd : 0 < d) (h : d ≤ n) : 0 < ratio n d ∧ d * ratio n d ≤ 2 * n := by
  have hscale := mul_two_pow_excess_le h
  have hpos : 0 < d * 2 ^ excess n d := Nat.mul_pos hd (Nat.two_pow_pos _)
  have hquotient : 0 < n / (d * 2 ^ excess n d) := Nat.div_pos hscale hpos
  have hcases : n / (d * 2 ^ excess n d) ≤ nearestEven n (d * 2 ^ excess n d) ∧
      nearestEven n (d * 2 ^ excess n d) ≤ n / (d * 2 ^ excess n d) + 1 := by
    rw [nearestEven_eq]
    split_ifs <;> omega
  refine ⟨Nat.mul_pos (hquotient.trans_le hcases.1) (Nat.two_pow_pos _), ?_⟩
  calc d * ratio n d = nearestEven n (d * 2 ^ excess n d) * (d * 2 ^ excess n d) := by
        rw [ratio, Nat.mul_left_comm]
    _ ≤ (n / (d * 2 ^ excess n d) + 1) * (d * 2 ^ excess n d) := Nat.mul_le_mul_right _ hcases.2
    _ = n / (d * 2 ^ excess n d) * (d * 2 ^ excess n d) + d * 2 ^ excess n d := Nat.succ_mul _ _
    _ ≤ n + n := Nat.add_le_add (Nat.div_mul_le_self _ _) hscale
    _ = 2 * n := (Nat.two_mul n).symm

theorem ratio_of_lt_half (h : 2 * n < d) : ratio n d = 0 := by
  have hlt : n < d := by omega
  have hexcess : excess n d = 0 := by
    rw [excess, Nat.div_eq_of_lt hlt]
    rfl
  have hnearest := nearestEven_add 0 hlt
  rw [Nat.zero_mul, Nat.zero_add, if_pos h] at hnearest
  rw [ratio, hexcess, Nat.pow_zero, Nat.mul_one, Nat.mul_one, hnearest]

/-! ## Too large for a double -/

/-- Half way from the greatest double to the next power of two, in quanta: from here on a number
is rounded to the power, which is infinity. -/
def limit : Nat := (2 ^ 54 - 1) * Nat.pow 2 2044

theorem limit_eq {e : Nat} : e = 2044 → limit = (2 ^ 54 - 1) * 2 ^ e := by
  rintro rfl
  decide +kernel

theorem lt_limit_iff (hd : 0 < d) : n < limit * d ↔ excess n d < 2045 ∨
    excess n d = 2045 ∧ nearestEven n (d * 2 ^ excess n d) < 2 ^ 53 := by
  obtain ⟨e, he⟩ : ∃ e, e = 2044 := ⟨_, rfl⟩
  obtain ⟨s, hs⟩ : ∃ s, s = d * 2 ^ e := ⟨_, rfl⟩
  have hpos : 0 < s := hs ▸ Nat.mul_pos hd (Nat.two_pow_pos e)
  have hlimit : limit * d = (2 ^ 54 - 1) * s := by
    rw [limit_eq he, hs, Nat.mul_assoc, Nat.mul_comm d]
  have hdouble : d * 2 ^ (e + 1) = 2 * s := by
    rw [hs, Nat.pow_succ', Nat.mul_left_comm]
  rw [hlimit]
  rcases Nat.lt_trichotomy (excess n d) (e + 1) with hlt | heq | hgt
  · have hscale : d * 2 ^ excess n d ≤ s :=
      hs ▸ Nat.mul_le_mul_left d (Nat.pow_le_pow_right Nat.two_pos (Nat.le_of_lt_succ hlt))
    have hn := lt_of_excess (n := n) hd
    omega
  · rw [heq, hdouble, nearestEven_lt_iff (by omega) (by decide)]
    omega
  · have hscale : d * 2 ^ (e + 1 + 1) ≤ d * 2 ^ excess n d :=
      Nat.mul_le_mul_left d (Nat.pow_le_pow_right Nat.two_pos hgt)
    rw [Nat.pow_succ', Nat.mul_left_comm, hdouble] at hscale
    have hn := le_of_excess (show 0 < excess n d by omega)
    omega

theorem round_of_lt (hd : 0 < d) (h : n < limit * d) (negative : Bool) :
    ∃ fits, round negative n d = .finite negative (ratio n d) fits := by
  have hcases := (lt_limit_iff hd).mp h
  by_cases hfits : nearestEven n (d * 2 ^ excess n d) < Nat.pow 2 53 ∧ excess n d ≤ 2045
  · exact ⟨_, dif_pos hfits⟩
  · -- the significand is rounded up to the next power of two
    have hmost : nearestEven n (d * 2 ^ excess n d) ≤ 2 ^ 53 :=
      (nearestEven_mono (Nat.le_of_lt (lt_of_excess hd))).trans_eq
        (nearestEven_mul _ (Nat.mul_pos hd (Nat.two_pow_pos _)))
    obtain ⟨hpow, hlt⟩ : nearestEven n (d * 2 ^ excess n d) = Nat.pow 2 53 ∧
        excess n d < 2045 := by
      rw [Nat.pow_eq] at hfits ⊢
      omega
    rw [ratio, hpow]
    exact ⟨_, (dif_neg hfits).trans (dif_pos hlt)⟩

theorem round_of_le (hd : 0 < d) (h : limit * d ≤ n) (negative : Bool) :
    round negative n d = .infinite negative := by
  have hcases := (lt_limit_iff hd).not.mp (Nat.not_lt.mpr h)
  have hfits : ¬(nearestEven n (d * 2 ^ excess n d) < Nat.pow 2 53 ∧ excess n d ≤ 2045) := by
    rw [Nat.pow_eq]
    omega
  exact (dif_neg hfits).trans (dif_neg fun hlt => hcases (.inl hlt))

end

theorem lt_limit {n : Nat} (h : Representable n) : n < limit := by
  refine Nat.lt_of_not_le fun hle => ?_
  obtain ⟨fits, hround⟩ := round_one h (Nat.le_of_eq (rounded_of_representable h)) false
  rw [round_of_le Nat.one_pos ((Nat.mul_one limit).trans_le hle)] at hround
  cases hround

/-- The powers of ten next to the borders of the doubles. -/
theorem ten_pow_borders {e : Nat} : (e = 308 → 10 ^ e * one < limit) ∧
    (e = 309 → limit ≤ 10 ^ e * one) ∧ (e = 323 → 10 ^ e ≤ one) ∧ (e = 324 → 2 * one < 10 ^ e) := by
  refine ⟨?_, ?_, ?_, ?_⟩
  all_goals
    rintro rfl
    decide +kernel

theorem ten_pow_mul_one_lt {j : Nat} (h : j ≤ 308) : 10 ^ j * one < limit := by
  obtain ⟨e, he⟩ : ∃ e, e = 308 := ⟨_, rfl⟩
  have hpow : 10 ^ j ≤ 10 ^ e := Nat.pow_le_pow_right (by decide) (h.trans_eq he.symm)
  exact (Nat.mul_le_mul_right one hpow).trans_lt (ten_pow_borders.1 he)

theorem limit_le_ten_pow_mul_one {j : Nat} (h : 309 ≤ j) : limit ≤ 10 ^ j * one := by
  obtain ⟨e, he⟩ : ∃ e, e = 309 := ⟨_, rfl⟩
  have hpow : 10 ^ e ≤ 10 ^ j := Nat.pow_le_pow_right (by decide) (he.trans_le h)
  exact (ten_pow_borders.2.1 he).trans (Nat.mul_le_mul_right one hpow)

theorem ten_pow_le_one {j : Nat} (h : j ≤ 323) : 10 ^ j ≤ one := by
  obtain ⟨e, he⟩ : ∃ e, e = 323 := ⟨_, rfl⟩
  have hpow : 10 ^ j ≤ 10 ^ e := Nat.pow_le_pow_right (by decide) (h.trans_eq he.symm)
  exact hpow.trans (ten_pow_borders.2.2.1 he)

theorem two_mul_one_lt_ten_pow {j : Nat} (h : 324 ≤ j) : 2 * one < 10 ^ j := by
  obtain ⟨e, he⟩ : ∃ e, e = 324 := ⟨_, rfl⟩
  have hpow : 10 ^ e ≤ 10 ^ j := Nat.pow_le_pow_right (by decide) (he.trans_le h)
  exact (ten_pow_borders.2.2.2 he).trans_le hpow

end Double

namespace Standard

open Double

variable {x p : Double} {v k : Int}

/-! ## The factor -/

theorem factor_of_far (h : 309 ≤ k) : ∃ i : Int,
    factor (max leastPlaces (min greatestPlaces k)) = .int i ∧ ofInt? i = none := by
  obtain ⟨j, hj, hleast⟩ : ∃ j : Nat, max leastPlaces (min greatestPlaces k) = j ∧ 309 ≤ j := by
    refine ⟨(max leastPlaces (min greatestPlaces k)).toNat, ?_, ?_⟩
    all_goals
      rw [leastPlaces, greatestPlaces]
      omega
  have hlarge : limit * 1 ≤ 10 ^ j * one := by
    rw [Nat.mul_one]
    exact limit_le_ten_pow_mul_one hleast
  refine ⟨((10 ^ j : Nat) : Int), ?_, ?_⟩
  · rw [hj, factor, if_neg (by omega), Int.toNat_natCast]
    rfl
  · rw [ofInt?, Int.natAbs_natCast, round_of_le Nat.one_pos hlarge, inRange?]

theorem factor_of_nonneg (h : 0 ≤ k) (h' : k < 309) : ∃ (i : Nat) (fits : _), 0 < i ∧
    factor (max leastPlaces (min greatestPlaces k)) = .int i ∧
    ofInt? i = some (.finite false (rounded (10 ^ k.toNat * one)) fits) := by
  have hk : max leastPlaces (min greatestPlaces k) = k := by
    rw [leastPlaces, greatestPlaces]
    omega
  have hsmall : 10 ^ k.toNat * one < limit * 1 := by
    rw [Nat.mul_one]
    exact ten_pow_mul_one_lt (by omega)
  rw [rounded_eq_ratio]
  obtain ⟨fits, hround⟩ := round_of_lt Nat.one_pos hsmall false
  refine ⟨10 ^ k.toNat, fits, Nat.pow_pos (by decide), ?_, ?_⟩
  · rw [hk, factor, if_neg (Int.not_lt.mpr h)]
    rfl
  · rw [ofInt?, Int.natAbs_natCast, decide_eq_false (Int.not_lt.mpr (Int.natCast_nonneg _)), hround,
      inRange?]
    rintro s ⟨⟩

/-- Below zero places it is a double that is at most one, and zero from -324 places down. -/
theorem factor_of_neg (h : k < 0) : ∃ (u : Nat) (fits : _),
    factor (max leastPlaces (min greatestPlaces k)) = .real (.finite false u fits) ∧
    u ≤ one ∧ (u = 0 ↔ k ≤ -324) := by
  obtain ⟨j, hj, hpos, hfar⟩ : ∃ j : Nat, max leastPlaces (min greatestPlaces k) = -j ∧ 0 < j ∧
      (k ≤ -324 ↔ 324 ≤ j) := by
    refine ⟨(-max leastPlaces (min greatestPlaces k)).toNat, ?_, ?_, ?_⟩
    all_goals
      rw [leastPlaces, greatestPlaces]
      omega
  have hten : 0 < 10 ^ j := Nat.pow_pos (by decide)
  have hone : one < limit * 10 ^ j :=
    calc one = 1 * one := (Nat.one_mul one).symm
      _ < limit := lt_limit (representable_mul_one (by decide))
      _ ≤ limit * 10 ^ j := Nat.le_mul_of_pos_right limit hten
  obtain ⟨fits, hround⟩ := round_of_lt hten hone false
  refine ⟨ratio one (10 ^ j), fits, ?_, ?_⟩
  · rw [hj, factor, if_pos (by omega), Int.neg_neg, Int.toNat_natCast]
    exact congrArg Num.real hround
  · rw [hfar]
    rcases Nat.lt_or_ge j 324 with hj | hj
    · obtain ⟨hleast, hmost⟩ := ratio_of_le hten (ten_pow_le_one (Nat.le_of_lt_succ hj))
      have hpower : 10 ≤ 10 ^ j := Nat.le_self_pow (Nat.ne_of_gt hpos) 10
      have hmul := Nat.mul_le_mul_right (ratio one (10 ^ j)) hpower
      omega
    · rw [ratio_of_lt_half (two_mul_one_lt_ten_pow hj)]
      exact ⟨Nat.zero_le one, iff_of_true rfl hj⟩

/-! ## Scaling and scaling back -/

/-- A number is scaled, rounded to an integer, and scaled back. -/
def rescaled (x : Double) (f : Num) : Except Fault Double := do
  let scaled ← (Num.real x).mul f
  (Num.int (← roundHalfAway scaled)).div f

theorem toPlaces_eq (hp : p.trunc? = some k) : toPlaces (.float x) (.float p) =
    rescaled x (factor (max leastPlaces (min greatestPlaces k))) := by
  have hplaces : (Datum.float p).asInt = .ok k := by
    show Num.whole trunc? (.real p) = _
    rw [Num.whole, hp]
  rw [toPlaces, hplaces, ok_bind]
  rfl

theorem rescaled_int (x : Double) (i : Int) : rescaled x (.int i) =
    Num.doubleOfInt i >>= fun y => roundHalfAway (.real (x.mul y)) >>= fun t =>
      (Num.int t).div (.int i) := by
  simp only [rescaled, Num.mul, Num.combine, Num.toDouble]
  generalize Num.doubleOfInt i = r
  cases r <;> rfl

theorem rescaled_real (x y : Double) : rescaled x (.real y) =
    roundHalfAway (.real (x.mul y)) >>= fun t => (Num.int t).div (.real y) := rfl

theorem roundHalfAway_infinite (negative : Bool) :
    roundHalfAway (.real (.infinite negative)) = .error (.accident .overflow) := by
  rw [roundHalfAway, half_eq]
  rfl

theorem roundHalfAway_mul (negative : Bool) {n u : Nat} (fits : Representable n)
    (fits' : Representable u) :
    (n * u < limit * one → ∃ t, Representable (t.natAbs * one) ∧
      roundHalfAway (.real ((Double.finite negative n fits).mul (.finite false u fits'))) = .ok t) ∧
    (limit * one ≤ n * u →
      roundHalfAway (.real ((Double.finite negative n fits).mul (.finite false u fits'))) =
        .error (.accident .overflow)) := by
  rw [Double.mul, Bool.bne_false]
  refine ⟨fun h => ?_, fun h => ?_⟩
  · obtain ⟨hfits, hround⟩ := round_of_lt Double.one_pos h negative
    obtain ⟨hwhole, ht⟩ := roundHalfAway_finite negative hfits
    rw [hround]
    refine ⟨_, ?_, ht⟩
    rwa [natAbs_signed]
  · rw [round_of_le Double.one_pos h]
    exact roundHalfAway_infinite negative

theorem doubleOfInt_whole {t : Int} (h : Representable (t.natAbs * one)) :
    Num.doubleOfInt t = .ok (.finite (decide (t < 0)) (t.natAbs * one) h) :=
  doubleOfInt_of_some (ofInt?_of_representable rfl h)

theorem div_int {t : Int} {i : Nat} (hi : 0 < i) (h : Representable (t.natAbs * one)) :
    ∃ y, (Num.int t).div (.int i) = .ok y := by
  have hlt : t.natAbs * one < limit * (i : Int).natAbs := by
    rw [Int.natAbs_natCast]
    exact (lt_limit h).trans_le (Nat.le_mul_of_pos_right limit hi)
  have hpos : 0 < (i : Int).natAbs := by omega
  obtain ⟨fits, hround⟩ := round_of_lt hpos hlt (decide (t < 0) != decide ((i : Int) < 0))
  rw [Num.div, if_neg (by omega), ofRatio, hround]
  exact ⟨_, rfl⟩

theorem div_real {t : Int} {u : Nat} (fits : Representable u)
    (h : Representable (t.natAbs * one)) :
    (u = 0 →
      (Num.int t).div (.real (.finite false u fits)) = .error (.accident .zeroDivision)) ∧
    (u ≠ 0 → ∃ y, (Num.int t).div (.real (.finite false u fits)) = .ok y) := by
  have hdiv : (Num.int t).div (.real (.finite false u fits)) =
      if (Double.finite false u fits).isZero then .error (.accident .zeroDivision)
      else .ok ((Double.finite (decide (t < 0)) (t.natAbs * one) h).div
        (.finite false u fits)) := by
    simp only [Num.div, Num.toDouble]
    rw [doubleOfInt_whole h]
    rfl
  rw [hdiv, isZero]
  exact ⟨fun hu => if_pos (beq_iff_eq.mpr hu), fun hu => ⟨_, if_neg (mt beq_iff_eq.mp hu)⟩⟩

/-! ## Where there is a result -/

/-- A number of so many quanta can be rounded to these places: the power of ten is neither zero
nor too large, and the product with it is not too large either. -/
structure InReach (quanta : Nat) (places : Int) : Prop where
  least : -324 < places
  most : places < 309
  product : 0 ≤ places → quanta * rounded (10 ^ places.toNat * one) < limit * one

theorem toPlaces_of_far (hp : p.trunc? = some k) (h : 309 ≤ k) :
    toPlaces (.float x) (.float p) = .error (.accident .overflow) := by
  obtain ⟨i, hfactor, hnone⟩ := factor_of_far h
  rw [toPlaces_eq hp, hfactor, rescaled_int, doubleOfInt_eq]
  dsimp only
  rw [hnone]
  rfl

theorem toPlaces_of_nonneg (negative : Bool) {n : Nat} (fits : Representable n)
    (hp : p.trunc? = some k) (h : 0 ≤ k) (h' : k < 309) :
    (n * rounded (10 ^ k.toNat * one) < limit * one →
      ∃ y, toPlaces (.float (.finite negative n fits)) (.float p) = .ok y) ∧
    (limit * one ≤ n * rounded (10 ^ k.toNat * one) →
      toPlaces (.float (.finite negative n fits)) (.float p) = .error (.accident .overflow)) := by
  obtain ⟨i, fits', hi, hfactor, hdouble⟩ := factor_of_nonneg h h'
  obtain ⟨hsmall, hlarge⟩ := roundHalfAway_mul negative fits fits'
  have hrescaled : toPlaces (.float (.finite negative n fits)) (.float p) =
      roundHalfAway (.real ((Double.finite negative n fits).mul (.finite false _ fits'))) >>=
        fun t => (Num.int t).div (.int i) := by
    rw [toPlaces_eq hp, hfactor, rescaled_int, doubleOfInt_of_some hdouble, ok_bind]
  rw [hrescaled]
  refine ⟨fun h => ?_, fun h => ?_⟩
  · obtain ⟨t, hwhole, ht⟩ := hsmall h
    rw [ht, ok_bind]
    exact div_int hi hwhole
  · rw [hlarge h]
    rfl

theorem toPlaces_of_neg (negative : Bool) {n : Nat} (fits : Representable n)
    (hp : p.trunc? = some k) (h : k < 0) :
    (-324 < k → ∃ y, toPlaces (.float (.finite negative n fits)) (.float p) = .ok y) ∧
    (k ≤ -324 → toPlaces (.float (.finite negative n fits)) (.float p) =
      .error (.accident .zeroDivision)) := by
  obtain ⟨u, fits', hfactor, hone, hzero⟩ := factor_of_neg h
  have hsmall : n * u < limit * one :=
    calc n * u ≤ n * one := Nat.mul_le_mul_left n hone
      _ < limit * one := Nat.mul_lt_mul_of_pos_right (lt_limit fits) Double.one_pos
  obtain ⟨t, hwhole, ht⟩ := (roundHalfAway_mul negative fits fits').1 hsmall
  obtain ⟨hvanishing, hleft⟩ := div_real fits' hwhole
  rw [toPlaces_eq hp, hfactor, rescaled_real, ht, ok_bind]
  exact ⟨fun h => hleft (hzero.not.mpr (Int.not_le.mpr h)), fun h => hvanishing (hzero.mpr h)⟩

/-- What rounding a finite number to places comes to. -/
theorem toPlaces_cases (hx : x.scaled? = some v) (hp : p.trunc? = some k) :
    (InReach v.natAbs k → ∃ y, toPlaces (.float x) (.float p) = .ok y) ∧
    (k ≤ -324 → toPlaces (.float x) (.float p) = .error (.accident .zeroDivision)) ∧
    (-324 < k → ¬ InReach v.natAbs k →
      toPlaces (.float x) (.float p) = .error (.accident .overflow)) := by
  cases x with
  | nan | infinite => cases hx
  | finite negative n fits =>
      obtain rfl : signed negative n = v := Option.some.inj hx
      rw [natAbs_signed]
      rcases Int.lt_or_le k 0 with hneg | hnonneg
      · obtain ⟨hreach, hzero⟩ := toPlaces_of_neg negative fits hp hneg
        exact ⟨fun h => hreach h.least, hzero, fun h hnot =>
          (hnot ⟨h, by omega, fun h => by omega⟩).elim⟩
      · refine ⟨fun h => ?_, fun h => by omega, fun hleast hnot => ?_⟩
        · exact (toPlaces_of_nonneg negative fits hp hnonneg h.most).1 (h.product hnonneg)
        · rcases Int.lt_or_le k 309 with hmost | hfar
          · exact (toPlaces_of_nonneg negative fits hp hnonneg hmost).2
              (Nat.not_lt.mp fun h => hnot ⟨hleast, hmost, fun _ => h⟩)
          · exact toPlaces_of_far hp hfar

end Standard

namespace Session

open Act Double Standard

variable {H I : Type}

theorem yields_places (w : World H I) (x p : Double) :
    Yields (callStandard "round_places" (.ok [.number x, .number p])) w
      ((toPlaces (.float x) (.float p)).map .number) w.undrawn := by
  have hrun : (Standard.apply .roundPlaces [.float x, .float p]).run { w.source with drawn := [] } =
      ((toPlaces (.float x) (.float p)).map .float, w.undrawn.source) := by
    rw [Standard.apply]
    generalize toPlaces (.float x) (.float p) = r
    cases r <;> rfl
  have hcall := yields_callStandard .roundPlaces w [x, p] hrun
  have hfinish : ((toPlaces (.float x) (.float p)).map .float >>= ScriptFunction.finish
      ⟨Standard.name .roundPlaces, .standard .roundPlaces, Standard.returns .roundPlaces⟩) =
      (toPlaces (.float x) (.float p)).map .number := by
    generalize toPlaces (.float x) (.float p) = r
    cases r <;> rfl
  rw [hfinish, World.undrawn, List.map_nil, List.append_nil] at hcall
  exact hcall

/-- A finite number rounded to a finite number of places is a number exactly where the power of
ten and the product with it are within the doubles.  The division by a power that vanishes is
refused, and what is too large is an overflow. -/
theorem rounded_to_places (w : World H I) {x p : Double} {v k : Int} (hx : x.scaled? = some v)
    (hp : p.trunc? = some k) :
    ∃ r, Yields (callStandard "round_places" (.ok [.number x, .number p])) w r w.undrawn ∧
      ((∃ y, r = .ok (.number y)) ↔ InReach v.natAbs k) ∧
      (k ≤ -324 → r = .error (.accident .zeroDivision)) ∧
      (-324 < k → ¬ InReach v.natAbs k → r = .error (.accident .overflow)) := by
  refine ⟨_, yields_places w x p, ?_⟩
  obtain ⟨hreach, hzero, hover⟩ := toPlaces_cases hx hp
  generalize toPlaces (.float x) (.float p) = r at *
  refine ⟨⟨fun ⟨y, hy⟩ => ?_, fun h => ?_⟩, fun h => ?_, fun h hnot => ?_⟩
  · by_contra hnot
    rcases Int.lt_or_le (-324) k with hk | hk
    · rw [hover hk hnot] at hy
      cases hy
    · rw [hzero hk] at hy
      cases hy
  · obtain ⟨y, rfl⟩ := hreach h
    exact ⟨y, rfl⟩
  · rw [hzero h]
    rfl
  · rw [hover h hnot]
    rfl

/-- Two and a half can be rounded to one place. -/
theorem rounded_to_places_of_five_halves : ∃ y,
    (ofBits 0x4004000000000000).scaled? = some (5 * halfOne : Int) ∧
    (ofBits 0x3ff0000000000000).trunc? = some 1 ∧ InReach (5 * halfOne : Int).natAbs 1 ∧
    Yields (callStandard "round_places"
        (.ok [.number (ofBits 0x4004000000000000), .number (ofBits 0x3ff0000000000000)]))
      unused (.ok (.number y)) unused := by
  have hx : (ofBits 0x4004000000000000).scaled? = some (5 * halfOne : Int) := by decide +kernel
  have hp : (ofBits 0x3ff0000000000000).trunc? = some 1 := by decide +kernel
  have hreach : InReach (5 * halfOne : Int).natAbs 1 :=
    ⟨by decide, by decide, fun _ => by decide +kernel⟩
  obtain ⟨r, hyields, hok, -⟩ := rounded_to_places unused hx hp
  obtain ⟨y, rfl⟩ := hok.mpr hreach
  exact ⟨y, hx, hp, hreach, hyields⟩

/-- With 400 places, with 400 before the point, and with ten of 1e300 the caller is thrown out. -/
theorem places_out_of_reach :
    Yields (callStandard "round_places"
        (.ok [.number (ofBits 0x3ff8000000000000), .number (ofBits 0x4079000000000000)]))
      unused (.error (.accident .overflow)) unused ∧
    Yields (callStandard "round_places"
        (.ok [.number (ofBits 0x3ff8000000000000), .number (ofBits 0xc079000000000000)]))
      unused (.error (.accident .zeroDivision)) unused ∧
    Yields (callStandard "round_places"
        (.ok [.number (ofBits 0x7e37e43c8800759c), .number (ofBits 0x4024000000000000)]))
      unused (.error (.accident .overflow)) unused := by
  have hfar := toPlaces_of_far (x := ofBits 0x3ff8000000000000) (p := ofBits 0x4079000000000000)
    (k := 400) (by decide +kernel) (by decide)
  have hvanishing := (toPlaces_cases (x := ofBits 0x3ff8000000000000)
    (p := ofBits 0xc079000000000000) (v := 3 * halfOne) (k := -400) (by decide +kernel)
    (by decide +kernel)).2.1 (by decide)
  have hlarge := (toPlaces_cases (x := ofBits 0x7e37e43c8800759c) (p := ofBits 0x4024000000000000)
    (k := 10) rfl (by decide +kernel)).2.2 (by decide)
    fun h => absurd (h.product (by decide)) (by decide +kernel)
  refine ⟨?_, ?_, ?_⟩
  · have hyields := yields_places unused (ofBits 0x3ff8000000000000) (ofBits 0x4079000000000000)
    rwa [hfar] at hyields
  · have hyields := yields_places unused (ofBits 0x3ff8000000000000) (ofBits 0xc079000000000000)
    rwa [hvanishing] at hyields
  · have hyields := yields_places unused (ofBits 0x7e37e43c8800759c) (ofBits 0x4024000000000000)
    rwa [hlarge] at hyields

end Session

end Parley
