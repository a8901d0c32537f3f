import Parley.Proofs.Nearest

/-!
# Draws between bounds

`random_range` between whole bounds and `dice` draw an integer of any size, and scripts get the
double nearest to it.  Above `2 ^ 53` that may be another integer.  It lies between the bounds all
the same, because these are doubles themselves: rounding is monotone and keeps a double
(`rounded_le`, `le_rounded`), and an integer is rounded to an integer (`exists_rounded_mul_one`),
so that no bound is passed on either side of zero (`Double.ofInt?_between`).  One bound of a die
is cut from a double; what is left is again a double (`representable_whole`).

The source is any.  `Source.Gives` says which integer it gives next, and all sources together give
exactly the integers between the bounds (`Source.Gives.between`, `Source.exists_gives`).  So what
holds for every source holds for every answer that a source may give.
-/

namespace Parley

namespace Double

/-! ## Integers as doubles -/

theorem exists_rounded_mul_one (t : Nat) : ∃ t', rounded (t * one) = t' * one := by
  rcases Nat.lt_or_ge (t * one) (2 ^ 52) with hshort | hlong
  · exact ⟨t, rounded_of_lt (hshort.trans (Nat.pow_lt_pow_right Nat.one_lt_two (by decide)))⟩
  · obtain ⟨k, hlow, hhigh⟩ := exists_bits hlong
    rw [rounded_of_bits hlow hhigh]
    rcases Nat.le_total 1074 k with hk | hk
    · refine ⟨nearestEven (t * one) (2 ^ k) * 2 ^ (k - 1074), ?_⟩
      rw [Nat.mul_assoc, ← two_pow_eq_mul_one hk]
    · obtain ⟨e, he⟩ : ∃ e, e = 1074 := ⟨_, rfl⟩
      have hone : one = 2 ^ (e - k) * 2 ^ k := by
        rw [← Nat.pow_add, Nat.sub_add_cancel (he ▸ hk), two_pow_eq_one he]
      refine ⟨t, ?_⟩
      rw [hone, ← Nat.mul_assoc, nearestEven_mul _ (Nat.two_pow_pos k)]

theorem signed_mul (negative : Bool) (n d : Nat) :
    signed negative (n * d) = signed negative n * d := by
  cases negative with
  | false => exact Int.natCast_mul n d
  | true => exact (congrArg Neg.neg (Int.natCast_mul n d)).trans (Int.neg_mul n d).symm

/-- The double nearest to an integer is an integer, and passes no bound that is a double. -/
theorem ofInt?_between {a b i : Int} (ha : Representable (a.natAbs * one))
    (hb : Representable (b.natAbs * one)) (hai : a ≤ i) (hib : i ≤ b) :
    ∃ (x : Double) (j : Int), ofInt? i = some x ∧ x.scaled? = some (j * one) ∧ a ≤ j ∧ j ≤ b := by
  have hone := one_pos
  obtain ⟨t, ht⟩ := exists_rounded_mul_one i.natAbs
  -- a bound that is not nearer to zero on the same side, and one that is not further
  have hle {c : Int} (hc : Representable (c.natAbs * one)) (h : i.natAbs ≤ c.natAbs) :
      t ≤ c.natAbs := by
    have hrounded := rounded_le hc (Nat.mul_le_mul_right one h)
    rw [ht] at hrounded
    exact Nat.le_of_mul_le_mul_right hrounded hone
  have hge {c : Int} (hc : Representable (c.natAbs * one)) (h : c.natAbs ≤ i.natAbs) :
      c.natAbs ≤ t := by
    have hrounded := le_rounded hc (Nat.mul_le_mul_right one h)
    rw [ht] at hrounded
    exact Nat.le_of_mul_le_mul_right hrounded hone
  obtain ⟨u, hu, hbound⟩ : ∃ u, Representable u ∧ rounded (i.natAbs * one) ≤ u := by
    rcases Int.lt_or_le i 0 with hi | hi
    · exact ⟨_, ha, rounded_le ha (Nat.mul_le_mul_right one (by omega))⟩
    · exact ⟨_, hb, rounded_le hb (Nat.mul_le_mul_right one (by omega))⟩
  obtain ⟨fits, hround⟩ := round_one hu hbound (decide (i < 0))
  refine ⟨.finite (decide (i < 0)) (rounded (i.natAbs * one)) fits, signed (decide (i < 0)) t,
    ?_, ?_, ?_⟩
  · rw [ofInt?, hround]
    rfl
  · rw [scaled?, ht, signed_mul]
  · have hleft := hle ha
    have hright := hle hb
    have hleft' := hge ha
    have hright' := hge hb
    rcases Int.lt_or_le i 0 with hi | hi
    · rw [decide_eq_true hi, signed, if_pos rfl]
      omega
    · rw [decide_eq_false (Int.not_lt.mpr hi), signed, if_neg Bool.false_ne_true]
      omega

theorem eq_of_scaled_mul_one {negative : Bool} {n : Nat} {fits : Representable n} {a : Int}
    (h : (Double.finite negative n fits).scaled? = some (a * one)) :
    n = a.natAbs * one ∧ signed negative a.natAbs = a := by
  have hvalue : signed negative n = a * one := Option.some.inj h
  have hn : n = a.natAbs * one := by
    rw [← natAbs_signed negative n, hvalue, Int.natAbs_mul, Int.natAbs_natCast]
  refine ⟨hn, ?_⟩
  rw [hn, signed_mul] at hvalue
  exact Int.eq_of_mul_eq_mul_right (Int.natCast_ne_zero.mpr (Nat.ne_of_gt one_pos)) hvalue

theorem representable_of_scaled {x : Double} {a : Int} (h : x.scaled? = some (a * one)) :
    Representable (a.natAbs * one) := by
  cases x with
  | nan | infinite => cases h
  | finite negative n fits => exact (eq_of_scaled_mul_one h).1 ▸ fits

end Double

namespace Standard

open Double

variable {x y z : Double} {a b i : Int} {s s' : Source}

theorem whole_of_scaled (h : x.scaled? = some (a * one)) :
    isWhole (.float x) = .ok true ∧ (Datum.float x).asInt = .ok a := by
  cases x with
  | nan | infinite => cases h
  | finite negative n fits =>
      obtain ⟨hn, hsign⟩ := eq_of_scaled_mul_one h
      have hintegral : (Double.finite negative n fits).isIntegral = true := by
        rw [isIntegral, hn, Nat.mul_mod_left]
        rfl
      have htrunc : (Double.finite negative n fits).trunc? = some a := by
        rw [trunc?, hn, Nat.mul_div_cancel _ Double.one_pos, hsign]
      refine ⟨congrArg Except.ok hintegral, ?_⟩
      show Num.whole trunc? (.real (.finite negative n fits)) = _
      rw [Num.whole, htrunc]

theorem run_bind_of_ok {α β : Type} {act : Chance α} {f : α → Chance β} {c : α}
    (h : act.run s = (.ok c, s')) : (act >>= f).run s = (f c).run s' := by
  show (match act.run s with | (r, u) => ExceptT.bindCont f r u) = _
  rw [h]
  rfl

theorem apply_range (hx : x.scaled? = some (a * one)) (hy : y.scaled? = some (b * one))
    (hdraw : (Chance.integer a b).run s = (.ok i, s')) (hz : ofInt? i = some z) :
    (apply .randomRange [.float x, .float y]).run s = (.ok (.float z), s') := by
  obtain ⟨hwhole, ha⟩ := whole_of_scaled hx
  obtain ⟨hwhole', hb⟩ := whole_of_scaled hy
  rw [apply, range, hwhole, hwhole', ha, hb]
  show (Chance.integer a b >>= fun d => liftM (Num.doubleOfInt d) >>= fun d =>
    pure (Datum.float d)).run s = _
  rw [run_bind_of_ok hdraw, doubleOfInt_of_some hz]
  rfl

theorem run_dice {n : Int} (hn : (Datum.float x).asInt = .ok n) (s : Source) :
    (apply .dice [.float x]).run s =
      ((if n ≤ 0 then pure 1 else Chance.integer 1 n) >>= fun i => pure (Datum.int i)).run s := by
  rw [apply, roll, hn]
  rfl

theorem apply_dice_of_nonpos {n : Int} (hn : (Datum.float x).asInt = .ok n) (h : n ≤ 0) :
    (apply .dice [.float x]).run s = (.ok (.int 1), s) := by
  rw [run_dice hn, if_pos h]
  rfl

theorem apply_dice {n : Int} (hn : (Datum.float x).asInt = .ok n) (h : 0 < n)
    (hdraw : (Chance.integer 1 n).run s = (.ok i, s')) :
    (apply .dice [.float x]).run s = (.ok (.int i), s') := by
  rw [run_dice hn, if_neg (Int.not_le.mpr h), run_bind_of_ok hdraw]
  rfl

end Standard

namespace Source

variable {s s' : Source} {low high i : Int}

/-- Asked for an integer between two bounds, the source gives this one. -/
def Gives (s : Source) (low high i : Int) : Prop :=
  ∃ s', (Chance.integer low high).run s = (.ok i, s')

theorem run_integer (h : low ≤ high) (s : Source) : (Chance.integer low high).run s =
    (.ok (low + cyclic s.integers 0 s.integersRead % (high - low + 1)),
      { s with integersRead := s.integersRead + 1, drawn := s.drawn ++ [.integer low high] }) := by
  rw [Chance.integer, if_neg (Int.not_lt.mpr h)]
  rfl

theorem Gives.between (h : low ≤ high) (hi : s.Gives low high i) : low ≤ i ∧ i ≤ high := by
  obtain ⟨s', hi⟩ := hi
  cases hi.symm.trans (run_integer h s)
  have hleast := Int.emod_nonneg (cyclic s.integers 0 s.integersRead)
    (show high - low + 1 ≠ 0 by omega)
  have hmost := Int.emod_lt_of_pos (cyclic s.integers 0 s.integersRead)
    (show 0 < high - low + 1 by omega)
  omega

/-- Together the sources give all the integers between the bounds. -/
theorem exists_gives (hlow : low ≤ i) (hhigh : i ≤ high) : ∃ s : Source, s.Gives low high i := by
  refine ⟨{ integers := [i - low] }, ?_⟩
  have hi : low + (i - low) % (high - low + 1) = i := by
    rw [Int.emod_eq_of_lt (by omega) (by omega)]
    omega
  have hrun := run_integer (hlow.trans hhigh) { integers := [i - low] }
  exact ⟨_, hrun.trans (congrArg (fun j => (Except.ok j, _)) hi)⟩

end Source

/-- One integer was drawn between the bounds, and nothing else happened. -/
def World.drewInteger {H I : Type} (w : World H I) (low high : Int) : World H I :=
  { w with
    source := { w.source with
      integersRead := w.source.integersRead + 1, drawn := [.integer low high] }
    journal := w.journal ++ [.draw (.integer low high)] }

/-- Nothing was drawn. -/
def World.undrawn {H I : Type} (w : World H I) : World H I :=
  { w with source := { w.source with drawn := [] } }

namespace Session

open Act Double Standard

variable {H I : Type} {w : World H I} {x y z : Double} {a b i n : Int}

theorem gives_undrawn (h : a ≤ b) (hi : w.source.Gives a b i) :
    (Chance.integer a b).run { w.source with drawn := [] } =
      (.ok i, (w.drewInteger a b).source) := by
  obtain ⟨s', hi⟩ := hi
  cases hi.symm.trans (Source.run_integer h w.source)
  exact Source.run_integer h _

theorem yields_range (hx : x.scaled? = some (a * one)) (hy : y.scaled? = some (b * one))
    (h : a ≤ b) (hi : w.source.Gives a b i) (hz : ofInt? i = some z) :
    Yields (callStandard "random_range" (.ok [.number x, .number y])) w (.ok (.number z))
      (w.drewInteger a b) :=
  yields_callStandard .randomRange w [x, y] (apply_range hx hy (gives_undrawn h hi) hz)

theorem yields_dice_of_nonpos (hn : (Datum.float x).asInt = .ok n) (h : n ≤ 0)
    (hz : ofInt? 1 = some z) :
    Yields (callStandard "dice" (.ok [.number x])) w (.ok (.number z)) w.undrawn := by
  have hcall := yields_integer .dice rfl w [x]
    (apply_dice_of_nonpos (s := { w.source with drawn := [] }) hn h) hz
  rwa [List.map_nil, List.append_nil] at hcall

theorem yields_dice (hn : (Datum.float x).asInt = .ok n) (h : 0 < n)
    (hi : w.source.Gives 1 n i) (hz : ofInt? i = some z) :
    Yields (callStandard "dice" (.ok [.number x])) w (.ok (.number z)) (w.drewInteger 1 n) :=
  yields_integer .dice rfl w [x] (apply_dice hn h (gives_undrawn h hi)) hz

/-- A finite number of sides is cut to an integer.  It is not positive for less than one side, and
the integer below from there on, which is a double. -/
theorem sides_of_scaled {v : Int} (hx : x.scaled? = some v) : ∃ n, (Datum.float x).asInt = .ok n ∧
    (v < one → n ≤ 0) ∧
    (one ≤ v → 0 < n ∧ x.floor? = some n ∧ Representable (n.natAbs * one)) := by
  cases x with
  | nan | infinite => cases hx
  | finite negative m fits =>
      obtain rfl : signed negative m = v := Option.some.inj hx
      have hone := Double.one_pos
      refine ⟨signed negative (m / one), rfl, fun hless => ?_, fun hmore => ?_⟩
      · cases negative with
        | true => exact Int.neg_nonpos_of_nonneg (Int.natCast_nonneg _)
        | false =>
            have hm : m < one := Int.ofNat_lt.mp hless
            rw [Nat.div_eq_of_lt hm]
            exact Int.le_refl 0
      · cases negative with
        | true =>
            have hm : signed true m = -(m : Int) := rfl
            omega
        | false =>
            have hm : one ≤ m := Int.ofNat_le.mp hmore
            refine ⟨Int.natCast_pos.mpr (Nat.div_pos hm hone), ?_, ?_⟩
            · rw [floor?]
              exact congrArg some (Int.natCast_ediv m one).symm
            · rw [natAbs_signed]
              exact representable_whole fits

/-- What is drawn between two integers that are doubles is such an integer, and it took one draw;
a die shows an integer of its sides after one draw, and one without a draw if it has less than one
side.  Both answer with the double nearest to what the source gives, which is any integer between
the bounds. -/
theorem draws_between_bounds (w : World H I) :
    (∀ {x y : Double} {a b : Int}, x.scaled? = some (a * one) → y.scaled? = some (b * one) →
      a ≤ b → ∃ (i : Int) (z : Double) (j : Int), w.source.Gives a b i ∧ ofInt? i = some z ∧
        Yields (callStandard "random_range" (.ok [.number x, .number y])) w (.ok (.number z))
          (w.drewInteger a b) ∧
        z.scaled? = some (j * one) ∧ a ≤ j ∧ j ≤ b) ∧
    (∀ {x : Double} {v : Int}, x.scaled? = some v →
      (v < one → ∃ z, Yields (callStandard "dice" (.ok [.number x])) w (.ok (.number z))
        w.undrawn ∧ z.scaled? = some (one : Int)) ∧
      (one ≤ v → ∃ (n i : Int) (z : Double) (j : Int), x.floor? = some n ∧
        w.source.Gives 1 n i ∧ ofInt? i = some z ∧
        Yields (callStandard "dice" (.ok [.number x])) w (.ok (.number z)) (w.drewInteger 1 n) ∧
        z.scaled? = some (j * one) ∧ 1 ≤ j ∧ j ≤ n)) ∧
    ∀ {a b i : Int}, a ≤ b → ((∃ s : Source, s.Gives a b i) ↔ a ≤ i ∧ i ≤ b) := by
  have hgives {a b : Int} (h : a ≤ b) : ∃ i, w.source.Gives a b i :=
    ⟨_, _, Source.run_integer h w.source⟩
  refine ⟨fun {x y a b} hx hy hab => ?_, fun {x v} hx => ?_, fun hab => ⟨?_, ?_⟩⟩
  · obtain ⟨i, hi⟩ := hgives hab
    obtain ⟨hlow, hhigh⟩ := hi.between hab
    obtain ⟨z, j, hz, hj, hbounds⟩ :=
      ofInt?_between (representable_of_scaled hx) (representable_of_scaled hy) hlow hhigh
    exact ⟨i, z, j, hi, hz, yields_range hx hy hab hi hz, hj, hbounds⟩
  · have hunit : Representable ((1 : Int).natAbs * one) := representable_mul_one (by decide)
    obtain ⟨n, hn, hless, hmore⟩ := sides_of_scaled hx
    refine ⟨fun hv => ?_, fun hv => ?_⟩
    · have hz := ofInt?_of_representable rfl hunit
      refine ⟨_, yields_dice_of_nonpos hn (hless hv) hz, ?_⟩
      rw [scaled?, signed_mul_natAbs, Int.one_mul]
    · obtain ⟨hpos, hfloor, hfits⟩ := hmore hv
      obtain ⟨i, hi⟩ := hgives (Int.add_one_le_of_lt hpos)
      obtain ⟨hlow, hhigh⟩ := hi.between hpos
      obtain ⟨z, j, hz, hj, hbounds⟩ := ofInt?_between hunit hfits hlow hhigh
      exact ⟨n, i, z, j, hfloor, hi, hz, yields_dice hn hpos hi hz, hj, hbounds⟩
  · rintro ⟨s, hs⟩
    exact hs.between hab
  · rintro ⟨hlow, hhigh⟩
    exact Source.exists_gives hlow hhigh

/-- Between 2^53 and 2^53 + 2 the source gives the integer in the middle, which is no double. -/
theorem draws_between_bounds_of_middle : ∃ (w : World Unit Unit) (z : Double) (j : Int),
    (ofBits 0x4340000000000000).scaled? = some ((2 ^ 53 : Int) * one) ∧
    (ofBits 0x4340000000000001).scaled? = some ((2 ^ 53 + 2 : Int) * one) ∧
    (2 ^ 53 : Int) ≤ 2 ^ 53 + 2 ∧ w.source.Gives (2 ^ 53) (2 ^ 53 + 2) (2 ^ 53 + 1) ∧
    Yields (callStandard "random_range"
        (.ok [.number (ofBits 0x4340000000000000), .number (ofBits 0x4340000000000001)]))
      w (.ok (.number z)) (w.drewInteger (2 ^ 53) (2 ^ 53 + 2)) ∧
    z.scaled? = some (j * one) ∧ 2 ^ 53 ≤ j ∧ j ≤ 2 ^ 53 + 2 := by
  have hx : (ofBits 0x4340000000000000).scaled? = some ((2 ^ 53 : Int) * one) := by
    decide +kernel
  have hy : (ofBits 0x4340000000000001).scaled? = some ((2 ^ 53 + 2 : Int) * one) := by
    decide +kernel
  obtain ⟨s, hs⟩ : ∃ s : Source, s.Gives (2 ^ 53) (2 ^ 53 + 2) (2 ^ 53 + 1) :=
    Source.exists_gives (by decide) (by decide)
  obtain ⟨i, z, j, -, -, hyields, hj, hbounds⟩ :=
    (draws_between_bounds { unused with source := s }).1 hx hy (by decide)
  exact ⟨_, z, j, hx, hy, by decide, hs, hyields, hj, hbounds⟩

end Session

end Parley
