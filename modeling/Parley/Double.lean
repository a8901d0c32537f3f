/-!
# Doubles as exact integers

Script numbers are 64-bit binary floating point numbers.  Every finite one is
an integer number of *quanta* of `2^-1074`, so a finite double is kept here as
a sign and that integer.  Each operation is then stated on integers: compute
exactly, round once.  Nothing here rests on the machine's own floating point,
whose operations a proof cannot open.

Rounding is to the nearest double, ties to the even significand; a result past
the largest finite double is infinite.  There is one not-a-number.
-/

namespace Parley

/-- `n` quanta are a magnitude a double can hold: a 53-bit significand,
shifted by one of the admitted exponents. -/
def Representable (n : Nat) : Prop :=
  ∃ m k, m < Nat.pow 2 53 ∧ k ≤ 2045 ∧ n = m * Nat.pow 2 k

/-- A 64-bit floating point number.  A finite one is `± units · 2^-1074`. -/
inductive Double where
  | nan
  | infinite (negative : Bool)
  | finite (negative : Bool) (units : Nat) (fits : Representable units)
deriving DecidableEq

namespace Double

/-- The quanta in the number one. -/
def one : Nat := Nat.pow 2 1074

/-! ## Rounding

`round s n d` is the double nearest to `n / d` quanta with the sign `s`.  The
quotient is cut at 53 bits by a power of two taken from its own length; a
significand that rounds up to `2^53` is the next power of two, which is again
representable. -/

/-- `n / d` to the nearest integer, a tie to the even one. -/
def nearestEven (n d : Nat) : Nat :=
  let q := n / d
  let r := n % d
  if 2 * r < d then q
  else if d < 2 * r then q + 1
  else if q % 2 = 0 then q else q + 1

/-- How many low bits of `n / d` lie below a 53-bit significand. -/
def excess (n d : Nat) : Nat := (n / d).log2 - 52

theorem representable_carry {k : Nat} (h : k < 2045) :
    Representable (Nat.pow 2 53 * Nat.pow 2 k) :=
  ⟨Nat.pow 2 52, k + 1, by decide, h, by simp only [Nat.pow_eq, Nat.pow_succ]; omega⟩

/-- The double nearest to `n / d` quanta, for `0 < d`. -/
def round (negative : Bool) (n d : Nat) : Double :=
  let k := excess n d
  let m := nearestEven n (d * Nat.pow 2 k)
  if h : m < Nat.pow 2 53 ∧ k ≤ 2045 then
    .finite negative (m * Nat.pow 2 k) ⟨m, k, h.1, h.2, rfl⟩
  else if h : k < 2045 then
    .finite negative (Nat.pow 2 53 * Nat.pow 2 k) (representable_carry h)
  else .infinite negative

theorem representable_zero : Representable 0 := ⟨0, 0, by decide, by decide, by simp⟩

/-- Positive zero. -/
def zero : Double := .finite false 0 representable_zero

/-- A number, unless rounding has gone past the largest one. -/
def inRange? : Double → Option Double
  | .infinite _ => none
  | x => some x

/-- The double nearest to an integer, unless it is too large for one. -/
def ofInt? (i : Int) : Option Double := (round (i < 0) (i.natAbs * one) 1).inRange?

/-- The correctly rounded quotient of two integers, the sign taken from both. -/
def ofRatio (num den : Int) : Double :=
  round ((num < 0) != (den < 0)) (num.natAbs * one) den.natAbs

/-! ## Signs, parts and tests -/

/-- A sign and a magnitude as one integer. -/
def signed (negative : Bool) (n : Nat) : Int := if negative then -(n : Int) else n

/-- The exact value in quanta. -/
def scaled? : Double → Option Int
  | .finite s n _ => some (signed s n)
  | _ => none

def isNegative : Double → Bool
  | .nan => false
  | .infinite s => s
  | .finite s _ _ => s

def withSign (negative : Bool) : Double → Double
  | .nan => .nan
  | .infinite _ => .infinite negative
  | .finite _ n h => .finite negative n h

def abs (x : Double) : Double := x.withSign false

def neg (x : Double) : Double := x.withSign !x.isNegative

def isZero : Double → Bool
  | .finite _ n _ => n == 0
  | _ => false

/-- Is the value an integer? -/
def isIntegral : Double → Bool
  | .finite _ n _ => n % one == 0
  | _ => false

/-- Numerical equality: both zeros are equal, a not-a-number equals nothing. -/
def equals : Double → Double → Bool
  | .finite s n _, .finite t m _ => signed s n == signed t m
  | .infinite s, .infinite t => s == t
  | _, _ => false

/-- The largest integer not above a finite value. -/
def floor? : Double → Option Int
  | .finite s n _ => some (signed s n / one)
  | _ => none

/-- The least integer not below a finite value. -/
def ceil? : Double → Option Int
  | .finite s n _ => some (-(-signed s n / one))
  | _ => none

/-- A finite value without its fraction. -/
def trunc? : Double → Option Int
  | .finite s n _ => some (signed s (n / one))
  | _ => none

/-! ## Arithmetic

An exact sum of zero is negative only when both terms are; every other exact
result carries its own sign into the rounding. -/

def add : Double → Double → Double
  | .nan, _ => .nan
  | _, .nan => .nan
  | .infinite s, .infinite t => if s == t then .infinite s else .nan
  | .infinite s, .finite .. => .infinite s
  | .finite .., .infinite t => .infinite t
  | .finite s n _, .finite t m _ =>
    let sum := signed s n + signed t m
    if sum = 0 then .finite (s && t) 0 representable_zero
    else round (sum < 0) sum.natAbs 1

def sub (x y : Double) : Double := x.add y.neg

def mul : Double → Double → Double
  | .nan, _ => .nan
  | _, .nan => .nan
  | .infinite s, .infinite t => .infinite (s != t)
  | .infinite s, .finite t m _ => if m = 0 then .nan else .infinite (s != t)
  | .finite s n _, .infinite t => if n = 0 then .nan else .infinite (s != t)
  | .finite s n _, .finite t m _ => round (s != t) (n * m) one

/-- The quotient; a caller refuses a divisor of zero beforehand. -/
def div : Double → Double → Double
  | .nan, _ => .nan
  | _, .nan => .nan
  | .infinite _, .infinite _ => .nan
  | .infinite s, .finite t _ _ => .infinite (s != t)
  | .finite s _ _, .infinite t => .finite (s != t) 0 representable_zero
  | .finite s n _, .finite t m _ =>
    if m = 0 then (if n = 0 then .nan else .infinite (s != t))
    else round (s != t) (n * one) m

/-! ## The interchange form

Sign, eleven exponent bits and 52 bits of significand, read as quanta: an
exponent field of zero is the subnormal range, any other field `b` shifts a
significand with its leading bit by `b - 1`. -/

theorem representable_normal {f b : Nat} (hf : f < Nat.pow 2 52) (hb : b < 2047) :
    Representable ((Nat.pow 2 52 + f) * Nat.pow 2 (b - 1)) :=
  ⟨Nat.pow 2 52 + f, b - 1, by simp only [Nat.pow_eq] at *; omega, by omega, rfl⟩

theorem representable_subnormal {f : Nat} (hf : f < Nat.pow 2 52) : Representable f :=
  ⟨f, 0, by simp only [Nat.pow_eq] at *; omega, by decide, by simp⟩

/-- Read the 64 bits of the interchange form. -/
def ofBits (bits : Nat) : Double :=
  let negative := bits / Nat.pow 2 63 % 2 == 1
  let b := bits / Nat.pow 2 52 % Nat.pow 2 11
  let f := bits % Nat.pow 2 52
  have hf : f < Nat.pow 2 52 := Nat.mod_lt _ (by decide)
  if hb : b < 2047 then
    if b = 0 then .finite negative f (representable_subnormal hf)
    else .finite negative ((Nat.pow 2 52 + f) * Nat.pow 2 (b - 1)) (representable_normal hf hb)
  else if f = 0 then .infinite negative
  else .nan

/-- Write the 64 bits; a not-a-number is the quiet one without a payload. -/
def toBits : Double → Nat
  | .nan => 0x7ff8000000000000
  | .infinite s => signBit s + 2047 * Nat.pow 2 52
  | .finite s n _ =>
    let k := n.log2 - 52
    let m := n / Nat.pow 2 k
    signBit s + (if m < Nat.pow 2 52 then m else (k + 1) * Nat.pow 2 52 + (m - Nat.pow 2 52))
where
  signBit (s : Bool) : Nat := if s then Nat.pow 2 63 else 0

end Double

end Parley
