import Parley.Chance

/-!
# Standard functions

The functions every script can call: draws, rounding, and the parts of a number.
They compute on what they are given: an argument is usually a double, but a truth
value counts as a number, and some functions read a text.
-/

namespace Parley

/-- The functions every script has. -/
inductive Standard where
  | random
  | randomRange
  | dice
  | round
  | roundPlaces
  | floor
  | ceil
  | inc
  | dec
  | decimal
  | int
deriving DecidableEq

namespace Standard

def all : List Standard :=
  [ .random, .randomRange, .dice, .round, .roundPlaces, .floor, .ceil, .inc, .dec, .decimal,
    .int ]

/-- The name scripts call the function by. -/
def name : Standard → String
  | .random => "random"
  | .randomRange => "random_range"
  | .dice => "dice"
  | .round => "round"
  | .roundPlaces => "round_places"
  | .floor => "floor"
  | .ceil => "ceil"
  | .inc => "inc"
  | .dec => "dec"
  | .decimal => "decimal"
  | .int => "int"

/-! ## Rounding

A half is added to the magnitude in double arithmetic, the sum is cut down to an
integer, and the sign is put back.  Rounding to places scales by a power of ten
first: an exact integer for places from zero up, a double below. -/

/-- One half. -/
def half : Double := .round false Double.one 2

/-- The nearest integer, halves away from zero. -/
def roundHalfAway (n : Num) : Except Fault Int := do
  let sum ← n.abs.add (.real half)
  let magnitude ← Num.doubleOfInt (← sum.floor)
  let sign ← n.toDouble
  (Num.real (magnitude.withSign sign.isNegative)).trunc

/-- The power of ten that moves the point by a number of places. -/
def factor (places : Int) : Num :=
  if places < 0 then .real (Double.round false Double.one (Nat.pow 10 (-places).toNat))
  else .int (Nat.pow 10 places.toNat)

/-- From this power on a power of ten is past every double. -/
def greatestPlaces : Int := 400

/-- Below this power a power of ten is nearer to zero than to any double. -/
def leastPlaces : Int := -400

/-- The greatest length a text can have. -/
def greatestLength : Int := Nat.pow 2 63 - 1

/-- The length from which on there is no room for a text. -/
def leastTooLong : Int := Nat.pow 10 11

/-- What repeating a text fails with: too many times, too long, no room, or the result
being no number. -/
def repeated (length : Nat) (times : Int) : ErrorClass :=
  if greatestLength < times || greatestLength < length * times then .overflow
  else if leastTooLong ≤ length * times then .memory
  else .type

/-- A number scaled by a power of ten.  A text would be repeated instead, which
never gives a number. -/
def scale (n : Datum) (factor : Num) : Except Fault Num :=
  match n, factor with
  | .text s, .int k => .error (.accident (repeated s.length k))
  | n, factor => do (← n.num).mul factor

/-- The number rounded to a number of decimal places.  Places past the bounds
act like the bound: their factor is too large for a double, or zero. -/
def toPlaces (n : Datum) (places : Datum) : Except Fault Double := do
  let p ← places.asInt
  let f := factor (max leastPlaces (min greatestPlaces p))
  let scaled ← scale n f
  (Num.int (← roundHalfAway scaled)).div f

/-! ## Whole numbers and parts -/

/-- Is the double a datum stands for an integer? -/
def isWhole (d : Datum) : Except Fault Bool := return (← d.asDouble).isIntegral

/-- The next integer above: one more than an integer, else rounded up. -/
def increase (d : Datum) : Except Fault Int := do
  if ← isWhole d then return (← d.asInt) + 1
  else (← d.num).ceil

/-- The next integer below: one less than an integer, else rounded down. -/
def decrease (d : Datum) : Except Fault Int := do
  if ← isWhole d then return (← d.asInt) - 1
  else (← d.num).floor

/-- What is left of a number without its whole part. -/
def fractionOf (d : Datum) : Except Fault Num := do
  let n ← d.num
  n.sub (.int (← n.trunc))

/-! ## Chance -/

/-- An integer between whole bounds, else a number between them. -/
def range (low high : Datum) : Chance Datum := do
  let whole ← (do
    if ← isWhole low then isWhole high else return false : Except Fault Bool)
  if whole then
    let a ← low.asInt
    let b ← high.asInt
    return .float (← Num.doubleOfInt (← Chance.integer a b))
  else Chance.between low high

/-- A roll of a die; one without sides always shows one. -/
def roll (sides : Datum) : Chance Int := do
  let n ← sides.asInt
  if n ≤ 0 then return 1 else Chance.integer 1 n

/-- The function on host data; a wrong number of arguments is a type error. -/
def apply : Standard → List Datum → Chance Datum
  | .random, [] => Chance.fraction
  | .randomRange, [a, b] => range a b
  | .dice, [n] => return .int (← roll n)
  | .round, [n] => return .int (← roundHalfAway (← n.num))
  | .roundPlaces, [n, p] => return .float (← toPlaces n p)
  | .floor, [n] => return .int (← (← n.num).floor)
  | .ceil, [n] => return .int (← (← n.num).ceil)
  | .inc, [n] => return .int (← increase n)
  | .dec, [n] => return .int (← decrease n)
  | .decimal, [n] => return (← fractionOf n).toDatum
  | .int, [n] => return .int (← (← n.num).trunc)
  | _, _ => throw (.accident .type)

end Standard

end Parley
