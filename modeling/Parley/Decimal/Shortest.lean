import Parley.Double

/-!
# The fewest digits that read back

A double is written with the fewest decimal digits that still round to it, and
among decimals of that length with the one nearest to it.

The decimals that round to a double form an interval whose ends are the points
half way to its neighbours; an end belongs to it exactly when the significand
is even.  Seventeen digits always suffice, so the lengths 1, 2, … 17 are tried
in turn, and on the grid of each length only the two points around the value
can be hits: whenever some grid point lies in the interval, one of those does.

Everything is counted in quarter quanta, which makes the half-way points
integers.
-/

namespace Parley

/-- A positive decimal `digits · 10^exponent`. -/
structure Decimal where
  digits : Nat
  exponent : Int
deriving DecidableEq

end Parley

namespace Parley.Decimal

/-- The interval of reals that round to a double, in quarter quanta. -/
structure Basin where
  low : Nat
  value : Nat
  high : Nat
  closed : Bool

/-- The basin of a positive double of `units` quanta.  Below a power of two the
neighbour is at half the usual distance, the subnormal range apart. -/
def Basin.of (units : Nat) : Basin :=
  let k := units.log2 - 52
  let m := units / Nat.pow 2 k
  let down := if m = Nat.pow 2 52 ∧ 0 < k then Nat.pow 2 k else 2 * Nat.pow 2 k
  { low := 4 * units - down
    value := 4 * units
    high := 4 * units + 2 * Nat.pow 2 k
    closed := m % 2 == 0 }

/-- Does the fraction `n / d` round to the double of this basin? -/
def Basin.admits (b : Basin) (n d : Nat) : Bool :=
  if b.closed then b.low * d ≤ n && n ≤ b.high * d
  else b.low * d < n && n < b.high * d

/-- Quarter quanta in the number one. -/
def quarterOne : Nat := 4 * Double.one

/-- How many tenfold steps a value below one can take and stay below one. -/
def leadingZeros : Nat → Nat → Nat
  | 0, _ => 0
  | fuel + 1, value =>
    if quarterOne ≤ value * 10 then 0 else leadingZeros fuel (value * 10) + 1

/-- The number of digits before the point of a value of at least one; for a
smaller value, minus the zeros that follow the point.  The least double has
323 of them. -/
def decade (value : Nat) : Int :=
  if quarterOne ≤ value then (toString (value / quarterOne)).length
  else -(leadingZeros 324 value : Int)

/-- The hit with `n` digits, if there is one: of the two grid points around the
value the one that rounds back, the nearer of two, an even one on a tie.  The
point above `99…9` is one digit. -/
def ofLength? (b : Basin) (decade : Int) (n : Nat) : Option Decimal :=
  let e := decade - n
  let up := quarterOne * Nat.pow 10 e.toNat
  let down := Nat.pow 10 (-e).toNat
  let c := b.value * down / up
  let below := b.admits (c * up) down
  let above := b.admits ((c + 1) * up) down
  let low : Decimal := ⟨c, e⟩
  let high : Decimal := if c + 1 = Nat.pow 10 n then ⟨1, e + n⟩ else ⟨c + 1, e⟩
  match below, above with
  | true, true =>
    let left := b.value * down - c * up
    let right := (c + 1) * up - b.value * down
    some (if left < right then low else if right < left then high
      else if c % 2 = 0 then low else high)
  | true, false => some low
  | false, true => some high
  | false, false => none

/-- The shortest decimal of a positive double of `units` quanta. -/
def shortest (units : Nat) : Decimal :=
  let b := Basin.of units
  let p := decade b.value
  ((List.range' 1 17).findSome? (ofLength? b p)).getD ⟨0, 0⟩

end Parley.Decimal
