import Parley.Decimal.Shortest

/-!
# Laying out a double

The digits come from `Decimal.shortest`; what is left to a format is where the
point goes.  `Layout` names those choices, and `Layout.plain` is the one choice
of this library: positional from `0.0001` up to, but not including, `1e+16`, a
trailing `.0` on whole numbers, and an exponent of at least two digits with its
sign otherwise.
-/

namespace Parley.Decimal

/-- How the digits of a double become text. -/
structure Layout where
  /-- The least and the greatest exponent written positionally. -/
  least : Int
  greatest : Int
  /-- The digits an exponent has at least. -/
  exponentWidth : Nat
  infinity : String
  notANumber : String

/-- The layout in which numbers appear in messages and tables. -/
def Layout.plain : Layout :=
  { least := -4, greatest := 15, exponentWidth := 2, infinity := "inf", notANumber := "nan" }

/-- Zeros on the left up to a width. -/
def padLeft (width : Nat) (s : String) : String :=
  "".pushn '0' (width - s.length) ++ s

/-- Digits with the point after the first `point` of them. -/
def positional (digits : String) (point : Int) : String :=
  let n := digits.length
  if point ≤ 0 then "0." ++ "".pushn '0' (-point).toNat ++ digits
  else if (n : Int) ≤ point then digits ++ "".pushn '0' (point.toNat - n) ++ ".0"
  else String.ofList (digits.toList.take point.toNat) ++ "." ++
    String.ofList (digits.toList.drop point.toNat)

/-- Digits with the point after the first of them and an exponent. -/
def Layout.scientific (l : Layout) (digits : String) (e : Int) : String :=
  let head := String.ofList (digits.toList.take 1)
  let rest := String.ofList (digits.toList.drop 1)
  let mantissa := if rest.isEmpty then head else head ++ "." ++ rest
  let sign := if e < 0 then "-" else "+"
  mantissa ++ "e" ++ sign ++ padLeft l.exponentWidth (toString e.natAbs)

/-- The text of a positive decimal. -/
def Layout.decimal (l : Layout) (d : Decimal) : String :=
  let digits := toString d.digits
  let point := (digits.length : Int) + d.exponent
  if l.least ≤ point - 1 ∧ point - 1 ≤ l.greatest then positional digits point
  else l.scientific digits (point - 1)

/-- The text of a double. -/
def Layout.double (l : Layout) : Double → String
  | .nan => l.notANumber
  | .infinite s => (if s then "-" else "") ++ l.infinity
  | .finite s n _ =>
    (if s then "-" else "") ++ (if n = 0 then "0.0" else l.decimal (shortest n))

end Parley.Decimal
