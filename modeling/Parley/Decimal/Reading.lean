import Parley.Double
import Parley.Text.Blank

/-!
# Reading numbers

A script may hand a text where a number is wanted.  Blanks around it are
ignored, digits may be of any script, and a single underscore may stand between
two digits.  An integer is a sign and digits.  A double is a sign and either
digits with an optional point and an optional exponent, or one of the words for
the infinite and for not-a-number in any case.

The value of a decimal is rounded once, from its exact fraction.  Exponents far
outside the range of doubles are settled by the length of the number, so that
no power of ten is ever formed for them.
-/

namespace Parley.Decimal

/-- A decimal digit of any script as the ASCII one. -/
def asciiDigit (c : Char) : Char :=
  match Text.digitValue? c with
  | some v => Char.ofNat ('0'.toNat + v)
  | none => c

/-- The text without its underscores, if each stands between two digits. -/
def withoutSeparators : (afterDigit : Bool) → List Char → Option (List Char)
  | _, [] => some []
  | afterDigit, '_' :: rest =>
    if afterDigit && (rest.head?.any Char.isDigit) then withoutSeparators false rest else none
  | _, c :: rest => (withoutSeparators c.isDigit rest).map (c :: ·)

/-- What is left to read once blanks, foreign digits and underscores are dealt with. -/
def significant (s : String) : Option (List Char) :=
  withoutSeparators false ((Text.trim s.toList).map asciiDigit)

/-- A sign in front, and the rest. -/
def splitSign : List Char → Bool × List Char
  | '-' :: rest => (true, rest)
  | '+' :: rest => (false, rest)
  | cs => (false, cs)

/-- The number that a list of digits writes. -/
def natOfDigits (cs : List Char) : Nat :=
  cs.foldl (fun n c => 10 * n + (c.toNat - '0'.toNat)) 0

/-- The longest text that is read as an integer. -/
def integerDigits : Nat := 4300

/-- Read an integer. -/
def readInt? (s : String) : Option Int := do
  let (negative, digits) := splitSign (← significant s)
  if digits.isEmpty || !digits.all Char.isDigit || integerDigits < digits.length then none
  else
    let n := natOfDigits digits
    some (if negative then -(n : Int) else n)

/-- The double nearest to `digits · 10^exponent`. -/
def toDouble (negative : Bool) (digits : List Char) (exponent : Int) : Double :=
  let n := natOfDigits digits
  let reach := (toString n).length + exponent
  if n = 0 then .finite negative 0 Double.representable_zero
  else if 310 < reach then .infinite negative
  else if reach < -330 then .finite negative 0 Double.representable_zero
  else
    let up := Nat.pow 10 exponent.toNat
    let down := Nat.pow 10 (-exponent).toNat
    Double.round negative (n * Double.one * up) down

/-- An exponent after its mark: nothing, or a sign and digits to the end. -/
def readExponent? : List Char → Option Int
  | [] => some 0
  | mark :: rest =>
    if mark = 'e' || mark = 'E' then
      let (negative, digits) := splitSign rest
      if digits.isEmpty || !digits.all Char.isDigit then none
      else some (if negative then -(natOfDigits digits : Int) else natOfDigits digits)
    else none

/-- The words for what is not finite. -/
def readWord? (negative : Bool) (cs : List Char) : Option Double :=
  let word := String.ofList (cs.map Char.toLower)
  if word = "inf" || word = "infinity" then some (.infinite negative)
  else if word = "nan" then some .nan
  else none

/-- Digits, a point, digits, an exponent; at least one digit in all. -/
def readDigits? (negative : Bool) (cs : List Char) : Option Double := do
  let whole := cs.takeWhile Char.isDigit
  let rest := cs.dropWhile Char.isDigit
  let (fraction, rest) :=
    match rest with
    | '.' :: rest => (rest.takeWhile Char.isDigit, rest.dropWhile Char.isDigit)
    | _ => ([], rest)
  if whole.isEmpty && fraction.isEmpty then none
  else
    let e ← readExponent? rest
    some (toDouble negative (whole ++ fraction) (e - fraction.length))

/-- Read a double. -/
def readDouble? (s : String) : Option Double := do
  let (negative, rest) := splitSign (← significant s)
  readWord? negative rest <|> readDigits? negative rest

/-- Read bytes as the text of a double.  Only ASCII counts, and of its separators only
the layout characters are blanks. -/
def readBytes? (bs : List UInt8) : Option Double :=
  if bs.any fun b => 0x80 ≤ b || (0x1c ≤ b && b ≤ 0x1f) then none
  else readDouble? (String.ofList (bs.map fun b => Char.ofNat b.toNat))

end Parley.Decimal
