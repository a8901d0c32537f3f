import Parley.Datum
import Parley.Decimal.Layout
import Parley.Text.Quoted

/-!
# Data in messages

A datum is shown in two ways.  `literal` shows what it is: texts are quoted, so
`'1'` and `1` differ.  `plain` is for reading: a text stands as it is, and only
what holds it is shown in its literal form.  Containers always show their items
as literals.
-/

namespace Parley.Datum

/-- Items between brackets. -/
def enclose (left right : String) (items : List String) : String :=
  left ++ ", ".intercalate items ++ right

/-- A tuple of one item keeps its comma. -/
def tupleLiteral : List String → String
  | [item] => "(" ++ item ++ ",)"
  | items => enclose "(" ")" items

/-- An error around the literals of its arguments.  Its class stands without what is
before the last dot of the name. -/
def errorLiteral (cls : String) (args : List String) : String :=
  let name := (cls.toList.reverse.takeWhile (· != '.')).reverse
  String.ofList name ++ match args with
    | [arg] => "(" ++ arg ++ ")"
    | args => tupleLiteral args

/-- A script value around the literal of its payload. -/
def wrapped (kind payload : String) : String := kind ++ "(value=" ++ payload ++ ")"

mutual

/-- The literal form of a datum. -/
def literal : Datum → String
  | .nothing => "None"
  | .bool b => if b then "True" else "False"
  | .int i => toString i
  | .float x => Decimal.Layout.plain.double x
  | .text s => Text.quoted s
  | .bytes bs => Text.quotedBytes bs
  | .list xs => enclose "[" "]" (literals xs)
  | .tuple xs => tupleLiteral (literals xs)
  | .dict es => enclose "\x7b" "\x7d" (entryLiterals es)
  | .boolean p => wrapped "Boolean" (literal p)
  | .number x => wrapped "Number" (Decimal.Layout.plain.double x)
  | .string p => wrapped "String" (literal p)
  | .bare p => wrapped "Value" (literal p)
  | .error cls args _ => errorLiteral cls (literals args)

def literals : List Datum → List String
  | [] => []
  | x :: xs => literal x :: literals xs

def entryLiterals : List (Datum × Datum) → List String
  | [] => []
  | (k, v) :: es => (literal k ++ ": " ++ literal v) :: entryLiterals es

end

/-- The form for reading. -/
def plain : Datum → String
  | .text s => s
  | .error _ _ message => message
  | d => d.literal

/-! ## Integers too long to be written

An integer of more than 4300 digits has no text, and so nothing that holds it
has one. -/

/-- The least integer that is too long. -/
def tooLong : Nat := Nat.pow 10 4300

mutual

/-- Can the datum be written? -/
def hasText : Datum → Bool
  | .int i => decide (i.natAbs < tooLong)
  | .list xs | .tuple xs => haveText xs
  | .dict es => entriesHaveText es
  | .boolean p | .string p | .bare p => hasText p
  | .error _ args _ => haveText args
  | _ => true

def haveText : List Datum → Bool
  | [] => true
  | x :: xs => hasText x && haveText xs

def entriesHaveText : List (Datum × Datum) → Bool
  | [] => true
  | (k, v) :: es => hasText k && hasText v && entriesHaveText es

end

end Parley.Datum
