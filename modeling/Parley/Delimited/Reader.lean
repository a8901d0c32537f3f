import Parley.Fault

/-!
# Reading delimited text

A table in a text has one row a line and a delimiter between fields.  A field
may be quoted, and only a quote at its very start makes it so; inside quotes
delimiters and line ends are part of the field and a doubled quote is one quote.
What follows the closing quote is added to the field as it stands.

Lines end at a line feed.  A carriage return outside quotes also ends the row,
and then only more of either may follow on that line.  Each line is closed by an
end mark of its own, so that a row whose quotes are open at the end of a line
goes on in the next one, and at the end of the text is taken as it is.

A field may be at most `fieldLimit` characters long.  Reading stops at the first
fault, and the rows before it count: a caller that needs only the first row must
not see a fault further down.
-/

namespace Parley.Delimited

/-- The length of the longest field. -/
def fieldLimit : Nat := 131072

/-- Where a reader stands within a row. -/
inductive Place where
  /-- before the first character of a row -/
  | rowStart
  | fieldStart
  /-- inside a field without quotes, or after its quotes -/
  | plain
  | quoted
  /-- just after a quote inside quotes -/
  | quoteSeen
  /-- after a carriage return or line feed that ended the row -/
  | rowEnded
deriving DecidableEq

/-- A row being read; the current field and the fields before it are held in
reverse. -/
structure Reader where
  place : Place := .rowStart
  field : List Char := []
  length : Nat := 0
  fields : List (List Char) := []

namespace Reader

/-- Close the current field. -/
def save (r : Reader) (place : Place) : Reader :=
  { place, field := [], length := 0, fields := r.field.reverse :: r.fields }

/-- Add a character to the current field, unless it is full. -/
def add (r : Reader) (c : Char) (place : Place) : Option Reader :=
  if fieldLimit ≤ r.length then none
  else some { r with place, field := c :: r.field, length := r.length + 1 }

/-- The end of a row outside quotes: at the end mark the next row can start. -/
def endRow (r : Reader) (mark : Option Char) : Reader :=
  r.save (if mark.isNone then .rowStart else .rowEnded)

/-- Is this the end mark of a line, or a character that ends a row? -/
def ends : Option Char → Bool
  | none => true
  | some c => c = '\n' || c = '\r'

def stepFieldStart (delimiter : Char) (r : Reader) : Option Char → Option Reader
  | none => some (r.endRow none)
  | some c =>
    if ends (some c) then some (r.endRow (some c))
    else if c = '"' then some { r with place := .quoted }
    else if c = delimiter then some (r.save .fieldStart)
    else r.add c .plain

def stepPlain (delimiter : Char) (r : Reader) : Option Char → Option Reader
  | none => some (r.endRow none)
  | some c =>
    if ends (some c) then some (r.endRow (some c))
    else if c = delimiter then some (r.save .fieldStart)
    else r.add c .plain

def stepQuoteSeen (delimiter : Char) (r : Reader) : Option Char → Option Reader
  | none => some (r.endRow none)
  | some c =>
    if c = '"' then r.add c .quoted
    else if c = delimiter then some (r.save .fieldStart)
    else if ends (some c) then some (r.endRow (some c))
    else r.add c .plain

/-- Read one character, or the end mark of a line; `none` is a malformed row. -/
def step (delimiter : Char) (r : Reader) (mark : Option Char) : Option Reader :=
  match r.place, mark with
  | .rowStart, none => some r
  | .rowStart, some c =>
    if ends (some c) then some { r with place := .rowEnded }
    else stepFieldStart delimiter r (some c)
  | .fieldStart, mark => stepFieldStart delimiter r mark
  | .plain, mark => stepPlain delimiter r mark
  | .quoted, none => some r
  | .quoted, some c =>
    if c = '"' then some { r with place := .quoteSeen } else r.add c .quoted
  | .quoteSeen, mark => stepQuoteSeen delimiter r mark
  | .rowEnded, none => some { r with place := .rowStart }
  | .rowEnded, some c => if ends (some c) then some r else none

/-- The fields of the row, in order. -/
def row (r : Reader) : List String := (r.fields.map String.ofList).reverse

end Reader

/-- The rows of a text up to its end or its first fault. -/
structure Rows where
  rows : List (List String)
  fault : Option Fault := none

/-- A text being read: the rows so far, the last first, the current one, and
whether the current line has begun. -/
structure Scan where
  done : List (List String) := []
  reader : Reader := {}
  midLine : Bool := false

namespace Scan

/-- Set a finished row aside. -/
def collect (s : Scan) (r : Reader) : Scan :=
  if r.place = .rowStart then { done := r.row :: s.done }
  else { s with reader := r, midLine := false }

/-- Read one character, and the end mark after a line feed. -/
def step (delimiter : Char) (s : Scan) (c : Char) : Option Scan := do
  let r ← s.reader.step delimiter (some c)
  if c = '\n' then return s.collect (← r.step delimiter none)
  else return { s with reader := r, midLine := true }

/-- The end of the text: it closes the last line, and an open quote with it. -/
def finish (delimiter : Char) (s : Scan) : Rows :=
  match (if s.midLine then (s.reader.step delimiter none).map s.collect else some s) with
  | none => { rows := s.done.reverse, fault := some (.accident .table) }
  | some s =>
    if s.reader.place = .quoted then { rows := ((s.reader.save .rowStart).row :: s.done).reverse }
    else { rows := s.done.reverse }

def run (delimiter : Char) : Scan → List Char → Rows
  | s, [] => s.finish delimiter
  | s, c :: cs =>
    match s.step delimiter c with
    | some s => run delimiter s cs
    | none => { rows := s.done.reverse, fault := some (.accident .table) }

end Scan

/-- The rows of a text. -/
def read (delimiter : Char) (text : String) : Rows := Scan.run delimiter {} text.toList

end Parley.Delimited
