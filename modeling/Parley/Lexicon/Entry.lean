import Parley.Settings
import Parley.Delimited.Reader
import Parley.Delimited.Writer

/-!
# String table entries

A string table has one row a line of dialogue and nine columns, found by name in
the header.  The identifier must have a column; any other column may be missing,
which leaves its cells empty, and columns with other names are ignored.  A row
shorter than the header has nothing in its last cells.

Written tables have all nine columns in their fixed order, under a header.
-/

namespace Parley

/-- The columns of a string table. -/
inductive Column where
  | id
  | language
  | text
  | base
  | file
  | node
  | lineNumber
  | lock
  | comment
deriving DecidableEq

namespace Column

/-- The columns in the order in which they are written. -/
def all : List Column :=
  [.id, .language, .text, .base, .file, .node, .lineNumber, .lock, .comment]

/-- The name of a column in a header. -/
def name : Column → String
  | .id => "id"
  | .language => "language"
  | .text => "text"
  | .base => "original"
  | .file => "file"
  | .node => "node"
  | .lineNumber => "lineNumber"
  | .lock => "lock"
  | .comment => "comment"

/-- The name of a column as a field of an entry. -/
def field : Column → String
  | .lineNumber => "line_number"
  | c => c.name

theorem mem_all (c : Column) : c ∈ all := by cases c <;> decide

theorem name_injective {c d : Column} (h : c.name = d.name) : c = d := by
  cases c <;> cases d <;> first | rfl | exact absurd h (by decide)

end Column

/-- One row of a string table. -/
structure Entry where
  id : Datum
  language : Datum := .text ""
  text : Datum := .text ""
  /-- the text in the base language -/
  base : Datum := .text ""
  file : Datum := .text ""
  node : Datum := .text ""
  lineNumber : Datum := .text ""
  /-- a hash of the text in the base language -/
  lock : Datum := .text ""
  comment : Datum := .text ""
deriving Inhabited

namespace Entry

def cell (e : Entry) : Column → Datum
  | .id => e.id
  | .language => e.language
  | .text => e.text
  | .base => e.base
  | .file => e.file
  | .node => e.node
  | .lineNumber => e.lineNumber
  | .lock => e.lock
  | .comment => e.comment

/-- The entry with the given cells. -/
def ofCells (f : Column → Datum) : Entry :=
  { id := f .id, language := f .language, text := f .text, base := f .base
    file := f .file, node := f .node, lineNumber := f .lineNumber, lock := f .lock
    comment := f .comment }

theorem ofCells_cell (e : Entry) : ofCells e.cell = e := rfl

theorem cell_ofCells (f : Column → Datum) (c : Column) : (ofCells f).cell c = f c := by
  cases c <;> rfl

/-- An entry from cells under column names; the last cell of a name counts. -/
def ofRow (row : List (Datum × Datum)) : Except Fault Entry :=
  let under (c : Column) : Option Datum :=
    (row.reverse.find? fun e => e.1.same (.text c.name)).map (·.2)
  match under .id with
  | none => .error (.accident .key)
  | some _ => .ok (ofCells fun c => (under c).getD (.text ""))

/-- What is in a cell: the last one under the column's name, or an empty text. -/
theorem cell_eq_of_ofRow {row : List (Datum × Datum)} {e : Entry} (h : ofRow row = .ok e)
    (c : Column) : e.cell c =
      ((row.reverse.find? fun x => x.1.same (.text c.name)).map (·.2)).getD (.text "") := by
  unfold ofRow at h
  dsimp only at h
  split at h
  · cases h
  · cases h
    exact cell_ofCells _ c

/-- An entry from named fields: the identifier is required, and no field may have
another name than a column's. -/
def ofFields (fields : List (String × Datum)) : Except Fault Entry :=
  if fields.all (fun e => (Column.all.map Column.field).contains e.1)
      && (fields.lookup Column.id.field).isSome then
    .ok (ofCells fun c => (fields.lookup c.field).getD (.text ""))
  else .error (.accident .type)

/-- The cells of an entry under their column names. -/
def toRow (e : Entry) : List (String × Datum) := Column.all.map fun c => (c.name, e.cell c)

/-! ## Tables as text -/

/-- The one character that separates fields. -/
def delimiter (s : Settings) : Except Fault Char := do
  match ← s.delimiter with
  | .text d => match d.toList with
    | [c] => return c
    | _ => throw (.accident .type)
  | _ => throw (.accident .type)

/-- The cells of a row under the names of a header: nothing where the row is too
short; what is past the header is dropped. -/
def named : List String → List String → List (Datum × Datum)
  | [], _ => []
  | h :: header, [] => (.text h, .nothing) :: named header []
  | h :: header, c :: cells => (.text h, .text c) :: named header cells

/-- The entries of a table under a header. -/
def ofRows (header : List String) (rows : List (List String)) : Except Fault (List Entry) :=
  (rows.filter fun r => !r.isEmpty).mapM fun r => ofRow (named header r)

/-- Read the text of a string table. -/
def parse (s : Settings) (text : String) : Except Fault (List Entry) := do
  let d ← delimiter s
  let read := Delimited.read d text
  match read.rows, read.fault with
  | [], none => .ok []
  | [], some f => .error f
  | header :: rows, fault =>
    if header.contains Column.id.name then
      match fault with
      | some f => .error f
      | none => ofRows header rows
    else .error (.noIdColumn header)

/-- A cell as it is written: nothing is an empty field. -/
def written : Datum → String
  | .nothing => ""
  | d => d.plain

/-- Write entries as the text of a string table. -/
def format (s : Settings) (entries : List Entry) : Except Fault String := do
  let d ← delimiter s
  if entries.any fun e => Column.all.any fun c => !(e.cell c).hasText then
    throw (.accident .value)
  let cells (e : Entry) : List String := Column.all.map fun c => written (e.cell c)
  return Delimited.write d (Column.all.map Column.name :: entries.map cells)

end Entry

end Parley
