import Parley.Keyed
import Parley.Note
import Parley.Lexicon.Entry

/-!
# Lexicons

A lexicon holds the lines of one locale in two tables: entries that came
with the game, and strings the host added while it ran.  A line is looked up in
the host's table first.

Merging copies every string of another lexicon into the host's table of
this one; lexicons of different locales may be merged, with a warning.
-/

namespace Parley

structure Lexicon where
  locale : Datum
  /-- The path the entries were loaded from, if any. -/
  file : String := ""
  assets : Keyed Datum Entry := {}
  runtime : Keyed Datum Datum := {}
deriving Inhabited

namespace Lexicon

/-- The text for a line, the host's own strings first. -/
def get? (l : Lexicon) (id : Datum) : Option Datum :=
  match l.runtime.get? id with
  | some d => some d
  | none => (l.assets.get? id).map (·.text)

/-- A string of the host is found, and where there is none an entry's text. -/
theorem get?_eq_some_iff {l : Lexicon} {id d : Datum} : l.get? id = some d ↔
    l.runtime.get? id = some d ∨
      l.runtime.get? id = none ∧ ∃ e, l.assets.get? id = some e ∧ e.text = d := by
  rw [get?]
  cases l.runtime.get? id with
  | none => simp
  | some => simp

def contains (l : Lexicon) (id : Datum) : Bool :=
  l.runtime.contains id || l.assets.contains id

def addAsset (l : Lexicon) (id : Datum) (e : Entry) : Lexicon :=
  { l with assets := l.assets.insert id e }

def add (l : Lexicon) (id text : Datum) : Lexicon :=
  { l with runtime := l.runtime.insert id text }

/-- Every line, the host's own first; a line of both tables occurs twice. -/
def lineIds (l : Lexicon) : List Datum := l.runtime.keys ++ l.assets.keys

def entries (l : Lexicon) : List Entry := l.assets.values

def clear (l : Lexicon) : Lexicon := { l with assets := {}, runtime := {} }

/-- Do two locales differ? -/
def differs (l other : Lexicon) : Bool := !other.locale.same l.locale

/-- Copy every string of another lexicon into the host's table. -/
def merge (l other : Lexicon) : Lexicon :=
  other.lineIds.foldl (fun l id =>
    match other.get? id with
    | none | some .nothing => l
    | some text => l.add id text) l

/-- What merging is worth saying. -/
def mergeNotes (l other : Lexicon) : List Note :=
  if l.differs other then [.merging other.locale l.locale] else []

/-- Merge a list of lexicons into its first one. -/
def mergeAll : List Lexicon → Option Lexicon × List Note
  | [] => (none, [])
  | first :: others =>
    (some (others.foldl merge first), others.flatMap (mergeNotes first))

/-- The lexicon of a string table's text, each entry under its identifier. -/
def ofText (s : Settings) (locale : Datum) (text : String) : Except Fault Lexicon := do
  let entries ← Entry.parse s text
  return entries.foldl (fun l e => l.addAsset e.id e) { locale }

/-- The lexicon as it stands in a message. -/
def shown (l : Lexicon) : String :=
  "Localization(" ++ l.locale.literal ++ ", " ++ toString l.assets.size ++ " entries)"

end Lexicon

end Parley
