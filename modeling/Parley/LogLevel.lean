import Parley.Settings

/-!
# The level of a host's log

A host names the least level it wants to see, in any case.  Some letters of other
alphabets have ASCII letters as their capitals and so may stand in a name.  One name
stands for the usual form of an entry, which is passed on as if it were a level, and
one for the styles of such forms, which cannot be passed on.
-/

namespace Parley.LogLevel

/-- The levels by name. -/
def levels : List (String × Nat) :=
  [ ("NOTSET", 0), ("DEBUG", 10), ("INFO", 20), ("WARN", 30), ("WARNING", 30), ("ERROR", 40),
    ("FATAL", 50), ("CRITICAL", 50) ]

/-- The usual form of an entry, by its name. -/
def usualForm : String × String := ("BASIC_FORMAT", "%(levelname)s:%(name)s:%(message)s")

/-- What the names stand for. -/
def named : List (String × Datum) :=
  levels.map (fun l => (l.1, .int l.2)) ++ [(usualForm.1, .text usualForm.2)]

/-- The name of the styles. -/
def stylesName : String := "_STYLES"

/-- The capital of a letter, where a name can have it. -/
def capital (c : Char) : List Char :=
  if c = 'ı' then ['I'] else if c = 'ſ' then ['S']
  else if c = 'ﬅ' || c = 'ﬆ' then ['S', 'T'] else [c.toUpper]

/-- The level a host names, or the customary one. -/
def ofName (s : Settings) (level : Datum) : Except Fault Datum := do
  let level ← match level with
    | .nothing => s.logLevel
    | level => .ok level
  match level with
  | .text name =>
    let name := String.ofList (name.toList.flatMap capital)
    match named.lookup name with
    | some l => .ok l
    | none => .error (.accident (if name = stylesName then .type else .noAttribute))
  | .bytes _ => .error (.accident .type)
  | _ => .error (.accident .noAttribute)

/-- How entries are written, and what writes them. -/
def format : String := "%(message)s"
def writers : List String := ["RichHandler"]

end Parley.LogLevel
