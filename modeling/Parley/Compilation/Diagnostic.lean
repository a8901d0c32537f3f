import Parley.Datum.Literal

/-!
# Diagnostics

What a compiler has to say about a script, with where it says it.  An error stops
compilation, a warning does not.
-/

namespace Parley

inductive Severity where
  | error
  | warning
deriving DecidableEq

def Severity.name : Severity → String
  | .error => "error"
  | .warning => "warning"

/-- The severity of a name. -/
def Severity.named? (name : String) : Option Severity :=
  [.error, .warning].find? fun s => s.name == name

/-- A span of a script; lines and characters count from zero. -/
structure Span where
  startLine : Datum
  startCharacter : Datum
  endLine : Datum
  endCharacter : Datum

structure Diagnostic where
  message : Datum
  severity : Severity := .error
  /-- the script, or nothing when it is not known -/
  file : Datum := .text ""
  span : Option Span := none
  context : Datum := .text ""
  startLine : Datum := .int 0

namespace Diagnostic

def isError (d : Diagnostic) : Bool := d.severity == .error

/-- The diagnostic with its place in front. -/
def shown (d : Diagnostic) : String :=
  let place := if d.file.truth then d.file.plain ++ ":" else "line "
  place ++ d.startLine.plain ++ ": " ++ d.message.plain

end Diagnostic

end Parley
