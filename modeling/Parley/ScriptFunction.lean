import Parley.Bus
import Parley.Datum.ScriptForm
import Parley.Standard

/-!
# Functions scripts can call

A script calls a function with script values and gets one back.  Behind it
stands either a standard function or a handle to something the host supplies.
The arguments are taken to their host form before anything is called, and the
result must be of the declared kind.
-/

namespace Parley

/-- The kinds of result a function can declare. -/
inductive ReturnKind where
  | bool
  | int
  | float
  | text
deriving DecidableEq

namespace ReturnKind

def name : ReturnKind → String
  | .bool => "bool"
  | .int => "int"
  | .float => "float"
  | .text => "str"

def all : List ReturnKind := [.bool, .int, .float, .text]

/-- The kinds that a host has and scripts do not. -/
def hostOnly : List String := ["list", "dict", "bytes", "object", "NoneType", "tuple"]

/-- The kind with a name, unless only the host has it or nobody. -/
def ofName (name : String) : Except Fault ReturnKind :=
  match all.find? fun k => k.name == name with
  | some k => .ok k
  | none => .error (if hostOnly.contains name then .unsupportedReturn name else .accident .key)

/-- The kind of script value that comes back. -/
def valueKind : ReturnKind → String
  | .bool => "Boolean"
  | .int | .float => "Number"
  | .text => "String"

/-- Is the script value of the declared kind? -/
def admits : ReturnKind → Datum → Bool
  | .bool, .boolean _ => true
  | .int, .number _ => true
  | .float, .number _ => true
  | .text, .string _ => true
  | _, _ => false

end ReturnKind

/-- The kind of result of a standard function. -/
def Standard.returns : Standard → ReturnKind
  | .random | .randomRange | .roundPlaces | .decimal => .float
  | _ => .int

/-- What stands behind a function. -/
inductive Body where
  | standard (f : Standard)
  | host (handle : Handle)

/-- A function as scripts see it. -/
structure ScriptFunction where
  /-- how messages call what stands behind it -/
  label : String
  body : Body
  returns : ReturnKind

namespace ScriptFunction

/-- A function of the host; the kind of its result must be one scripts have. -/
def ofHost (label : String) (handle : Handle) (returns : String) : Except Fault ScriptFunction :=
  do return { label, body := .host handle, returns := ← ReturnKind.ofName returns }

/-- The function behind, as it stands in a message. -/
def shownBody (f : ScriptFunction) : String := "<fn " ++ f.label ++ ">"

def shown (f : ScriptFunction) : String :=
  "HostFunction(" ++ f.shownBody ++ ", " ++ f.returns.name ++ ")"

/-- The arguments in host form; the first that has none decides. -/
def arguments (args : List Datum) : Except Fault (List Datum) := args.mapM Datum.toHost

/-- The script value for a result, which must be of the declared kind. -/
def finish (f : ScriptFunction) (result : Datum) : Except Fault Datum := do
  let value ← result.toValue
  if f.returns.admits value then return value
  else throw (.telling value (.wrongReturn f.shownBody value f.returns.name))

end ScriptFunction

/-- Functions by the name scripts call them by. -/
abbrev Functions := Keyed Datum ScriptFunction

/-- The standard functions in their order. -/
def standardFunctions : List (String × ScriptFunction) :=
  Standard.all.map fun f =>
    (f.name, { label := f.name, body := .standard f, returns := f.returns })

/-- The functions a script has from the start. -/
def Functions.standard : Functions :=
  .ofList (standardFunctions.map fun e => (.text e.1, e.2))

end Parley
