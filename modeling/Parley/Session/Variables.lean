import Parley.Datum.ScriptForm
import Parley.World

/-!
# Variables

Variables live in the host's form, under names that start with the sigil.  Every
accepted write is announced on the bus once it is in place, and so is every
clearing.  A listener may write again while it is being told.

There are two ways in.  The host's is forgiving: a write answers with a result,
and a batch attempts every entry.  The interpreter's works with script values and
fails: a missing variable, a refused name and a refused value are faults, and a
batch ends at the first of them.
-/

namespace Parley.Session

open Act

variable {H I : Type}

/-- Tell the listeners of a notice's kind, those subscribed at this moment. -/
def publish (invoke : Invoke H I) (n : Notice) : Act H I Unit := do
  modify fun w => { w with published := w.published ++ [n] }
  ((← get).bus.listeners n.kind).forM fun l => discard (invoke (.listener l n))

/-- Tell the listeners of the store. -/
def announce (invoke : Invoke H I) (n : Notice) : Act H I Unit := do
  modify fun w => { w with announced := w.announced ++ [n] }
  if (← get).announces then publish invoke n

/-! ## Names -/

/-- Does a text start with the sigil?  The sigil may be a choice of texts. -/
def startsWith (name : String) : Datum → Except Fault Bool
  | .text s => .ok (s.isPrefixOf name)
  | .tuple sigils => anyOf sigils
  | _ => .error (.accident .type)
where
  anyOf : List Datum → Except Fault Bool
    | [] => .ok false
    | .text s :: rest => if s.isPrefixOf name then .ok true else anyOf rest
    | _ :: _ => .error (.accident .type)

/-- Is the datum a text that starts with the sigil? -/
def isValidName (s : Settings) : Datum → Except Fault Bool
  | .text name => do startsWith name (← s.sigil)
  | _ => .ok false

/-! ## The host's side -/

/-- What a datum is stored as. -/
def stored (value : Datum) : Except Fault Datum := do (← value.toValue).toHost

/-- Put a variable in place and announce it. -/
def assign (invoke : Invoke H I) (name value : Datum) : Act H I Unit := do
  modify fun w => { w with store := w.store.insert name value }
  announce invoke (.variableChanged name value)

/-- Write a variable if its name and its value admit it. -/
def setVariable (invoke : Invoke H I) (name value : Datum) : Act H I WriteResult := do
  let w ← get
  match w.writeStub with
  | some r => return r
  | none =>
    if ← of (isValidName w.settings name) then
      match stored value with
      | .ok d =>
        assign invoke name d
        return .ok
      | .error f =>
        if f.isA .conversion then
          log (.valueRefused name value)
          return .unknown
        else throw f
    else
      log (.nameRefused name (← of w.settings.sigil))
      return .invalidName

/-- Write every entry, whatever becomes of the others. -/
def setVariables (invoke : Invoke H I) (entries : List (Datum × Datum)) :
    Act H I (List (Datum × WriteResult)) :=
  entries.mapM fun e => return (e.1, ← setVariable invoke e.1 e.2)

/-- The value under a name, or nothing. -/
def getVariable (name : Datum) : Act H I Datum := do
  checkKey name
  return ((← get).store.get? name).getD .nothing

def hasVariable (name : Datum) : Act H I Bool := do
  checkKey name
  return (← get).store.contains name

/-- Remove every variable. -/
def clearVariables (invoke : Invoke H I) : Act H I Unit := do
  modify fun w => { w with store := {} }
  announce invoke .storeCleared

/-- Replace what is stored by the valid entries of a saved state. -/
def restore (invoke : Invoke H I) (entries : List (Datum × Datum)) : Act H I Unit := do
  clearVariables invoke
  discard (setVariables invoke entries)

/-! ## The interpreter's side -/

/-- A store's refusal of a conversion as an interpreter sees it. -/
def refused (f : Fault) : Fault := if f.isA .conversion then .internal f else f

/-- The script value of a variable. -/
def getValue (name : Datum) : Act H I Datum := do
  match ← getVariable name with
  | .nothing => throw (.variableNotFound name)
  | d => of (d.toValue.mapError refused)

/-- Write a script value. -/
def setValue (invoke : Invoke H I) (name value : Datum) : Act H I Unit := do
  let d ← of (value.toHost.mapError refused)
  match ← setVariable invoke name d with
  | .ok => return
  | .invalidName => throw (.invalidName name)
  | .unknown => throw (.telling (.tuple [name, value]) (.writeFailed name value))

/-- Write entries up to the first that fails. -/
def setValues (invoke : Invoke H I) (entries : List (Datum × Datum)) : Act H I Unit :=
  entries.forM fun e => setValue invoke e.1 e.2

/-- Every variable as a script value. -/
def allValues : Act H I (List (Datum × Datum)) := do
  of ((← get).store.entries.mapM fun e => return (e.1, ← e.2.toValue))

end Parley.Session
