import Parley.World

/-!
# Calling functions

A call takes the arguments to host form, runs what stands behind the function,
and gives back a script value of the declared kind.  A standard function draws
from the session's source of chance; its draws are entered in the journal.
-/

namespace Parley.Session

open Act

variable {H I : Type}

/-- Run a standard function on the session's source. -/
def runStandard (f : Standard) (arguments : List Datum) : Act H I Datum := do
  let w ← get
  let (result, source) := (f.apply arguments).run { w.source with drawn := [] } |>.run
  modify fun w => { w with source, journal := w.journal ++ source.drawn.map .draw }
  of result

/-- Call a function with script values. -/
def callFunction (invoke : Invoke H I) (f : ScriptFunction) (values : List Datum) :
    Act H I Datum := do
  let arguments ← of (ScriptFunction.arguments values)
  let result ← match f.body with
    | .standard s => runStandard s arguments
    | .host handle => invoke (.function handle arguments)
  of (f.finish result)

/-- Call a standard function by its name; the values are worked out once it is
found. -/
def callStandard (name : String) (values : Except Fault (List Datum)) : Act H I Datum :=
  match standardFunctions.lookup name with
  | some f => do callFunction (fun _ => pure .nothing) f (← of values)
  | none => throw (.accident .key)

end Parley.Session
