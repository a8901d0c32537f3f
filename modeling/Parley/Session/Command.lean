import Parley.Datum.ScriptForm
import Parley.World

/-!
# Dispatching commands

A command reaches the handler registered at that moment, with its parameters in
host form.  Parameters that have none are the script's fault and not contained;
what the handler itself does wrong is logged and goes no further.
-/

namespace Parley.Session

open Act

variable {H I : Type}

def registerCommand (name : Datum) (handler : Option Handle) : Act H I Unit := do
  checkKey name
  let c := (← get).commands
  modify fun w => { w with commands := c.register name handler }
  log (c.registerNote name)

/-- Remove a command; the answer is whether it had a handler. -/
def removeCommand (name : Datum) : Act H I Bool := do
  checkKey name
  let c := (← get).commands
  modify fun w => { w with commands := c.remove name }
  return (c.get? name).isSome

/-- The handler under a name, if there is one. -/
def commandHandler (name : Datum) : Act H I (Option Handle) := do
  checkKey name
  return (← get).commands.get? name

def isCommand (name : Datum) : Act H I Bool := do
  checkKey name
  return (← get).commands.isRegistered name

def clearCommands : Act H I Unit := modify fun w => { w with commands := {} }

/-- Run a handler; the answer is whether it came to its end. -/
def runHandler (invoke : Invoke H I) (name : Datum) (handler : Handle)
    (arguments : List Datum) : Act H I Bool := do
  match ← attempt (invoke (.command handler arguments)) with
  | .ok _ => return true
  | .error f =>
    if f.isA .exception then
      log (.commandFailed name f)
      return false
    else throw f

/-- Issue a command; the answer is whether a handler ran to its end. -/
def dispatch (invoke : Invoke H I) (name : Datum) (parameters : List Datum) :
    Act H I Bool := do
  match ← commandHandler name with
  | none =>
    log (.commandMissing name)
    return false
  | some handler =>
    let arguments ← of (parameters.mapM Datum.toHost)
    runHandler invoke name handler arguments

end Parley.Session
