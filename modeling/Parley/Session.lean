import Parley.Session.Drive
import Parley.Session.Text

/-!
# Sessions

Everything a host can ask of the library is a `Request`, and `perform` answers
one.  It is a function of how the library calls its host, which closes the circle:
a host's callback is a `Script`, a tree of further requests that goes on by their
answers, and `exec` answers a request with a host whose callbacks are run by
`exec` itself.  The fuel bounds how deep callbacks nest and how long a pump goes
on without a pause; it does not bound how much a callback does.

What became of each request of a callback is entered in the journal.
-/

namespace Parley

/-- How a host names a choice: by its place among the current options, by its
place among all it was ever shown, or by holding it. -/
inductive Pick where
  | current (i : Int)
  | shown (i : Int)
  | given (c : Option Choice)

/-- What a host can ask for. -/
inductive Request (I : Type) where
  /-- the host does something of its own, which may fail -/
  | own (result : Except Fault Unit)
  -- the bus
  | subscribe (k : Notice.Kind) (l : Listener)
  | unsubscribe (k : Notice.Kind) (l : Listener)
  | publish (n : Notice)
  | clearBus
  | unregister (o : Owner)
  -- the variables, from the host's side
  | setVariable (name value : Datum)
  | setVariables (entries : List (Datum × Datum))
  | getVariable (name : Datum)
  | hasVariable (name : Datum)
  | isValidName (name : Datum)
  | variableCount
  | clearVariables
  | saveState
  | restoreState (entries : List (Datum × Datum))
  -- the variables, from the interpreter's side
  | getValue (name : Datum)
  | setValue (name value : Datum)
  | setValues (entries : List (Datum × Datum))
  | allValues
  -- commands
  | registerCommand (name : Datum) (handler : Option Handle)
  | removeCommand (name : Datum)
  | commandHandler (name : Datum)
  | isCommand (name : Datum)
  | clearCommands
  | dispatch (name : Datum) (parameters : List Datum)
  -- texts
  | setLocale (locale : Datum)
  | setLanguage (language : Datum)
  | language
  | getText (id : Datum)
  | addPhrasebook (locale : Datum) (t : Phrasebook)
  | removePhrasebook (locale : Datum)
  | hasPhrasebook (locale : Datum)
  | addEntry (locale message text : Datum)
  | hasEntry (locale message : Datum)
  | addFallback (locale : Datum) (t : Phrasebook)
  | phrase (message : Datum)
  | clearServer
  | setFallback (l : Option Lexicon)
  | fallback
  | acceptHints (ids : List Datum)
  -- the runner
  | setup (factory : Option I)
  | cleanup
  | build (programs : Option (List Program))
  | clearPrograms
  | start (node : Datum)
  | continue
  | stop
  | select (p : Pick)
  | nodeExists (node : Datum)
  | tagsOf (node : Datum)
  | registerFunction (name : Datum) (handle : Handle) (returns : String)
  | functionNames
  | stopCount

namespace Session

open Act

variable {H I L : Type}

/-- The item at a place, counted from the end when negative. -/
def nth? {α : Type} (xs : List α) (i : Int) : Option α :=
  if 0 ≤ i then xs[i.toNat]?
  else if 0 ≤ i + xs.length then xs[(i + xs.length).toNat]?
  else none

/-- Answer the pending batch by the choice a host names. -/
def selectPick (ip : Interpreter I L) (p : Pick) : Act H I Answer := do
  match p with
  | .given c => return .outcome (← select ip c)
  | .current i =>
    match nth? (← get).options i with
    | some c => return .outcome (← select ip (some c))
    | none => return .noChoice
  | .shown i =>
    match nth? (← get).shownChoices i with
    | some c => return .outcome (← select ip (some c))
    | none => throw (.accident .index)

/-- An operation without an answer of its own. -/
def only (act : Act H I Unit) : Act H I Answer := do
  act
  return .done

def modifyBus (f : Bus → Bus) : Act H I Answer := only (modify fun w => { w with bus := f w.bus })

/-- Answer a request, calling the host by `invoke`. -/
def perform (ip : Interpreter I L) (fuel : Nat) (invoke : Invoke H I) :
    Request I → Act H I Answer
  | .own result => only (of result)
  | .subscribe k l => modifyBus fun b => b.subscribe k l
  | .unsubscribe k l => modifyBus fun b => b.unsubscribe k l
  | .publish n => only (publish invoke n)
  | .clearBus => modifyBus Bus.clear
  | .unregister o => modifyBus fun b => b.unregister o
  | .setVariable name value => return .wrote (← setVariable invoke name value)
  | .setVariables entries => return .wroteAll (← setVariables invoke entries)
  | .getVariable name => return .datum (← getVariable name)
  | .hasVariable name => return .flag (← hasVariable name)
  | .isValidName name => return .flag (← of (isValidName (← get).settings name))
  | .variableCount => return .count (← get).store.size
  | .clearVariables => only (clearVariables invoke)
  | .saveState => return .saved (← get).store.entries
  | .restoreState entries => only (restore invoke entries)
  | .getValue name => return .datum (← getValue name)
  | .setValue name value => only (setValue invoke name value)
  | .setValues entries => only (setValues invoke entries)
  | .allValues => return .bindings (← allValues)
  | .registerCommand name handler => only (registerCommand name handler)
  | .removeCommand name => return .flag (← removeCommand name)
  | .commandHandler name => return .handler (← commandHandler name)
  | .isCommand name => return .flag (← isCommand name)
  | .clearCommands => only clearCommands
  | .dispatch name parameters => return .flag (← dispatch invoke name parameters)
  | .setLocale locale => only (setLocale locale)
  | .setLanguage l => only (setLanguage l)
  | .language => return .datum (← language)
  | .getText id => return .datum (← getText id)
  | .addPhrasebook locale t => only (addPhrasebook locale t)
  | .removePhrasebook locale => return .flag (← removePhrasebook locale)
  | .hasPhrasebook locale => return .flag (← hasPhrasebook locale)
  | .addEntry locale message text => only (addEntry locale message text)
  | .hasEntry locale message => return .flag (← hasEntry locale message)
  | .addFallback locale t => only (addFallback locale t)
  | .phrase message => return .datum (← phrase message)
  | .clearServer => only clearServer
  | .setFallback l => only (setFallback l)
  | .fallback => return .shown ((← get).fallback.map (·.shown))
  | .acceptHints ids => only (acceptHints ids)
  | .setup factory => only (setup ip factory)
  | .cleanup => only (cleanup ip invoke)
  | .build programs => only (build ip programs)
  | .clearPrograms => only (clearPrograms ip)
  | .start node => return .outcome (← start ip fuel invoke node)
  | .continue => return .outcome (← continueDialogue ip fuel invoke)
  | .stop => return .outcome (← stop ip invoke)
  | .select p => selectPick ip p
  | .nodeExists node => return .flag (← nodeExists ip node)
  | .tagsOf node => return .tags (← tagsOf ip node)
  | .registerFunction name handle returns => only (registerFunction name handle returns)
  | .functionNames => return .names (← functionNames)
  | .stopCount => return .count (← stopCount ip)

end Session

/-! ## Hosts -/

/-- What a callback does: end with a result, or ask for something and go on by
what became of it.  The host's own state goes in and out with each request. -/
inductive Script (H I : Type) where
  | finish (host : H) (result : Except Fault Datum)
  | request (host : H) (r : Request I) (next : H → Except Fault Answer → Script H I)

/-- How a host reacts to being called. -/
abbrev Host (H I : Type) := H → Callback → Script H I

namespace Session

open Act

variable {H I L : Type}

def setHost (host : H) : Act H I Unit := modify fun w => { w with host }

/-- Run a callback's script, answering its requests by `answer`. -/
def runScript (answer : Request I → Act H I Answer) : Script H I → Act H I Datum
  | .finish host result => do
    setHost host
    of result
  | .request host r next => do
    setHost host
    let a ← attempt (answer r)
    record (.nested a)
    runScript answer (next (← get).host a)

/-- Call the host: enter the call in the journal and run what it does. -/
def callHost (react : Host H I) (answer : Request I → Act H I Answer) : Invoke H I :=
  fun c => do
    record (.called c)
    runScript answer (react (← get).host c)

/-- Answer a request with a host; callbacks nest at most `fuel` deep. -/
def exec (ip : Interpreter I L) (react : Host H I) : Nat → Request I → Act H I Answer
  | 0, _ => endless
  | fuel + 1, r => perform ip fuel (callHost react (exec ip react fuel)) r

end Session

end Parley
