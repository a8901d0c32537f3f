import Parley.Session.Command
import Parley.Session.Function
import Parley.Session.Variables

/-!
# The runner

The runner holds one interpreter and lets the host drive it: set up, load
programs, start at a node, continue, answer a batch of options, stop.  It never
runs ahead on its own.  A pump yields a batch of events, and each is passed on in
order; lines and options are also kept for the host to look at.

Failures below `dialogue` become outcomes.  Every other fault goes through to the
host, and what was done up to it stays done.

The sink, the listeners and the handlers may call any operation while they are
being told.  So every step reads the world afresh, and what an operation writes
after a callback is written over whatever the callback did.
-/

namespace Parley.Session

open Act

variable {H I L : Type}

/-- Bring a notification to where they go. -/
def bring (invoke : Invoke H I) (n : Notification) : Act H I Unit := do
  match (← get).sink with
  | .silent => return
  | .host => discard (invoke (.sink n))
  | .bus => publish invoke (.told n)

/-- Pass a notification on. -/
def notify (invoke : Invoke H I) (n : Notification) : Act H I Unit := do
  mark (.telling n)
  bring invoke n
  mark (.heard n)

/-- Enter a call on an interpreter in the journal, if it wants that. -/
def observe (ip : Interpreter I L) (slot : Nat) (c : EngineCall) : Act H I Unit := do
  let i ← instance? slot
  if ip.isObserved i.core then record (.engine c)

/-- The outcome of an interpreter's fault; an unknown one is logged. -/
def outcomeOf (f : Fault) : Act H I Outcome := do
  match Outcome.ofClass? f.cls with
  | some o => return o
  | none =>
    log (.unmapped f)
    return .unknown

/-! ## Pumping -/

/-- Do what a pump asks for. -/
def serve (invoke : Invoke H I) (slot : Nat) : Ask → Act H I Datum
  | .write name value => do
    setValue invoke name value
    return .nothing
  | .call function arguments => do
    checkKey function
    match (← instance? slot).functions.get? function with
    | some f => do callFunction invoke f (← of arguments)
    | none => throw (.accident .key)

/-- Pump an interpreter until it pauses, in at most `fuel` moves. -/
def pump (ip : Interpreter I L) (invoke : Invoke H I) (slot : Nat) :
    Nat → L → Act H I (List Event)
  | 0, _ => endless
  | fuel + 1, l => do
    let i ← instance? slot
    let (move, core) := ip.advance (← get).textOf l i.core
    setCore slot core
    match move with
    | .again next => pump ip invoke slot fuel next
    | .ask request next =>
      let answer ← attempt (serve invoke slot request)
      pump ip invoke slot fuel (next answer)
    | .pause events => return events
    | .fail f => throw f

/-! ## Events -/

/-- Pass on one event of the batch at a place among the dealings. -/
def process (invoke : Invoke H I) (place : Nat) : Event → Act H I Unit
  | .line l => do
    notify invoke (.line l)
    modify fun w => { w with line := some l }
  | .options branches => do
    let choices := branches.map fun b => { branch := some b }
    notify invoke (.options choices)
    modify fun w => { w with options := w.options ++ choices }
  | .command name parameters => discard (dispatch invoke name parameters)
  | .nodeCompleted node => notify invoke (.nodeCompleted node)
  | .nodeStarted node => notify invoke (.nodeStarted node)
  | .hints ids => notify invoke (.hints ids)
  | .completed => do
    notify invoke .completed
    flag false (.settled place)
  | e => log (.eventIgnored e.shown)

/-- Pass a batch on. -/
def processAll (invoke : Invoke H I) (events : List Event) : Act H I Unit := do
  let place := (← get).dealings.length
  deal (.batch events)
  events.forM (process invoke place)

/-! ## Programs -/

/-- The faults that only make a program be skipped. -/
def isLoadFault (f : Fault) : Bool :=
  [ErrorClass.programLoad, .value, .type, .key].any f.isA

/-- The program to load, from what was handed over. -/
def prepare (p : Program) : Act H I Program := do
  match (← get).loader with
  | none => return p
  | some loader =>
    record (.loading p)
    of (loader p)

/-- Load one program into the held interpreter. -/
def addProgram (ip : Interpreter I L) (p : Program) : Act H I Unit := do
  let slot ← held
  let i ← instance? slot
  let (result, core) := ip.load p i.core
  setCore slot core
  of result
  modifyInstance slot fun i => { i with loads := i.loads + 1 }
  observe ip slot (.loaded (i.loads + 1))

/-- Load a program, or log why it does not load; the answer is how many were. -/
def loadOne (ip : Interpreter I L) (p : Program) (index : Nat) : Act H I Nat := do
  let skip (f : Fault) (shown : Program) : Act H I Nat := do
    if isLoadFault f then
      log (.loadFailed f index shown)
      return 0
    else throw f
  match ← attempt (prepare p) with
  | .error f => skip f p
  | .ok ready =>
    match ← attempt (addProgram ip ready) with
    | .error f => skip f ready
    | .ok _ => return 1

/-- Forget every program of the interpreter in a slot. -/
def unload (ip : Interpreter I L) (slot : Nat) : Act H I Unit := do
  observe ip slot .unloaded
  modifyInstance slot fun i => { i with core := ip.unload i.core }

/-- Load the programs of the list in order, in place of everything loaded before. -/
def reload (ip : Interpreter I L) : Act H I Unit := do
  match (← get).current with
  | none => log .noInterpreter
  | some slot =>
    unload ip slot
    let ps := (← get).programs
    let loaded ← ps.zipIdx.mapM fun (p, index) => loadOne ip p index
    log (.programsLoaded (loaded.foldl (· + ·) 0) ps.length)

/-- Load a new list of programs, or the one there is again. -/
def build (ip : Interpreter I L) (programs : Option (List Program)) : Act H I Unit := do
  if let some ps := programs then modify fun w => { w with programs := ps }
  reload ip

/-- Unload all programs and forget the list of them. -/
def clearPrograms (ip : Interpreter I L) : Act H I Unit := do
  match (← get).current with
  | none => return
  | some slot =>
    unload ip slot
    modify fun w => { w with programs := [] }

/-! ## Setting up -/

/-- Make a text provider from the lexicons, unless there is one. -/
def ensureProvider : Act H I Unit := do
  let w ← get
  if w.provider.isNone then
    let (fallback, notes) := Lexicon.mergeAll w.lexicons
    notes.forM log
    modify fun w => { w with
      provider := some { fallback }
      lexicons := fallback.toList ++ w.lexicons.tail }

/-- Make an interpreter and load the programs into it. -/
def setup (ip : Interpreter I L) (factory : Option I) : Act H I Unit := do
  if let some core := factory then modify fun w => { w with factory := some core }
  match (← get).factory with
  | none => throw .noFactory
  | some core =>
    ensureProvider
    modify fun w => { w with
      instances := w.instances ++ [{ core, functions := .standard }]
      current := some w.instances.length }
    flag false .made
    log (.interpreterReady (ip.typeName core))
    build ip none

/-! ## Running -/

/-- Pump once and pass the events on. -/
def continueDialogue (ip : Interpreter I L) (fuel : Nat) (invoke : Invoke H I) :
    Act H I Outcome := do
  if !(← get).running then return .notRunning
  modify World.blank
  deal .pumping
  let slot ← held
  observe ip slot .continued
  let i ← instance? slot
  match ← attempt (pump ip invoke slot fuel (ip.begin i.core)) with
  | .error f =>
    if f.isA .dialogue then
      log (.interpreterFailed f)
      outcomeOf f
    else throw f
  | .ok events =>
    processAll invoke events
    return if (← get).running then .ok else .complete

/-- Start at a node and pump once. -/
def start (ip : Interpreter I L) (fuel : Nat) (invoke : Invoke H I) (node : Datum) :
    Act H I Outcome := do
  let w ← get
  if w.running then
    log (.startRefused node)
    return .alreadyRunning
  match w.current with
  | none => return .notConfigured
  | some slot =>
    observe ip slot (.nodeSet node)
    let i ← instance? slot
    let (result, core) := ip.setNode node i.core
    setCore slot core
    match result with
    | .error f =>
      if f.isA .dialogue then
        log (.interpreterFailed f)
        outcomeOf f
      else throw f
    | .ok _ =>
      flag true .entered
      notify invoke .started
      continueDialogue ip fuel invoke

/-- Answer the pending batch of options. -/
def select (ip : Interpreter I L) (choice : Option Choice) : Act H I Outcome := do
  match (← get).current with
  | none => return .notConfigured
  | some slot =>
    match choice.bind (·.branch) with
    | none => return .optionId
    | some b =>
      observe ip slot (.selected b.id)
      let i ← instance? slot
      let (result, core) := ip.select b.id i.core
      setCore slot core
      match result with
      | .ok _ => return .ok
      | .error f =>
        if f.isA .dialogue then
          log (.optionRejected b.id f)
          outcomeOf f
        else throw f

/-- End the dialogue at once. -/
def stop (ip : Interpreter I L) (invoke : Invoke H I) : Act H I Outcome := do
  let place := (← get).dealings.length
  deal .stopping
  if let some slot := (← get).current then
    observe ip slot .stopped
    let i ← instance? slot
    let (result, core) := ip.stop i.core
    setCore slot core
    processAll invoke (← of result)
  flag false (.settled place)
  return .ok

/-- Stop the dialogue and let go of the interpreter. -/
def cleanup (ip : Interpreter I L) (invoke : Invoke H I) : Act H I Unit := do
  if (← get).current.isSome then
    discard (stop ip invoke)
    unload ip (← held)
  modify fun w => { w.blank with current := none }

/-! ## Questions about the interpreter -/

/-- Ask the held interpreter, or give the answer for none. -/
def ask {α : Type} (whenNone : α) (question : I → α) : Act H I α := do
  match (← get).current with
  | none => return whenNone
  | some slot => return question (← instance? slot).core

def isWaiting (ip : Interpreter I L) : Act H I Bool := ask false ip.isWaiting

def currentNode (ip : Interpreter I L) : Act H I (Option Datum) := ask none ip.currentNode

def nodeExists (ip : Interpreter I L) (node : Datum) : Act H I Bool := do
  of (← ask (.ok false) (ip.hasNode node))

/-- The tags of a node; a missing node has none and is logged. -/
def tagsOf (ip : Interpreter I L) (node : Datum) : Act H I (List Datum) := do
  match ← of (← ask (.ok none) (ip.tags? node)) with
  | some tags => return tags
  | none =>
    log (.nodeMissing node)
    return []

/-- Let scripts call a function of the host. -/
def registerFunction (name : Datum) (handle : Handle) (returns : String) : Act H I Unit := do
  let f ← of (ScriptFunction.ofHost name.plain handle returns)
  match (← get).current with
  | none => log (.functionSkipped name)
  | some slot =>
    checkKey name
    modifyInstance slot fun i => { i with functions := i.functions.insert name f }
    log (.functionRegistered name)

/-- The functions scripts can call, in order. -/
def functionNames : Act H I (List Datum) := return (← instance? (← held)).functions.keys

/-- How often the held interpreter was stopped. -/
def stopCount (ip : Interpreter I L) : Act H I Nat := do
  match ip.stops? (← instance? (← held)).core with
  | some n => return n
  | none => throw (.accident .noAttribute)

end Parley.Session
