import Parley.Interpreter

/-!
# Scripts of nodes and steps

A program is a table of nodes, and a node is a table with a list of steps: deliver a
line, offer options, issue a command, write a variable, call a function and keep its
result, or go on in another node.  Lines, options and commands end a pump; the others
do not.  At the end of a node the dialogue is complete.

After an answered batch of options the next pump begins by leaving the node for
the chosen destination.  Entering a node announces it, with hints of all its
lines.

A node has whatever its program keyed it with for a name.  Nothing at all may be a key
too; but an interpreter that is at that node cannot be told from one that is at none.
-/

namespace Parley.Script

/-! ## Reading programs

Of a program it is only asked that it is a table of tables.  What is malformed
further inside fails when it is read: the steps when their node is entered, a
step when it is reached. -/

/-- A node as its program has it. -/
structure Node where
  entries : List (Datum × Datum) := []

namespace Node

/-- What the node has under a name. -/
def field? (n : Node) (name : String) : Option Datum :=
  (n.entries.find? fun e => e.1.same (.text name)).map (·.2)

def tags (n : Node) : Except Fault (List Datum) := ((n.field? "tags").getD (.list [])).items

def steps (n : Node) : Except Fault Datum :=
  (n.field? "steps").elim (.error (.accident .key)) .ok

/-- The step at a place, if the node goes on so far. -/
def step? (n : Node) (place : Nat) : Except Fault (Option Datum) := do
  let steps ← n.steps
  if place < (← steps.items).length then return some (← steps.item place) else return none

end Node

/-- The nodes of a program, if it is one. -/
def nodes? : Program → Option (List (Datum × Node))
  | .dict entries => entries.mapM fun e =>
    match e with
    | (name, .dict entries) => some (name, { entries })
    | _ => none
  | _ => none

/-- The line that a step delivers, if it delivers one. -/
def hint? (step : Datum) : Except Fault (Option Datum) := do
  match ← step.item 0 with
  | .text "line" => return some (← step.item 1)
  | _ => return none

/-- The lines of a node, which are hinted at when it is entered. -/
def Node.lineIds (n : Node) : Except Fault (List Datum) := do
  return (← (← (← n.steps).items).mapM hint?).reduceOption

/-- An option as a script writes it. -/
structure Offer where
  id : Datum
  text : Datum
  destination : Datum
  available : Datum

def Offer.ofDatum (d : Datum) : Except Fault Offer := do
  match ← d.items with
  | [id, text, destination, available] => return { id, text, destination, available }
  | _ => throw (.accident .value)

inductive Step where
  | line (id text : Datum)
  /-- options; the first that is not well formed fails, the lines before it having been looked up -/
  | options (offers : List Datum)
  | command (name : Datum) (parameters : List Datum)
  | set (name value : Datum)
  /-- a call; the variable for its result and its arguments are read once the function is found -/
  | call (function : Datum) (rest : Except Fault (Datum × List Datum))
  | jump (node : Datum)

def Step.ofDatum (d : Datum) : Except Fault Step := do
  match ← d.item 0 with
  | .text "line" => return .line (← d.item 1) (← d.item 2)
  | .text "options" => return .options (← (← d.item 1).items)
  | .text "command" => return .command (← d.item 1) (← d.itemsFrom 2)
  | .text "set" => return .set (← d.item 1) (← d.item 2)
  | .text "call" => return .call (← d.item 2) do return (← d.item 1, ← d.itemsFrom 3)
  | .text "jump" => return .jump (← d.item 1)
  | _ => throw (.accident .value)

/-! ## Running -/

structure State where
  nodes : Keyed Datum Node := {}
  /-- the name of the current node, or nothing -/
  node : Datum := .nothing
  /-- the position of the next step in the node -/
  position : Nat := 0
  /-- is the node still to be announced? -/
  entering : Bool := false
  branches : List Branch := []
  waiting : Bool := false
  destination : Option Datum := none
  stops : Nat := 0

def State.hasNode (s : State) (node : Datum) : Except Fault Bool :=
  return s.nodes.contains (← node.asKey)

/-- The node the state tells of when it is asked. -/
def State.current? (s : State) : Option Datum := (some s.node).filter Datum.isSomething

/-- The local state of a pump. -/
inductive Local where
  | begin
  | running (events : List Event)
  | assign (name value : Datum) (events : List Event)
  | failed (fault : Fault)

/-- The line with its text: the one looked up, or the script's own. -/
def makeLine (textOf : TextOf) (id raw : Datum) : Except Fault Line := do
  match (← textOf id).getD raw with
  | .text t => return .withSpeaker id t
  | .bytes _ => throw (.accident .type)
  | _ => throw (.accident .noAttribute)

def makeBranches (textOf : TextOf) (offers : List Datum) : Except Fault (List Branch) :=
  offers.zipIdx.mapM fun (d, i) => do
    let o ← Offer.ofDatum d
    return { id := .int i, line := ← makeLine textOf o.id o.text
             destination := o.destination, available := o.available }

/-- Leave the node for another one. -/
def enter (s : State) (node : Datum) (events : List Event) : Move Local × State :=
  match s.hasNode node with
  | .ok true =>
    (.again (.running (events ++ [.nodeCompleted s.node])),
      { s with node, position := 0, entering := true })
  | .ok false => (.fail (.invalidNode node), s)
  | .error f => (.fail f, s)

/-- Announce the node, if that is still to be done. -/
def announce (s : State) (node : Node) (events : List Event) : Except Fault (List Event) :=
  if s.entering then do
    let ids ← node.lineIds
    return events ++ [.nodeStarted s.node, .hints ids]
  else .ok events

/-- After a write the script goes on; a store's fault ends the pump. -/
def afterWrite (events : List Event) : Except Fault Datum → Local
  | .ok _ => .running events
  | .error f => .failed (if f.isA .storage then .storageFailure f else f)

/-- After a call its result is kept; what is wrong with the rest of the step has failed the
call already. -/
def afterCall (events : List Event) (rest : Except Fault (Datum × List Datum)) :
    Except Fault Datum → Local
  | .ok value => match rest with
    | .ok (name, _) => .assign name value events
    | .error f => .failed f
  | .error f => .failed f

/-- Carry out a step. -/
def perform (textOf : TextOf) (s : State) (events : List Event) : Step → Move Local × State
  | .line id text =>
    match makeLine textOf id text with
    | .ok l => (.pause (events ++ [.line l]), s)
    | .error f => (.fail f, s)
  | .options offers =>
    match makeBranches textOf offers with
    | .ok branches =>
      (.pause (events ++ [.options branches]), { s with branches, waiting := true })
    | .error f => (.fail f, s)
  | .command name parameters => (.pause (events ++ [.command name parameters]), s)
  | .set name value => (.ask (.write name value) (afterWrite events), s)
  | .call function rest => (.ask (.call function (rest.map (·.2))) (afterCall events rest), s)
  | .jump node => enter s node events

/-- The next step of the node, or its end.  A node that was unloaded or left in
the middle of the pump is missed here. -/
def stepOn (textOf : TextOf) (s : State) (events : List Event) : Move Local × State :=
  let entered := { s with entering := false }
  match s.nodes.get? s.node with
  | none => (.fail (.accident .key), entered)
  | some node =>
    match announce s node events with
    | .error f => (.fail f, entered)
    | .ok events =>
      match node.step? s.position with
      | .error f => (.fail f, entered)
      | .ok none =>
        (.pause (events ++ [.nodeCompleted s.node, .completed]), { entered with node := .nothing })
      | .ok (some step) =>
        let reached := { entered with position := s.position + 1 }
        match Step.ofDatum step with
        | .error f => (.fail f, reached)
        | .ok step => perform textOf reached events step

def advance (textOf : TextOf) : Local → State → Move Local × State
  | .failed f, s => (.fail f, s)
  | .assign name value events, s => (.ask (.write name value) (afterWrite events), s)
  | .running events, s => stepOn textOf s events
  | .begin, s =>
    if s.waiting then (.fail (.raised .continueOnOptions []), s)
    else if !s.node.isSomething then (.fail (.raised .noNodeSelected []), s)
    else match s.destination with
      | some node => enter { s with destination := none } node []
      | none => (.again (.running []), s)

def load (p : Program) (s : State) : Except Fault Unit × State :=
  match nodes? p with
  | some nodes => (.ok (), { s with nodes := s.nodes.insertAll nodes })
  | none => (.error (.telling p (.notAProgram p)), s)

def setNode (node : Datum) (s : State) : Except Fault Unit × State :=
  match s.hasNode node with
  | .ok true =>
    (.ok (), { s with node, position := 0, entering := true, waiting := false
                      destination := none })
  | .ok false => (.error (.invalidNode node), s)
  | .error f => (.error f, s)

/-- Answer the pending batch by the number of one of its branches.  A branch
without a destination lets the node go on. -/
def select (id : Datum) (s : State) : Except Fault Unit × State :=
  if s.waiting then
    match s.branches.find? fun b => b.id.same id with
    | some b =>
      (.ok (), { s with waiting := false
                        destination := (some b.destination).filter Datum.isSomething })
    | none => (.error (.invalidOption id s.branches.length), s)
  else (.error (.raised .unexpectedSelection []), s)

def stop (s : State) : Except Fault (List Event) × State :=
  (.ok (if s.node.isSomething then [.completed] else []),
    { s with stops := s.stops + 1, node := .nothing, waiting := false })

/-- The tags of a node, if it is there. -/
def tags? (node : Datum) (s : State) : Except Fault (Option (List Datum)) := do
  match s.nodes.get? (← node.asKey) with
  | none => return none
  | some n => return some (← n.tags)

/-- The interpreter of such scripts. -/
def interpreter : Interpreter State Local where
  typeName _ := "FakeDialogue"
  isObserved _ := false
  load := load
  unload s := { s with nodes := {} }
  setNode := setNode
  select := select
  stop := stop
  isWaiting s := s.waiting
  currentNode := State.current?
  hasNode node s := s.hasNode node
  tags? := tags?
  stops? s := some s.stops
  begin _ := .begin
  advance := advance

end Parley.Script
