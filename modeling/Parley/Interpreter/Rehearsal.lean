import Parley.Interpreter

/-!
# Rehearsed interpreters

An interpreter that does what it was told beforehand.  Each kind of call has a
queue of cues: a fault to raise or a batch of events to return.  When a queue is
used up, the call does nothing.  Whether it waits for an answer is fixed.
-/

namespace Parley.Rehearsal

/-- What a call does: fail, or return a batch. -/
abbrev Cue := Except Fault (List Event)

structure State where
  loads : List Cue := []
  setNodes : List Cue := []
  selects : List Cue := []
  pumps : List Cue := []
  stops : List Cue := []
  waiting : Bool := false
  tags : Keyed String Datum := {}
  node : Option Datum := none

/-- The first cue of a queue. -/
def cue (queue : List Cue) : Cue := queue.head?.getD (.ok [])

/-- The cue of a call that returns nothing. -/
def silent (queue : List Cue) : Except Fault Unit := (cue queue).map fun _ => ()

def setNode (node : Datum) (s : State) : Except Fault Unit × State :=
  match cue s.setNodes with
  | .ok _ => (.ok (), { s with setNodes := s.setNodes.tail, node := some node })
  | .error f => (.error f, { s with setNodes := s.setNodes.tail })

def advance (_ : TextOf) (_ : Unit) (s : State) : Move Unit × State :=
  (match cue s.pumps with
    | .ok events => .pause events
    | .error f => .fail f,
    { s with pumps := s.pumps.tail })

/-- What was said about a node's tags, if anything was. -/
def tagsOf? (node : Datum) (s : State) : Except Fault (Option Datum) :=
  return (← node.name?).bind s.tags.get?

/-- The tags of a node; one about which nothing was said, or that it has none, is
not known. -/
def tags? (node : Datum) (s : State) : Except Fault (Option (List Datum)) := do
  match ← tagsOf? node s with
  | none | some .nothing => return none
  | some tags => return some (← tags.items)

/-- The interpreter that follows its cues. -/
def interpreter : Interpreter State Unit where
  typeName _ := "ScriptedDialogue"
  isObserved _ := true
  load _ s := (silent s.loads, { s with loads := s.loads.tail })
  unload s := s
  setNode := setNode
  select _ s := (silent s.selects, { s with selects := s.selects.tail })
  stop s := (cue s.stops, { s with stops := s.stops.tail })
  isWaiting s := s.waiting
  currentNode s := s.node
  hasNode node s := (tagsOf? node s).map Option.isSome
  tags? := tags?
  stops? _ := none
  begin _ := ()
  advance := advance

end Parley.Rehearsal
