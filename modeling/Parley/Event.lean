import Parley.Line

/-!
# What an interpreter yields, and who hears of it

A pump returns a batch of `Event`s.  The runner turns them into `Notification`s
for the host's sink.  On a bus, a notification travels as a `Notice`, next to
the store's own notices; a listener subscribes to a `Notice.Kind`.
-/

namespace Parley

/-- An event of the interpreter.  The last two forms are events the runner has
no rule for: one that says nothing, and a datum that is no event. -/
inductive Event where
  | line (line : Line)
  | options (branches : List Branch)
  | command (name : Datum) (parameters : List Datum)
  | nodeStarted (node : Datum)
  | nodeCompleted (node : Datum)
  | hints (ids : List Datum)
  | completed
  | plain
  | alien (d : Datum)

/-- The literal form of an event without a rule. -/
def Event.shown : Event → String
  | .alien d => d.literal
  | _ => "DialogueEvent()"

/-- What a sink is told. -/
inductive Notification where
  | started
  | completed
  | nodeStarted (node : Datum)
  | nodeCompleted (node : Datum)
  | line (line : Line)
  | hints (ids : List Datum)
  | options (choices : List Choice)

/-- The name of the sink's method for a notification. -/
def Notification.method : Notification → String
  | .started => "on_dialogue_start"
  | .completed => "on_dialogue_complete"
  | .nodeStarted _ => "on_node_start"
  | .nodeCompleted _ => "on_node_complete"
  | .line _ => "on_line"
  | .hints _ => "on_line_hints"
  | .options _ => "on_options"

/-- What a bus carries. -/
inductive Notice where
  | plain
  | variableChanged (name value : Datum)
  | storeCleared
  | told (n : Notification)

namespace Notice

/-- What a listener subscribes to. -/
inductive Kind where
  | plain
  | variableChanged
  | storeCleared
  | started
  | completed
  | nodeStarted
  | nodeCompleted
  | line
  | hints
  | options
deriving DecidableEq

def kind : Notice → Kind
  | .plain => .plain
  | .variableChanged .. => .variableChanged
  | .storeCleared => .storeCleared
  | .told .started => .started
  | .told .completed => .completed
  | .told (.nodeStarted _) => .nodeStarted
  | .told (.nodeCompleted _) => .nodeCompleted
  | .told (.line _) => .line
  | .told (.hints _) => .hints
  | .told (.options _) => .options

def Kind.all : List Kind :=
  [ .plain, .variableChanged, .storeCleared, .started, .completed, .nodeStarted,
    .nodeCompleted, .line, .hints, .options ]

/-- The name under which a host knows a kind. -/
def Kind.name : Kind → String
  | .plain => "Event"
  | .variableChanged => "VariableChangedEvent"
  | .storeCleared => "StoreClearedEvent"
  | .started => "DialogueStartedEvent"
  | .completed => "DialogueCompletedEvent"
  | .nodeStarted => "NodeStartedEvent"
  | .nodeCompleted => "NodeCompletedEvent"
  | .line => "LineEvent"
  | .hints => "LineHintsEvent"
  | .options => "OptionsEvent"

def Kind.named? (name : String) : Option Kind := Kind.all.find? fun k => k.name == name

end Notice

end Parley
