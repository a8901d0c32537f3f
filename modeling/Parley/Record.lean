import Parley.Chance
import Parley.Bus
import Parley.Note
import Parley.Outcome

/-!
# What happens, in order

A session keeps a journal.  It has the log entries, the random draws, every call
the library made to the host (a `Callback`), what became of the calls the host
made from inside one (`nested`), and the calls on an interpreter that wants them
known.
-/

namespace Parley

/-- A call from the library to its host. -/
inductive Callback where
  | listener (l : Listener) (n : Notice)
  | sink (n : Notification)
  | command (handler : Handle) (arguments : List Datum)
  | function (handle : Handle) (arguments : List Datum)

/-- What an operation answers. -/
inductive Answer where
  | done
  | flag (b : Bool)
  | count (n : Nat)
  | datum (d : Datum)
  | data (ds : List Datum)
  | names (ns : List Datum)
  | tags (ts : List Datum)
  | bindings (vs : List (Datum × Datum))
  | saved (vs : List (Datum × Datum))
  | outcome (o : Outcome)
  | noChoice
  | wrote (r : WriteResult)
  | wroteAll (rs : List (Datum × WriteResult))
  | handler (h : Option Handle)
  | shown (s : Option String)
deriving Inhabited

/-- A call on an interpreter. -/
inductive EngineCall where
  /-- a program was accepted, the `count`-th so far -/
  | loaded (count : Nat)
  | unloaded
  | nodeSet (node : Datum)
  | selected (id : Datum)
  | continued
  | stopped

namespace EngineCall

def name : EngineCall → String
  | .loaded _ => "load"
  | .unloaded => "unload"
  | .nodeSet _ => "set_node"
  | .selected _ => "select"
  | .continued => "continue"
  | .stopped => "stop"

def arguments : EngineCall → List Datum
  | .loaded count => [.int count]
  | .nodeSet node => [node]
  | .selected id => [id]
  | .unloaded | .continued | .stopped => []

end EngineCall

inductive Record where
  | log (n : Note)
  | draw (d : Draw)
  | called (c : Callback)
  | nested (answer : Except Fault Answer)
  | engine (c : EngineCall)
  /-- a program was handed to the loader -/
  | loading (source : Datum)
  /-- a path with a handle was looked up -/
  | locating (path : String)
  | handleAdded (handle : Datum) (directory : String)
  | compiling (paths : List String)
  | tagging (contents : Datum) (existing : List Datum)

/-- The choices a host was shown by this record. -/
def Record.shownChoices : Record → List Choice
  | .called (.sink (.options cs)) => cs
  | .called (.listener _ (.told (.options cs))) => cs
  | _ => []

/-- A computation that keeps a journal and may fail. -/
abbrev Reporting := ExceptT Fault (StateM (List Record))

namespace Reporting

def record (r : Record) : Reporting Unit := modify (· ++ [r])

def log (n : Note) : Reporting Unit := record (.log n)

end Reporting

end Parley
