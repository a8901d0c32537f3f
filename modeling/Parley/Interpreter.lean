import Parley.Event
import Parley.ScriptFunction

/-!
# Interpreters

The interpreter runs the script; this library runs the interpreter.  What is
needed of one is a state and the functions below.  Each of them may fail and may
change the state even then.

A pump is different from the other calls: while it runs, the interpreter writes
variables and calls functions, and whoever hears of that may call back and
change the very state the pump is working on.  So a pump is a machine of its
own.  Its local state is kept apart from the interpreter's, it moves one step at
a time, and a step that needs the host ends in a request; the answer, or the
fault, becomes part of the next local state.  Line texts are only read and come
as a function.

Only a pump asks for something.  Loading, selecting and stopping are single steps
here, so an interpreter that writes a variable or calls a function of the host in
the middle of one of these is none of this form.
-/

namespace Parley

/-- A program as it is handed over; whether it is one is for an interpreter to say. -/
abbrev Program := Datum

/-- What a pump asks of its host.  The arguments of a call are read once the function is
found. -/
inductive Ask where
  | write (name value : Datum)
  | call (function : Datum) (arguments : Except Fault (List Datum))

/-- What a pump does next. -/
inductive Move (L : Type) where
  | again (next : L)
  | ask (request : Ask) (next : Except Fault Datum → L)
  | pause (events : List Event)
  | fail (fault : Fault)

/-- Where the text of a line comes from. -/
abbrev TextOf := Datum → Except Fault (Option Datum)

/-- An interpreter with states `I`, whose pumps have local states `L`. -/
structure Interpreter (I L : Type) where
  typeName : I → String
  /-- Do calls on it belong to what happened? -/
  isObserved : I → Bool
  load : Program → I → Except Fault Unit × I
  unload : I → I
  setNode : Datum → I → Except Fault Unit × I
  select : Datum → I → Except Fault Unit × I
  stop : I → Except Fault (List Event) × I
  isWaiting : I → Bool
  currentNode : I → Option Datum
  hasNode : Datum → I → Except Fault Bool
  /-- The tags of a node, if it is known. -/
  tags? : Datum → I → Except Fault (Option (List Datum))
  /-- How often it was stopped, if it counts that. -/
  stops? : I → Option Nat
  /-- The local state in which a pump begins. -/
  begin : I → L
  advance : TextOf → L → I → Move L × I

end Parley
