import Parley.Commands
import Parley.Interpreter
import Parley.LineText
import Parley.Record

/-!
# The state of a session

A session ties the parts together: the bus, the variables, the commands, the
texts, and the runner with its interpreter.  `World` is all of it, together with
the state `H` of the host, which only the host's own callbacks look at.

Interpreters are kept in a list and never removed.  `current` says which one the
runner holds.  A pump goes on with the instance it began on even when a callback
has put another one in its place, or none.

An operation is an `Act`: it may change the world, end in a fault, or not come to
an end at all, and a fault does not undo the changes made before it.

Besides the journal, which the host can read, a world keeps four lists that no
operation goes by.  Its `dealings` are what the runner obtained from its interpreters,
and when it was done with it: they are there so that one can say of a completion which
batch it came in.  What the store published is `announced`, whether or not anybody
listens, so that one can say of the variables how they came about.  The `showings` are
the runner's notifications, wherever they go, each with its beginning and its end, and the
moments at which the runner forgot its line and its options.  What went over the bus is
`published`, the store's notices and the runner's in one row.
-/

namespace Parley

/-- An interpreter with the functions its scripts can call. -/
structure Instance (I : Type) where
  core : I
  functions : Functions := {}
  /-- how many programs it accepted -/
  loads : Nat := 0

/-- Where the runner's notifications go. -/
inductive SinkKind where
  | silent
  | host
  | bus
deriving DecidableEq

/-- What resolves the text of lines when the active locale has none. -/
structure Provider where
  fallback : Option Lexicon := none

/-- What turns a program as it was handed over into one to load. -/
abbrev Loader := Program → Except Fault Program

/-- What passes between the runner and its interpreters.  A batch and a call of `stop`
each have a place among the dealings; `settled` says that the runner is done with
what stands at a place, a completion in that batch or that `stop`. -/
inductive Dealing where
  /-- a new interpreter took the place of any earlier one -/
  | made
  /-- the interpreter accepted a node to start at -/
  | entered
  /-- a pump begins -/
  | pumping
  | stopping
  | batch (events : List Event)
  | settled (place : Nat)

/-- A mark in the row of what the runner shows.  A notification whose callback fails is told
and never heard. -/
inductive Showing where
  /-- the line and the options are forgotten: a pump begins, or the interpreter is let go -/
  | cleared
  | telling (n : Notification)
  /-- the call that told of it has returned -/
  | heard (n : Notification)

structure World (H I : Type) where
  host : H
  settings : Settings := .defaults
  bus : Bus := {}
  store : Keyed Datum Datum := {}
  /-- Does the store publish on the bus, or on one of its own that nobody hears? -/
  announces : Bool := true
  /-- A result that every write gives instead of writing. -/
  writeStub : Option WriteResult := none
  commands : Commands := {}
  server : CatalogServer := { locale := .text "" }
  provider : Option Provider := none
  lexicons : List Lexicon := []
  factory : Option I := none
  loader : Option Loader := none
  sink : SinkKind := .silent
  source : Source := {}
  programs : List Program := []
  instances : List (Instance I) := []
  current : Option Nat := none
  running : Bool := false
  line : Option Line := none
  options : List Choice := []
  journal : List Record := []
  dealings : List Dealing := []
  /-- what the store published, in the order in which it began to -/
  announced : List Notice := []
  showings : List Showing := []
  /-- what the bus carried, in the order in which it was sent -/
  published : List Notice := []

/-- The runner forgets its line and its options. -/
def World.blank {H I : Type} (w : World H I) : World H I :=
  { w with line := none, options := [], showings := w.showings ++ [.cleared] }

/-- An operation on the world. -/
abbrev Act (H I : Type) := ExceptT Fault (StateT (World H I) Option)

namespace Act

variable {H I α : Type}

/-- No end within the bounds. -/
def endless : Act H I α := fun _ => none

/-- Run an operation, its fault as a value. -/
def attempt (act : Act H I α) : Act H I (Except Fault α) :=
  tryCatch (do return .ok (← act)) fun f => return .error f

/-- A result computed elsewhere. -/
def of (r : Except Fault α) : Act H I α :=
  match r with
  | .ok a => pure a
  | .error f => throw f

def record (r : Record) : Act H I Unit := modify fun w => { w with journal := w.journal ++ [r] }

def log (n : Note) : Act H I Unit := record (.log n)

def deal (d : Dealing) : Act H I Unit := modify fun w => { w with dealings := w.dealings ++ [d] }

/-- Say whether a dialogue runs, and enter by which dealing. -/
def flag (running : Bool) (d : Dealing) : Act H I Unit :=
  modify fun w => { w with running, dealings := w.dealings ++ [d] }

/-- Enter a mark in the row of what is shown. -/
def mark (s : Showing) : Act H I Unit := modify fun w => { w with showings := w.showings ++ [s] }

/-- Only what may be a key can be looked up. -/
def checkKey (d : Datum) : Act H I Unit := discard (of d.asKey)

/-- The instance the runner holds; without one there is nothing to ask. -/
def held : Act H I Nat := do
  match (← get).current with
  | some slot => return slot
  | none => throw (.accident .noAttribute)

/-- The instance in a slot. -/
def instance? (slot : Nat) : Act H I (Instance I) := do
  match (← get).instances[slot]? with
  | some i => return i
  | none => throw (.accident .noAttribute)

/-- Change the instance in a slot. -/
def modifyInstance (slot : Nat) (f : Instance I → Instance I) : Act H I Unit :=
  modify fun w => { w with instances := w.instances.modify slot f }

/-- Change the interpreter's state in a slot. -/
def setCore (slot : Nat) (core : I) : Act H I Unit :=
  modifyInstance slot fun i => { i with core }

end Act

namespace World

variable {H I : Type}

/-- The choices the host was shown so far. -/
def shownChoices (w : World H I) : List Choice := w.journal.flatMap Record.shownChoices

/-- The fallback of the text provider. -/
def fallback (w : World H I) : Option Lexicon := w.provider.bind (·.fallback)

/-- The text of a line as things stand. -/
def textOf (w : World H I) : TextOf := lineText w.server w.fallback

/-- Run an operation from a world: what was entered in the journal, the result,
and the world after it.  One that does not end leaves the world as it was. -/
def run {α : Type} (w : World H I) (act : Act H I α) :
    List Record × Except Fault α × World H I :=
  match act.run.run w with
  | none => ([], .error (.accident .depth), w)
  | some (r, after) => (after.journal.drop w.journal.length, r, after)

end World

/-- How the library calls its host. -/
abbrev Invoke (H I : Type) := Callback → Act H I Datum

end Parley
