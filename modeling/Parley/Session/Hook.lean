import Parley.Session

/-!
# Hosts made of hooks

A hook says what a callback does without being a program.  It fires a limited
number of times; when it fires, it takes its steps in order, each of them a
request, and then fails if it was given a fault.  After that it does nothing.

A host of this kind has things the library can call, found by their handle, and
hooks found by the name of what they wait for: a method of the sink, or a kind of
notice.  The steps are of any type, and become requests only when they are taken,
because a step may add to the host.
-/

namespace Parley

structure Hook (S : Type) where
  /-- how often it still fires -/
  left : Nat := 1
  steps : List S := []
  fault : Option Fault := none

/-- A function of the host, for scripts to call. -/
inductive HostReply where
  | constant (d : Datum)
  | argument (i : Int)
  | count
  | failing (f : Fault)

def HostReply.call (arguments : List Datum) : HostReply → Except Fault Datum
  | .constant d => .ok d
  | .argument i =>
    match Session.nth? arguments i with
    | some d => .ok d
    | none => .error (.accident .index)
  | .count => .ok (.int arguments.length)
  | .failing f => .error f

/-- Something the library can call. -/
structure Callable (S : Type) where
  /-- what the host calls it, if anything -/
  label : Datum := .nothing
  hook : Option (Hook S) := none
  function : HostReply := .count

structure HookHost (S : Type) where
  callables : Array (Callable S) := #[]
  /-- hooks by the name of what they wait for -/
  hooks : Keyed String (Hook S) := {}
  /-- listeners by name -/
  listeners : Keyed String Handle := {}
  /-- what the owners of listeners compare as, by name -/
  owners : Keyed String Datum := {}

/-- What a hook for the callback waits for, where it may have a name. -/
def Callback.name? : Callback → Option String
  | .sink n => some n.method
  | .listener _ n => some n.kind.name
  | .command .. | .function .. => none

/-- What the callback calls, where it has a handle. -/
def Callback.handle? : Callback → Option Handle
  | .listener l _ => some l.handle
  | .command h _ | .function h _ => some h
  | .sink _ => none

namespace HookHost

variable {S I : Type}

def add (h : HookHost S) (c : Callable S) : HookHost S × Handle :=
  ({ h with callables := h.callables.push c }, h.callables.size)

/-- The handle of a named listener, which is made when it is first asked for. -/
def handle (h : HookHost S) (name : String) : HookHost S × Handle :=
  match h.listeners.get? name with
  | some n => (h, n)
  | none =>
    let (h, n) := h.add { label := .text name }
    ({ h with listeners := h.listeners.insert name n }, n)

def owner? (h : HookHost S) (name : String) : Option Owner :=
  (h.owners.get? name).map fun key => { ident := name, key }

/-- A named listener; one named after an owner, a dot and a method is bound to the
owner. -/
def listener (h : HookHost S) (name : String) : HookHost S × Listener :=
  let (h, handle) := h.handle name
  let cs := name.toList
  (h, { owner := if cs.contains '.' then h.owner? (.ofList (cs.takeWhile (· != '.'))) else none
        handle })

def label (h : HookHost S) (n : Handle) : Datum := (h.callables[n]?).elim .nothing (·.label)

def function (h : HookHost S) (n : Handle) : HostReply :=
  ((h.callables[n]?).map (·.function)).getD .count

/-- Give something callable another hook. -/
def setHook (h : HookHost S) (n : Handle) (k : Hook S) : HookHost S :=
  { h with callables := h.callables.modify n fun c => { c with hook := some k } }

/-- The hook that a callback fires, and how to put it back: the one that waits
for it by name, or else that of what is called. -/
def firing? (h : HookHost S) (c : Callback) :
    Option (Hook S × (HookHost S → Hook S → HookHost S)) :=
  let byName := c.name?.bind fun name =>
    (h.hooks.get? name).map fun k =>
      (k, fun h k => { h with hooks := HookHost.hooks h |>.insert name k })
  let byHandle := c.handle?.bind fun n =>
    ((h.callables[n]?).bind (·.hook)).map fun k => (k, fun h k => setHook h n k)
  byName.or byHandle

/-- Take steps, then end. -/
def takeSteps (request : HookHost S → S → HookHost S × Request I) (result : Except Fault Datum) :
    List S → HookHost S → Script (HookHost S) I
  | [], h => .finish h result
  | s :: rest, h =>
    let (h, r) := request h s
    .request h r fun h _ => takeSteps request result rest h

/-- React to a callback: fire its hook if it has one that still fires.  A
function of the host is called and has no hook. -/
def react (request : HookHost S → S → HookHost S × Request I) : Host (HookHost S) I := fun h c =>
  match c with
  | .function n arguments =>
    .finish h ((h.function n).call arguments)
  | c =>
    match h.firing? c with
    | none => .finish h (.ok .nothing)
    | some (k, put) =>
      match k.left with
      | 0 => .finish h (.ok .nothing)
      | left + 1 =>
        takeSteps request (k.fault.elim (.ok .nothing) .error) k.steps (put h { k with left })

end HookHost

end Parley
