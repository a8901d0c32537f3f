import Parley.Event
import Parley.Keyed

/-!
# The event bus

Listeners subscribe to a kind of notice and are called in the order in which
they subscribed, once for each subscription.  A listener may be bound to an
owner; unregistering an owner removes the listeners of every owner that compares
equal to it.

A kind stays in the table once it was subscribed to, even when its last listener
is gone.
-/

namespace Parley

/-- What a host has given the library to call. -/
abbrev Handle := Nat

/-- An object of the host: who it is, and what it compares as. -/
structure Owner where
  ident : String
  key : Datum

structure Listener where
  owner : Option Owner := none
  handle : Handle

/-- Two listeners are one when they call the same thing on the same object. -/
def Listener.is (a b : Listener) : Bool :=
  a.handle == b.handle && a.owner.map (·.ident) == b.owner.map (·.ident)

/-- Is the listener bound to an object that compares equal to this owner? -/
def Listener.boundTo (l : Listener) (o : Owner) : Bool := l.owner.any fun p => p.key.same o.key

structure Bus where
  table : Keyed Notice.Kind (List Listener) := {}

namespace Bus

/-- The listeners of a kind, in the order in which they are called. -/
def listeners (b : Bus) (k : Notice.Kind) : List Listener := (b.table.get? k).getD []

def subscribe (b : Bus) (k : Notice.Kind) (l : Listener) : Bus :=
  ⟨b.table.insert k (b.listeners k ++ [l])⟩

/-- Remove every subscription of a listener to a kind. -/
def unsubscribe (b : Bus) (k : Notice.Kind) (l : Listener) : Bus :=
  if b.table.contains k then ⟨b.table.insert k ((b.listeners k).filter fun m => !m.is l)⟩ else b

/-- Remove every subscription bound to an owner. -/
def unregister (b : Bus) (o : Owner) : Bus :=
  ⟨⟨b.table.entries.map fun e => (e.1, e.2.filter fun l => !l.boundTo o)⟩⟩

def clear (_ : Bus) : Bus := {}

/-- A bus on which one listener hears everything. -/
def watchedBy (l : Listener) : Bus := Notice.Kind.all.foldl (fun b k => b.subscribe k l) {}

theorem listeners_subscribe (b : Bus) (k : Notice.Kind) (l : Listener) :
    (b.subscribe k l).listeners k = b.listeners k ++ [l] := by
  rw [listeners, subscribe, Keyed.get?_insert_self]; rfl

end Bus

end Parley
