import Parley.Bus
import Parley.Note

/-!
# The command registry

A script issues a command by name; the registry knows which handler of the host
it reaches.  A name may be registered without a handler, which counts as
registered but reaches nothing.
-/

namespace Parley

structure Commands where
  table : Keyed Datum (Option Handle) := {}

namespace Commands

/-- Register a handler in place of any earlier one. -/
def register (c : Commands) (name : Datum) (handler : Option Handle) : Commands :=
  ⟨c.table.insert name handler⟩

/-- What a registration is logged as. -/
def registerNote (c : Commands) (name : Datum) : Note :=
  if c.table.contains name then .commandReplaced name else .commandRegistered name

/-- The handler under a name, if there is one. -/
def get? (c : Commands) (name : Datum) : Option Handle := (c.table.get? name).join

def isRegistered (c : Commands) (name : Datum) : Bool := c.table.contains name

def remove (c : Commands) (name : Datum) : Commands := ⟨c.table.erase name⟩

def names (c : Commands) : List Datum := c.table.keys

theorem get?_register (c : Commands) (name : String) (handler : Option Handle) :
    (c.register (.text name) handler).get? (.text name) = handler := by
  rw [get?, register, Keyed.get?_insert (by simp [BEq.beq, Datum.same])]
  cases handler <;> rfl

end Commands

end Parley
