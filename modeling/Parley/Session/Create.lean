import Parley.Session

/-!
# Creating a runner

Most hosts need one call: it wires the store, the bus and the sink together and
sets the runner up.  A store made here announces on the bus that was given; one
without a bus has a bus of its own that nobody hears.  With a bus and no sink of
the host's, the runner's notifications go to the bus as well.
-/

namespace Parley

/-- What a host gives and what it leaves to be made. -/
structure Parts where
  hasBus : Bool
  hasStore : Bool
  sink : Option SinkKind

namespace Parts

/-- Does anybody hear the store?  A store that was given brings its own bus. -/
def announces (p : Parts) : Bool := p.hasBus || p.hasStore

/-- Where the runner's notifications go. -/
def sinkKind (p : Parts) : SinkKind := p.sink.getD (if p.hasBus then .bus else .silent)

end Parts

namespace Session

open Act

variable {H I L : Type}

/-- Wire the parts of a world together and set the runner up. -/
def create (ip : Interpreter I L) (p : Parts) (factory : Option I) : Act H I Unit := do
  modify fun w => { w with announces := p.announces, sink := p.sinkKind }
  setup ip factory

end Session

end Parley
