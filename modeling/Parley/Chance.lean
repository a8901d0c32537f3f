import Parley.Datum.Number

/-!
# Chance

Random draws come from a source the host supplies: a sequence of numbers for
fractions and one of integers, each read round and round.  A draw of an integer
between two bounds takes the next integer into their range; a range without a
member is refused, and nothing is drawn.  Every draw is kept, in order.
-/

namespace Parley

/-- A draw, with the bounds it was asked for. -/
inductive Draw where
  | fraction
  | between (low high : Datum)
  | integer (low high : Int)

def Draw.name : Draw → String
  | .fraction => "random"
  | .between .. => "uniform"
  | .integer .. => "randint"

/-- The bounds of a draw. -/
def Draw.bounds : Draw → List Datum
  | .fraction => []
  | .between low high => [low, high]
  | .integer low high => [.int low, .int high]

/-- A source of chance and how far it has been read. -/
structure Source where
  fractions : List Datum := []
  integers : List Int := []
  fractionsRead : Nat := 0
  integersRead : Nat := 0
  drawn : List Draw := []

/-- A computation that may draw and may fail. -/
abbrev Chance := ExceptT Fault (StateM Source)

/-- The item at a position of a list that is read round and round. -/
def cyclic {α : Type} (xs : List α) (whenEmpty : α) (i : Nat) : α :=
  (xs[i % xs.length]?).getD whenEmpty

namespace Source

def record (s : Source) (d : Draw) : Source := { s with drawn := s.drawn ++ [d] }

def nextFraction (s : Source) : Datum × Source :=
  (cyclic s.fractions (.float .zero) s.fractionsRead,
    { s with fractionsRead := s.fractionsRead + 1 })

def nextInteger (s : Source) : Int × Source :=
  (cyclic s.integers 0 s.integersRead, { s with integersRead := s.integersRead + 1 })

end Source

namespace Chance

def note (d : Draw) : Chance Unit := modify fun s => s.record d

/-- The next fraction. -/
def fraction : Chance Datum := do
  note .fraction
  modifyGet Source.nextFraction

/-- A number between two others, as far along as the next fraction says. -/
def between (low high : Datum) : Chance Datum := do
  note (.between low high)
  let l ← low.num
  let h ← high.num
  let width ← h.sub l
  let f ← modifyGet Source.nextFraction
  let step ← width.mul (← f.num)
  return (← l.add step).toDatum

/-- An integer between two others, both included. -/
def integer (low high : Int) : Chance Int := do
  note (.integer low high)
  if high < low then throw (.accident .value)
  let i ← modifyGet Source.nextInteger
  return low + i % (high - low + 1)

end Chance

end Parley
