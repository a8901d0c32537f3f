import Parley.Fault
import Parley.Decimal.Reading

/-!
# Numbers among data

Script functions compute with integers of any size and with doubles, and mix
the two: two integers stay an integer, and a double turns its partner into a
double, which fails when the integer is too large for one.  A truth value counts
as zero or one.
-/

namespace Parley

/-- A number of a host: exact, or a double. -/
inductive Num where
  | int (i : Int)
  | real (x : Double)
deriving DecidableEq, Inhabited

namespace Num

def toDatum : Num → Datum
  | .int i => .int i
  | .real x => .float x

/-- An integer as a double. -/
def doubleOfInt (i : Int) : Except Fault Double :=
  match Double.ofInt? i with
  | some x => .ok x
  | none => .error (.accident .overflow)

def toDouble : Num → Except Fault Double
  | .int i => doubleOfInt i
  | .real x => .ok x

/-- An operation on two numbers, exact on integers. -/
def combine (exact : Int → Int → Int) (rounded : Double → Double → Double) :
    Num → Num → Except Fault Num
  | .int i, .int j => .ok (.int (exact i j))
  | x, y => do return .real (rounded (← x.toDouble) (← y.toDouble))

def add : Num → Num → Except Fault Num := combine (· + ·) Double.add
def sub : Num → Num → Except Fault Num := combine (· - ·) Double.sub
def mul : Num → Num → Except Fault Num := combine (· * ·) Double.mul

/-- The quotient as a double: correctly rounded from two integers, rounded from
doubles otherwise. -/
def div (x y : Num) : Except Fault Double :=
  match x, y with
  | .int i, .int j =>
    if j = 0 then .error (.accident .zeroDivision)
    else match Double.ofRatio i j with
      | .infinite _ => .error (.accident .overflow)
      | q => .ok q
  | x, y => do
    let n ← x.toDouble
    let d ← y.toDouble
    if d.isZero then .error (.accident .zeroDivision) else .ok (n.div d)

/-- What a double without an integer value fails with. -/
def notFinite : Double → Fault
  | .nan => .accident .value
  | _ => .accident .overflow

/-- An integer part of a number. -/
def whole (part : Double → Option Int) : Num → Except Fault Int
  | .int i => .ok i
  | .real x => match part x with
    | some i => .ok i
    | none => .error (notFinite x)

def floor : Num → Except Fault Int := whole Double.floor?
def ceil : Num → Except Fault Int := whole Double.ceil?
def trunc : Num → Except Fault Int := whole Double.trunc?

def abs : Num → Num
  | .int i => .int i.natAbs
  | .real x => .real x.abs

end Num

namespace Datum

/-- The number a datum is. -/
def num : Datum → Except Fault Num
  | .bool b => .ok (.int (if b then 1 else 0))
  | .int i => .ok (.int i)
  | .float x => .ok (.real x)
  | _ => .error (.accident .type)

/-- The double that was read from a text, or the fault of a text that writes none. -/
def read (source : Datum) : Option Double → Except Fault Double
  | some x => .ok x
  | none => .error (.accident .value ("could not convert string to float: " ++ source.literal))

/-- The double a datum stands for; a text is read, and so are bytes. -/
def asDouble : Datum → Except Fault Double
  | .text s => read (.text s) (Decimal.readDouble? s)
  | .bytes bs => read (.bytes bs) (Decimal.readBytes? bs)
  | d =>
    match d.num with
    | .ok n => n.toDouble
    | .error _ => .error (.accident .type
        ("float() argument must be a string or a real number, not '" ++ d.kindName ++ "'"))

/-- The integer a datum stands for; a text is read, a double is cut. -/
def asInt : Datum → Except Fault Int
  | .text s => match Decimal.readInt? s with
    | some i => .ok i
    | none => .error (.accident .value)
  | d => do (← d.num).trunc

end Datum

end Parley
