import Parley.Double

/-!
# Data of any kind

Hosts, scripts and settings hand over data of any kind: a variable may be
written with a list, a setting may hold nothing at all, a stored table cell may
be a number.  `Datum` is that universe.  Four of its forms are the values
scripts compute with: `boolean`, `number` and `string` are the three kinds the
dialogue language has, and `bare` is a value of no kind.  A script value's
payload is not checked where it is made, so `boolean` and `string` hold any
datum; a `number` always holds a double.
-/

namespace Parley

inductive Datum where
  | nothing
  | bool (b : Bool)
  | int (i : Int)
  | float (x : Double)
  | text (s : String)
  | bytes (bs : List UInt8)
  | list (xs : List Datum)
  | tuple (xs : List Datum)
  | dict (entries : List (Datum × Datum))
  | boolean (payload : Datum)
  | number (x : Double)
  | string (payload : Datum)
  | bare (payload : Datum)
  /-- an error among the arguments of another: its class, its arguments, what it says -/
  | error (cls : String) (args : List Datum) (message : String)
deriving Inhabited

namespace Datum

/-- The name of a datum's kind, as messages give it. -/
def kindName : Datum → String
  | .nothing => "NoneType"
  | .bool _ => "bool"
  | .int _ => "int"
  | .float _ => "float"
  | .text _ => "str"
  | .bytes _ => "bytes"
  | .list _ => "list"
  | .tuple _ => "tuple"
  | .dict _ => "dict"
  | .boolean _ => "Boolean"
  | .number _ => "Number"
  | .string _ => "String"
  | .bare _ => "Value"
  | .error cls _ _ => cls

/-- Is the datum a value of the dialogue language, or a bare one? -/
def isValue : Datum → Bool
  | .boolean _ | .number _ | .string _ | .bare _ => true
  | _ => false

/-- Is the datum anything but nothing? -/
def isSomething : Datum → Bool
  | .nothing => false
  | _ => true

theorem isSomething_iff {d : Datum} : d.isSomething = true ↔ d ≠ .nothing := by
  cases d <;> simp [isSomething]

/-- What the datum counts as where a truth value is asked for. -/
def truth : Datum → Bool
  | .nothing => false
  | .bool b => b
  | .int i => i != 0
  | .float x => !x.isZero
  | .text s => !s.isEmpty
  | .bytes bs => !bs.isEmpty
  | .list xs => !xs.isEmpty
  | .tuple xs => !xs.isEmpty
  | .dict es => !es.isEmpty
  | _ => true

/-- The text that a datum is. -/
def text? : Datum → Option String
  | .text s => some s
  | _ => none

/-- What a loop over the datum goes through: the items, the keys of a table, the
characters of a text, the numbers of bytes.  Nothing else can be gone through. -/
def items? : Datum → Option (List Datum)
  | .list xs | .tuple xs => some xs
  | .dict es => some (es.map (·.1))
  | .text s => some (s.toList.map fun c => .text c.toString)
  | .bytes bs => some (bs.map fun b => .int b.toNat)
  | _ => none

/-! ## Equality

Truth values, integers and doubles are one number line: `True`, `1` and `1.0`
are the same key.  Script values are equal only within one form. -/

/-- The exact numerical value in quanta. -/
def quanta? : Datum → Option Int
  | .bool b => some (if b then Double.one else 0)
  | .int i => some (i * Double.one)
  | .float x => x.scaled?
  | _ => none

/-- Equality on the number line. -/
def sameNumber (d e : Datum) : Bool :=
  match d.quanta?, e.quanta? with
  | some m, some n => m == n
  | _, _ => false

mutual

/-- Do two data count as equal? -/
def same : Datum → Datum → Bool
  | .nothing, .nothing => true
  | .text s, .text t => s == t
  | .bytes s, .bytes t => s == t
  | .list xs, .list ys => sameAll xs ys
  | .tuple xs, .tuple ys => sameAll xs ys
  | .dict es, .dict fs => es.length == fs.length && subset es fs
  | .boolean p, .boolean q => same p q
  | .number x, .number y => x.equals y
  | .string p, .string q => same p q
  | .bare p, .bare q => same p q
  | .float x, .float y => x.equals y
  | .bool b, d => sameNumber (.bool b) d
  | .int i, d => sameNumber (.int i) d
  | .float x, d => sameNumber (.float x) d
  | _, _ => false

def sameAll : List Datum → List Datum → Bool
  | [], [] => true
  | x :: xs, y :: ys => same x y && sameAll xs ys
  | _, _ => false

/-- Is every entry of the one among the entries of the other? -/
def subset : List (Datum × Datum) → List (Datum × Datum) → Bool
  | [], _ => true
  | (k, v) :: rest, fs => (fs.any fun f => same k f.1 && same v f.2) && subset rest fs

end

mutual

/-- The first part of the datum that may change: a list or a table. -/
def mutable? : Datum → Option Datum
  | .list xs => some (.list xs)
  | .dict es => some (.dict es)
  | .tuple xs => firstMutable? xs
  | .boolean p | .string p | .bare p => mutable? p
  | _ => none

def firstMutable? : List Datum → Option Datum
  | [] => none
  | x :: xs => (mutable? x).or (firstMutable? xs)

end

/-- May the datum be a key?  What may change may not. -/
def isKey (d : Datum) : Bool := d.mutable?.isNone

/-- As keys, data are compared by what they count as. -/
instance : BEq Datum := ⟨same⟩

theorem sameNumber_text (d : Datum) (s : String) : sameNumber d (.text s) = false := by
  unfold sameNumber
  cases d.quanta? <;> rfl

/-- Nothing counts as a text but that text. -/
theorem beq_text (d : Datum) (s : String) : (d == .text s) = true ↔ d = .text s := by
  cases d <;> simp [BEq.beq, same, sameNumber_text]

theorem text_beq (s : String) (d : Datum) : (.text s == d) = true ↔ d = .text s := by
  cases d <;> simp [BEq.beq, same, eq_comm]

end Datum

end Parley
