import Parley.Fault

/-!
# Host data and script values

A host works with truth values, numbers and texts; a script works with the
three kinds of value that stand for them.  Each direction is defined on its
kinds and refuses everything else.

`toValue` leaves what already is a value alone, a bare one included; integers
become doubles, which fails for one too large.  `toHost` reads a payload by its
kind: the truth of a boolean's payload, the text of a string's.
-/

namespace Parley.Datum

/-- The script value for a host datum. -/
def toValue (d : Datum) : Except Fault Datum :=
  if d.isValue then .ok d
  else match d with
    | .bool b => .ok (.boolean (.bool b))
    | .int i => match Double.ofInt? i with
      | some x => .ok (.number x)
      | none => .error (.accident .overflow)
    | .float x => .ok (.number x)
    | .text s => .ok (.string (.text s))
    | d => .error (.telling d (.noScriptForm d))

/-- The host datum a script value stands for. -/
def toHost : Datum → Except Fault Datum
  | .boolean p => .ok (.bool p.truth)
  | .number x => .ok (.float x)
  | .string p => if p.hasText then .ok (.text p.plain) else .error (.accident .value)
  | d => .error (.telling d (.noHostForm d))

end Parley.Datum
