/-!
# Parts of a text by position

Positions count code points.  A negative position counts from the end, and a
position outside the text is moved to the nearer end, so every pair of
positions names a part, possibly an empty one.
-/

namespace Parley.Text

/-- A position as a number of leading items out of `n`. -/
def bound (n : Nat) (position : Int) : Nat :=
  if position < 0 then (position + n).toNat else min position.toNat n

/-- What stands before a position. -/
def before (cs : List Char) (position : Int) : List Char := cs.take (bound cs.length position)

/-- What stands from a position on. -/
def after (cs : List Char) (position : Int) : List Char := cs.drop (bound cs.length position)

/-- What stands between two positions. -/
def between (cs : List Char) (start stop : Int) : List Char :=
  (before cs stop).drop (bound cs.length start)

theorem before_append_after (cs : List Char) (position : Int) :
    before cs position ++ after cs position = cs :=
  List.take_append_drop _ cs

end Parley.Text
