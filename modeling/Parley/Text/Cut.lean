/-!
# Cutting a text to a number of bytes

Some messages have room for a limited number of bytes of a name.  A character
that the cut goes through is shown as the one that stands for what cannot be read.
-/

namespace Parley.Text

/-- The characters that fit, and the stand-in for one that fits in part. -/
def cut : Nat → List Char → List Char
  | _, [] => []
  | room, c :: rest =>
    if c.utf8Size ≤ room then c :: cut (room - c.utf8Size) rest
    else if room = 0 then []
    else ['\ufffd']

/-- The bytes that some characters take. -/
def bytes : List Char → Nat
  | [] => 0
  | c :: rest => c.utf8Size + bytes rest

/-- What fits as a whole is left alone. -/
theorem cut_eq_self {room : Nat} {cs : List Char} (h : bytes cs ≤ room) : cut room cs = cs := by
  induction cs generalizing room with
  | nil => rfl
  | cons c rest ih =>
    rw [bytes] at h
    rw [cut, if_pos (by omega), ih (by omega)]

/-- A text cut to a number of bytes. -/
def cutTo (room : Nat) (s : String) : String := String.ofList (cut room s.toList)

end Parley.Text
