import Parley.Text.Hex
import Parley.Text.Printable

/-!
# Quoted texts

Messages show a text between quotes and spell out what would not be seen.  The
quote is the single one, unless the text has a single quote and no double one.
A backslash, the quote itself and the three usual layout characters are written
with a backslash; any other unprintable character is written by its code point,
in two, four or eight hexadecimal digits.
-/

namespace Parley.Text

/-- The quote around the characters `cs`. -/
def quoteFor (cs : List Char) : Char :=
  if cs.contains '\'' && !cs.contains '"' then '"' else '\''

/-- An unprintable character by its code point. -/
def codePoint (n : Nat) : List Char :=
  if n < 0x100 then '\\' :: 'x' :: hex 2 n
  else if n < 0x10000 then '\\' :: 'u' :: hex 4 n
  else '\\' :: 'U' :: hex 8 n

/-- The escapes that have a letter of their own, and the quote. -/
def shortEscape? (quote c : Char) : Option (List Char) :=
  if c = quote || c = '\\' then some ['\\', c]
  else if c = '\n' then some ['\\', 'n']
  else if c = '\r' then some ['\\', 'r']
  else if c = '\t' then some ['\\', 't']
  else none

def escape (quote c : Char) : List Char :=
  (shortEscape? quote c).getD (if isPrintable c then [c] else codePoint c.toNat)

/-- A text as it stands in a message. -/
def quoted (s : String) : String :=
  let cs := s.toList
  let q := quoteFor cs
  String.ofList (q :: cs.flatMap (escape q) ++ [q])

/-- Bytes as they stand in a message: printable ASCII as it is, any other byte
by its number. -/
def quotedBytes (bs : List UInt8) : String :=
  let cs := bs.map fun b => Char.ofNat b.toNat
  let q := quoteFor cs
  let spell (c : Char) : List Char :=
    (shortEscape? q c).getD (if 0x20 ≤ c.toNat && c.toNat < 0x7f then [c] else codePoint c.toNat)
  String.ofList ('b' :: q :: cs.flatMap spell ++ [q])

end Parley.Text
