/-!
# Hexadecimal digits

Numbers and bytes in base sixteen: lower case when written, either case when
read.  Reading takes whatever comes for a digit and is meant for texts that are
known to hold nothing else.
-/

namespace Parley.Text

/-- Lower case hexadecimal digits, zeros on the left up to a width. -/
def hex (width n : Nat) : List Char :=
  let ds := Nat.toDigits 16 n
  List.replicate (width - ds.length) '0' ++ ds

def hexOfBytes (bytes : List UInt8) : List Char := bytes.flatMap fun b => hex 2 b.toNat

def hexDigit (c : Char) : Nat :=
  if c.isDigit then c.toNat - '0'.toNat else 10 + (c.toLower.toNat - 'a'.toNat)

def ofHex (cs : List Char) : Nat := cs.foldl (fun n c => 16 * n + hexDigit c) 0

/-- Bytes from pairs of digits. -/
def bytesOfHex : List Char → List UInt8
  | a :: b :: rest => (ofHex [a, b]).toUInt8 :: bytesOfHex rest
  | _ => []

end Parley.Text
