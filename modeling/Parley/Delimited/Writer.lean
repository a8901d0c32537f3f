/-!
# Writing delimited text

A field is quoted only where a reader would misread it: when it has the
delimiter, a quote or a line feed in it.  Quotes inside are doubled.  A row ends
in a line feed.
-/

namespace Parley.Delimited

/-- Would a reader take a part of the field for something else? -/
def needsQuotes (delimiter : Char) (field : List Char) : Bool :=
  field.any fun c => c = delimiter || c = '"' || c = '\n'

def doubleQuotes (field : List Char) : List Char :=
  field.flatMap fun c => if c = '"' then ['"', '"'] else [c]

/-- A field as it is written. -/
def field (delimiter : Char) (cs : List Char) : List Char :=
  if needsQuotes delimiter cs then '"' :: doubleQuotes cs ++ ['"'] else cs

/-- A row as it is written, with its line end. -/
def row (delimiter : Char) (fields : List (List Char)) : List Char :=
  [delimiter].intercalate (fields.map (field delimiter)) ++ ['\n']

/-- The text of the rows. -/
def write (delimiter : Char) (rows : List (List String)) : String :=
  String.ofList (rows.flatMap fun r => row delimiter (r.map String.toList))

end Parley.Delimited
