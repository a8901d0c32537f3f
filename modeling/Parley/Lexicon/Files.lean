import Parley.Assets
import Parley.Lexicon

/-!
# Loading string tables

A table is loaded from a file among those under the current directory.  The path
may have a handle.  What is read is taken as it is: line ends are not changed and
a mark at the very start stays where it is; the bytes must be valid UTF-8.
-/

namespace Parley

/-- What is in a file. -/
inductive Content where
  | text (s : String)
  | bytes (bs : List UInt8)

/-- Files by the parts of their paths. -/
structure Files where
  files : List (List String × Content) := []

namespace Files

def file? (fs : Files) (place : List String) : Option Content := fs.files.lookup place

/-- Is there something below the path? -/
def isDirectory (fs : Files) (place : List String) : Bool :=
  place.isEmpty || fs.files.any fun f => place.length < f.1.length && f.1.take place.length == place

/-- Is there anything at the path? -/
def isThere (fs : Files) (place : List String) : Bool :=
  (fs.file? place).isSome || fs.isDirectory place

/-! ## Following a path

A path is followed part by part.  It may lead above the current directory, where
there are directories alone as far as one goes up, and nothing by any name. -/

/-- Where a path has led so far. -/
inductive Place where
  | within (place : List String)
  | above

/-- The most bytes a part of a path may have. -/
def greatestPart : Nat := 255

/-- The most bytes a path may have. -/
def greatestPath : Nat := 4095

/-- Go on to a part of a path. -/
def step (fs : Files) : Place → String → Except Fault Place
  | .above, part =>
    if part = ".." then .ok .above
    else if greatestPart < part.utf8ByteSize then .error (.accident .system)
    else .error (.accident .fileMissing)
  | .within place, part =>
    if (fs.file? place).isSome then .error (.accident .notDirectory)
    else if part = ".." then .ok (if place.isEmpty then .above else .within place.dropLast)
    else if greatestPart < part.utf8ByteSize then .error (.accident .system)
    else if fs.isThere (place ++ [part]) then .ok (.within (place ++ [part]))
    else .error (.accident .fileMissing)

/-- The parts of a path that count: a dot stays where it is. -/
def partsOf (path : String) : List String := (Assets.parts path).filter (· != ".")

/-- The path as it is handed to the system. -/
def settled (path : String) : String :=
  (if path.toList.head? = some '/' then "/" else "") ++ "/".intercalate (partsOf path)

def decode : Content → Except Fault String
  | .text s => .ok s
  | .bytes bs =>
    match String.fromUTF8? ⟨bs.toArray⟩ with
    | some s => .ok s
    | none => .error (.accident .undecodable)

/-- What is at a place that was reached. -/
def content (fs : Files) : Place → Except Fault String
  | .above => .error (.accident .fileIsDirectory)
  | .within place =>
    match fs.file? place with
    | some c => decode c
    | none => .error (.accident .fileIsDirectory)

/-- Read a file. -/
def read (fs : Files) (path : String) : Except Fault String := do
  if path.toList.contains '\x00' then throw (.accident .value)
  if greatestPath < (settled path).utf8ByteSize then throw (.accident .system)
  let start : Place := if path.toList.head? = some '/' then .above else .within []
  fs.content (← (partsOf path).foldlM fs.step start)

end Files

namespace Lexicon

/-- Load the string table of a locale. -/
def load (s : Settings) (locate : Assets.Locator) (fs : Files) (locale path : Datum) :
    Reporting Lexicon := do
  let resolved ← Assets.resolve locate path
  let text ← fs.read resolved
  let l ← ofText s locale text
  Reporting.log (.tableLoaded l.assets.size locale resolved)
  return { l with file := resolved }

end Lexicon

end Parley
