import Parley.Record
import Parley.Settings

/-!
# Assets

String tables and programs are found by path.  A path may begin with a handle
between colons, which stands for directories; any other path is used as it is.
What a handle path leads to is looked up outside the library.
-/

namespace Parley.Assets

/-- What looks a handle path up: the place that it leads to, if there is one. -/
abbrev Locator := String → Except Fault String

/-- Look a handle path up. -/
def located (locate : Locator) (path : String) : Reporting String := do
  Reporting.record (.locating path)
  locate path

/-- A path with its handle, if it has one, replaced. -/
def resolve (locate : Locator) : Datum → Reporting String
  | .text path => if path.toList.head? = some ':' then located locate path else return path
  | .bytes _ => throw (.accident .type)
  | _ => throw (.accident .noAttribute)

/-- The handle that was given, or the customary one. -/
def handleOf (s : Settings) : Datum → Except Fault Datum
  | .nothing => s.assetsHandle
  | handle => .ok handle

/-- The path of an asset under a handle, the customary one if none is given. -/
def path (s : Settings) (locate : Locator) (relative : Datum) (handle : Datum) :
    Reporting String := do
  let handle ← handleOf s handle
  match relative with
  | .text relative =>
    located locate (":" ++ handle.plain ++ ":/" ++
      String.ofList (relative.toList.dropWhile (· == '/')))
  | .bytes _ => throw (.accident .type)
  | _ => throw (.accident .noAttribute)

/-! ## Directories

A directory is made absolute by its text alone: a dot is dropped, two dots drop
what stands before them, and what is relative starts at the current directory. -/

/-- The parts of a path after the dots are settled, the last first. -/
def settle (parts : List String) (above : List String) : List String :=
  parts.foldl (fun above part =>
    if part = "" || part = "." then above
    else if part = ".." then above.tail
    else part :: above) above

/-- The parts of a path between its slashes. -/
def parts (path : String) : List String :=
  (path.toList.splitBy fun a b => (a == '/') == (b == '/')).filterMap fun cs =>
    if cs.head? = some '/' then none else some (String.ofList cs)

/-- The current directory as it is written in an absolute path. -/
def currentDirectory : String := "<cwd>"

def absolute (path : String) : String :=
  if path.toList.head? = some '/' then
    "/" ++ "/".intercalate (settle (parts path) []).reverse
  else "/".intercalate (settle (parts path) [currentDirectory]).reverse

/-- The directory that was given, or that of the assets; only a text can be one. -/
def directoryOf : Datum → Except Fault String
  | .nothing => .ok "assets"
  | .text directory => .ok directory
  | _ => .error (.accident .type)

/-- Let a handle stand for a directory, by default that of the assets. -/
def addHandle (s : Settings) (handle directory : Datum) : Reporting Unit := do
  let directory ← directoryOf directory
  let handle ← handleOf s handle
  if directory.toList.contains '\x00' then throw (.accident .value)
  Reporting.record (.handleAdded handle (absolute directory))

end Parley.Assets
