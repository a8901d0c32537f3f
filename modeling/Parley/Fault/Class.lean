import Parley.Text.Cut

/-!
# Classes of errors

An error class has a name and an ordered list of bases; a handler for a class
catches every class below it.  Where several ancestors could answer, the order
of the *lineage* decides: the class itself, then a merge of its bases' lineages
and of the list of bases, each time taking the first head that stands in no
other list's tail.  So every ancestor occurs once, each class before its bases,
and bases keep their order; a hierarchy in which no head qualifies has no
lineage and cannot be formed.

A host may make classes of its own.  Two of them may carry one name, so a `tag`
tells them apart; the classes of this library have the tag zero.
-/

namespace Parley

inductive ErrorClass where
  | mk (name : String) (tag : Nat) (bases : List ErrorClass)
deriving Inhabited

namespace ErrorClass

def name : ErrorClass → String
  | mk n _ _ => n

def bases : ErrorClass → List ErrorClass
  | mk _ _ bs => bs

mutual

/-- Classes are equal when name, tag and bases are. -/
def decideEq : (a b : ErrorClass) → Decidable (a = b)
  | mk n t bs, mk m u cs =>
    match decEq n m, decEq t u, decideEqAll bs cs with
    | .isTrue hn, .isTrue ht, .isTrue hb => .isTrue (by rw [hn, ht, hb])
    | .isFalse hn, _, _ => .isFalse fun h => hn (by injection h)
    | _, .isFalse ht, _ => .isFalse fun h => ht (by injection h)
    | _, _, .isFalse hb => .isFalse fun h => hb (by injection h)

def decideEqAll : (as bs : List ErrorClass) → Decidable (as = bs)
  | [], [] => .isTrue rfl
  | [], _ :: _ => .isFalse (by simp)
  | _ :: _, [] => .isFalse (by simp)
  | a :: as, b :: bs =>
    match decideEq a b, decideEqAll as bs with
    | .isTrue ha, .isTrue hr => .isTrue (by rw [ha, hr])
    | .isFalse ha, _ => .isFalse fun h => ha (by injection h)
    | _, .isFalse hr => .isFalse fun h => hr (by injection h)

end

instance : DecidableEq ErrorClass := decideEq

/-! ## The lineage -/

/-- The first head that stands in no list's tail. -/
def nextHead? (lists : List (List ErrorClass)) : Option ErrorClass :=
  (lists.filterMap List.head?).find? fun c => lists.all fun l => !l.tail.contains c

/-- The lists without a head that was taken. -/
def dropHead (c : ErrorClass) (lists : List (List ErrorClass)) : List (List ErrorClass) :=
  lists.map fun l => if l.head? = some c then l.tail else l

/-- Merge the lists head by head; `fuel` bounds the number of heads. -/
def mergeWithin : Nat → List (List ErrorClass) → Option (List ErrorClass)
  | fuel, lists =>
    if lists.all List.isEmpty then some []
    else match fuel with
      | 0 => none
      | fuel + 1 => do
        let c ← nextHead? lists
        let rest ← mergeWithin fuel (dropHead c lists)
        return c :: rest

/-- The merge of the lists; it takes at most as many heads as there are items. -/
def merge (lists : List (List ErrorClass)) : Option (List ErrorClass) :=
  mergeWithin lists.flatten.length lists

/-- The heads that are left when a merge gets no further. -/
def stuckWithin : Nat → List (List ErrorClass) → List ErrorClass
  | fuel, lists =>
    match fuel, nextHead? lists with
    | fuel + 1, some c => stuckWithin fuel (dropHead c lists)
    | _, _ => (lists.filterMap List.head?).eraseDups

def stuck (lists : List (List ErrorClass)) : List ErrorClass :=
  stuckWithin lists.flatten.length lists

mutual

/-- The class and its ancestors in the order in which they answer, unless its
bases cannot be put in one order. -/
def lineage? : ErrorClass → Option (List ErrorClass)
  | mk n t bs => do
    let above ← lineages? bs
    let rest ← merge (above ++ [bs])
    return mk n t bs :: rest

def lineages? : List ErrorClass → Option (List (List ErrorClass))
  | [] => some []
  | c :: cs => do
    let first ← lineage? c
    let rest ← lineages? cs
    return first :: rest

end

/-- The lineage; of a class that cannot be formed, the class alone. -/
def lineage (c : ErrorClass) : List ErrorClass := c.lineage?.getD [c]

/-- Is `c` the class `ancestor` or below it? -/
def isA (c ancestor : ErrorClass) : Bool := c.lineage.contains ancestor

/-- A class with one base. -/
def child (base : ErrorClass) (name : String) : ErrorClass := mk name 0 [base]

/-! ## General errors

The classes any host program has, each below its base. -/

def anyError : ErrorClass := mk "BaseException" 0 []
def exception : ErrorClass := anyError.child "Exception"
def group : ErrorClass := anyError.child "BaseExceptionGroup"
def leaving : ErrorClass := anyError.child "SystemExit"
def arithmetic : ErrorClass := exception.child "ArithmeticError"
def overflow : ErrorClass := arithmetic.child "OverflowError"
def zeroDivision : ErrorClass := arithmetic.child "ZeroDivisionError"
def noAttribute : ErrorClass := exception.child "AttributeError"
def importing : ErrorClass := exception.child "ImportError"
def lookup : ErrorClass := exception.child "LookupError"
def index : ErrorClass := lookup.child "IndexError"
def key : ErrorClass := lookup.child "KeyError"
def memory : ErrorClass := exception.child "MemoryError"
def naming : ErrorClass := exception.child "NameError"
def system : ErrorClass := exception.child "OSError"
def blocking : ErrorClass := system.child "BlockingIOError"
def childProcess : ErrorClass := system.child "ChildProcessError"
def connection : ErrorClass := system.child "ConnectionError"
def brokenPipe : ErrorClass := connection.child "BrokenPipeError"
def connectionAborted : ErrorClass := connection.child "ConnectionAbortedError"
def connectionRefused : ErrorClass := connection.child "ConnectionRefusedError"
def connectionReset : ErrorClass := connection.child "ConnectionResetError"
def fileExists : ErrorClass := system.child "FileExistsError"
def fileMissing : ErrorClass := system.child "FileNotFoundError"
def fileIsDirectory : ErrorClass := system.child "IsADirectoryError"
def notDirectory : ErrorClass := system.child "NotADirectoryError"
def interrupted : ErrorClass := system.child "InterruptedError"
def permission : ErrorClass := system.child "PermissionError"
def noProcess : ErrorClass := system.child "ProcessLookupError"
def timeout : ErrorClass := system.child "TimeoutError"
def runtime : ErrorClass := exception.child "RuntimeError"
def depth : ErrorClass := runtime.child "RecursionError"
def iteration : ErrorClass := exception.child "StopIteration"
def grammar : ErrorClass := exception.child "SyntaxError"
def indentation : ErrorClass := grammar.child "IndentationError"
def type : ErrorClass := exception.child "TypeError"
def value : ErrorClass := exception.child "ValueError"
def unicode : ErrorClass := value.child "UnicodeError"
def undecodable : ErrorClass := unicode.child "UnicodeDecodeError"
def unencodable : ErrorClass := unicode.child "UnicodeEncodeError"
def untranslatable : ErrorClass := unicode.child "UnicodeTranslateError"
def warning : ErrorClass := exception.child "Warning"
def table : ErrorClass := exception.child "csv.Error"
def internalFault : ErrorClass := exception.child "SystemError"
def frozen : ErrorClass := noAttribute.child "FrozenInstanceError"

/-- The general errors that a host can name. -/
def general : List ErrorClass :=
  [ anyError, exception, group, leaving, arithmetic, overflow, zeroDivision, noAttribute,
    importing, lookup, index, key, memory, naming, system, blocking, childProcess, connection,
    brokenPipe, connectionAborted, connectionRefused, connectionReset, fileExists, fileMissing,
    fileIsDirectory, notDirectory, interrupted, permission, noProcess, timeout, runtime, depth,
    iteration, grammar, indentation, type, value, unicode, undecodable, unencodable,
    untranslatable, warning, internalFault, mk "ExceptionGroup" 0 [group, exception] ] ++
  [ "KeyboardInterrupt", "GeneratorExit" ].map anyError.child ++
  [ "AssertionError", "BufferError", "EOFError", "ReferenceError", "StopAsyncIteration" ].map
    exception.child ++
  [ arithmetic.child "FloatingPointError", importing.child "ModuleNotFoundError",
    naming.child "UnboundLocalError", runtime.child "NotImplementedError",
    indentation.child "TabError" ] ++
  [ "BytesWarning", "DeprecationWarning", "EncodingWarning", "FutureWarning", "ImportWarning",
    "PendingDeprecationWarning", "ResourceWarning", "RuntimeWarning", "SyntaxWarning",
    "UnicodeWarning", "UserWarning" ].map warning.child

/-- The general errors that keep a record of their own.  An error has room for one
such record, so no class is below two of these. -/
def recorded : List ErrorClass :=
  [ group, leaving, noAttribute, importing, naming, system, iteration, grammar, undecodable,
    unencodable, untranslatable ]

/-! ## Errors of a dialogue

An interpreter reports failures below `dialogue`.  A variable store answers an
interpreter with errors below `storage`; a failed conversion is one of those
and a type error at once. -/

def dialogue : ErrorClass := exception.child "DialogueError"
def markup : ErrorClass := dialogue.child "MarkupParseError"
def lineText : ErrorClass := dialogue.child "LineProviderError"
def optionId : ErrorClass := dialogue.child "InvalidOptionIdError"
def unexpectedSelection : ErrorClass := dialogue.child "UnexpectedOptionSelectionError"
def continueOnOptions : ErrorClass := dialogue.child "ContinueOnOptionSelectionError"
def noNodeSelected : ErrorClass := dialogue.child "NoNodeSelectedOnContinueError"
def invalidNode : ErrorClass := dialogue.child "InvalidNodeError"
def dialogueStorage : ErrorClass := dialogue.child "DialogueVariableStorageError"
def programLoad : ErrorClass := exception.child "ProgramLoadError"
def storage : ErrorClass := exception.child "VariableStorageError"
def variableNotFound : ErrorClass := storage.child "VariableNotFound"
def variableName : ErrorClass := storage.child "InvalidVariableName"
def internal : ErrorClass := storage.child "InternalError"
def conversion : ErrorClass := mk "ValueConversionError" 0 [internal, type]
def compiling : ErrorClass := exception.child "CompilerError"

/-- The errors of a dialogue that a host can name.  A failed compilation is for compilers
to report. -/
def ofDialogue : List ErrorClass :=
  [ dialogue, markup, lineText, optionId, unexpectedSelection, continueOnOptions,
    noNodeSelected, invalidNode, dialogueStorage, programLoad, storage, variableNotFound,
    variableName, internal, conversion ]

/-- The class that a host names; some general ones have a second name. -/
def named? (name : String) : Option ErrorClass :=
  if name = "IOError" || name = "EnvironmentError" then some system
  else (ofDialogue ++ general).find? fun c => c.name == name

/-! ## Making classes -/

/-- What is wrong with the making of a class or of an error: the class of error that
it causes, and its text. -/
structure Complaint where
  cls : ErrorClass
  text : String

/-- A complaint about something of a wrong kind. -/
def wrongKind {α : Type} (text : String) : Except Complaint α := .error ⟨type, text⟩

/-- The first class that is in the list again. -/
def repeated? : List ErrorClass → Option ErrorClass
  | [] => none
  | c :: cs => if cs.contains c then some c else repeated? cs

/-- The room for a message about bases without an order. -/
def disorderRoom : Nat := 999

/-- Why bases that a merge cannot put in order have none: the heads it is left with. -/
def disorder (bases : List ErrorClass) : String :=
  Text.cutTo disorderRoom ("Cannot create a consistent method resolution\norder (MRO) for bases " ++
    ", ".intercalate ((stuck (bases.map lineage ++ [bases])).map name))

/-- A new class over some bases; or why there is none: the bases bring more than one
record, the name has a null character, or the bases repeat or have no common order. -/
def derive (name : String) (tag : Nat) (bases : List ErrorClass) :
    Except Complaint ErrorClass :=
  let c := mk name tag bases
  if 1 < (recorded.filter (bases.flatMap lineage).contains).length then
    wrongKind "multiple bases have instance lay-out conflict"
  else if name.toList.contains '\x00' then
    .error ⟨value, "type name must not contain null characters"⟩
  else match repeated? bases, c.lineage? with
    | some b, _ => wrongKind ("duplicate base class " ++ b.name)
    | none, none => wrongKind (disorder bases)
    | none, some _ => .ok c

example : conversion.lineage =
    [conversion, internal, storage, type, exception, anyError] := by decide +kernel

end ErrorClass

end Parley
