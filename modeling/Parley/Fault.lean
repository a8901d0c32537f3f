import Parley.Fault.Account

/-!
# Faults

What can go wrong, as causes.  A fault belongs to an error class, which decides
who catches it, and has a message, which is worked out only when somebody reads
it.

Hosts, loaders and interpreters raise faults by naming a class and handing over
arguments.  What those become is the class's account of them; arguments that do
not suit the class raise another fault instead.
-/

namespace Parley

inductive Fault where
  /-- An error of a class, made from arguments. -/
  | raised (c : ErrorClass) (args : List Datum)
  /-- A datum that no script value stands for. -/
  | noScriptForm (d : Datum)
  /-- A datum that is not a script value. -/
  | noHostForm (d : Datum)
  /-- A function whose result is not of the kind it declared. -/
  | wrongReturn (function : String) (result : Datum) (declared : String)
  /-- A write that the store turned down for no reason of the name's. -/
  | writeFailed (name value : Datum)
  /-- Something other than a program was given to be loaded. -/
  | notAProgram (source : Datum)
  /-- A function declared to return a kind that scripts do not have. -/
  | unsupportedReturn (kind : String)
  /-- A string table without the column that identifies its lines. -/
  | noIdColumn (header : List String)
  /-- A choice that stands for no option. -/
  | emptyChoice
  /-- A markup span that ends past the text it belongs to. -/
  | spanPastEnd (name : String) (stop : Int) (line : String)
  /-- A runner without the means to make an interpreter. -/
  | noFactory
  /-- A compiler that gave up with some diagnostics. -/
  | compileFailed (diagnostics : Nat)
  /-- A general error met on the way, with what it says where somebody reads it. -/
  | accident (c : ErrorClass) (text : String := "")
deriving Inhabited

namespace Fault

def cls : Fault → ErrorClass
  | .raised c _ => c
  | .noScriptForm _ | .noHostForm _ | .wrongReturn .. => .conversion
  | .writeFailed .. => .internal
  | .notAProgram _ => .programLoad
  | .unsupportedReturn _ => .type
  | .noIdColumn _ | .emptyChoice | .spanPastEnd .. | .noFactory => .value
  | .compileFailed _ => .compiling
  | .accident c _ => c

def message : Fault → String
  | .raised c args => ((c.account args).toOption.map fun a => (c.reading a).text).getD ""
  | .noScriptForm d =>
    "Failed to convert " ++ d.literal ++ " with type " ++ d.kindName ++ " to a dialogue value"
  | .noHostForm d => d.literal ++ " is not a dialogue value"
  | .wrongReturn function result declared =>
    function ++ " returned " ++ result.literal ++ ", expected " ++ declared
  | .writeFailed name value => "Failed to set " ++ name.plain ++ " to " ++ value.plain
  | .notAProgram source => "Not a program: " ++ source.literal
  | .unsupportedReturn kind =>
    "Return type <class '" ++ kind ++ "'> is not supported; use bool, int, float or str"
  | .noIdColumn header =>
    "String table header has no 'id' column: " ++ (Datum.list (header.map .text)).literal
  | .emptyChoice => "This choice does not wrap a dialogue option"
  | .spanPastEnd name stop line =>
    "Attribute " ++ name ++ " ends at " ++ toString stop ++ ", past the end of line " ++ line
  | .noFactory => "DialogueRunner.setup() needs a dialogue factory"
  | .compileFailed n => "Compilation failed with " ++ toString n ++ " diagnostic(s)"
  | .accident _ text => text

/-- The fields an error keeps; of two of one name the later one counts. -/
def fields : Fault → List (String × Datum)
  | .raised c args => ((c.account args).toOption.map (·.fields)).getD []
  | _ => []

/-- What writing the message fails with, if it cannot be written. -/
def unwritable? : Fault → Option ErrorClass
  | .raised c args => ((c.account args).toOption.map c.reading).bind ErrorClass.Reading.unwritable?
  | _ => none

/-- The error as an argument of another. -/
def datum (f : Fault) : Datum :=
  let args := match f with
    | .raised c args => ((c.account args).toOption.map (·.args)).getD []
    | f => [.text f.message]
  .error f.cls.name args f.message

/-- Is the fault of the class `c` or below it? -/
def isA (f : Fault) (c : ErrorClass) : Bool := f.cls.isA c

/-- Is the message part of what the library reports: does a class of this domain
or a refusal of its own stand behind it? -/
def isWorded : Fault → Bool
  | .unsupportedReturn _ | .noIdColumn _ | .emptyChoice | .spanPastEnd .. | .noFactory => true
  | f => [ErrorClass.dialogue, .storage, .programLoad, .compiling].any f.isA

/-- An error of a class from arguments, or what is wrong with them. -/
def make (c : ErrorClass) (args : List Datum) : Fault :=
  let c := c.refined args
  match c.account args with
  | .ok _ => .raised c args
  | .error e => .accident e.cls e.text

/-- A fault that tells about a datum; without a text there is nothing to tell. -/
def telling (d : Datum) (f : Fault) : Fault := if d.hasText then f else .accident .value

/-! ## The faults of a dialogue -/

def invalidNode (node : Datum) : Fault := telling node (.raised .invalidNode [node])

def invalidOption (id : Datum) (count : Nat) : Fault :=
  telling id (.raised .optionId [id, .int count])

def variableNotFound (name : Datum) : Fault := telling name (.raised .variableNotFound [name])

def invalidName (name : Datum) : Fault := telling name (.raised .variableName [name])

/-- A store's failure told to an interpreter. -/
def internal (cause : Fault) : Fault := .raised .internal [.text cause.message]

/-- A store's failure that ended a pump. -/
def storageFailure (cause : Fault) : Fault := .raised .dialogueStorage [.text cause.message]

end Fault

/-- What a loop over the datum goes through; one that cannot be gone through is a
type error. -/
def Datum.items (d : Datum) : Except Fault (List Datum) :=
  match d.items? with
  | some xs => .ok xs
  | none => .error (.accident .type ("'" ++ d.kindName ++ "' object is not iterable"))

/-- The item at a place.  A table has none in a row, but it may have something under that
number. -/
def Datum.item (d : Datum) (n : Nat) : Except Fault Datum :=
  match d with
  | .dict es => (es.find? fun e => e.1.same (.int n)).elim (.error (.accident .key)) (.ok ·.2)
  | d => match d.items? with
    | some xs => xs[n]?.elim (.error (.accident .index)) .ok
    | none => .error (.accident .type ("'" ++ d.kindName ++ "' object is not subscriptable"))

/-- The items from a place on, of what has them in a row. -/
def Datum.itemsFrom (d : Datum) (n : Nat) : Except Fault (List Datum) :=
  match d with
  | .dict _ => .error (.accident .type)
  | d => d.items.map (·.drop n)

/-- The datum as something to look up by; only what may be a key is that. -/
def Datum.asKey (d : Datum) : Except Fault Datum :=
  match d.mutable? with
  | some part => .error (.accident .type ("unhashable type: '" ++ part.kindName ++ "'"))
  | none => .ok d

/-- The name that a datum gives where names are looked up: only a text is one. -/
def Datum.name? (d : Datum) : Except Fault (Option String) := d.asKey.map Datum.text?

end Parley
