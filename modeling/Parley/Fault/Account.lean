import Parley.Datum.Literal
import Parley.Fault.Class

/-!
# What an error keeps of its arguments

An error is made from arguments, and its lineage decides what becomes of them.
A class of a dialogue may word its own message: it keeps the arguments as fields
and hands the message on as the one argument for the classes after it.  The first
general class of the lineage takes what it is given, and the classes after that
one have no say.

Some general classes read what they take as a record: a number of the operating
system with its reason, a place in a source text, a part of a text that has no
code.  How an error reads is for the first class of the lineage that has a way of
its own; it shows a record only if its own kind took the arguments.
-/

namespace Parley.ErrorClass

/-- The name of a datum's kind in a message with limited room for it. -/
def shortKind (room : Nat) (d : Datum) : String := Text.cutTo room d.kindName

/-- The kind of an argument where a text or an integer is asked for. -/
def argumentKind : Datum → String
  | .nothing => "None"
  | d => shortKind 50 d

/-! ## Classes that word their own message -/

/-- The text of a datum in a message. -/
def spelled (d : Datum) : Except Complaint String :=
  if d.hasText then .ok d.plain
  else .error ⟨value, "Exceeds the limit (4300 digits) for integer string conversion; " ++
    "use sys.set_int_max_str_digits() to increase the limit"⟩

/-- A number less one; nothing else has one. -/
def lessOne : Datum → Except Complaint Datum
  | .bool b => .ok (.int ((if b then 1 else 0) - 1))
  | .int i => .ok (.int (i - 1))
  | .float x => .ok (((Double.ofInt? 1).map fun one => Datum.float (x.sub one)).getD .nothing)
  | d => wrongKind ("unsupported operand type(s) for -: '" ++ shortKind 100 d ++ "' and 'int'")

/-- A message and the fields that are kept. -/
abbrev Worded := Except Complaint (String × List (String × Datum))

/-- The parameters of a class: the first one is required, another one may follow. -/
structure Parameters where
  required : String
  optional : Bool := false

/-- Too few or too many arguments for the parameters of a class. -/
def wrongCount (c : ErrorClass) (p : Parameters) (args : List Datum) : Worded :=
  let maker := c.name ++ "." ++ "__init__() "
  if args.isEmpty then
    wrongKind (maker ++ "missing 1 required positional argument: '" ++ p.required ++ "'")
  else
    wrongKind (maker ++ "takes " ++ (if p.optional then "from 2 to 3" else "2") ++
      " positional arguments but " ++ toString (args.length + 1) ++ " were given")

def lineMessage (id language : Datum) : Worded := do
  let message := "No text for line " ++ (← spelled id) ++ " (language: " ++
    (← spelled language) ++ ")"
  return (message, [("line_id", id), ("language", language)])

def optionMessage (id count : Datum) : Worded := do
  let shown ← spelled id
  let last ← spelled (← lessOne count)
  return (shown ++ " is not a valid option id (expected a value between 0 and " ++ last ++ ")",
    [("option_id", id), ("option_count", count)])

/-- A message around one argument, which is kept if the class has a field for it. -/
def around (before after : String) (field : Option String) (d : Datum) : Worded := do
  let shown ← spelled d
  return (before ++ shown ++ after, (field.map fun name => (name, d)).toList)

/-- How a class words its message, if it does. -/
def wording? (c : ErrorClass) : Option (List Datum → Worded) :=
  let one (name : String) (word : Datum → Worded) : Option (List Datum → Worded) :=
    some fun
      | [d] => word d
      | args => c.wrongCount { required := name } args
  let two (name : String) (default : Datum) (word : Datum → Datum → Worded) :
      Option (List Datum → Worded) :=
    some fun
      | [d] => word d default
      | [d, e] => word d e
      | args => c.wrongCount { required := name, optional := true } args
  if c = lineText then two "line_id" .nothing lineMessage
  else if c = optionId then two "option_id" (.int 0) optionMessage
  else if c = invalidNode then
    one "node_name" (around "No node named " " has been loaded" (some "node_name"))
  else if c = dialogueStorage then one "cause" (around "" "" none)
  else if c = variableNotFound then one "name" (around "Variable " " not found" (some "name"))
  else if c = variableName then
    one "name" (around "" " is not a valid variable name" (some "name"))
  else none

/-! ## Records -/

/-- A failure of the operating system: its number, the reason, and the files it
was about. -/
structure SystemRecord where
  number : Datum
  reason : Datum
  files : List Datum

/-- A number that counts what was written so far stands in the place of a file, in
the one class that has such a count. -/
def isCount (c : ErrorClass) : Datum → Bool
  | .bool _ | .int _ | .float _ => decide (c = blocking)
  | _ => false

/-- The files among the arguments after number and reason; the second one comes
last. -/
def filesOf (c : ErrorClass) : List Datum → List Datum
  | [] => []
  | .nothing :: _ => []
  | file :: rest =>
    if c.isCount file then []
    else file :: match rest with
      | [_, .nothing] => []
      | [_, second] => [second]
      | _ => []

/-- From two to five arguments are a record. -/
def systemRecord? (c : ErrorClass) : List Datum → Option SystemRecord
  | number :: reason :: more =>
    if more.length ≤ 3 then some { number, reason, files := c.filesOf more } else none
  | _ => none

def SystemRecord.text (r : SystemRecord) : String :=
  let files := " -> ".intercalate (r.files.map Datum.literal)
  "[Errno " ++ r.number.plain ++ "] " ++ r.reason.plain ++
    (if r.files.isEmpty then "" else ": " ++ files)

/-- The integer a datum counts as. -/
def integer? : Datum → Option Int
  | .bool b => some (if b then 1 else 0)
  | .int i => some i
  | _ => none

/-- The kinds of failure that the system's numbers stand for. -/
def systemKinds : List (Int × ErrorClass) :=
  [ (1, permission), (2, fileMissing), (3, noProcess), (4, interrupted), (10, childProcess),
    (11, blocking), (13, permission), (17, fileExists), (20, notDirectory), (21, fileIsDirectory),
    (32, brokenPipe), (103, connectionAborted), (104, connectionReset), (108, brokenPipe),
    (110, timeout), (111, connectionRefused), (114, blocking), (115, blocking) ]

/-- The class that an error is really of: a failure of the system with a known
number is of that number's kind. -/
def refined (c : ErrorClass) (args : List Datum) : ErrorClass :=
  if c = system then
    ((c.systemRecord? args).bind fun r =>
      (integer? r.number).bind fun n => systemKinds.lookup n).getD c
  else c

/-- The file and the line of a mistake in a source text. -/
abbrev Place := Datum × Datum

/-- The place that a pair of arguments gives: the first two of four items, or of
six. -/
def placeOf : List Datum → Except Complaint (Option Place)
  | [_, details] =>
    match details.items? with
    | some [file, line, _, _] | some [file, line, _, _, _, _] => .ok (some (file, line))
    | some [_, _, _, _, _] =>
      wrongKind "end_offset must be provided when end_lineno is provided"
    | some items =>
      wrongKind ("function takes at " ++
        (if items.length < 4 then "least 4" else "most 6") ++ " arguments (" ++
        toString items.length ++ " given)")
    | none => wrongKind ("'" ++ shortKind 200 details ++ "' object is not iterable")
  | _ => .ok none

/-- The last part of a path. -/
def lastPart (path : String) : String :=
  String.ofList (path.toList.reverse.takeWhile (· != '/')).reverse

/-- The greatest number of a line that is shown. -/
def greatestLine : Int := Nat.pow 2 63 - 1

/-- The number of a line; one out of range is shown as less than any. -/
def lineNumber (i : Int) : String :=
  if -greatestLine - 1 ≤ i ∧ i ≤ greatestLine then toString i else "-1"

/-- A mistake in a source text with its place, as far as that is known. -/
def grammarText (message : Datum) (place : Option Place) : String :=
  let file := match place with
    | some (.text path, _) => [lastPart path]
    | _ => []
  let line := match place with
    | some (_, .int i) => ["line " ++ lineNumber i]
    | _ => []
  match file ++ line with
  | [] => message.plain
  | parts => message.plain ++ " (" ++ ", ".intercalate parts ++ ")"

/-- A part of something that has no code, or stands for none. -/
structure CodeRecord where
  encoding : String := ""
  /-- the code points, or the bytes -/
  units : List Nat
  start : Int
  stop : Int
  reason : String

/-- A position; it must fit a machine word. -/
def position (d : Datum) : Except Complaint Int :=
  match integer? d with
  | none => wrongKind ("'" ++ shortKind 200 d ++ "' object cannot be interpreted as an integer")
  | some i =>
    if -greatestLine - 1 ≤ i ∧ i ≤ greatestLine then .ok i
    else .error ⟨overflow, "Python int too large to convert to C ssize_t"⟩

/-- The text that the argument at a place is. -/
def asText (place : Nat) : Datum → Except Complaint String
  | .text s => .ok s
  | d => wrongKind ("argument " ++ toString place ++ " must be str, not " ++ argumentKind d)

def unitsOfText (place : Nat) (d : Datum) : Except Complaint (List Nat) :=
  return (← asText place d).toList.map Char.toNat

def unitsOfBytes : Datum → Except Complaint (List Nat)
  | .bytes bs => .ok (bs.map UInt8.toNat)
  | d => wrongKind ("a bytes-like object is required, not '" ++ shortKind 100 d ++ "'")

/-- Another number of arguments than a record has. -/
def exactly {α : Type} (count : Nat) (args : List Datum) : Except Complaint α :=
  wrongKind ("function takes exactly " ++ toString count ++ " arguments (" ++
    toString args.length ++ " given)")

/-- The record of a class whose errors are about code. -/
def codeRecord (c : ErrorClass) (args : List Datum) : Except Complaint CodeRecord :=
  if c = untranslatable then
    match args with
    | [object, start, stop, reason] =>
      return { units := ← unitsOfText 1 object, start := ← position start
               stop := ← position stop, reason := ← asText 4 reason }
    | args => exactly 4 args
  else
    match args with
    | [encoding, object, start, stop, reason] => do
      let encoding ← asText 1 encoding
      let units ← if c = unencodable then unitsOfText 2 object else pure []
      let start ← position start
      let stop ← position stop
      let reason ← asText 5 reason
      let units ← if c = unencodable then pure units else unitsOfBytes object
      return { encoding, units, start, stop, reason }
    | args => exactly 5 args

/-- The one unit that a record is about, if it is about one. -/
def CodeRecord.unit? (r : CodeRecord) : Option Nat :=
  if 0 ≤ r.start ∧ r.stop = r.start + 1 then r.units[r.start.toNat]? else none

def CodeRecord.text (c : ErrorClass) (r : CodeRecord) : String :=
  let codec := if c = untranslatable then "" else "'" ++ r.encoding ++ "' codec "
  let verb := if c = untranslatable then "translate" else if c = unencodable then "encode"
    else "decode"
  let unit := if c = undecodable then "byte" else "character"
  let one (n : Nat) : String :=
    if c = undecodable then "0x" ++ String.ofList (Text.hex 2 n)
    else "'" ++ String.ofList (Text.codePoint n) ++ "'"
  codec ++ "can't " ++ verb ++ " " ++ unit ++
    (match r.unit? with
      | some n => " " ++ one n ++ " in position " ++ toString r.start
      | none => "s in position " ++ toString r.start ++ "-" ++ toString (r.stop - 1)) ++
    ": " ++ r.reason

/-! ## The account -/

/-- What became of the arguments: the general class that took them, as they were
then, the system's record if they are one, and the fields that were kept. -/
structure Account where
  taker : ErrorClass
  args : List Datum
  record : Option SystemRecord := none
  fields : List (String × Datum) := []

/-- Does the class have a place of its own for a name, which is not among the fields? -/
def placesName (c : ErrorClass) : Bool := c.isA noAttribute || c.isA naming || c.isA importing

/-- A group is made of errors, and no datum is one. -/
def groupComplaint (args : List Datum) : Complaint :=
  let maker := "BaseExceptionGroup.__new__() "
  let members := "second argument (exceptions) "
  match args with
  | [.text _, .dict _] => ⟨type, members ++ "must be a sequence"⟩
  | [.text _, errors] =>
    match errors.items? with
    | none => ⟨type, members ++ "must be a sequence"⟩
    | some [] => ⟨value, members ++ "must be a non-empty sequence"⟩
    | some _ => ⟨value, "Item 0 of " ++ members ++ "is not an exception"⟩
  | [message, _] => ⟨type, maker ++ "argument 1 must be str, not " ++ argumentKind message⟩
  | args => ⟨type, maker ++ "takes exactly 2 arguments (" ++ toString args.length ++ " given)"⟩

/-- How much was written is a whole number that fits a machine word. -/
def checkCount (c : ErrorClass) : List Datum → Except Complaint Unit
  | _ :: _ :: d :: more =>
    if more.length ≤ 2 && c.isCount d then
      match position d with
      | .ok _ => .ok ()
      | .error e =>
        .error (if e.cls = overflow then ⟨value, "cannot fit 'int' into an index-sized integer"⟩
          else e)
    else .ok ()
  | _ => .ok ()

/-- A failure of the system takes the arguments of an error of class `c`.  The files
of a record are taken out of the arguments. -/
def takeSystem (taker c : ErrorClass) (args : List Datum) : Except Complaint Account := do
  c.checkCount args
  let record := c.systemRecord? args
  let named := record.any fun r => !r.files.isEmpty
  return { taker, args := if named then args.take 2 else args, record }

/-- A general class takes the arguments of an error of class `c`. -/
def take (taker c : ErrorClass) (args : List Datum) : Except Complaint Account :=
  if taker.isA system then taker.takeSystem c args
  else do
    if taker.isA grammar then discard (placeOf args)
    if [undecodable, unencodable, untranslatable].contains taker then
      discard (taker.codeRecord args)
    return { taker, args }

/-- The account of a lineage, for an error of class `c`. -/
def accountOf (c : ErrorClass) : List ErrorClass → List Datum → Except Complaint Account
  | [], args => .ok { taker := exception, args }
  | k :: rest, args =>
    match k.wording? with
    | some word => do
      let (message, kept) ← word args
      let a ← accountOf c rest [.text message]
      return { a with fields := kept ++ a.fields }
    | none => if general.contains k then k.take c args else accountOf c rest args

/-- What is wrong with a class that is no class of errors. -/
def noError (c : ErrorClass) (args : List Datum) : Complaint :=
  ⟨type, if args.isEmpty then "exceptions must derive from BaseException"
    else Text.cutTo 200 c.name ++ "() takes no arguments"⟩

/-- The account of an error, or what is wrong with the arguments. -/
def account (c : ErrorClass) (args : List Datum) : Except Complaint Account := do
  if !c.isA anyError then throw (c.noError args)
  if c.isA group then throw (groupComplaint args)
  let a ← accountOf c c.lineage args
  return if c.placesName then { a with fields := a.fields.filter fun f => f.1 != "name" } else a

/-! ## How an error reads -/

/-- The classes that have a way of their own to read. -/
def speaking : List ErrorClass :=
  [ key, system, grammar, undecodable, unencodable, untranslatable, noAttribute, importing,
    naming ]

/-- What an error reads as. -/
inductive Reading where
  /-- its arguments -/
  | arguments (args : List Datum)
  /-- a key that is missing -/
  | missing (key : Datum)
  | system (r : SystemRecord)
  | grammar (message : Datum) (place : Option Place)
  | code (c : ErrorClass) (r : CodeRecord)
  | silent

namespace Reading

/-- Nothing, the one argument, or all of them; a missing key is shown as a literal. -/
def text : Reading → String
  | .arguments [] => ""
  | .arguments [arg] => arg.plain
  | .arguments args => (Datum.tuple args).literal
  | .missing key => key.literal
  | .system r => r.text
  | .grammar message place => grammarText message place
  | .code c r => r.text c
  | .silent => ""

/-- The data that the text spells. -/
def spelled : Reading → List Datum
  | .arguments args => args
  | .missing key => [key]
  | .system r => r.number :: r.reason :: r.files
  | .grammar message _ => [message]
  | .code .. | .silent => []

/-- What writing the text fails with, if it cannot be written: an integer may be too
long, and one character before the start of a text cannot be shown. -/
def unwritable? (r : Reading) : Option ErrorClass :=
  match r with
  | .code c r =>
    if 0 ≤ r.start ∨ r.stop ≠ r.start + 1 then none
    else if c = unencodable then some index
    else if c = untranslatable then some internalFault
    else none
  | r => if Datum.haveText r.spelled then none else some value

end Reading

/-- What an error of class `c` reads as. -/
def reading (c : ErrorClass) (a : Account) : Reading :=
  match c.lineage.find? speaking.contains with
  | none => .arguments a.args
  | some k =>
    if k = key then
      match a.args with
      | [arg] => .missing arg
      | args => .arguments args
    else if k = system then a.record.elim (.arguments a.args) .system
    else if k = grammar then
      if a.taker.isA grammar then
        .grammar (a.args.head?.getD .nothing) (placeOf a.args).toOption.join
      else .grammar .nothing none
    else if [undecodable, unencodable, untranslatable].contains k then
      match if a.taker = k then (k.codeRecord a.args).toOption else none with
      | some r => .code k r
      | none => .silent
    else .arguments a.args

end Parley.ErrorClass
