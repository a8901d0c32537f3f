import Parley.Assets
import Parley.Compilation.Diagnostic
import Parley.Lexicon
import Parley.Session.Variables

/-!
# Compilations

What a compiler makes of some scripts: a program, the lines with their texts, the
declarations, and its diagnostics.  A run failed when it has errors, or when it
has no program for whatever reason.

Every diagnostic is logged at its own severity, and so is a run that failed
without saying why, so a log without an error means success.
-/

namespace Parley

/-- A line of dialogue found while compiling. -/
structure LineInfo where
  text : Datum
  node : Datum := .text ""
  lineNumber : Datum := .int 0
  file : Datum := .text ""
  metadata : List Datum := []

/-- The texts that some data are; nothing but texts can be joined. -/
def texts (ds : List Datum) : Except Fault (List String) :=
  ds.mapM fun d => d.text?.elim (.error (.accident .type)) .ok

/-- The row of the base language's string table for a line. -/
def LineInfo.entry (l : LineInfo) (id locale : Datum) : Except Fault Entry :=
  return { id, language := locale, text := l.text, base := l.text, file := l.file, node := l.node
           lineNumber := .text l.lineNumber.plain
           comment := .text (" ".intercalate (← texts l.metadata)) }

/-- The type of a declaration. -/
inductive DeclaredType where
  | boolean
  | number
  | string
  | function
deriving DecidableEq

namespace DeclaredType

def name : DeclaredType → String
  | .boolean => "boolean"
  | .number => "number"
  | .string => "string"
  | .function => "function"

/-- The type of a name. -/
def named? (name : String) : Option DeclaredType :=
  [.boolean, .number, .string, .function].find? fun t => t.name == name

/-- The value a variable of the type has before any write. -/
def zero : DeclaredType → Datum
  | .boolean => .boolean (.bool false)
  | .number => .number .zero
  | .string => .string (.text "")
  | .function => .nothing

end DeclaredType

/-- A variable or function that scripts declare or a compiler makes up. -/
structure Declaration where
  name : Datum
  type : DeclaredType
  default : Datum := .nothing
  description : Datum := .text ""
  isImplicit : Datum := .bool false

namespace Declaration

/-- Is it one of the compiler's own variables?  Only of a text can that be told. -/
def isInternal (s : Settings) (d : Declaration) : Except Fault Bool := do
  let mark ← s.internalMark
  match d.name with
  | .text name => Session.startsWith name mark
  | _ => throw (.accident .noAttribute)

def isFunction (d : Declaration) : Bool := d.type == .function

/-- The declared default, or what the type has without one. -/
def initialValue (d : Declaration) : Datum :=
  match d.default with
  | .nothing => d.type.zero
  | v => v

end Declaration

structure Compilation where
  hasProgram : Bool := false
  lines : List (Datum × LineInfo) := []
  declarations : List Declaration := []
  warnings : List Diagnostic := []
  errors : List Diagnostic := []

namespace Compilation

def succeeded (c : Compilation) : Bool := c.errors.isEmpty && c.hasProgram

/-- Errors, then warnings. -/
def diagnostics (c : Compilation) : List Diagnostic := c.errors ++ c.warnings

/-- The declarations that neither the compiler made up nor name a function. -/
def userDeclarations (s : Settings) (c : Compilation) : Except Fault (List Declaration) :=
  c.declarations.filterM fun d => return !(← d.isInternal s) && !d.isFunction

/-- The lines as the lexicon of a locale, by default the customary one. -/
def lexicon (s : Settings) (c : Compilation) (locale : Datum) : Except Fault Lexicon := do
  let locale ← match locale with
    | .nothing => s.defaultLocale
    | locale => .ok locale
  c.lines.foldlM (fun l e => return l.addAsset e.1 (← e.2.entry e.1 locale)) { locale }

/-- A failed run: diagnostics are split by their own severity. -/
def ofDiagnostics (ds : List Diagnostic) : Compilation :=
  { errors := ds.filter Diagnostic.isError
    warnings := ds.filter fun d => !d.isError }

end Compilation

/-! ## Compilers -/

/-- How a compiler can fail: by reporting diagnostics, or some other way. -/
inductive CompilerFailure where
  | diagnostics (ds : List Diagnostic)
  | fault (f : Fault)

structure Compiler where
  compile : List String → Except CompilerFailure Compilation
  /-- The script with a line identifier on every line, or nothing if that changes none. -/
  addTags : Datum → List Datum → Except CompilerFailure Datum

namespace Compiler

open Reporting

def level : Severity → Level
  | .error => .error
  | .warning => .warning

def logDiagnostic (d : Diagnostic) : Reporting Unit := log (.diagnostic (level d.severity) d.shown)

/-- What is logged of a run after its diagnostics. -/
def verdict (scripts : Nat) (c : Compilation) : List Note :=
  if c.errors.isEmpty && !c.hasProgram then [.programMissing]
  else if c.succeeded then [.compiled scripts c.lines.length c.warnings.length]
  else []

/-- Compile the scripts at some paths; empty paths are skipped. -/
def compileFiles (compiler : Compiler) (locate : Assets.Locator) (paths : List Datum) :
    Reporting Compilation := do
  let resolved ← (paths.filter Datum.truth).mapM (Assets.resolve locate)
  if resolved.isEmpty then
    log .nothingToCompile
    return {}
  record (.compiling resolved)
  let c ← match compiler.compile resolved with
    | .ok c => pure c
    | .error (.diagnostics ds) => pure (Compilation.ofDiagnostics ds)
    | .error (.fault f) => throw f
  c.diagnostics.forM logDiagnostic
  (verdict resolved.length c).forM log
  return c

/-- Tag every untagged line of a script.  A script that cannot be read gives an
empty text, and what is wrong with it is logged. -/
def addTagsToLines (compiler : Compiler) (contents : Datum) (existing : List Datum) :
    Reporting Datum := do
  record (.tagging contents existing)
  match compiler.addTags contents existing with
  | .ok .nothing => return contents
  | .ok result => return result
  | .error (.diagnostics ds) =>
    ds.forM logDiagnostic
    return .text ""
  | .error (.fault f) => throw f

end Compiler

end Parley
