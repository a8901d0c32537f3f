import Parley.Datum.Number

/-!
# Log entries

Everything the library logs, as what happened.  The level, the part of the
library that speaks, and the wording are functions of that.
-/

namespace Parley

inductive Level where
  | debug
  | info
  | warning
  | error
deriving DecidableEq

def Level.name : Level → String
  | .debug => "DEBUG"
  | .info => "INFO"
  | .warning => "WARNING"
  | .error => "ERROR"

inductive Note where
  -- the variable store
  | nameRefused (name sigil : Datum)
  | valueRefused (name value : Datum)
  -- outcomes
  | unmapped (fault : Fault)
  -- commands
  | commandRegistered (name : Datum)
  | commandReplaced (name : Datum)
  | commandMissing (name : Datum)
  | commandFailed (name : Datum) (fault : Fault)
  -- texts
  | localeSet (locale : Datum)
  | catalogReplaced (locale : Datum)
  | hintsIgnored (count : Nat)
  | merging (theirs mine : Datum)
  | tableLoaded (count : Nat) (locale : Datum) (path : String)
  -- the runner
  | interpreterReady (typeName : String)
  | noInterpreter
  | loadFailed (fault : Fault) (index : Nat) (source : Datum)
  | programsLoaded (loaded all : Nat)
  | startRefused (node : Datum)
  | interpreterFailed (fault : Fault)
  | optionRejected (id : Datum) (fault : Fault)
  | eventIgnored (shown : String)
  | nodeMissing (node : Datum)
  | functionRegistered (name : Datum)
  | functionSkipped (name : Datum)
  -- the compiler
  | diagnostic (level : Level) (shown : String)
  | nothingToCompile
  | programMissing
  | compiled (scripts lines warnings : Nat)

namespace Note

def level : Note → Level
  | .commandRegistered _ | .commandReplaced _ | .localeSet _ | .catalogReplaced _
  | .hintsIgnored _ | .interpreterReady _ | .functionRegistered _ => .debug
  | .tableLoaded .. | .programsLoaded .. | .compiled .. => .info
  | .nameRefused .. | .valueRefused .. | .commandMissing _ | .merging .. | .noInterpreter
  | .optionRejected .. | .eventIgnored _ | .nodeMissing _ | .functionSkipped _ => .warning
  | .unmapped _ | .commandFailed .. | .loadFailed .. | .startRefused _ | .interpreterFailed _
  | .nothingToCompile | .programMissing => .error
  | .diagnostic l _ => l

/-- The part of the library that speaks. -/
def speaker : Note → String
  | .nameRefused .. | .valueRefused .. => "storage.store"
  | .unmapped _ => "conversion"
  | .commandRegistered _ | .commandReplaced _ | .commandMissing _ | .commandFailed .. =>
    "commands.registry"
  | .localeSet _ | .catalogReplaced _ => "text.server"
  | .hintsIgnored _ => "text.provider"
  | .merging .. | .tableLoaded .. => "text.localization"
  | .diagnostic .. | .nothingToCompile | .programMissing | .compiled .. => "compiler.compiler"
  | _ => "runner.manager"

/-- A number without its fraction.  What is no number has no such form, and stands as it is. -/
def wholePart (d : Datum) : String :=
  match d.num >>= Num.trunc with
  | .ok i => toString i
  | .error _ => d.plain

def text : Note → String
  | .nameRefused name sigil =>
    "Variable name " ++ name.plain ++
      " is an invalid format. Dialogue variables must start with a '" ++ sigil.plain ++ "'"
  | .valueRefused name value =>
    "Failed to set " ++ name.plain ++ ": " ++ value.literal ++
      " cannot be stored as a dialogue value"
  | .unmapped f => "Unmapped dialogue error type " ++ f.cls.name ++ ": " ++ f.message
  | .commandRegistered name => "Registered command: " ++ name.plain
  | .commandReplaced name => "Command '" ++ name.plain ++ "' re-registered"
  | .commandMissing name => "Failed to find registered command '" ++ name.plain ++ "'"
  | .commandFailed name _ => "Command '" ++ name.plain ++ "' failed"
  | .localeSet locale => "Locale set to " ++ locale.plain
  | .catalogReplaced locale => "Replacing translation for locale " ++ locale.plain
  | .hintsIgnored n => "Ignoring " ++ toString n ++ " line hints"
  | .merging theirs mine =>
    "Merging " ++ theirs.plain ++ " strings into a " ++ mine.plain ++ " localization"
  | .tableLoaded n locale path =>
    "Loaded " ++ toString n ++ " " ++ locale.plain ++ " strings from " ++ path
  | .interpreterReady typeName => "Dialogue runner set up with " ++ typeName
  | .noInterpreter => "Dialogue runner not set"
  | .loadFailed f i source =>
    "Error: " ++ f.message ++ ". Failed to parse program " ++ toString i ++ ": " ++ source.literal
  | .programsLoaded loaded all =>
    "Loaded " ++ toString loaded ++ " of " ++ toString all ++ " dialogue programs"
  | .startRefused node =>
    "Can't start dialogue from node " ++ node.plain ++
      ": the dialogue is currently in the middle of running. Stop the dialogue first."
  | .interpreterFailed f => f.message
  | .optionRejected id f => "Option " ++ wholePart id ++ " rejected: " ++ f.message
  | .eventIgnored shown => "Ignoring unknown dialogue event " ++ shown
  | .nodeMissing node => "Node " ++ node.plain ++ " not found"
  | .functionRegistered name => "Registered function: " ++ name.plain
  | .functionSkipped name => "Function " ++ name.plain ++ " not registered: dialogue runner not set"
  | .diagnostic .warning shown => "Warning compiling: " ++ shown
  | .diagnostic _ shown => "Error compiling: " ++ shown
  | .nothingToCompile => "No dialogue scripts to compile"
  | .programMissing =>
    "Failed to compile: resulting program was None, but compiler did not report errors"
  | .compiled scripts lines warnings =>
    "Compiled " ++ toString scripts ++ " script(s): " ++ toString lines ++ " line(s), " ++
      toString warnings ++ " warning(s)"

/-- The error behind an entry that was logged because of one. -/
def fault? : Note → Option Fault
  | .commandFailed _ f => some f
  | _ => none

end Note

end Parley
