import Parley.Datum.Names
import Parley.Fault
import Parley.Text.Case

/-!
# Settings

A setting is a name with a datum.  The library has defaults; a host overrides
them in a module of its own, where only upper case names count, or in code.

`Configuration` adds when that happens.  Settings are loaded on first use: the
defaults, then the host's module if it can be found.  Configuring in code
starts from the defaults alone and so keeps the module from being read; a reset
forgets everything, and the next use loads again.
-/

namespace Parley

/-- Settings by name; the first entry of a name counts. -/
structure Settings where
  entries : List (String × Datum)

namespace Settings

def get? (s : Settings) (name : String) : Option Datum := s.entries.lookup name

def set (s : Settings) (name : String) (value : Datum) : Settings :=
  ⟨(name, value) :: s.entries.filter fun e => e.1 != name⟩

def setAll (s : Settings) (options : List (String × Datum)) : Settings :=
  options.foldl (fun s o => s.set o.1 o.2) s

def defaults : Settings :=
  ⟨[ ("VARIABLE_SIGIL", .text "$"),
     ("INTERNAL_VARIABLE_PREFIX", .text "$Yarn.Internal."),
     ("UNSET_LOCALE", .text ""),
     ("DEFAULT_LOCALE", .text "en"),
     ("STRING_TABLE_DELIMITER", .text ","),
     ("ASSETS_HANDLE", .text "dialogue_assets"),
     ("LOG_LEVEL", .text "DEBUG") ]⟩

/-- The upper case names of a host's module override what is there. -/
def override (s : Settings) (names : List (String × Datum)) : Settings :=
  s.setAll (names.filter fun e => Text.isUpperName e.1)

/-- The datum of one of the library's own settings; a host may have taken it away. -/
private def known (s : Settings) (name : String) : Except Fault Datum :=
  (s.get? name).elim (.error (.accident .noAttribute)) .ok

/-- What every variable name starts with. -/
def sigil (s : Settings) : Except Fault Datum := s.known "VARIABLE_SIGIL"

/-- What the names of a compiler's own variables start with. -/
def internalMark (s : Settings) : Except Fault Datum := s.known "INTERNAL_VARIABLE_PREFIX"

/-- The locale of a host that never chose one. -/
def unsetLocale (s : Settings) : Except Fault Datum := s.known "UNSET_LOCALE"

/-- The locale scripts are written in. -/
def defaultLocale (s : Settings) : Except Fault Datum := s.known "DEFAULT_LOCALE"

def delimiter (s : Settings) : Except Fault Datum := s.known "STRING_TABLE_DELIMITER"

def assetsHandle (s : Settings) : Except Fault Datum := s.known "ASSETS_HANDLE"

def logLevel (s : Settings) : Except Fault Datum := s.known "LOG_LEVEL"

/-! ## Writing

All settings together have a name too.  A table under it takes their place, with the
texts among its keys as names. -/

/-- The name of all settings together. -/
def tableName : String := Datum.special "dict"

/-- The settings of a table. -/
def ofTable (entries : List (Datum × Datum)) : Settings :=
  ⟨entries.filterMap fun e => e.1.text?.map fun name => (name, e.2)⟩

/-- The names under which nothing can be written, and what an attempt fails with. -/
def unwritable : List (String × ErrorClass) :=
  [(Datum.special "class", .type), (Datum.special "weakref", .noAttribute)]

/-- Write a setting, unless the name does not admit that. -/
def write (s : Settings) (name : String) (value : Datum) : Except Fault Settings :=
  if name = tableName then
    match value with
    | .dict entries => .ok (ofTable entries)
    | _ => .error (.accident .type)
  else match unwritable.lookup name with
    | some e => .error (.accident e)
    | none => .ok (s.set name value)

/-- Write settings in order, up to the first that cannot be written. -/
def writeAll (s : Settings) : List (String × Datum) → Except Fault Unit × Settings
  | [] => (.ok (), s)
  | (name, value) :: options =>
    match s.write name value with
    | .error f => (.error f, s)
    | .ok s => writeAll s options

/-- The name that a host cannot configure. -/
def reservedName : String := "self"

/-- The defaults with a host's overrides. -/
def configured (options : List (String × Datum)) : Except Fault Settings :=
  if (options.lookup reservedName).isSome then .error (.accident .type)
  else match defaults.writeAll options with
    | (.ok _, s) => .ok s
    | (.error f, _) => .error f

theorem get?_set (s : Settings) (name : String) (value : Datum) :
    (s.set name value).get? name = some value := by
  simp [set, get?]

end Settings

/-! ## When settings are loaded -/

/-- What a configuration holds: nothing yet, settings, or a datum that a host put
in their place. -/
inductive Held where
  | nothing
  | settings (s : Settings)
  | datum (d : Datum)

/-- Where a host's overrides come from, and what is held so far. -/
structure Configuration where
  /-- The modules that can be found, with their names. -/
  modules : List (String × List (String × Datum)) := []
  /-- The module to look for, or none to look for the customary one. -/
  wanted : Option String := none
  held : Held := .nothing

namespace Configuration

/-- The customary name of a host's settings module. -/
def customary : String := "settings"

/-- The name under which a host finds, and puts, what is held. -/
def heldName : String := "_wrapped"

/-- The name under which a host finds what is held, loaded if need be. -/
def loadedName : String := "_settings"

open Datum (special)

/-- The name of a module's own list of its names; one that is given cannot be asked
for the list. -/
def listName : String := special "dir"

/-- The other names that a configuration answers to by itself.  What they stand for
is no datum. -/
def ownNames : List String :=
  [ "_load", "configure", "is_configured", "reset" ] ++
  [ "class", "delattr", "dict", "dir", "doc", "eq", "format", "ge", "getattr", "getattribute",
    "getstate", "gt", "hash", "init", "init_subclass", "le", "lt", "module", "ne", "new",
    "reduce", "reduce_ex", "repr", "setattr", "sizeof", "str", "subclasshook", "weakref" ].map
    special

/-- The other name that settings answer to by themselves. -/
def updateName : String := "update_from_module"

/-- What a configuration says of itself: what it is for, and where it belongs. -/
def selfDescription : List (String × String) :=
  [ (special "doc", "Proxy to a ``Settings`` object that is built on first attribute access."),
    (special "module", "threadline.conf") ]

/-- The settings a load finds.  A module with an empty name cannot be asked for, nor one
whose name begins with a dot, which is taken from a place that is not known. -/
def load (c : Configuration) : Except Fault Settings :=
  let name := c.wanted.getD customary
  if name.isEmpty then .error (.accident .value)
  else if name.toList.head? = some '.' then .error (.accident .type)
  else match c.modules.lookup name with
    | some names =>
      if (names.lookup listName).isSome then .error (.accident .type)
      else .ok (Settings.defaults.override names)
    | none => .ok Settings.defaults

/-- The configuration with something held, loaded if need be. -/
def loaded (c : Configuration) : Except Fault Configuration :=
  match c.held with
  | .nothing => do return { c with held := .settings (← c.load) }
  | _ => .ok c

/-- Do something with what is held, which is loaded first; a failure to load leaves
the configuration as it was. -/
def use {α : Type} (c : Configuration)
    (act : Configuration → Except Fault α × Configuration) : Except Fault α × Configuration :=
  match c.loaded with
  | .error f => (.error f, c)
  | .ok c => act c

/-- What is under a name: a setting's datum, or a part of the datum that is held. -/
def part? (c : Configuration) (name : String) : Option Datum :=
  match c.held with
  | .settings s => s.get? name
  | .datum d => d.part? name
  | .nothing => none

/-- Is there something under a name that is no datum? -/
def isOperation (c : Configuration) (name : String) : Bool :=
  match c.held with
  | .settings _ => name == updateName
  | .datum d => d.names.contains name
  | .nothing => false

/-- What is held as a datum; settings are none. -/
def heldDatum (c : Configuration) : Except Fault Datum :=
  match c.held with
  | .nothing => .ok .nothing
  | .datum d => .ok d
  | .settings _ => .error (.accident .type)

/-- A setting's datum; asking loads the settings, found or not. -/
def get (c : Configuration) (name : String) : Except Fault Datum × Configuration :=
  if name = heldName then (c.heldDatum, c)
  else if name = loadedName then c.use fun c => (c.heldDatum, c)
  else if name = special "dict" then
    (c.heldDatum.map fun d => .dict [(.text heldName, d)], c)
  else if name = special "weakref" then (.ok .nothing, c)
  else if let some text := selfDescription.lookup name then (.ok (.text text), c)
  else if ownNames.contains name then (.error (.accident .type), c)
  else c.use fun c =>
    match c.part? name with
    | some d => (.ok d, c)
    | none => (.error (.accident (if c.isOperation name then .type else .noAttribute)), c)

/-- Is there anything under the name?  Only a setting's name has to load them. -/
def has (c : Configuration) (name : String) : Except Fault Bool × Configuration :=
  if name = heldName || ownNames.contains name then (.ok true, c)
  else c.use fun c =>
    (.ok (name == loadedName || c.isOperation name || (c.part? name).isSome), c)

/-- Change the settings that are held; nothing else can be changed. -/
def change (c : Configuration) (options : List (String × Datum)) :
    Except Fault Unit × Configuration :=
  match c.held, options with
  | .settings s, options =>
    let (r, s) := s.writeAll options
    (r, { c with held := .settings s })
  | _, [] => (.ok (), c)
  | .datum d, (name, _) :: _ =>
    (.error (.accident (if d.isValue then .frozen else if name = special "class" then .type
      else .noAttribute)), c)
  | .nothing, _ => (.error (.accident .noAttribute), c)

/-- Put a datum in the place of the settings; nothing makes the next use load. -/
def put (c : Configuration) (d : Datum) : Configuration :=
  { c with held := match d with
    | .nothing => .nothing
    | d => .datum d }

def set (c : Configuration) (name : String) (value : Datum) :
    Except Fault Unit × Configuration :=
  if name = heldName then (.ok (), c.put value)
  else c.use fun c => c.change [(name, value)]

/-- Override settings in code, without reading the host's module. -/
def configure (c : Configuration) (options : List (String × Datum)) :
    Except Fault Unit × Configuration :=
  if (options.lookup Settings.reservedName).isSome then (.error (.accident .type), c)
  else change (match c.held with
    | .nothing => { c with held := .settings Settings.defaults }
    | _ => c) options

def isConfigured (c : Configuration) : Bool := !(c.held matches .nothing)

def reset (c : Configuration) : Configuration := { c with held := .nothing }

/-- Look for a module; a name with a null character names none. -/
def want (c : Configuration) (name : Option String) : Except Fault Unit × Configuration :=
  if name.any fun n => n.toList.contains '\x00' then (.error (.accident .value), c)
  else (.ok (), { c with wanted := name })

/-- Make a module findable, or no longer. -/
def provide (c : Configuration) (name : String) (names : Option (List (String × Datum))) :
    Configuration :=
  let others := c.modules.filter fun m => m.1 != name
  { c with modules := match names with
    | some names => (name, names) :: others
    | none => others }

end Configuration

end Parley
