import Parley.Keyed
import Parley.Note
import Parley.Settings

/-!
# Phrasebooks

A phrasebook is a chain of links.  A link may have a catalog; a message is
answered by the first catalog that contains it, and by itself when none does.
Adding a fallback appends a chain to a chain.

The server has one phrasebook for each locale and a locale that is active.
-/

namespace Parley

/-- A link of a chain: a catalog, or a link that only passes messages on. -/
abbrev Link := Option (Keyed Datum Datum)

/-- A chain with at least one link. -/
structure Phrasebook where
  first : Link
  rest : List Link := []
deriving Inhabited

namespace Phrasebook

def links (t : Phrasebook) : List Link := t.first :: t.rest

/-- Append a fallback. -/
def withFallback (t fallback : Phrasebook) : Phrasebook :=
  { t with rest := t.rest ++ fallback.links }

/-- The first catalog's text for a message. -/
def find? (t : Phrasebook) (message : Datum) : Option Datum :=
  t.links.findSome? fun l => l.bind fun c => c.get? message

/-- The text for a message; only what may be a key can be looked for in a catalog. -/
def textFor? (t : Phrasebook) (message : Datum) : Except Fault (Option Datum) :=
  if t.links.all Option.isNone then .ok none else message.asKey.map t.find?

/-- Add an entry to the chain's own catalog, if it has one. -/
def addEntry (t : Phrasebook) (message text : Datum) : Except Fault Phrasebook :=
  match t.first with
  | some c => message.asKey.map fun key => { t with first := some (c.insert key text) }
  | none => .error (.accident .noAttribute)

/-- Is the message in the chain's own catalog? -/
def hasEntry (t : Phrasebook) (message : Datum) : Except Fault Bool :=
  match t.first with
  | some c => message.asKey.map c.contains
  | none => .error (.accident .type)

end Phrasebook

structure CatalogServer where
  locale : Datum
  phrasebooks : Keyed Datum Phrasebook := {}

namespace CatalogServer

/-- A server at a locale, or at the one for hosts that chose none. -/
def start (s : Settings) (locale : Option Datum) : Except Fault CatalogServer :=
  return { locale := ← locale.elim s.unsetLocale .ok }

def setLocale (c : CatalogServer) (locale : Datum) : CatalogServer := { c with locale }

def add (c : CatalogServer) (locale : Datum) (t : Phrasebook) : CatalogServer :=
  { c with phrasebooks := c.phrasebooks.insert locale t }

/-- What adding a phrasebook is logged as, if at all. -/
def addNotes (c : CatalogServer) (locale : Datum) : List Note :=
  if c.phrasebooks.contains locale then [.catalogReplaced locale] else []

def remove (c : CatalogServer) (locale : Datum) : CatalogServer :=
  { c with phrasebooks := c.phrasebooks.erase locale }

def has (c : CatalogServer) (locale : Datum) : Bool := c.phrasebooks.contains locale

def locales (c : CatalogServer) : List Datum := c.phrasebooks.keys

/-- The server without its phrasebooks, at the locale for hosts that chose none. -/
def clear (_ : CatalogServer) (s : Settings) : Except Fault CatalogServer := start s none

/-- The active locale's phrasebook; a locale must be fit to be a key. -/
def active (c : CatalogServer) : Except Fault (Option Phrasebook) :=
  return c.phrasebooks.get? (← c.locale.asKey)

/-- The message in the active locale, or as it is. -/
def phrase (c : CatalogServer) (message : Datum) : Except Fault Datum := do
  match ← c.active with
  | some t => return (← t.textFor? message).getD message
  | none => return message

end CatalogServer

end Parley
