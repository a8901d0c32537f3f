import Parley.World

/-!
# Texts and locales

The session's catalog server and its text provider as a host sees them.  The
provider exists once it was given or the runner was set up; asking for anything
through a missing one is an error.
-/

namespace Parley.Session

open Act

variable {H I : Type}

/-- The text provider. -/
def provider : Act H I Provider := do
  match (← get).provider with
  | some p => return p
  | none => throw (.accident .noAttribute)

def modifyServer (f : CatalogServer → CatalogServer) : Act H I Unit :=
  modify fun w => { w with server := f w.server }

def setLocale (locale : Datum) : Act H I Unit := do
  modifyServer fun s => s.setLocale locale
  log (.localeSet locale)

/-- Select a language; no language leaves the active one. -/
def setLanguage (language : Datum) : Act H I Unit := do
  discard provider
  match language with
  | .nothing => return
  | locale => setLocale locale

def language : Act H I Datum := do
  discard provider
  return (← get).server.locale

def getText (id : Datum) : Act H I Datum := do
  let p ← provider
  return (← of (lineText (← get).server p.fallback id)).getD .nothing

/-- Register a phrasebook in place of any earlier one. -/
def addPhrasebook (locale : Datum) (t : Phrasebook) : Act H I Unit := do
  discard provider
  checkKey locale
  ((← get).server.addNotes locale).forM log
  modifyServer fun s => s.add locale t

def removePhrasebook (locale : Datum) : Act H I Bool := do
  checkKey locale
  let had := (← get).server.has locale
  modifyServer fun s => s.remove locale
  return had

def hasPhrasebook (locale : Datum) : Act H I Bool := do
  checkKey locale
  return (← get).server.has locale

/-- The phrasebook of a locale, for changing it. -/
def phrasebook (locale : Datum) (whenMissing : ErrorClass) : Act H I Phrasebook := do
  checkKey locale
  match (← get).server.phrasebooks.get? locale with
  | some t => return t
  | none => throw (.accident whenMissing)

def addEntry (locale message text : Datum) : Act H I Unit := do
  let t ← of ((← phrasebook locale .noAttribute).addEntry message text)
  modifyServer fun s => s.add locale t

def hasEntry (locale message : Datum) : Act H I Bool := do
  of ((← phrasebook locale .type).hasEntry message)

def addFallback (locale : Datum) (fallback : Phrasebook) : Act H I Unit := do
  let t ← phrasebook locale .noAttribute
  modifyServer fun s => s.add locale (t.withFallback fallback)

def phrase (message : Datum) : Act H I Datum := do of ((← get).server.phrase message)

def clearServer : Act H I Unit := do
  let w ← get
  let server ← of (w.server.clear w.settings)
  modifyServer fun _ => server

def setFallback (fallback : Option Lexicon) : Act H I Unit :=
  modify fun w => { w with provider := some { fallback } }

/-- Lines that will probably be asked for; nothing is done about them. -/
def acceptHints (ids : List Datum) : Act H I Unit := log (.hintsIgnored ids.length)

end Parley.Session
