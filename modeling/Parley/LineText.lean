import Parley.Catalog
import Parley.Lexicon

/-!
# The text of a line

A line's text is looked for in two places.  The active locale's phrasebook
answers first, unless it answers with the identifier itself, which is how a
phrasebook says that it has no text.  Then the fallback lexicon answers, but
only when its locale is the active one and it contains the line.
-/

namespace Parley

/-- The fallback's text for a line, if the fallback may answer. -/
def fallbackText (fallback : Option Lexicon) (locale id : Datum) : Except Fault (Option Datum) :=
  match fallback with
  | none => .ok none
  | some l =>
    if l.locale.same locale then do
      let id ← id.asKey
      return if l.contains id then (l.get? id).filter Datum.isSomething else none
    else .ok none

/-- The text of a line, if there is any. -/
def lineText (server : CatalogServer) (fallback : Option Lexicon) (id : Datum) :
    Except Fault (Option Datum) := do
  let found ← server.phrase id
  if found.same id then fallbackText fallback server.locale id
  else return some found

/-- Can any line have a text in the active locale? -/
def areLinesAvailable (server : CatalogServer) (fallback : Option Lexicon) :
    Except Fault Bool := do
  let t ← server.active
  return t.isSome || fallback.any fun l => l.locale.same server.locale

end Parley
