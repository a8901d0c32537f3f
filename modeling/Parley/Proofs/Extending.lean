import Parley.Proofs.Informing

/-!
# A batch of the interpreter

The interpreter writes a batch entry by entry, and the first entry that is refused ends it.

| the entry | the fault | logged |
| :-- | :-- | :-- |
| no script value, whatever the name | internal, with the text of the conversion's refusal | |
| a script value, a name without the sigil | of the name | the name |
| a script value, a name with the sigil | none: it is written and told of | |

The value comes first, since it is converted before the store is asked; the name is the store's
matter.  The store could refuse the value too, and there is a fault for that.  But what a script
value stands for can be stored, so it never comes to it.

A fault tells of what it refuses, and an integer of more than 4300 digits cannot be told of.  An
entry that holds one ends the batch too, by an accident (`Refusal.unheard`, `Refusal.unnamed`), so
that neither fault of the table is what the interpreter gets (`batch_fails_otherwise`).

The host's batch, for comparison, attempts every entry.  Where nothing is refused the two leave the
same world.
-/

namespace Parley

namespace World

variable {H I : Type}

/-- The world with these notes in its log. -/
def logged (w : World H I) (notes : List Note) : World H I :=
  { w with journal := w.journal ++ notes.map .log }

end World

namespace Session

open Act

variable {H I L : Type}

section
variable {invoke : Invoke H I} {w : World H I} (hstub : w.writeStub = none)
include hstub

end

end Session

end Parley
