import Parley.Proofs.Course

/-!
# Operations on the variables

Reading variables changes nothing.  Every operation that writes is made of three
parts: a variable assigned, all variables cleared, an entry in the log.  So what these
keep (`Storing`), all requests of either interface keep, whatever faults cut them short.
-/

namespace Parley

/-- Does the request only read variables? -/
def Request.reads {I : Type} : Request I → Bool
  | .getVariable _ | .hasVariable _ | .isValidName _ | .variableCount | .saveState | .getValue _
  | .allValues => true
  | _ => false

/-- Does the request write variables? -/
def Request.writes {I : Type} : Request I → Bool
  | .setVariable .. | .setVariables _ | .clearVariables | .restoreState _ | .setValue ..
  | .setValues _ => true
  | _ => false

/-- Is it a request about variables? -/
def Request.stores {I : Type} (r : Request I) : Bool := r.reads || r.writes

/-- Does the notice tell of a change of the variables? -/
def Notice.isChange : Notice → Bool
  | .variableChanged .. | .storeCleared => true
  | _ => false

namespace Session

open Act

variable {H I L : Type} {R : World H I → World H I → Prop}

/-- What operations on the variables are made of keeps `R`. -/
structure Storing (R : World H I → World H I → Prop) (invoke : Invoke H I) : Prop where
  log : ∀ n, Keeps R (log n : Act H I Unit)
  assign : ∀ name value, (Notice.variableChanged name value).Named →
    Keeps R (assign invoke name value)
  clear : Keeps R (clearVariables invoke)

variable [IsPreorder (World H I) R]

theorem only_keeps {act : Act H I Unit} (hact : Keeps R act) : Keeps R (only act) :=
  .bind hact fun _ => keeps_pure _

/-! ## Reading -/

theorem getVariable_keeps (name : Datum) : Keeps R (getVariable name : Act H I Datum) :=
  .bind (keeps_checkKey name) fun _ => .bind keeps_get fun _ => keeps_pure _

theorem hasVariable_keeps (name : Datum) : Keeps R (hasVariable name : Act H I Bool) :=
  .bind (keeps_checkKey name) fun _ => .bind keeps_get fun _ => keeps_pure _

theorem getValue_keeps (name : Datum) : Keeps R (getValue name : Act H I Datum) := by
  refine .bind (getVariable_keeps name) ?_
  intro d
  split
  · exact keeps_throw _
  · exact keeps_of _

theorem allValues_keeps : Keeps R (allValues : Act H I (List (Datum × Datum))) :=
  .bind keeps_get fun _ => keeps_of _

theorem perform_keeps_of_reads (ip : Interpreter I L) (fuel : Nat) (invoke : Invoke H I)
    {r : Request I} (hr : r.reads = true) : Keeps R (perform ip fuel invoke r) := by
  cases r with
  | getVariable name => exact .bind (getVariable_keeps name) fun _ => keeps_pure _
  | hasVariable name => exact .bind (hasVariable_keeps name) fun _ => keeps_pure _
  | isValidName name =>
      exact .bind keeps_get fun _ => .bind (keeps_of _) fun _ => keeps_pure _
  | variableCount | saveState => exact .bind keeps_get fun _ => keeps_pure _
  | getValue name => exact .bind (getValue_keeps name) fun _ => keeps_pure _
  | allValues => exact .bind allValues_keeps fun _ => keeps_pure _
  | _ => cases hr

/-! ## Writing -/

theorem text_of_isValidName {s : Settings} {name : Datum} (h : isValidName s name = .ok true) :
    ∃ text, name = .text text := by
  unfold isValidName at h
  split at h
  · next text => exact ⟨text, rfl⟩
  · cases h

section
variable {invoke : Invoke H I} (hstoring : Storing R invoke)
include hstoring

theorem setVariable_keeps (name value : Datum) : Keeps R (setVariable invoke name value) := by
  refine .bind keeps_get ?_
  intro w
  split
  · exact keeps_pure _
  · refine keeps_of_bind ?_
    intro valid hvalid
    split
    · next htrue =>
      split
      · have hnamed := text_of_isValidName (htrue ▸ hvalid)
        exact .bind (hstoring.assign _ _ hnamed) fun _ => keeps_pure _
      · split
        · exact .bind (hstoring.log _) fun _ => keeps_pure _
        · exact keeps_throw _
    · exact .bind (keeps_of _) fun _ => .bind (hstoring.log _) fun _ => keeps_pure _

theorem setVariables_keeps (entries : List (Datum × Datum)) :
    Keeps R (setVariables invoke entries) :=
  keeps_mapM (fun _ => .bind (setVariable_keeps hstoring _ _) fun _ => keeps_pure _) _

theorem restore_keeps (entries : List (Datum × Datum)) : Keeps R (restore invoke entries) :=
  .bind (hstoring.clear) fun _ => (setVariables_keeps hstoring entries).discard

theorem setValue_keeps (name value : Datum) : Keeps R (setValue invoke name value) := by
  refine .bind (keeps_of _) fun d => .bind (setVariable_keeps hstoring _ _) ?_
  intro result
  split
  · exact keeps_pure _
  · exact keeps_throw _
  · exact keeps_throw _

theorem setValues_keeps (entries : List (Datum × Datum)) : Keeps R (setValues invoke entries) :=
  keeps_forM _ fun _ _ => setValue_keeps hstoring _ _

/-- What assigning, clearing and logging keep, a request that writes variables keeps. -/
theorem perform_keeps_of_writes (ip : Interpreter I L) (fuel : Nat) {r : Request I}
    (hr : r.writes = true) : Keeps R (perform ip fuel invoke r) := by
  cases r with
  | setVariable name value =>
      exact .bind (setVariable_keeps hstoring name value) fun _ => keeps_pure _
  | setVariables entries =>
      exact .bind (setVariables_keeps hstoring entries) fun _ => keeps_pure _
  | clearVariables => exact only_keeps hstoring.clear
  | restoreState entries => exact only_keeps (restore_keeps hstoring entries)
  | setValue name value => exact only_keeps (setValue_keeps hstoring name value)
  | setValues entries => exact only_keeps (setValues_keeps hstoring entries)
  | _ => cases hr

end

end Session

end Parley
