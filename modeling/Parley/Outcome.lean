import Parley.Fault

/-!
# Outcomes of runner operations

A host branches on outcomes and need not catch anything: every failure an
interpreter reports has one.  An error below a known class has that class's
outcome, and where several known classes are above it, the one earliest in its
lineage decides.  An error below none of them is unknown, which is worth an
entry in the log.
-/

namespace Parley

/-- How an operation of the runner ended. -/
inductive Outcome where
  | ok
  | complete
  | markup
  | lineText
  | optionId
  | unexpectedSelection
  | continueOnOptions
  | noNodeSelected
  | invalidNode
  | variableStorage
  | notRunning
  | alreadyRunning
  | notConfigured
  | unknown
deriving DecidableEq, Inhabited

namespace Outcome

def name : Outcome → String
  | .ok => "ok"
  | .complete => "dialogue_complete"
  | .markup => "markup_parse_error"
  | .lineText => "line_provider_error"
  | .optionId => "invalid_option_id_error"
  | .unexpectedSelection => "unexpected_option_selection_error"
  | .continueOnOptions => "continue_on_option_selection_error"
  | .noNodeSelected => "no_node_selected_on_continue"
  | .invalidNode => "invalid_node"
  | .variableStorage => "variable_storage_error"
  | .notRunning => "dialogue_not_running"
  | .alreadyRunning => "dialogue_already_running"
  | .notConfigured => "runner_not_configured"
  | .unknown => "unknown_error"

/-- Does the outcome report a failure? -/
def isError (o : Outcome) : Bool := o != .ok && o != .complete

/-- The error classes that have an outcome of their own. -/
def known : List (ErrorClass × Outcome) :=
  [ (.markup, .markup), (.lineText, .lineText), (.optionId, .optionId),
    (.unexpectedSelection, .unexpectedSelection), (.continueOnOptions, .continueOnOptions),
    (.noNodeSelected, .noNodeSelected), (.invalidNode, .invalidNode),
    (.dialogueStorage, .variableStorage) ]

/-- The outcome of a class: that of the first known class in its lineage. -/
def ofClass? (c : ErrorClass) : Option Outcome := c.lineage.findSome? fun k => List.lookup k known

/-- The outcome an operation ends with for a fault of a class. -/
def ofClass (c : ErrorClass) : Outcome := (ofClass? c).getD .unknown

/-- The outcomes that an interpreter's faults have. -/
def ofFaults : List Outcome := .unknown :: known.map (·.2)

theorem ofClass_mem_ofFaults (c : ErrorClass) : ofClass c ∈ ofFaults := by
  cases h : ofClass? c with
  | none =>
      rw [ofClass, h]
      exact List.mem_cons_self
  | some o =>
      rw [ofClass, h]
      obtain ⟨k, -, hk⟩ := List.exists_of_findSome?_eq_some h
      obtain ⟨l₁, l₂, hknown, -⟩ := List.lookup_eq_some_iff.mp hk
      have hmem : (k, o) ∈ known := by
        rw [hknown]
        exact List.mem_append_right _ List.mem_cons_self
      exact List.mem_cons_of_mem _ (List.mem_map.mpr ⟨(k, o), hmem, rfl⟩)

end Outcome

/-- Outcome of a write to the variable store. -/
inductive WriteResult where
  | ok
  | invalidName
  | unknown
deriving DecidableEq, Inhabited

def WriteResult.name : WriteResult → String
  | .ok => "ok"
  | .invalidName => "invalid_variable_name"
  | .unknown => "unknown"

def WriteResult.named? (name : String) : Option WriteResult :=
  [.ok, .invalidName, .unknown].find? fun r => r.name == name

end Parley
