import SheetLint.Source

/-! # Diagnostics -/
namespace SheetLint

/-- How much a diagnostic weighs. -/
inductive Severity where
  | warning
  | error
  deriving DecidableEq, Repr

/-- A message about one place of a stylesheet. -/
structure Diagnostic where
  /-- The id of the rule that reports it. -/
  rule : String
  severity : Severity
  message : String
  position : Position
  deriving DecidableEq, Repr

/-- The rule id of diagnostics that stand for faults. -/
def faultRule : String := "parse-error"

namespace Diagnostic

/-- The order in which diagnostics are shown.  It is used with stable sorting, so
diagnostics at one position keep their order. -/
def le (a b : Diagnostic) : Bool := a.position.le b.position

/-- The diagnostics ordered by position. -/
def sort (ds : List Diagnostic) : List Diagnostic := ds.mergeSort le

/-- The number of diagnostics of a severity. -/
def count (severity : Severity) (ds : List Diagnostic) : Nat :=
  (ds.filter fun d => d.severity == severity).length

end Diagnostic
end SheetLint
