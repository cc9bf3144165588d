import SheetLint.Resource.Reference

/-! # References by block

References found in a block wait until the block ends.  Only one block is
collected for at a time: a block that starts takes the place of the one before,
whose references are dropped.
-/
namespace SheetLint

/-- The blocks whose references are collected. -/
def BlockKind.isTracked : BlockKind → Bool
  | rule | fontFace | page | pageMargin | keyframes => true
  | keyframeRule | media | supports | document | viewport => false

/-- The references that wait for a block to end. -/
structure Pending where
  kind : BlockKind
  references : List Reference := []
  deriving DecidableEq, Repr

/-- The block that is collected for, if any. -/
structure Scope where
  pending : Option Pending := none
  deriving DecidableEq, Repr

namespace Scope

/-- Starts to collect for a block.  The other result is what is dropped. -/
def start (scope : Scope) (kind : BlockKind) : Scope × Option Pending :=
  (⟨some ⟨kind, []⟩⟩, scope.pending)

/-- Collects references, and tells whether there was a block to collect for. -/
def collect (scope : Scope) (references : List Reference) : Scope × Bool :=
  match scope.pending with
  | some set => (⟨some { set with references := set.references ++ references }⟩, true)
  | none => (scope, false)

/-- Ends a block.  If it was collected for, what has been collected is handed
out. -/
def finish (scope : Scope) (kind : BlockKind) : Scope × Option Pending :=
  match scope.pending with
  | some set => if set.kind = kind then (⟨none⟩, some set) else (scope, none)
  | none => (scope, none)

end Scope
end SheetLint
