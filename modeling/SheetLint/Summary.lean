/-! # Summaries

A summary counts what a check has found and decides whether the check fails.
-/
namespace SheetLint

/-- The outcome of a check in numbers. -/
structure Summary where
  files : Nat
  errors : Nat
  warnings : Nat
  /-- Whether a warning is enough for the check to fail. -/
  failOnWarnings : Bool
  deriving DecidableEq, Repr

namespace Summary

/-- A count with its noun. -/
def counted (n : Nat) (one many : String) : String :=
  toString n ++ " " ++ if n = 1 then one else many

/-- The summary as it is shown, without a line feed at its end. -/
def render (s : Summary) : String :=
  "====================================\n" ++
    "csslint found " ++ counted s.errors "error" "errors" ++ " and " ++
    counted s.warnings "warning" "warnings" ++ " in " ++ counted s.files "file" "files"

/-- Whether the check fails. -/
def isFailure (s : Summary) : Bool :=
  decide (0 < s.errors) || (decide (0 < s.warnings) && s.failOnWarnings)

/-- Whether nothing has been found. -/
def isClean (s : Summary) : Bool :=
  decide (s.errors = 0) && decide (s.warnings = 0)

end Summary
end SheetLint
