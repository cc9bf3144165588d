/-! # Runs of code points

A property of characters is a table of runs: the first and the last code point of
each stretch of characters that have it.
-/
namespace SheetLint.Text

/-- Whether a code point lies in one of the runs. -/
def inRuns (runs : List (Nat × Nat)) (n : Nat) : Bool :=
  runs.any fun run => run.1 ≤ n && n ≤ run.2

/-- How many code points lie in runs that do not overlap. -/
def sizeOfRuns (runs : List (Nat × Nat)) : Nat :=
  runs.foldr (fun run n => run.2 + 1 - run.1 + n) 0

/-- Whether the runs stand in order, each with a gap in front of it, so that a table
has one way to be written. -/
def areOrdered : List (Nat × Nat) → Bool
  | [] => true
  | [run] => run.1 ≤ run.2
  | run :: next :: runs => run.1 ≤ run.2 && run.2 + 1 < next.1 && areOrdered (next :: runs)

/-- The code points of a run are in it. -/
theorem inRuns_of_mem {runs : List (Nat × Nat)} {run : Nat × Nat} {n : Nat}
    (hmem : run ∈ runs) (hfirst : run.1 ≤ n) (hlast : n ≤ run.2) : inRuns runs n = true :=
  List.any_eq_true.mpr ⟨run, hmem, by simp [hfirst, hlast]⟩

end SheetLint.Text
