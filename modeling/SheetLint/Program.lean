import SheetLint.Run

/-! # The program

What the program prints, and the number it leaves behind: 0 when all is well, 1
when something has been found or the run stops, and 2 when the command line is not
understood.
-/
namespace SheetLint

/-- How the program answers a command line. -/
structure Response where
  exit : Nat
  output : String
  /-- The complaint, if the run has stopped. -/
  complaint : Option String := none
  deriving DecidableEq, Repr

/-- What a command line asks for. -/
inductive Task where
  /-- A plain answer. -/
  | say (response : Response)
  /-- A run. -/
  | run (args : Arguments)

namespace Program

/-- The name and number of this version. -/
def version : String := "csslint-rs 0.1.0"

/-- The usage of the program, in short. -/
def usage : String := "Usage: csslint-rs [OPTIONS] [PATHS]..."

/-- The list of rules. -/
def ruleList (linter : Linter) : String :=
  String.join (linter.rules.map fun rule =>
    rule.id ++ " - " ++ rule.name ++ ": " ++ rule.desc ++ "\n")

/-- The answer to a command line that is not run. -/
def refuse : UsageError → Response
  | .displayVersion => { exit := 0, output := version ++ "\n" }
  | .displayHelp => { exit := 0, output := usage ++ "\n" }
  | _ => { exit := 2, output := "" }

/-- What a command line asks for. -/
def task (words : List String) : Task :=
  match Arguments.parse words with
  | .error cause => .say (refuse cause)
  | .ok args =>
    if args.has .listRules then .say { exit := 0, output := ruleList .builtin } else .run args

/-- The answer to a run. -/
def conclude (run : Run) : Response :=
  match run.ending with
  | .finished summary => { exit := if summary.isFailure then 1 else 0, output := run.output }
  | .failed cause =>
    { exit := 1, output := run.output, complaint := some ("Error: " ++ cause.message) }
  | .watching _ => { exit := 0, output := run.output }

/-- The answer to a command line. -/
def respond (around : Surroundings) (words : List String) : Response :=
  match task words with
  | .say response => response
  | .run args => conclude (Run.start around args)

end Program
end SheetLint
