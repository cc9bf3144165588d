import SheetLint.Plan
import SheetLint.Report
import SheetLint.Resource.Local
import SheetLint.Summary

/-! # Checks

A check lints every stylesheet of a plan.  Each file is looked at by itself
(`Plan.checkFile?`), and what has been found is kept in the order of the files.
`Check.summary` counts it and `Check.output` prints it.
-/
namespace SheetLint
open Text

/-- What has been found in one file. -/
structure FileOutcome where
  /-- The path as it is shown. -/
  path : String
  source : String
  diagnostics : List Diagnostic
  /-- The paths of the resources that were looked for, in order. -/
  asked : List String
  deriving DecidableEq, Repr

/-- A check that has been made. -/
structure Check where
  /-- The number of files, also of those that could not be read. -/
  files : Nat
  /-- What has been found in the files that could be read. -/
  outcomes : List FileOutcome
  /-- Whether a warning is enough for the check to fail. -/
  failOnWarnings : Bool
  deriving DecidableEq, Repr

/-! ### Making a check -/

/-- Lints one file.  A file that cannot be read is passed over. -/
def Plan.checkFile? (plan : Plan) (files : Folder) (path : String) : Option FileOutcome :=
  match files.read path with
  | .error _ => none
  | .ok source =>
    let context : Context :=
      if plan.filesystem then some (files.probe path plan.workspace) else none
    let result := Linter.builtin.lint plan.ruleset context source
    some {
      path := plan.shownPath path
      source
      diagnostics := result.messages
      asked := result.asked.map (resourcePath path plan.workspace) }

/-- Whether a text switches something on or off. -/
def switchedOn? (text : String) : Option Bool :=
  let word := lower text
  if ["1", "true", "yes", "on"].contains word then some true
  else if ["0", "false", "no", "off"].contains word then some false
  else none

/-- Whether warnings count as failures: by a flag, or by the variable. -/
def Surroundings.failsOnWarnings (around : Surroundings) (args : Arguments) : Bool :=
  args.has .failOnWarnings || (around.failOnWarnings.bind switchedOn?).getD false

/-- Checks the files with the given paths. -/
def Plan.check (plan : Plan) (around : Surroundings) (args : Arguments) (paths : List String) :
    Check where
  files := paths.length
  outcomes := paths.filterMap (plan.checkFile? around.files)
  failOnWarnings := around.failsOnWarnings args

/-! ### Showing a check -/

namespace Check

/-- The number of diagnostics of a severity. -/
def count (check : Check) (severity : Severity) : Nat :=
  check.outcomes.foldr (fun outcome n => Diagnostic.count severity outcome.diagnostics + n) 0

/-- The check in numbers. -/
def summary (check : Check) : Summary where
  files := check.files
  errors := check.count .error
  warnings := check.count .warning
  failOnWarnings := check.failOnWarnings

/-- The paths of the resources that were looked for, in order. -/
def asked (check : Check) : List String := check.outcomes.flatMap FileOutcome.asked

/-- The entries for all files. -/
def entries (check : Check) : List Report.Entry :=
  check.outcomes.flatMap fun outcome => outcome.diagnostics.map (Report.entry outcome.path)

/-- The reports on all files, one after another. -/
def reports (check : Check) (format : OutputFormat) : String :=
  String.join (check.outcomes.map fun outcome =>
    Report.render format outcome.diagnostics outcome.path outcome.source)

/-- What is printed.  In the format `json` it is one list.  Otherwise the summary
follows the reports; a quiet check that has found nothing leaves it out. -/
def output (check : Check) (format : OutputFormat) (quiet : Bool) : String :=
  if format = .json then
    Report.renderEntries check.entries ++ "\n"
  else
    check.reports format ++
      if quiet && check.summary.isClean then "" else check.summary.render ++ "\n"

end Check
end SheetLint
