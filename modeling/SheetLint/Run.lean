import SheetLint.Check

/-! # Runs

A run draws up a plan, finds the stylesheets and checks them.  A run that watches
checks once and then again whenever a stylesheet has changed; what happens up to
the first wait is `Run.start`, and what happens at a change is `Run.again`.
-/
namespace SheetLint

/-- How a run goes on once it has printed something. -/
inductive Ending where
  /-- It is over. -/
  | finished (summary : Summary)
  /-- It has stopped. -/
  | failed (cause : RunError)
  /-- It waits for changes. -/
  | watching (plan : Plan)

/-- What a run does before it ends or waits. -/
structure Run where
  output : String
  ending : Ending
  /-- The paths of the resources that were looked for, in order. -/
  asked : List String := []

namespace Run

/-- A run that stops. -/
def stop (output : String) (cause : RunError) : Run := { output, ending := .failed cause }

/-- Checks once. -/
def once (plan : Plan) (around : Surroundings) (args : Arguments) : Run :=
  match plan.discover around.files with
  | .error cause => stop "" cause
  | .ok paths =>
    let check := plan.check around args paths
    { output := check.output args.format (args.has .quiet)
      ending := .finished check.summary
      asked := check.asked }

/-- What is printed before a run that watches. -/
def watchGreeting : String := "Starting watch mode...\n\n"

/-- What is printed before a run waits. -/
def watchNotice : String := "Watching for changes... (Ctrl+C to stop)\n\n"

/-- What is printed before files are checked again. -/
def changeNotice : String := "File changed, re-checking...\n\n"

/-- What clears the screen. -/
def clearScreen : String := "\x1b[2J\x1b[1;1H"

/-- Checks once and begins to watch.  A workspace that no path leads to cannot be
watched. -/
def watch (plan : Plan) (around : Surroundings) (args : Arguments) : Run :=
  match plan.discover around.files with
  | .error cause => stop watchGreeting cause
  | .ok paths =>
    let check := plan.check around args paths
    let output := watchGreeting ++ check.output args.format (args.has .quiet)
    match around.files.locate plan.workspace with
    | .ok _ => { output := output ++ watchNotice, ending := .watching plan, asked := check.asked }
    | .error cause => { output, ending := .failed (.watchFailed cause), asked := check.asked }

/-- Checks again when a stylesheet has changed, and goes on watching.  If a target is
gone, nothing is checked. -/
def again (plan : Plan) (around : Surroundings) (args : Arguments) : Run :=
  let notice := (if args.has .preserveWatchOutput then "" else clearScreen) ++ changeNotice
  match plan.discover around.files with
  | .error _ => { output := notice, ending := .watching plan }
  | .ok paths =>
    let check := plan.check around args paths
    { output := notice ++ check.output args.format (args.has .quiet)
      ending := .watching plan
      asked := check.asked }

/-- Starts a run. -/
def start (around : Surroundings) (args : Arguments) : Run :=
  match Plan.make around args with
  | .error cause => stop "" cause
  | .ok plan => if args.has .watch then watch plan around args else once plan around args

end Run
end SheetLint
