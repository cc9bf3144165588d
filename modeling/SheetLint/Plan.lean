import SheetLint.Config
import SheetLint.Exclusions
import SheetLint.Folder
import SheetLint.Resource

/-! # Plans

A plan is what a run knows before it looks at a stylesheet: the folder it works
in, the files and folders to check, and the rules.  `Plan.make` draws it up from a
command line and a configuration, and `Plan.discover` finds the stylesheets.
-/
namespace SheetLint
open Text

/-- What a run finds around it. -/
structure Surroundings where
  /-- All files, from the root. -/
  files : Folder
  /-- The absolute path of the folder that relative paths start from. -/
  directory : String
  /-- The value of the variable that makes warnings count as failures. -/
  failOnWarnings : Option String := none

/-- Why a run stops. -/
inductive RunError where
  /-- The configuration cannot be read. -/
  | read (path : String) (cause : FileError)
  /-- The configuration is not understood. -/
  | parse (path : String) (cause : Json.Flaw)
  /-- The ruleset cannot be made. -/
  | config (cause : ConfigError)
  /-- The files to leave out cannot be told. -/
  | invalidGlob (cause : ExclusionError)
  /-- A file or folder to check does not exist. -/
  | pathNotFound (path : String)
  /-- The workspace cannot be watched. -/
  | watchFailed (cause : FileError)
  deriving DecidableEq, Repr

/-- The message for a run that stops. -/
def RunError.message : RunError → String
  | read path cause => "failed to read " ++ path ++ ": " ++ cause.message
  | parse path _ => "failed to parse " ++ path
  | config cause => cause.message
  | invalidGlob cause => "invalid glob pattern: " ++ cause.message
  | pathNotFound path => "no such file or directory: " ++ path
  | watchFailed .notFound => "watch error: No path was found."
  | watchFailed cause => "watch error: " ++ cause.message

/-- What a run knows before it looks at a stylesheet. -/
structure Plan where
  /-- The absolute path that shown paths start from. -/
  workspace : String
  /-- The absolute paths of the files and folders to check. -/
  targets : List String
  /-- The files to leave out. -/
  excludes : Exclusions
  ruleset : RuleSet
  /-- Whether local resources are looked for. -/
  filesystem : Bool

namespace Config

/-- The name of the configuration in a workspace. -/
def fileName : String := ".csslintrc"

/-- Reads the configuration at a path. -/
def load (files : Folder) (path : String) : Except RunError Config :=
  match files.read path with
  | .error cause => .error (.read path cause)
  | .ok content =>
    match parse content with
    | .error cause => .error (.parse path cause)
    | .ok config => .ok config

/-- Reads the configuration of a workspace; without one, everything is at its
default. -/
def find (files : Folder) (workspace : String) : Except RunError Config :=
  let path := Path.join workspace fileName
  if files.isFile path then load files path else .ok {}

end Config

namespace Plan

/-- The patterns of files that are always left out. -/
def defaultExcludes : List String := ["**/node_modules/**", "**/dist/**", "**/.git/**"]

/-- The targets of a command line: the paths it names, or the workspace. -/
def targetsOf (directory : String) (args : Arguments) : List String :=
  if args.paths.isEmpty then [Path.absolute directory args.workspace]
  else args.paths.map (Path.absolute directory)

/-- The plan for a command line. -/
def make (around : Surroundings) (args : Arguments) : Except RunError Plan := do
  let workspace := Path.absolute around.directory args.workspace
  let config ←
    match args.config with
    | some path => Config.load around.files (Path.absolute around.directory path)
    | none => Config.find around.files workspace
  let ruleset ←
    match config.ruleset .builtin args with
    | .ok ruleset => .ok ruleset
    | .error cause => .error (RunError.config cause)
  let excludes ←
    match Exclusions.parse (args.exclude ++ config.exclude ++ defaultExcludes) with
    | .ok excludes => .ok excludes
    | .error cause => .error (RunError.invalidGlob cause)
  return {
    workspace
    targets := targetsOf around.directory args
    excludes
    ruleset
    filesystem := !args.has .noFilesystem && config.filesystemEnabled }

/-! ### Finding stylesheets -/

/-- The stylesheets for one target: a file stands for itself, and a folder for the
stylesheets in it and below. -/
def expand (files : Folder) (target : String) : Except RunError (List String) :=
  if files.isFile target then .ok [target]
  else
    match files.folder? target with
    | none => .error (.pathNotFound target)
    | some folder =>
      let sheets := folder.files.filter fun names => names.getLast?.any Path.isStylesheet
      .ok (sheets.map fun names => names.foldl Path.join target)

/-- A path as it is shown. -/
def shownPath (plan : Plan) (path : String) : String := Path.relativeTo plan.workspace path

/-- Whether a file is left out. -/
def isExcluded (plan : Plan) (path : String) : Bool :=
  plan.excludes.covers (plan.shownPath path)

/-- The stylesheets to check: those of the targets in order, each path once, at its
first place, without those left out. -/
def discover (plan : Plan) (files : Folder) : Except RunError (List String) := do
  let found ← plan.targets.mapM (expand files)
  return found.flatten.eraseDups.filter fun path => !plan.isExcluded path

/-- The stylesheets to check with their texts, as far as they can be read. -/
def sheets (plan : Plan) (files : Folder) : List (String × Option String) :=
  match plan.discover files with
  | .error _ => []
  | .ok paths => paths.map fun path => (path, (files.read path).toOption)

end Plan

/-- The paths that are read for a command line: the configuration and the
targets. -/
def Arguments.inputs (directory : String) (args : Arguments) : List String :=
  let workspace := Path.absolute directory args.workspace
  let config :=
    match args.config with
    | some path => Path.absolute directory path
    | none => Path.join workspace Config.fileName
  config :: Plan.targetsOf directory args

end SheetLint
