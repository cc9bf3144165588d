import SheetLint.Text.Cut

/-! # Command lines

`Arguments.parse` reads the words of a command line, without the program's name.
Words are read from left to right and the first problem is reported.  An option
whose value is the next word is settled only when the word behind the value is
read, so that an unknown option there is reported first.
-/
namespace SheetLint
open Text

/-- How diagnostics are written. -/
inductive OutputFormat where
  | human
  | humanVerbose
  | json
  | machine
  deriving DecidableEq, Repr

/-- The names of the formats. -/
def OutputFormat.names : List (String × OutputFormat) :=
  [("human", human), ("human-verbose", humanVerbose), ("json", json), ("machine", machine)]

/-- The options without a value. -/
inductive Flag where
  | noFilesystem
  | failOnWarnings
  | watch
  | preserveWatchOutput
  | listRules
  | quiet
  | verbose
  deriving DecidableEq, Repr

/-- The options with a value. -/
inductive Setting where
  | workspace
  | format
  | warnings
  | errors
  | ignore
  | exclude
  | config
  deriving DecidableEq, Repr

/-- What an option does. -/
inductive Switch where
  | flag (flag : Flag)
  | setting (setting : Setting)
  | help
  | version
  deriving DecidableEq, Repr

namespace Switch

/-- The long names of the options, behind two hyphens. -/
def longNames : List (String × Switch) :=
  [("workspace", .setting .workspace), ("format", .setting .format),
   ("warnings", .setting .warnings), ("errors", .setting .errors),
   ("ignore", .setting .ignore), ("exclude", .setting .exclude),
   ("config", .setting .config), ("no-filesystem", .flag .noFilesystem),
   ("fail-on-warnings", .flag .failOnWarnings), ("watch", .flag .watch),
   ("preserveWatchOutput", .flag .preserveWatchOutput), ("list-rules", .flag .listRules),
   ("quiet", .flag .quiet), ("verbose", .flag .verbose), ("help", .help),
   ("version", .version)]

/-- The short names of the options, behind one hyphen. -/
def shortNames : List (Char × Switch) :=
  [('q', .flag .quiet), ('v', .flag .verbose), ('h', .help), ('V', .version)]

end Switch

/-- Why a command line is not run. -/
inductive UsageError where
  /-- There is no such option. -/
  | unknownArgument
  /-- The value of an option is missing or not allowed. -/
  | invalidValue
  /-- A value is given to an option that takes none. -/
  | tooManyValues
  /-- Two options do not go together. -/
  | argumentConflict
  /-- The user asks for help. -/
  | displayHelp
  /-- The user asks for the version. -/
  | displayVersion
  deriving DecidableEq, Repr

/-- A command line. -/
structure Arguments where
  paths : List String
  workspace : String
  format : OutputFormat
  warnings : Option String
  errors : Option String
  ignore : Option String
  exclude : List String
  config : Option String
  flags : List Flag
  deriving DecidableEq, Repr

/-- Whether a flag is given. -/
def Arguments.has (args : Arguments) (flag : Flag) : Bool := args.flags.contains flag

/-- What has been read of a command line. -/
structure WordScan where
  paths : List String := []
  flags : List Flag := []
  settings : List (Setting × String) := []
  /-- An option that waits for its value, or has just been given it. -/
  pending : Option (Setting × Option String) := none

namespace WordScan

/-- Takes in the value of an option. -/
def give (scan : WordScan) (setting : Setting) (value : String) : Except UsageError WordScan :=
  if setting ≠ .exclude ∧ scan.settings.any (fun s => s.1 == setting) then
    .error .argumentConflict
  else if setting = .format ∧ (OutputFormat.names.lookup value).isNone then
    .error .invalidValue
  else
    .ok { scan with settings := scan.settings ++ [(setting, value)] }

/-- Settles the option that is pending. -/
def settle (scan : WordScan) : Except UsageError WordScan :=
  match scan.pending with
  | none => .ok scan
  | some (_, none) => .error .invalidValue
  | some (setting, some value) => { scan with pending := none }.give setting value

/-- Takes in an option that has no value. -/
def apply (scan : WordScan) (switch : Switch) : Except UsageError WordScan := do
  let scan ← scan.settle
  match switch with
  | .help => .error .displayHelp
  | .version => .error .displayVersion
  | .flag flag =>
    if scan.flags.contains flag then .error .argumentConflict
    else .ok { scan with flags := scan.flags ++ [flag] }
  | .setting setting => .ok { scan with pending := some (setting, none) }

/-- Takes in a word with two hyphens in front. -/
def long (scan : WordScan) (word : List Char) : Except UsageError WordScan :=
  let (name, value) :=
    match cutAt? ['='] word with
    | some (name, value) => (name, some (String.ofList value))
    | none => (word, none)
  match Switch.longNames.lookup (String.ofList name), value with
  | none, _ => .error .unknownArgument
  | some switch, none => scan.apply switch
  | some (.setting setting), some value => do (← scan.settle).give setting value
  | some _, some _ => .error .tooManyValues

/-- Takes in the letters of a word with one hyphen in front. -/
def short (scan : WordScan) (letters : List Char) : Except UsageError WordScan :=
  letters.foldlM
    (fun scan letter =>
      match Switch.shortNames.lookup letter with
      | none => .error .unknownArgument
      | some switch => scan.apply switch)
    scan

/-- Takes in a path. -/
def path (scan : WordScan) (word : String) : Except UsageError WordScan := do
  let scan ← scan.settle
  return { scan with paths := scan.paths ++ [word] }

/-- Takes in a word that is no option: a value, if one is awaited, or a path. -/
def plain (scan : WordScan) (word : String) : Except UsageError WordScan :=
  match scan.pending with
  | some (setting, none) => .ok { scan with pending := some (setting, some word) }
  | _ => scan.path word

/-- Takes in the words of a command line.  Behind `--` all words are paths. -/
def words (scan : WordScan) : List String → Except UsageError WordScan
  | [] => scan.settle
  | "--" :: rest => do (← rest.foldlM path scan).settle
  | word :: rest => do
    let scan ←
      match word.toList with
      | '-' :: '-' :: name => scan.long name
      | '-' :: letter :: letters => scan.short (letter :: letters)
      | _ => scan.plain word
    scan.words rest

/-- The last value given to an option. -/
def value? (scan : WordScan) (setting : Setting) : Option String :=
  scan.settings.reverse.lookup setting

/-- The command line that has been read. -/
def finish (scan : WordScan) : Arguments where
  paths := scan.paths
  workspace := (scan.value? .workspace).getD "."
  format := ((scan.value? .format).bind fun f => OutputFormat.names.lookup f).getD .human
  warnings := scan.value? .warnings
  errors := scan.value? .errors
  ignore := scan.value? .ignore
  exclude := (scan.settings.filter fun s => s.1 == .exclude).map Prod.snd
  config := scan.value? .config
  flags := scan.flags

end WordScan

/-- Reads a command line. -/
def Arguments.parse (words : List String) : Except UsageError Arguments := do
  let scan ← WordScan.words {} words
  if scan.flags.contains .quiet && scan.flags.contains .verbose then
    .error .argumentConflict
  else
    return scan.finish

end SheetLint
