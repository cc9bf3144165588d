import SheetLint.Arguments
import SheetLint.Config.Comment
import SheetLint.Json.Reader
import SheetLint.Linter

/-! # Configurations

A configuration sets the levels of rules, the files to leave out, and whether
local files are looked for.  `Config.parse` reads one; `Config.ruleset` combines
it with the options of a command line.
-/
namespace SheetLint

/-- A level as a configuration gives it. -/
inductive LevelValue where
  | number (value : Nat)
  | flag (value : Bool)
  | text (value : String)
  deriving DecidableEq, Repr

namespace LevelValue

/-- The text of a level. -/
def spelling : LevelValue → String
  | number n => toString n
  | flag true => "true"
  | flag false => "false"
  | text s => s

/-- The level that is meant. -/
def level (value : LevelValue) : Except RuleSetError Level := Level.parse value.spelling

end LevelValue

/-- A configuration. -/
structure Config where
  /-- The levels of rules, in the order of the file. -/
  rules : List (String × LevelValue) := []
  /-- The patterns of the files to leave out. -/
  exclude : List String := []
  /-- Whether local files are looked for; they are if nothing is said. -/
  filesystem : Option Bool := none
  deriving DecidableEq, Repr

namespace Config
open Json

/-- How deep lists and objects may be nested. -/
def maxDepth : Nat := 127

/-- Reads the level of a rule.  The value is read to its end before its shape
counts. -/
def readLevel (cs : List Char) : Except Flaw (Reading LevelValue) := do
  match ← readValue (maxDepth - 2) cs with
  | (.natural n, rest) => return (.number n, rest)
  | (.flag b, rest) => return (.flag b, rest)
  | (.text s, rest) => return (.text s, rest)
  | _ => .error .wrongShape

/-- Reads the levels of rules.  A rule given twice keeps its first place and
takes the last level. -/
def readRules (cs : List Char) : Except Flaw (Reading (List (String × LevelValue))) :=
  readObject
    (fun rules key cs => do
      let ((), cs) ← readColon cs
      let (level, rest) ← readLevel cs
      return (Keyed.put Prod.fst (key, level) rules, rest))
    [] cs

/-- Reads the patterns of the files to leave out. -/
def readExclude (cs : List Char) : Except Flaw (Reading (List String)) :=
  readList
    (fun patterns cs => do
      let (pattern, rest) ← readString cs
      return (patterns ++ [pattern], rest))
    [] cs

/-- The parts of a configuration that have been read. -/
structure Draft where
  rules : Option (List (String × LevelValue)) := none
  exclude : Option (List String) := none
  filesystem : Option (Option Bool) := none

/-- The configuration with what is missing left at its default. -/
def Draft.finish (draft : Draft) : Config :=
  ⟨draft.rules.getD [], draft.exclude.getD [], draft.filesystem.getD none⟩

/-- Reads one entry.  A key that is unknown or given twice is refused. -/
def readEntry (draft : Draft) (key : String) (cs : List Char) : Except Flaw (Reading Draft) :=
  if key = "rules" ∧ draft.rules.isNone then do
    let ((), cs) ← readColon cs
    let (rules, rest) ← readRules cs
    return ({ draft with rules := some rules }, rest)
  else if key = "exclude" ∧ draft.exclude.isNone then do
    let ((), cs) ← readColon cs
    let (exclude, rest) ← readExclude cs
    return ({ draft with exclude := some exclude }, rest)
  else if key = "filesystem" ∧ draft.filesystem.isNone then do
    let ((), cs) ← readColon cs
    let (filesystem, rest) ← readFlag? cs
    return ({ draft with filesystem := some filesystem }, rest)
  else
    .error .wrongShape

/-- Reads a configuration written as a list: rules, patterns and the choice on
files, none of them missing. -/
def readPositional (cs : List Char) : Except Flaw (Reading Config) := do
  let (rules, cs) ←
    match ← nextItem true cs with
    | some item => readRules item
    | none => .ok ([], cs)
  let (exclude, cs) ←
    match ← nextItem false cs with
    | some item => readExclude item
    | none => .ok ([], cs)
  let (filesystem, cs) ←
    match ← nextItem false cs with
    | some item => readFlag? item
    | none => .error .wrongShape
  let ((), rest) ← readChar ']' (skipBlank cs)
  return (⟨rules, exclude, filesystem⟩, rest)

/-- Reads a configuration without comments. -/
def read (cs : List Char) : Except Flaw Config := do
  let (config, rest) ←
    match skipBlank cs with
    | '[' :: rest => readPositional rest
    | rest => (readObject readEntry {} rest).map fun r => (r.1.finish, r.2)
  readEnd rest
  return config

/-- Reads a configuration. -/
def parse (content : String) : Except Flaw Config :=
  read (removeComments content.toList)

/-- Whether local files are looked for. -/
def filesystemEnabled (config : Config) : Bool := config.filesystem.getD true

end Config

/-! ### From configuration to ruleset -/

/-- Why no ruleset can be made. -/
inductive ConfigError where
  /-- The level of a rule cannot be understood. -/
  | level (rule : String) (cause : RuleSetError)
  /-- The ruleset itself is wrong. -/
  | ruleset (cause : RuleSetError)
  deriving DecidableEq, Repr

/-- The message for a ruleset that cannot be made. -/
def ConfigError.message : ConfigError → String
  | level rule cause => "rule '" ++ rule ++ "': " ++ cause.message
  | ruleset cause => cause.message

namespace Config

/-- The ruleset before the options: every rule as a warning, changed by the
configuration; none, if the options name the rules to run. -/
def baseRuleset (linter : Linter) (config : Config) (args : Arguments) :
    Except ConfigError RuleSet :=
  if args.warnings.isSome ∨ args.errors.isSome then
    .ok {}
  else
    config.rules.foldlM
      (fun ruleset entry =>
        match entry.2.level with
        | .ok level => .ok (ruleset.set entry.1 level)
        | .error cause => .error (.level entry.1 cause))
      linter.defaultRuleset

/-- Sets the rules of an option, if it is given. -/
def applyList (list : Option String) (level : Level) (ruleset : RuleSet) : RuleSet :=
  match list with
  | some ids => ruleset.setList ids level
  | none => ruleset

/-- The ruleset for a run. -/
def ruleset (linter : Linter) (config : Config) (args : Arguments) :
    Except ConfigError RuleSet := do
  let base ← config.baseRuleset linter args
  let ruleset := applyList args.ignore .off
    (applyList args.errors .error (applyList args.warnings .warn base))
  match linter.validate ruleset with
  | .ok () => return ruleset
  | .error cause => .error (.ruleset cause)

end Config
end SheetLint
