import SheetLint.Keyed
import SheetLint.Text.Ascii
import SheetLint.Text.Blank
import SheetLint.Text.Cut

/-! # Levels and rulesets

A ruleset says which rules run, and whether they report warnings or errors.  A
rule it does not mention is off.
-/
namespace SheetLint
open Text

/-- How a rule reports. -/
inductive Level where
  | off
  | warn
  | error
  deriving DecidableEq, Repr

/-- What can be wrong with a ruleset. -/
inductive RuleSetError where
  /-- A text that names no level. -/
  | invalidLevel (text : String)
  /-- An id that no rule has. -/
  | unknownRule (id : String)
  deriving DecidableEq, Repr

/-- The message for a fault of a ruleset. -/
def RuleSetError.message : RuleSetError → String
  | invalidLevel text =>
    "invalid rule level '" ++ text ++ "': expected off, warn, error, 0, 1 or 2"
  | unknownRule id => "unknown rule '" ++ id ++ "'"

namespace Level

/-- The words for each level, in small letters. -/
def words : Level → List String
  | off => ["0", "off", "false"]
  | warn => ["1", "warn", "warning", "true"]
  | error => ["2", "error"]

/-- The level a text names, without regard to case and surrounding white
space. -/
def parse? (text : String) : Option Level :=
  let word := lower (trim text)
  [off, warn, error].find? fun level => level.words.contains word

/-- The level a text names, or the complaint that it names none. -/
def parse (text : String) : Except RuleSetError Level :=
  match parse? text with
  | some level => .ok level
  | none => .error (.invalidLevel text)

end Level

/-- Levels by rule id, each id mentioned once. -/
structure RuleSet where
  levels : List (String × Level) := []
  deriving DecidableEq, Repr

namespace RuleSet

/-- Sets the level of one rule. -/
def set (ruleset : RuleSet) (id : String) (level : Level) : RuleSet :=
  ⟨Keyed.put Prod.fst (id, level) ruleset.levels⟩

/-- The ids in a comma-separated list: white space around them does not count,
and neither do empty pieces. -/
def idsIn (list : String) : List String :=
  ((pieces (· == ',') list.toList).map fun p => trim (String.ofList p)).filter fun id =>
    !id.isEmpty

/-- Sets the level of every rule in a comma-separated list. -/
def setList (ruleset : RuleSet) (list : String) (level : Level) : RuleSet :=
  (idsIn list).foldl (fun ruleset id => ruleset.set id level) ruleset

/-- The level of a rule. -/
def level (ruleset : RuleSet) (id : String) : Level :=
  ((Keyed.find? Prod.fst id ruleset.levels).map Prod.snd).getD .off

/-- Whether a rule runs. -/
def isEnabled (ruleset : RuleSet) (id : String) : Bool :=
  ruleset.level id != .off

/-- The ids that are mentioned, whatever their level. -/
def ids (ruleset : RuleSet) : List String :=
  ruleset.levels.map Prod.fst

/-- The levels in the order of the ids. -/
def sorted (ruleset : RuleSet) : List (String × Level) :=
  ruleset.levels.mergeSort fun a b => decide (a.1 ≤ b.1)

end RuleSet
end SheetLint
