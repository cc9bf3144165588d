import SheetLint.Linter
import SheetLint.Resource.PathTest
import SheetLint.Resource.Scope

/-! # The rule on resources

The rule puts every reference of a stylesheet to the path tests: imports at once,
references in declarations when their block ends.
-/
namespace SheetLint

/-- The id of the rule. -/
def resourceId : String := "resource"

/-- What testing references yields. -/
structure Evaluation where
  findings : List Finding := []
  /-- The paths asked about, in order. -/
  asked : List String := []
  deriving DecidableEq, Repr

namespace Evaluation

/-- One evaluation behind another. -/
def append (a b : Evaluation) : Evaluation :=
  ⟨a.findings ++ b.findings, a.asked ++ b.asked⟩

instance : Append Evaluation := ⟨append⟩

end Evaluation

/-- Whether there is something wrong with a path. -/
def PathTest.fails (test : PathTest) (context : Context) (path : String) : Bool :=
  ((test.inquire path).run context).1

/-- Puts a reference to one test. -/
def PathTest.evaluate (test : PathTest) (context : Context) (ref : Reference) : Evaluation :=
  if test.isRunnable context then
    let (fails, asked) := (test.inquire ref.path).run context
    let findings :=
      if fails then [⟨resourceId, test.message ref.path, ref.position⟩] else []
    ⟨findings, asked⟩
  else
    {}

namespace Registry

/-- Puts a reference to every test.  An empty path is not tested. -/
def evaluateOne (registry : Registry) (context : Context) (ref : Reference) : Evaluation :=
  if ref.path.isEmpty then {}
  else registry.tests.foldl (fun sum test => sum ++ test.evaluate context ref) {}

/-- Puts references to every test, one after another. -/
def evaluate (registry : Registry) (context : Context) (refs : List Reference) : Evaluation :=
  refs.foldl (fun sum ref => sum ++ registry.evaluateOne context ref) {}

/-- Counts the tests that find fault with a reference, on top of `count`. -/
def countOne (registry : Registry) (context : Context) (count : Nat) (ref : Reference) : Nat :=
  if ref.path.isEmpty then count
  else
    registry.tests.foldl
      (fun count test =>
        if test.isRunnable context && test.fails context ref.path then count + 1 else count)
      count

/-- How often a test finds fault when references are put to every test. -/
def emitted (registry : Registry) (context : Context) (refs : List Reference) : Nat :=
  refs.foldl (registry.countOne context) 0

end Registry

namespace Resource

/-- The events the rule needs. -/
def subscriptions : List EventKind :=
  [.importRule, .declaration,
   .startBlock .rule, .endBlock .rule,
   .startBlock .fontFace, .endBlock .fontFace,
   .startBlock .page, .endBlock .page,
   .startBlock .pageMargin, .endBlock .pageMargin,
   .startBlock .keyframes, .endBlock .keyframes]

/-- The next scope and the references that are due at an event. -/
def step (scope : Scope) : Event → Scope × List Reference
  | .importRule statement => (scope, [statement.reference])
  | .declaration decl => ((scope.collect decl.references).1, [])
  | .startBlock kind _ _ => if kind.isTracked then ((scope.start kind).1, []) else (scope, [])
  | .endBlock kind _ _ =>
    if kind.isTracked then
      let (scope, due) := scope.finish kind
      (scope, (due.map Pending.references).getD [])
    else
      (scope, [])

/-- What the rule does at an event. -/
def handle (registry : Registry) (context : Context) (scope : Scope) (event : Event) :
    Reaction Scope :=
  let (scope, due) := step scope event
  let evaluation := registry.evaluate context due
  ⟨scope, evaluation.findings, evaluation.asked⟩

/-- The rule with the tests of a registry. -/
def ruleWith (registry : Registry) : Rule where
  id := resourceId
  name := "Resource"
  desc := "Performs a series of checks against properties which reference resources."
  browsers := "All"
  State := Scope
  init := {}
  subscriptions := subscriptions
  handle := handle registry

/-- The rule with the tests that are always there. -/
def rule : Rule := ruleWith .builtin

end Resource

/-- The rules that are always there. -/
def builtinRules : List Rule := [Resource.rule]

/-- The linter with the rules that are always there. -/
def Linter.builtin : Linter := ⟨builtinRules⟩

/-- The ruleset with the rules that are always there as warnings. -/
def RuleSet.allWarnings : RuleSet := Linter.builtin.defaultRuleset

end SheetLint
