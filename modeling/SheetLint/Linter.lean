import SheetLint.Diagnostic
import SheetLint.Rule
import SheetLint.RuleSet
import SheetLint.Stylesheet
import Std.Data.HashMap

/-! # Linters

A linter holds rules in the order of their registration, at most one per id.
`Linter.lintEvents` runs the rules that a ruleset enables over a list of events;
a table from kinds of events to subscribers spares the search for those who want
an event.  `Linter.lint` does so for the events of a source and adds its faults.
-/
namespace SheetLint

/-- The registered rules. -/
structure Linter where
  rules : List Rule

namespace Linter

/-- A linter without rules. -/
def empty : Linter := ⟨[]⟩

/-- Registers a rule; one with the same id gives up its place to it. -/
def addRule (linter : Linter) (rule : Rule) : Linter :=
  ⟨Keyed.put Rule.id rule linter.rules⟩

/-- The rule with the given id. -/
def rule? (linter : Linter) (id : String) : Option Rule :=
  Keyed.find? Rule.id id linter.rules

/-- The ruleset with every registered rule as a warning. -/
def defaultRuleset (linter : Linter) : RuleSet :=
  linter.rules.foldl (fun ruleset rule => ruleset.set rule.id .warn) {}

/-- Checks that every id of a ruleset is that of a registered rule. -/
def validate (linter : Linter) (ruleset : RuleSet) : Except RuleSetError Unit :=
  match ruleset.ids.find? fun id => (linter.rule? id).isNone with
  | some id => .error (.unknownRule id)
  | none => .ok ()

end Linter

/-! ### One stylesheet -/

/-- A rule at work. -/
structure Listener where
  rule : Rule
  state : rule.State

/-- The rules at work on a stylesheet, and what they have reported and asked. -/
structure Session where
  listeners : Array Listener
  findings : Array Finding := #[]
  asked : Array String := #[]

namespace Session

/-- Hands an event to one listener. -/
def deliver (context : Context) (event : Event) (session : Session) (index : Nat) : Session :=
  match session.listeners[index]? with
  | none => session
  | some listener =>
    let reaction := listener.rule.handle context listener.state event
    { listeners := session.listeners.setIfInBounds index ⟨listener.rule, reaction.state⟩
      findings := session.findings ++ reaction.findings.toArray
      asked := session.asked ++ reaction.asked.toArray }

end Session

/-- For each kind of event the indices of its subscribers, in the order of the
rules, an index as often as the rule lists the kind. -/
def dispatchTable (rules : List Rule) : Std.HashMap EventKind (List Nat) :=
  rules.zipIdx.foldl
    (fun table (rule, index) =>
      rule.subscriptions.foldl
        (fun table kind => table.insert kind (table.getD kind [] ++ [index])) table)
    ∅

/-- What linting a stylesheet yields. -/
structure LintResult where
  /-- The diagnostics, ordered by position. -/
  messages : List Diagnostic
  /-- The paths asked about, in order. -/
  asked : List String

namespace Linter

/-- The severity of what a rule reports. -/
def severity (ruleset : RuleSet) (rule : String) : Severity :=
  if ruleset.level rule = .error then .error else .warning

/-- The diagnostic for a finding. -/
def diagnostic (ruleset : RuleSet) (finding : Finding) : Diagnostic :=
  ⟨finding.rule, severity ruleset finding.rule, finding.message, finding.position⟩

/-- The diagnostic for a fault: always an error. -/
def faultDiagnostic (fault : Fault) : Diagnostic :=
  ⟨faultRule, .error, fault.kind.message, fault.position⟩

/-- Runs the rules that a ruleset enables over a list of events. -/
def lintEvents (linter : Linter) (ruleset : RuleSet) (context : Context)
    (events : List Event) : LintResult :=
  let rules := linter.rules.filter fun rule => ruleset.isEnabled rule.id
  let table := dispatchTable rules
  let start : Session := { listeners := (rules.map fun rule => ⟨rule, rule.init⟩).toArray }
  let session := events.foldl
    (fun session event =>
      (table.getD event.kind []).foldl (Session.deliver context event) session)
    start
  { messages := Diagnostic.sort (session.findings.toList.map (diagnostic ruleset))
    asked := session.asked.toList }

/-- Runs the rules that a ruleset enables over a source. -/
def lint (linter : Linter) (ruleset : RuleSet) (context : Context) (source : String) :
    LintResult :=
  let sheet := Stylesheet.ofString source
  let result := linter.lintEvents ruleset context sheet.events
  if sheet.faults.isEmpty then
    result
  else
    { result with
      messages := Diagnostic.sort (result.messages ++ sheet.faults.map faultDiagnostic) }

end Linter
end SheetLint
