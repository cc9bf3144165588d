import SheetLint.Event
import SheetLint.Probe

/-! # Rules

A rule is a machine that is fed the events it subscribes to, in the order of the
source, and reports findings.  It keeps a state of its own while one stylesheet
is read.
-/
namespace SheetLint

/-- What a rule reports. -/
structure Finding where
  /-- The id of the rule that reports. -/
  rule : String
  message : String
  position : Position
  deriving DecidableEq, Repr

/-- What a rule does at one event. -/
structure Reaction (State : Type) where
  state : State
  findings : List Finding := []
  /-- The paths asked about, in order. -/
  asked : List String := []

/-- A rule. -/
structure Rule where
  /-- The name used in rulesets and output. -/
  id : String
  name : String
  desc : String
  /-- The browsers that the rule matters for. -/
  browsers : String
  /-- What the rule remembers while it reads a stylesheet. -/
  State : Type
  /-- The state before the first event. -/
  init : State
  /-- The kinds of events the rule wants, once per delivery. -/
  subscriptions : List EventKind
  /-- What happens at an event. -/
  handle : Context → State → Event → Reaction State

end SheetLint
