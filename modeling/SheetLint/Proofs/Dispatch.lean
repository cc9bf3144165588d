import SheetLint.Linter

/-! # Feeding rules

A rule that is fed events one after another changes its state, reports and asks
(`Rule.feed`).  Under a linter it is fed through a table that lists, for each kind of event,
who subscribes to it.  The table lists every subscriber as often as it subscribes and in the
order of the rules (`getD_dispatchTable`).

Without the table the same happens in two plain loops: at each event each listener has its
turn, in which it is handed the event as often as it subscribes to its kind (`turns`).  What
a linter reports and asks is what is reported and asked in these turns (`lintEvents_eq`).  So
a linter with a single rule does what feeding the rule its deliveries does
(`lintEvents_single`).
-/
namespace SheetLint

/-! ### Feeding one rule -/

namespace Reaction

variable {State : Type}

/-- One reaction behind another; the state is that of the second. -/
def andThen (first second : Reaction State) : Reaction State :=
  ⟨second.state, first.findings ++ second.findings, first.asked ++ second.asked⟩

end Reaction

namespace Rule

/-- What a rule does at some events, one after another. -/
def feed (rule : Rule) (context : Context) (state : rule.State) :
    List Event → Reaction rule.State
  | [] => ⟨state, [], []⟩
  | e :: es =>
    let reaction := rule.handle context state e
    reaction.andThen (rule.feed context reaction.state es)

/-- The events that a rule is handed: each as often as the rule subscribes to its kind. -/
def deliveries (rule : Rule) (es : List Event) : List Event :=
  es.flatMap fun e => List.replicate (rule.subscriptions.count e.kind) e

end Rule

/-! ### The table of subscribers -/

/-- Subscribing to some kinds adds the subscriber, behind the others, once for each time a
kind is listed. -/
theorem getD_subscribe (kinds : List EventKind) (index : Nat)
    (table : Std.HashMap EventKind (List Nat)) (kind : EventKind) :
    (kinds.foldl (fun table k => table.insert k (table.getD k [] ++ [index])) table).getD kind [] =
      table.getD kind [] ++ List.replicate (kinds.count kind) index := by
  induction kinds generalizing table with
  | nil => simp
  | cons k kinds ih =>
    rw [List.foldl_cons, ih, Std.HashMap.getD_insert, List.count_cons]
    by_cases hk : k = kind
    · subst hk
      simp [List.replicate_succ]
    · simp [hk]

/-- The table holds, for each kind of event, the subscribers in the order of the rules. -/
theorem getD_dispatchTable (rules : List Rule) (kind : EventKind) :
    (dispatchTable rules).getD kind [] =
      rules.zipIdx.flatMap fun entry =>
        List.replicate (entry.1.subscriptions.count kind) entry.2 := by
  -- the rules in front of those at hand have already filled the table
  suffices h : ∀ (entries : List (Rule × Nat)) (table : Std.HashMap EventKind (List Nat)),
      (entries.foldl (fun table entry =>
        entry.1.subscriptions.foldl
          (fun table k => table.insert k (table.getD k [] ++ [entry.2])) table) table).getD kind [] =
      table.getD kind [] ++ entries.flatMap fun entry =>
        List.replicate (entry.1.subscriptions.count kind) entry.2 by
    simpa [dispatchTable] using h rules.zipIdx ∅
  intro entries
  induction entries with
  | nil => simp
  | cons entry entries ih =>
    intro table
    rw [List.foldl_cons, ih, getD_subscribe, List.flatMap_cons, List.append_assoc]

/-! ### Turns -/

/-- What one listener reports and asks at one event. -/
structure Turn where
  findings : List Finding
  asked : List String

namespace Listener

/-- A rule at work, before the first event. -/
def fresh (rule : Rule) : Listener := ⟨rule, rule.init⟩

/-- What a listener does at an event: it is handed the event once for each time that its
rule lists the kind of the event. -/
def hear (context : Context) (e : Event) (l : Listener) : Reaction l.rule.State :=
  l.rule.feed context l.state (List.replicate (l.rule.subscriptions.count e.kind) e)

/-- The turn of a listener at an event. -/
def turn (context : Context) (e : Event) (l : Listener) : Turn :=
  ⟨(l.hear context e).findings, (l.hear context e).asked⟩

/-- The listener behind an event. -/
def behind (context : Context) (e : Event) (l : Listener) : Listener :=
  ⟨l.rule, (l.hear context e).state⟩

end Listener

/-- The turns of some listeners: one event after the other, and at each event one listener
after the other. -/
def turns (context : Context) (ls : List Listener) : List Event → List Turn
  | [] => []
  | e :: es =>
    ls.map (Listener.turn context e) ++ turns context (ls.map (Listener.behind context e)) es

namespace Session
variable (context : Context) (e : Event)

/-- A session in which the listeners of `ls` are at work, behind what has been reported and
asked in the turns so far. -/
def behindTurns (ls : List Listener) (done : List Turn) : Session :=
  ⟨ls.toArray, (done.flatMap Turn.findings).toArray, (done.flatMap Turn.asked).toArray⟩

/-- Handing out an event to one listener some times feeds it to the rule as often, and
leaves the other listeners alone. -/
theorem foldl_deliver_replicate (front back : List Listener) (l : Listener) (n : Nat)
    (findings : Array Finding) (asked : Array String) :
    (List.replicate n front.length).foldl (deliver context e)
        ⟨(front ++ l :: back).toArray, findings, asked⟩ =
      ⟨(front ++ ⟨l.rule, (l.rule.feed context l.state (List.replicate n e)).state⟩ ::
          back).toArray,
        findings ++ (l.rule.feed context l.state (List.replicate n e)).findings.toArray,
        asked ++ (l.rule.feed context l.state (List.replicate n e)).asked.toArray⟩ := by
  induction n generalizing l findings asked with
  | zero => simp [Rule.feed]
  | succ n ih =>
    have hstep : deliver context e ⟨(front ++ l :: back).toArray, findings, asked⟩ front.length =
        ⟨(front ++ ⟨l.rule, (l.rule.handle context l.state e).state⟩ :: back).toArray,
          findings ++ (l.rule.handle context l.state e).findings.toArray,
          asked ++ (l.rule.handle context l.state e).asked.toArray⟩ := by
      simp [deliver]
    rw [List.replicate_succ, List.foldl_cons, hstep, ih]
    simp [List.replicate_succ, Rule.feed, Reaction.andThen]

/-- Going through the subscribers of an event gives each listener its turn. -/
theorem foldl_deliver_subscribers (front back : List Listener) (done : List Turn) :
    (((back.map Listener.rule).zipIdx front.length).flatMap fun entry =>
        List.replicate (entry.1.subscriptions.count e.kind) entry.2).foldl (deliver context e)
        (behindTurns (front ++ back) done) =
      behindTurns (front ++ back.map (Listener.behind context e))
        (done ++ back.map (Listener.turn context e)) := by
  induction back generalizing front done with
  | nil => simp
  | cons l back ih =>
    have hturn : (List.replicate (l.rule.subscriptions.count e.kind) front.length).foldl
        (deliver context e) (behindTurns (front ++ l :: back) done) =
          behindTurns (front ++ l.behind context e :: back) (done ++ [l.turn context e]) := by
      rw [behindTurns, foldl_deliver_replicate]
      simp [behindTurns, Listener.behind, Listener.turn, Listener.hear]
    have hrest := ih (front ++ [l.behind context e]) (done ++ [l.turn context e])
    simp only [List.length_append, List.length_singleton, List.append_assoc,
      List.singleton_append] at hrest
    rw [List.map_cons, List.zipIdx_cons, List.flatMap_cons, List.foldl_append, hturn, hrest,
      List.map_cons, List.map_cons]

/-- Running a table of subscribers over events gives the listeners their turns. -/
theorem foldl_dispatchTable (ls : List Listener) (done : List Turn) (es : List Event) :
    ∃ ls', es.foldl (fun session e =>
        ((dispatchTable (ls.map Listener.rule)).getD e.kind []).foldl (deliver context e) session)
        (behindTurns ls done) =
      behindTurns ls' (done ++ turns context ls es) := by
  induction es generalizing ls done with
  | nil => exact ⟨ls, by simp [turns]⟩
  | cons e es ih =>
    -- the listeners keep their rules, so the table stays the right one
    have hrules : (ls.map (Listener.behind context e)).map Listener.rule =
        ls.map Listener.rule := by
      rw [List.map_map]
      rfl
    obtain ⟨ls', hrest⟩ := ih (ls.map (Listener.behind context e))
      (done ++ ls.map (Listener.turn context e))
    refine ⟨ls', ?_⟩
    have hevent := foldl_deliver_subscribers context e [] ls done
    simp only [List.nil_append, List.length_nil] at hevent
    rw [hrules, List.append_assoc] at hrest
    rw [List.foldl_cons, getD_dispatchTable, hevent, hrest, turns]

end Session

/-- The listeners at work under a ruleset: those of the rules it enables, in their order. -/
def Linter.listeners (linter : Linter) (ruleset : RuleSet) : List Listener :=
  (linter.rules.filter fun rule => ruleset.isEnabled rule.id).map Listener.fresh

/-- **Linting is taking turns.**  What a linter reports about some events and asks at them is
what its listeners report and ask in their turns. -/
theorem lintEvents_eq (linter : Linter) (ruleset : RuleSet) (context : Context)
    (es : List Event) :
    linter.lintEvents ruleset context es =
      ⟨Diagnostic.sort (((turns context (linter.listeners ruleset) es).flatMap
          Turn.findings).map (Linter.diagnostic ruleset)),
        (turns context (linter.listeners ruleset) es).flatMap Turn.asked⟩ := by
  obtain ⟨ls', hrun⟩ := Session.foldl_dispatchTable context (linter.listeners ruleset) [] es
  have hrules : (linter.listeners ruleset).map Listener.rule =
      linter.rules.filter fun rule => ruleset.isEnabled rule.id := by
    simp [Linter.listeners, Listener.fresh, Function.comp_def]
  have hstart : Session.behindTurns (linter.listeners ruleset) [] =
      { listeners := ((linter.rules.filter fun rule => ruleset.isEnabled rule.id).map
          fun rule => ⟨rule, rule.init⟩).toArray } := rfl
  rw [hrules, hstart, List.nil_append] at hrun
  simp only [Linter.lintEvents, hrun, Session.behindTurns]

/-! ### A single rule -/

section Single
variable (rule : Rule) (context : Context)

theorem feed_append (state : rule.State) (es fs : List Event) :
    rule.feed context state (es ++ fs) =
      (rule.feed context state es).andThen
        (rule.feed context (rule.feed context state es).state fs) := by
  induction es generalizing state with
  | nil => simp [Rule.feed, Reaction.andThen]
  | cons e es ih => simp [Rule.feed, ih, Reaction.andThen]

/-- The turns of one rule feed it its deliveries. -/
theorem turns_single (state : rule.State) (es : List Event) :
    (turns context [⟨rule, state⟩] es).flatMap Turn.findings =
        (rule.feed context state (rule.deliveries es)).findings ∧
      (turns context [⟨rule, state⟩] es).flatMap Turn.asked =
        (rule.feed context state (rule.deliveries es)).asked := by
  induction es generalizing state with
  | nil => exact ⟨rfl, rfl⟩
  | cons e es ih =>
    obtain ⟨hfindings, hasked⟩ :=
      ih (rule.feed context state (List.replicate (rule.subscriptions.count e.kind) e)).state
    simp only [turns, Rule.deliveries, List.flatMap_cons, feed_append, Reaction.andThen] at *
    rw [← hfindings, ← hasked]
    exact ⟨rfl, rfl⟩

/-- **A linter with one rule.**  If the ruleset enables the rule, linting sorts what feeding
it its deliveries reports, and asks what it asks; otherwise nothing is reported or asked. -/
theorem lintEvents_single (ruleset : RuleSet) (es : List Event) :
    Linter.lintEvents ⟨[rule]⟩ ruleset context es =
      if ruleset.isEnabled rule.id then
        ⟨Diagnostic.sort (((rule.feed context rule.init (rule.deliveries es)).findings).map
            (Linter.diagnostic ruleset)),
          (rule.feed context rule.init (rule.deliveries es)).asked⟩
      else
        ⟨[], []⟩ := by
  rw [lintEvents_eq, Linter.listeners]
  split
  · rename_i henabled
    obtain ⟨hfindings, hasked⟩ := turns_single rule context rule.init es
    simp [henabled, Listener.fresh, hfindings, hasked]
  · rename_i hdisabled
    have hnone : ∀ es, turns context [] es = [] := by
      intro es
      induction es with
      | nil => rfl
      | cons e es ih => exact ih
    simp [hdisabled, hnone, Diagnostic.sort]

end Single
end SheetLint
