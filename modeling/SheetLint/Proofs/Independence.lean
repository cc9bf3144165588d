import SheetLint.Proofs.Diagnostics
import SheetLint.Proofs.ResourceRun

/-! # Rules do not interfere

Under a linter the rules take turns, their findings come together in one list, and the list
is sorted.  A rule keeps a state of its own, so that the turns of the others do not touch it:
what is reported under an id is what the listeners with that id report when they are alone
(`filter_turns`).  Picking out these findings does not disturb their order either
(`Diagnostic.filter_sort`).

So the diagnostics of a rule are those of a linter that has no other rule
(`ofRule_lintEvents`).  A ruleset that enables the rule decides on nothing but their severity
(`lintEvents_noninterference`).
-/
namespace SheetLint

/-! ### The turns of one rule -/

namespace Listener
variable {context : Context} {l : Listener}

/-- Whatever a listener is fed, it reports under the id of its rule. -/
def ReportsAsItself (context : Context) (l : Listener) : Prop :=
  ∀ es, ∀ finding ∈ (l.rule.feed context l.state es).findings, finding.rule = l.rule.id

theorem ReportsAsItself.turn (h : l.ReportsAsItself context) (e : Event) :
    ∀ finding ∈ (l.turn context e).findings, finding.rule = l.rule.id :=
  h (List.replicate (l.rule.subscriptions.count e.kind) e)

/-- Hearing an event does not make a listener report under another id. -/
theorem ReportsAsItself.behind (h : l.ReportsAsItself context) (e : Event) :
    (l.behind context e).ReportsAsItself context := by
  intro es finding hfinding
  refine h (List.replicate (l.rule.subscriptions.count e.kind) e ++ es) finding ?_
  rw [feed_append]
  exact List.mem_append_right _ hfinding

end Listener

section Turns
variable (context : Context) (id : String)

/-- At one event, what is reported under an id is reported by the listeners with that id. -/
theorem filter_round (e : Event) {ls : List Listener}
    (h : ∀ l ∈ ls, l.ReportsAsItself context) :
    ((ls.map (Listener.turn context e)).flatMap Turn.findings).filter (fun f => f.rule = id) =
      ((ls.filter fun l => l.rule.id = id).map (Listener.turn context e)).flatMap
        Turn.findings := by
  induction ls with
  | nil => rfl
  | cons l ls ih =>
    obtain ⟨hl, hls⟩ := List.forall_mem_cons.mp h
    rw [List.map_cons, List.flatMap_cons, List.filter_append, ih hls, List.filter_cons]
    by_cases hid : l.rule.id = id
    · have hall : ((l.turn context e).findings).filter (fun f => f.rule = id) =
          (l.turn context e).findings :=
        List.filter_eq_self.mpr fun f hf => decide_eq_true ((hl.turn e f hf).trans hid)
      rw [hall, if_pos (decide_eq_true hid), List.map_cons, List.flatMap_cons]
    · have hnone : ((l.turn context e).findings).filter (fun f => f.rule = id) = [] := by
        refine List.filter_eq_nil_iff.mpr fun f hf hrule => hid ?_
        exact (hl.turn e f hf).symm.trans (of_decide_eq_true hrule)
      rw [hnone, if_neg (by simpa using hid), List.nil_append]

/-- **Turns can be told apart.**  What is reported under an id in the turns of some listeners
is reported in the turns of those with that id when the others are absent. -/
theorem filter_turns {ls : List Listener} (h : ∀ l ∈ ls, l.ReportsAsItself context)
    (es : List Event) :
    ((turns context ls es).flatMap Turn.findings).filter (fun f => f.rule = id) =
      (turns context (ls.filter fun l => l.rule.id = id) es).flatMap Turn.findings := by
  induction es generalizing ls with
  | nil => rfl
  | cons e es ih =>
    have hbehind : ∀ l ∈ ls.map (Listener.behind context e), l.ReportsAsItself context := by
      intro l hl
      obtain ⟨before, hbefore, rfl⟩ := List.mem_map.mp hl
      exact (h before hbefore).behind e
    -- listeners keep their rules, so the same ones are picked out behind the event
    have hpicked : (ls.map (Listener.behind context e)).filter (fun l => l.rule.id = id) =
        (ls.filter fun l => l.rule.id = id).map (Listener.behind context e) := by
      rw [List.filter_map]
      rfl
    rw [turns, List.flatMap_append, List.filter_append, filter_round context id e h, ih hbehind,
      hpicked, turns, List.flatMap_append]

end Turns

/-! ### The diagnostics of one rule -/

/-- The diagnostics that stand under an id, in their order. -/
def LintResult.ofRule (result : LintResult) (id : String) : List Diagnostic :=
  result.messages.filter fun d => d.rule = id

/-- What a diagnostic says, its severity apart. -/
def Diagnostic.finding (d : Diagnostic) : Finding := ⟨d.rule, d.message, d.position⟩

/-- The linter that has only the rules with an id. -/
def Linter.only (linter : Linter) (id : String) : Linter :=
  ⟨linter.rules.filter fun rule => rule.id = id⟩

namespace Linter
variable {linter : Linter} {context : Context} {ruleset : RuleSet} {id : String}

theorem filter_listeners :
    (linter.listeners ruleset).filter (fun l => l.rule.id = id) =
      (linter.only id).listeners ruleset := by
  rw [listeners, listeners, only, List.filter_map, List.filter_filter, List.filter_filter]
  refine congrArg (List.map Listener.fresh) (List.filter_congr fun rule _ => ?_)
  exact Bool.and_comm _ _

/-- A ruleset that enables an id has all rules with that id at work. -/
theorem listeners_only (h : ruleset.isEnabled id = true) :
    (linter.only id).listeners ruleset = (linter.only id).rules.map Listener.fresh := by
  refine congrArg (List.map Listener.fresh) (List.filter_eq_self.mpr fun rule hrule => ?_)
  rw [of_decide_eq_true (List.mem_filter.mp hrule).2]
  exact h

/-- **A rule among others reports what it reports alone.** -/
theorem ofRule_lintEvents
    (hown : ∀ rule ∈ linter.rules, (Listener.fresh rule).ReportsAsItself context)
    (es : List Event) :
    (linter.lintEvents ruleset context es).ofRule id =
      ((linter.only id).lintEvents ruleset context es).messages := by
  have hlisteners : ∀ l ∈ linter.listeners ruleset, l.ReportsAsItself context := by
    intro l hl
    obtain ⟨rule, hrule, rfl⟩ := List.mem_map.mp hl
    exact hown rule (List.mem_filter.mp hrule).1
  rw [LintResult.ofRule, lintEvents_eq, lintEvents_eq]
  dsimp only
  rw [Diagnostic.filter_sort, List.filter_map, ← filter_listeners,
    ← filter_turns context id hlisteners]
  rfl

/-- The findings in the messages are those of the turns, sorted; the ruleset has no say in
their order. -/
theorem map_finding_lintEvents (linter : Linter) (ruleset : RuleSet) (context : Context)
    (es : List Event) :
    (linter.lintEvents ruleset context es).messages.map Diagnostic.finding =
      ((turns context (linter.listeners ruleset) es).flatMap Turn.findings).mergeSort
        fun a b => a.position.le b.position := by
  rw [lintEvents_eq]
  dsimp only [Diagnostic.sort]
  rw [List.map_mergeSort (r := Diagnostic.le) (f := Diagnostic.finding)
    (s := fun a b => a.position.le b.position) fun a _ b _ => rfl, List.map_map]
  exact congrArg (List.mergeSort · _) (List.map_id _)

theorem severity_of_mem_ofRule {es : List Event} {d : Diagnostic}
    (hd : d ∈ (linter.lintEvents ruleset context es).ofRule id) :
    d.severity = severity ruleset id := by
  obtain ⟨hmem, hrule⟩ := List.mem_filter.mp hd
  rw [lintEvents_eq] at hmem
  obtain ⟨finding, -, rfl⟩ := List.mem_map.mp (List.mem_mergeSort.mp hmem)
  exact congrArg (severity ruleset) (of_decide_eq_true hrule)

/-- **Rules do not interfere.**  If every rule reports under its own id, then two rulesets
that enable a rule have it report the same messages at the same positions in the same order,
whatever they do with the other rules.  All its diagnostics are errors or all are warnings,
by the level of the rule. -/
theorem lintEvents_noninterference (linter : Linter) (context : Context)
    (hown : ∀ rule ∈ linter.rules, (Listener.fresh rule).ReportsAsItself context)
    (es : List Event) {id : String} {ruleset ruleset' : RuleSet}
    (h : ruleset.isEnabled id = true) (h' : ruleset'.isEnabled id = true) :
    ((linter.lintEvents ruleset context es).ofRule id).map Diagnostic.finding =
        ((linter.lintEvents ruleset' context es).ofRule id).map Diagnostic.finding ∧
      (ruleset.level id = .error →
        ∀ d ∈ (linter.lintEvents ruleset context es).ofRule id, d.severity = .error) ∧
      (ruleset.level id = .warn →
        ∀ d ∈ (linter.lintEvents ruleset context es).ofRule id, d.severity = .warning) := by
  refine ⟨?_, fun hlevel d hd => ?_, fun hlevel d hd => ?_⟩
  · rw [ofRule_lintEvents hown, ofRule_lintEvents hown, map_finding_lintEvents,
      map_finding_lintEvents, listeners_only h, listeners_only h']
  · rw [severity_of_mem_ofRule hd, severity, if_pos hlevel]
  · rw [severity_of_mem_ofRule hd, severity, if_neg (by rw [hlevel]; decide)]

end Linter

/-! ### The rule on resources among others -/

/-- The rule on resources reports under its own id. -/
theorem Resource.reportsAsItself (registry : Registry) (context : Context) :
    (Listener.fresh (ruleWith registry)).ReportsAsItself context := by
  intro es finding hfinding
  have hfeed := feed_eq_evaluate registry context {} es
  have hmem : finding ∈ ((ruleWith registry).feed context {} es).findings := hfinding
  rw [hfeed, findings_evaluate] at hmem
  obtain ⟨ref, -, hone⟩ := List.mem_flatMap.mp hmem
  obtain ⟨test, -, rfl⟩ := eq_of_mem_evaluateOne registry context hone
  rfl

/-- A rule that numbers the style rules of a stylesheet. -/
def numbering : Rule where
  id := "numbering"
  name := "Numbering"
  desc := "Numbers the style rules."
  browsers := "All"
  State := Nat
  init := 1
  subscriptions := [.startBlock .rule]
  handle _ number e := ⟨number + 1, [⟨"numbering", toString number, e.position⟩], []⟩

theorem numbering_reportsAsItself (context : Context) :
    (Listener.fresh numbering).ReportsAsItself context := by
  -- the number reached so far is free
  suffices h : ∀ es (number : Nat), ∀ finding ∈ (numbering.feed context number es).findings,
      finding.rule = "numbering" from fun es => h es numbering.init
  intro es
  induction es with
  | nil => intro number finding hfinding; cases hfinding
  | cons e es ih =>
    intro number finding hfinding
    rcases List.mem_cons.mp hfinding with rfl | hrest
    · rfl
    · exact ih _ finding hrest

/-- The rule on resources finds the same fault as a warning beside another rule and as an
error without it. -/
theorem lintEvents_noninterference_numbering :
    let linter : Linter := ⟨[numbering, Resource.rule]⟩
    let beside : RuleSet := ⟨[("numbering", .error), ("resource", .warn)]⟩
    let alone : RuleSet := ⟨[("resource", .error)]⟩
    let es : List Event := [.startBlock .rule "a" ⟨1, 1⟩, .endBlock .rule "" ⟨1, 4⟩,
      .importRule ⟨"http://a.b/c.css", [], ⟨2, 1⟩⟩]
    let message := "Consider using a localised resource instead for 'http://a.b/c.css'"
    ((∀ rule ∈ linter.rules, (Listener.fresh rule).ReportsAsItself none) ∧
        beside.isEnabled "resource" = true ∧ alone.isEnabled "resource" = true) ∧
      ⟨"resource", .warning, message, ⟨2, 1⟩⟩ ∈
        (linter.lintEvents beside none es).ofRule "resource" ∧
      ((linter.lintEvents beside none es).ofRule "resource").map Diagnostic.finding =
        ((linter.lintEvents alone none es).ofRule "resource").map Diagnostic.finding ∧
      ∀ d ∈ (linter.lintEvents alone none es).ofRule "resource", d.severity = .error := by
  intro linter beside alone es message
  have hown : ∀ rule ∈ linter.rules, (Listener.fresh rule).ReportsAsItself none := by
    intro rule hrule
    rcases List.mem_cons.mp hrule with rfl | hrule
    · exact numbering_reportsAsItself none
    · rw [List.mem_singleton.mp hrule]
      exact Resource.reportsAsItself .builtin none
  have hbeside : beside.isEnabled "resource" = true := by decide
  have halone : alone.isEnabled "resource" = true := by decide
  obtain ⟨hsame, herror, -⟩ := Linter.lintEvents_noninterference linter none hown es halone hbeside
  refine ⟨⟨hown, hbeside, halone⟩, List.mem_filter.mpr ⟨?_, by decide⟩, hsame.symm,
    herror (by decide)⟩
  rw [lintEvents_eq]
  exact List.mem_mergeSort.mpr (by decide)

end SheetLint
