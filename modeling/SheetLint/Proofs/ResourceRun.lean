import SheetLint.Proofs.Dispatch
import SheetLint.Proofs.Position
import SheetLint.Resource

/-! # Runs of the rule on resources

The rule puts references to its tests as they come due.  Over some events it therefore does
two things that can be told apart: the scope moves along and hands out references
(`Resource.run`), and these are evaluated (`feed_eq_evaluate`).  An evaluation goes through
its references one by one, so that what it finds and asks is found and asked for each of them
(`findings_evaluate`, `asked_evaluate`).

The rule does not subscribe to the blocks it does not track, and it would do nothing at them:
it makes no difference whether it is fed all events or only its own (`run_deliveries`).  So
linting with it evaluates what comes due over all events (`lintEvents_ruleWith`).
-/
namespace SheetLint

/-! ### Evaluations -/

namespace Evaluation
variable {α : Type} (f : α → Evaluation)

theorem findings_foldl (as : List α) (start : Evaluation) :
    (as.foldl (fun sum a => sum ++ f a) start).findings =
      start.findings ++ as.flatMap fun a => (f a).findings := by
  induction as generalizing start with
  | nil => simp
  | cons a as ih =>
    have hfirst : (start ++ f a).findings = start.findings ++ (f a).findings := rfl
    rw [List.foldl_cons, ih, hfirst, List.flatMap_cons, List.append_assoc]

theorem asked_foldl (as : List α) (start : Evaluation) :
    (as.foldl (fun sum a => sum ++ f a) start).asked =
      start.asked ++ as.flatMap fun a => (f a).asked := by
  induction as generalizing start with
  | nil => simp
  | cons a as ih =>
    have hfirst : (start ++ f a).asked = start.asked ++ (f a).asked := rfl
    rw [List.foldl_cons, ih, hfirst, List.flatMap_cons, List.append_assoc]

end Evaluation

section Evaluate
variable (registry : Registry) (context : Context)

theorem findings_evaluate (refs : List Reference) :
    (registry.evaluate context refs).findings =
      refs.flatMap fun ref => (registry.evaluateOne context ref).findings := by
  rw [Registry.evaluate, Evaluation.findings_foldl]
  rfl

theorem asked_evaluate (refs : List Reference) :
    (registry.evaluate context refs).asked =
      refs.flatMap fun ref => (registry.evaluateOne context ref).asked := by
  rw [Registry.evaluate, Evaluation.asked_foldl]
  rfl

/-- Whatever is found about a reference is the message of a test, reported under the id of
the rule and at the position of the reference. -/
theorem eq_of_mem_evaluateOne {ref : Reference} {finding : Finding}
    (h : finding ∈ (registry.evaluateOne context ref).findings) :
    ∃ test ∈ registry.tests, finding = ⟨resourceId, test.message ref.path, ref.position⟩ := by
  unfold Registry.evaluateOne at h
  split at h
  · cases h
  · rw [Evaluation.findings_foldl, List.nil_append] at h
    obtain ⟨test, htest, hfinding⟩ := List.mem_flatMap.mp h
    unfold PathTest.evaluate at hfinding
    dsimp only at hfinding
    split at hfinding
    · split at hfinding
      · exact ⟨test, htest, List.mem_singleton.mp hfinding⟩
      · cases hfinding
    · cases hfinding

theorem position_of_mem_evaluateOne {ref : Reference} {finding : Finding}
    (h : finding ∈ (registry.evaluateOne context ref).findings) :
    finding.position = ref.position := by
  obtain ⟨test, -, rfl⟩ := eq_of_mem_evaluateOne registry context h
  rfl

/-- References in order are reported on in order. -/
theorem findings_ordered {refs : List Reference}
    (h : refs.Pairwise fun a b => a.position.le b.position = true) :
    (registry.evaluate context refs).findings.Pairwise fun a b =>
      a.position.le b.position = true := by
  rw [findings_evaluate, List.pairwise_flatMap]
  constructor
  · intro ref _
    -- all that is found about one reference stands at one position
    refine List.pairwise_of_forall_mem_list fun a ha b hb => ?_
    rw [position_of_mem_evaluateOne registry context ha,
      position_of_mem_evaluateOne registry context hb]
    exact Position.le_refl _
  · refine h.imp fun {a b} hab x hx y hy => ?_
    rw [position_of_mem_evaluateOne registry context hx,
      position_of_mem_evaluateOne registry context hy]
    exact hab

end Evaluate

/-! ### Runs -/

theorem Scope.collect_nil (scope : Scope) : (scope.collect []).1 = scope := by
  obtain ⟨_ | set⟩ := scope
  · rfl
  · simp [Scope.collect]

namespace Resource

/-- The scope behind some events, and the references that come due at them. -/
def run (scope : Scope) : List Event → Scope × List Reference
  | [] => (scope, [])
  | e :: es =>
    let (next, due) := step scope e
    let (last, more) := run next es
    (last, due ++ more)

theorem run_append (scope : Scope) (es fs : List Event) :
    run scope (es ++ fs) =
      ((run (run scope es).1 fs).1, (run scope es).2 ++ (run (run scope es).1 fs).2) := by
  induction es generalizing scope with
  | nil => rfl
  | cons e es ih =>
    simp only [List.cons_append, run, ih, List.append_assoc]

/-- **Feeding the rule** moves the scope along and evaluates what comes due. -/
theorem feed_eq_evaluate (registry : Registry) (context : Context) (scope : Scope)
    (es : List Event) :
    (ruleWith registry).feed context scope es =
      ⟨(run scope es).1, (registry.evaluate context (run scope es).2).findings,
        (registry.evaluate context (run scope es).2).asked⟩ := by
  induction es generalizing scope with
  | nil => rfl
  | cons e es ih =>
    show (handle registry context scope e).andThen
      ((ruleWith registry).feed context (step scope e).1 es) = _
    rw [ih]
    simp only [handle, Reaction.andThen, run, findings_evaluate, asked_evaluate,
      List.flatMap_append]
    rfl

/-! ### Deliveries -/

/-- The rule subscribes to the starts and ends of the blocks it tracks, and to no others. -/
theorem block_mem_subscriptions (kind : BlockKind) :
    (.startBlock kind ∈ subscriptions ↔ kind.isTracked = true) ∧
      (.endBlock kind ∈ subscriptions ↔ kind.isTracked = true) := by
  cases kind <;> decide

/-- The rule does nothing at events that it does not subscribe to. -/
theorem step_of_not_mem {e : Event} (h : e.kind ∉ subscriptions) (scope : Scope) :
    step scope e = (scope, []) := by
  cases e with
  | importRule statement => exact absurd (show EventKind.importRule ∈ subscriptions by decide) h
  | declaration decl => exact absurd (show EventKind.declaration ∈ subscriptions by decide) h
  | startBlock kind header position =>
    have htracked : ¬ kind.isTracked = true := fun ht => h ((block_mem_subscriptions kind).1.mpr ht)
    simp [step, htracked]
  | endBlock kind header position =>
    have htracked : ¬ kind.isTracked = true := fun ht => h ((block_mem_subscriptions kind).2.mpr ht)
    simp [step, htracked]

theorem subscriptions_nodup : subscriptions.Nodup := by decide

/-- Being fed its own events or all of them is the same to the rule. -/
theorem run_deliveries (registry : Registry) (scope : Scope) (es : List Event) :
    run scope ((ruleWith registry).deliveries es) = run scope es := by
  induction es generalizing scope with
  | nil => rfl
  | cons e es ih =>
    have hsplit : (ruleWith registry).deliveries (e :: es) =
        List.replicate (subscriptions.count e.kind) e ++ (ruleWith registry).deliveries es := rfl
    rw [hsplit, subscriptions_nodup.count]
    split
    · simp only [List.replicate_one, List.singleton_append, run, ih]
    · rename_i hmem
      simp only [List.replicate_zero, List.nil_append, run, ih, step_of_not_mem hmem]

/-- **Linting with the rule alone.**  If the ruleset enables the rule, what comes due over
the events is evaluated, and what is found is sorted. -/
theorem lintEvents_ruleWith (registry : Registry) (ruleset : RuleSet) (context : Context)
    (es : List Event) :
    Linter.lintEvents ⟨[ruleWith registry]⟩ ruleset context es =
      if ruleset.isEnabled resourceId then
        ⟨Diagnostic.sort ((registry.evaluate context (run {} es).2).findings.map
            (Linter.diagnostic ruleset)),
          (registry.evaluate context (run {} es).2).asked⟩
      else
        ⟨[], []⟩ := by
  have hfeed : (ruleWith registry).feed context (ruleWith registry).init
      ((ruleWith registry).deliveries es) = _ :=
    feed_eq_evaluate registry context {} ((ruleWith registry).deliveries es)
  rw [lintEvents_single, hfeed, run_deliveries]
  rfl

end Resource
end SheetLint
