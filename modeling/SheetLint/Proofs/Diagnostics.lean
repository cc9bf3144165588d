import SheetLint.Proofs.Dispatch
import SheetLint.Proofs.Position

/-! # The order of diagnostics

Diagnostics are sorted by position, and those at one position keep the order in which they
were found (`standingAt_sort`).  These two facts leave a sort no choice
(`eq_of_standingAt_eq`), so sorting a part of a list beforehand changes nothing
(`sort_sort_append`), and it does not matter whether diagnostics are picked out before or
behind it (`filter_sort`).

A linter sorts twice, once behind the rules and once more when there are faults, and finds
its listeners in a table.  The main statement says what all this comes to: the findings of
plain turns and behind them the faults, sorted once (`lint_eq_turns`).
-/
namespace SheetLint

namespace Position

theorem le_trans {p q r : Position} (h : p.le q = true) (h' : q.le r = true) :
    p.le r = true := by
  rw [le_iff] at *
  omega

theorem le_total (p q : Position) : (p.le q || q.le p) = true := by
  rw [Bool.or_eq_true, le_iff, le_iff]
  omega

theorem le_antisymm {p q : Position} (h : p.le q = true) (h' : q.le p = true) : p = q := by
  rw [le_iff] at *
  have hline : p.line = q.line := by omega
  have hcolumn : p.column = q.column := by omega
  cases p
  cases q
  simp_all

end Position

namespace Diagnostic

/-- The diagnostics of a list that stand at a position, in their order. -/
def standingAt (p : Position) (ds : List Diagnostic) : List Diagnostic :=
  ds.filter fun d => decide (d.position = p)

/-- The diagnostics of a list are ordered by position. -/
def Sorted (ds : List Diagnostic) : Prop :=
  ds.Pairwise fun a b => a.position.le b.position = true

theorem mem_standingAt {p : Position} {ds : List Diagnostic} {d : Diagnostic} :
    d ∈ standingAt p ds ↔ d ∈ ds ∧ d.position = p := by
  simp [standingAt]

theorem standingAt_append (p : Position) (as bs : List Diagnostic) :
    standingAt p (as ++ bs) = standingAt p as ++ standingAt p bs :=
  List.filter_append ..

theorem le_trans (a b c : Diagnostic) (h : le a b = true) (h' : le b c = true) :
    le a c = true :=
  Position.le_trans h h'

theorem le_total (a b : Diagnostic) : (le a b || le b a) = true :=
  Position.le_total a.position b.position

theorem sort_sorted (ds : List Diagnostic) : Sorted (sort ds) :=
  List.pairwise_mergeSort le_trans le_total ds

/-- **Sorting is stable.**  The diagnostics at one position keep their order. -/
theorem standingAt_sort (p : Position) (ds : List Diagnostic) :
    standingAt p (sort ds) = standingAt p ds := by
  have hordered : (standingAt p ds).Pairwise fun a b => le a b = true := by
    refine List.pairwise_of_forall_mem_list ?_
    intro a ha b hb
    rw [le, (mem_standingAt.mp ha).2, (mem_standingAt.mp hb).2]
    exact Position.le_refl p
  have hsub : (standingAt p ds).Sublist (sort ds) :=
    List.sublist_mergeSort le_trans le_total hordered List.filter_sublist
  -- what stands at the position is found again in order, and there is no more of it
  have hfilter : (standingAt p ds).Sublist (standingAt p (sort ds)) := by
    have hagain := hsub.filter fun d => decide (d.position = p)
    simpa only [standingAt, List.filter_filter, Bool.and_self] using hagain
  refine (hfilter.eq_of_length ?_).symm
  exact ((List.mergeSort_perm ds le).filter _).length_eq.symm

theorem mem_iff_of_standingAt_eq {as bs : List Diagnostic}
    (h : ∀ p, standingAt p as = standingAt p bs) (d : Diagnostic) : d ∈ as ↔ d ∈ bs := by
  have hd : d ∈ standingAt d.position as ↔ d ∈ standingAt d.position bs := by
    rw [h d.position]
  simpa [mem_standingAt] using hd

theorem Sorted.head_le {d e : Diagnostic} {ds : List Diagnostic} (h : Sorted (d :: ds))
    (he : e ∈ d :: ds) : d.position.le e.position = true := by
  rcases List.mem_cons.mp he with rfl | he
  · exact Position.le_refl _
  · exact (List.pairwise_cons.mp h).1 e he

/-- The order by position and the order at each position fix a list. -/
theorem eq_of_standingAt_eq {as bs : List Diagnostic} (has : Sorted as) (hbs : Sorted bs)
    (h : ∀ p, standingAt p as = standingAt p bs) : as = bs := by
  have hmem := mem_iff_of_standingAt_eq h
  induction as generalizing bs with
  | nil =>
    refine (List.eq_nil_iff_forall_not_mem.mpr fun d hd => ?_).symm
    exact List.not_mem_nil ((hmem d).mpr hd)
  | cons a as ih =>
    cases bs with
    | nil => exact absurd ((hmem a).mp List.mem_cons_self) List.not_mem_nil
    | cons b bs =>
      -- each head stands at or before the other one
      have hposition : a.position = b.position :=
        Position.le_antisymm (has.head_le ((hmem b).mpr List.mem_cons_self))
          (hbs.head_le ((hmem a).mp List.mem_cons_self))
      have hhead : a = b := by
        have hboth := h a.position
        simp only [standingAt, List.filter_cons, hposition, decide_true, if_true] at hboth
        exact (List.cons.inj hboth).1
      subst hhead
      have htail : ∀ p, standingAt p as = standingAt p bs := by
        intro p
        have hboth := h p
        simp only [standingAt, List.filter_cons] at hboth
        split at hboth
        · exact (List.cons.inj hboth).2
        · exact hboth
      rw [ih (List.pairwise_cons.mp has).2 (List.pairwise_cons.mp hbs).2 htail
        (mem_iff_of_standingAt_eq htail)]

/-- Sorting a part beforehand changes nothing. -/
theorem sort_sort_append (as bs : List Diagnostic) : sort (sort as ++ bs) = sort (as ++ bs) := by
  refine eq_of_standingAt_eq (sort_sorted _) (sort_sorted _) fun p => ?_
  rw [standingAt_sort, standingAt_sort, standingAt_append, standingAt_append, standingAt_sort]

/-- Diagnostics picked out of a list are sorted as they are in the whole list. -/
theorem filter_sort (wanted : Diagnostic → Bool) (ds : List Diagnostic) :
    (sort ds).filter wanted = sort (ds.filter wanted) := by
  have hcomm : ∀ p (es : List Diagnostic),
      standingAt p (es.filter wanted) = (standingAt p es).filter wanted := by
    intro p es
    rw [standingAt, standingAt, List.filter_filter, List.filter_filter]
    exact List.filter_congr fun d _ => Bool.and_comm _ _
  refine eq_of_standingAt_eq ((sort_sorted ds).filter _) (sort_sorted _) fun p => ?_
  rw [standingAt_sort, hcomm, hcomm, standingAt_sort]

end Diagnostic

/-! ### Linting a source -/

namespace Linter
variable (linter : Linter) (ruleset : RuleSet) (context : Context) (source : String)

/-- What the rules report about a source: event by event, at each event rule by rule in the
order of registration, and for each rule once for each time that it lists the kind of the
event.  The level of the rule that reports decides between warnings and errors. -/
def reported : List Diagnostic :=
  ((turns context (linter.listeners ruleset) (Stylesheet.ofString source).events).flatMap
    Turn.findings).map fun finding =>
      { rule := finding.rule
        severity := if ruleset.level finding.rule = .error then .error else .warning
        message := finding.message
        position := finding.position }

/-- The faults of a source, each as an error, whatever the ruleset. -/
def blamed : List Diagnostic :=
  (Stylesheet.ofString source).faults.map fun fault =>
    { rule := faultRule, severity := .error, message := fault.kind.message,
      position := fault.position }

/-- **Linting is two plain loops and one sort.**  The diagnostics of a source are what the
rules report in their turns and behind it the faults, sorted by position.  At each position
stands first what the rules report there, in the order of the turns, and then the faults, in
their order.  The paths asked about are those of the turns. -/
theorem lint_eq_turns :
    linter.lint ruleset context source =
        ⟨Diagnostic.sort (linter.reported ruleset context source ++ blamed source),
          (turns context (linter.listeners ruleset)
            (Stylesheet.ofString source).events).flatMap Turn.asked⟩ ∧
      Diagnostic.Sorted (linter.lint ruleset context source).messages ∧
      ∀ p, Diagnostic.standingAt p (linter.lint ruleset context source).messages =
        Diagnostic.standingAt p (linter.reported ruleset context source) ++
          Diagnostic.standingAt p (blamed source) := by
  have hevents := lintEvents_eq linter ruleset context (Stylesheet.ofString source).events
  have hlint : linter.lint ruleset context source =
      ⟨Diagnostic.sort (linter.reported ruleset context source ++ blamed source),
        (turns context (linter.listeners ruleset)
          (Stylesheet.ofString source).events).flatMap Turn.asked⟩ := by
    simp only [lint, hevents]
    split
    · rename_i hnone
      rw [blamed, List.isEmpty_iff.mp hnone, List.map_nil, List.append_nil]
      rfl
    · rw [Diagnostic.sort_sort_append]
      rfl
  refine ⟨hlint, ?_, fun p => ?_⟩
  · rw [hlint]
    exact Diagnostic.sort_sorted _
  · rw [hlint, Diagnostic.standingAt_sort, Diagnostic.standingAt_append]

end Linter
end SheetLint
