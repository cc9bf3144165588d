import SheetLint.Proofs.Nesting
import SheetLint.Proofs.ResourceRun
import SheetLint.Proofs.SourceOrder

/-! # What the rule on resources covers

The rule collects references for one block at a time.  `testedFrom` says, without any such
memory, which references of a stylesheet are to be tested: those of the imports, and those
of the declarations whose block calls for it (`BlockKind.isTested`).  A page counts only if
no margin box stands in it, in front of the declaration or behind it.

On the events of a stylesheet, which are nested blocks, the rule tests just these
references, each once and in the order of the source, and ends with no block to collect for
(`Resource.run_wellNested`).  What it finds is in order already, so that sorting changes
nothing (`sort_eq_of_ordered`).
-/
namespace SheetLint

/-! ### The references to be tested -/

/-- The events of a block, up to its end, when `depth` blocks inside it are open. -/
def insideBlock (depth : Nat) : List Event → List Event
  | [] => []
  | .startBlock kind header position :: es =>
    .startBlock kind header position :: insideBlock (depth + 1) es
  | .endBlock kind header position :: es =>
    if depth = 0 then [] else .endBlock kind header position :: insideBlock (depth - 1) es
  | e :: es => e :: insideBlock depth es

/-- Whether an event starts a margin box. -/
def Event.startsMargin (event : Event) : Bool := event.kind == .startBlock .pageMargin

/-- Whether the declarations standing directly in a block are tested, where `inside` are
the events of the block. -/
def BlockKind.isTested (kind : BlockKind) (inside : List Event) : Bool :=
  match kind with
  | rule | fontFace | pageMargin | keyframeRule => true
  | page => !inside.any Event.startsMargin
  | keyframes | media | supports | document | viewport => false

/-- The references to be tested, in their order, where `nest` tells of each open block,
innermost first, whether its declarations are. -/
def testedFrom (nest : List Bool) : List Event → List Reference
  | [] => []
  | .importRule statement :: es => statement.reference :: testedFrom nest es
  | .declaration decl :: es =>
    (if nest.headD false then decl.references else []) ++ testedFrom nest es
  | .startBlock kind _ _ :: es => testedFrom (kind.isTested (insideBlock 0 es) :: nest) es
  | .endBlock _ _ _ :: es => testedFrom nest.tail es

/-- Only references of the events are tested, each at most once and in their order. -/
theorem testedFrom_sublist (nest : List Bool) (es : List Event) :
    (testedFrom nest es).Sublist (referencesOf es) := by
  induction es generalizing nest with
  | nil => exact .refl _
  | cons e es ih =>
    cases e with
    | importRule statement => exact (ih nest).cons_cons _
    | declaration decl =>
      refine List.Sublist.append ?_ (ih nest)
      split
      · exact .refl _
      · exact List.nil_sublist _
    | startBlock kind header position => exact ih _
    | endBlock kind header position => exact ih _

/-! ### Words one behind the other -/

/-- A word stands inside the block at hand as a whole. -/
theorem WellNested.insideBlock_append {body : Body} {es : List Event} (h : WellNested body es)
    (depth : Nat) (more : List Event) :
    insideBlock depth (es ++ more) = es ++ insideBlock depth more := by
  induction h generalizing depth more with
  | nil => rfl
  | importRule statement _ _ ih => simp [insideBlock, ih]
  | declaration decl _ _ ih => simp [insideBlock, ih]
  | block header start stop _ _ _ ihinner ihes => simp [insideBlock, ihinner, ihes]

/-- The events of a block are the word between its start and its end. -/
theorem WellNested.insideBlock_eq {body : Body} {es : List Event} (h : WellNested body es)
    (kind : BlockKind) (header : String) (stop : Position) (more : List Event) :
    insideBlock 0 (es ++ .endBlock kind header stop :: more) = es := by
  rw [h.insideBlock_append]
  simp [insideBlock]

/-- What is tested in a word does not depend on what follows it. -/
theorem WellNested.testedFrom_append {body : Body} {es : List Event} (h : WellNested body es)
    (nest : List Bool) (more : List Event) :
    testedFrom nest (es ++ more) = testedFrom nest es ++ testedFrom nest more := by
  induction h generalizing nest more with
  | nil => rfl
  | importRule statement _ _ ih => simp [testedFrom, ih]
  | declaration decl _ _ ih => simp [testedFrom, ih]
  | block header start stop _ hinner _ ihinner ihes =>
    simp only [List.cons_append, List.append_assoc, testedFrom, hinner.insideBlock_eq, ihinner,
      ihes, List.tail_cons]

/-- What is tested in a block and behind it. -/
theorem testedFrom_block {kind : BlockKind} {inner es : List Event}
    (hinner : WellNested kind.body inner) (nest : List Bool) (header : String)
    (start stop : Position) :
    testedFrom nest (.startBlock kind header start :: (inner ++ .endBlock kind "" stop :: es)) =
      testedFrom (kind.isTested inner :: nest) inner ++ testedFrom nest es := by
  rw [testedFrom, hinner.insideBlock_eq, hinner.testedFrom_append]
  rfl

/-! ### Words of declarations -/

/-- All events are declarations. -/
def OnlyDeclarations (es : List Event) : Prop := ∀ e ∈ es, ∃ decl, e = .declaration decl

theorem WellNested.onlyDeclarations {body : Body} {es : List Event} (h : WellNested body es)
    (hbody : body = .declarations) : OnlyDeclarations es := by
  induction h with
  | nil => exact fun e he => by cases he
  | importRule statement himports => subst hbody; cases himports
  | declaration decl _ _ ih => exact List.forall_mem_cons.mpr ⟨⟨decl, rfl⟩, ih hbody⟩
  | block header start stop hkind => subst hbody; cases hkind

/-- A page without margin boxes holds declarations only. -/
theorem WellNested.onlyDeclarations_page {body : Body} {es : List Event} (h : WellNested body es)
    (hbody : body = .page) (hmargin : es.any Event.startsMargin = false) :
    OnlyDeclarations es := by
  induction h with
  | nil => exact fun e he => by cases he
  | importRule statement himports => subst hbody; cases himports
  | declaration decl _ _ ih =>
    rw [List.any_cons, Bool.or_eq_false_iff] at hmargin
    exact List.forall_mem_cons.mpr ⟨⟨decl, rfl⟩, ih hbody hmargin.2⟩
  | block header start stop hkind =>
    subst hbody
    rw [List.mem_singleton.mp hkind] at hmargin
    cases hmargin

theorem OnlyDeclarations.testedFrom_eq {es : List Event} (h : OnlyDeclarations es) (flag : Bool)
    (nest : List Bool) : testedFrom (flag :: nest) es = if flag then referencesOf es else [] := by
  induction es with
  | nil => cases flag <;> rfl
  | cons e es ih =>
    obtain ⟨⟨decl, rfl⟩, hes⟩ := List.forall_mem_cons.mp h
    rw [testedFrom, ih hes]
    cases flag <;> rfl

/-- All declarations in the steps of an animation are tested. -/
theorem WellNested.testedFrom_keyframes {body : Body} {es : List Event} (h : WellNested body es)
    (hbody : body = .keyframes) (nest : List Bool) : testedFrom nest es = referencesOf es := by
  induction h with
  | nil => rfl
  | importRule statement himports => subst hbody; cases himports
  | declaration decl hdecls => subst hbody; cases hdecls
  | block header start stop hkind hinner _ _ ihes =>
    subst hbody
    obtain rfl := List.mem_singleton.mp hkind
    rw [testedFrom_block hinner, (hinner.onlyDeclarations rfl).testedFrom_eq, ihes rfl]
    simp [BlockKind.isTested, referencesOf, Event.references]

/-! ### Collecting -/

/-- Whether an event starts or ends no tracked block and has nothing come due. -/
def Event.isQuiet : Event → Bool
  | importRule _ => false
  | declaration _ => true
  | startBlock kind _ _ | endBlock kind _ _ => !kind.isTracked

theorem OnlyDeclarations.isQuiet {es : List Event} (h : OnlyDeclarations es) :
    ∀ e ∈ es, e.isQuiet = true := by
  intro e he
  obtain ⟨decl, rfl⟩ := h e he
  rfl

theorem WellNested.isQuiet_keyframes {body : Body} {es : List Event} (h : WellNested body es)
    (hbody : body = .keyframes) : ∀ e ∈ es, e.isQuiet = true := by
  induction h with
  | nil => exact fun e he => by cases he
  | importRule statement himports => subst hbody; cases himports
  | declaration decl hdecls => subst hbody; cases hdecls
  | block header start stop hkind hinner _ _ ihes =>
    subst hbody
    obtain rfl := List.mem_singleton.mp hkind
    refine List.forall_mem_cons.mpr ⟨rfl, List.forall_mem_append.mpr ⟨?_, ?_⟩⟩
    · exact (hinner.onlyDeclarations rfl).isQuiet
    · exact List.forall_mem_cons.mpr ⟨rfl, ihes rfl⟩

theorem Scope.collect_collect (scope : Scope) (refs more : List Reference) :
    ((scope.collect refs).1.collect more).1 = (scope.collect (refs ++ more)).1 := by
  obtain ⟨_ | set⟩ := scope
  · rfl
  · simp [Scope.collect]

namespace Resource

theorem step_quiet (scope : Scope) {e : Event} (h : e.isQuiet = true) :
    step scope e = ((scope.collect e.references).1, []) := by
  cases e with
  | importRule statement => cases h
  | declaration decl => rfl
  | startBlock kind header position =>
    have htracked : kind.isTracked = false := by simpa [Event.isQuiet] using h
    simp [step, htracked, Event.references, Scope.collect_nil]
  | endBlock kind header position =>
    have htracked : kind.isTracked = false := by simpa [Event.isQuiet] using h
    simp [step, htracked, Event.references, Scope.collect_nil]

/-- Over quiet events all references are collected. -/
theorem run_quiet (scope : Scope) {es : List Event} (h : ∀ e ∈ es, e.isQuiet = true) :
    run scope es = ((scope.collect (referencesOf es)).1, []) := by
  induction es generalizing scope with
  | nil => rw [run, referencesOf, List.flatMap_nil, Scope.collect_nil]
  | cons e es ih =>
    obtain ⟨he, hes⟩ := List.forall_mem_cons.mp h
    rw [run, step_quiet scope he]
    dsimp only
    rw [ih _ hes, Scope.collect_collect]
    rfl

/-- While there is no block to collect for, nothing happens at quiet events. -/
theorem run_quiet_idle {es : List Event} (h : ∀ e ∈ es, e.isQuiet = true) :
    run {} es = ({}, []) :=
  run_quiet {} h

section Blocks
variable {kind : BlockKind} {inner : List Event} (header header' : String)
  (start stop : Position) (es : List Event)

/-- At the end of a tracked block the references of what was quiet inside it come due. -/
theorem run_tracked (scope : Scope) (hkind : kind.isTracked = true)
    (hquiet : ∀ e ∈ inner, e.isQuiet = true) :
    run scope (.startBlock kind header start :: (inner ++ .endBlock kind header' stop :: es)) =
      ((run {} es).1, referencesOf inner ++ (run {} es).2) := by
  have hstart : step scope (.startBlock kind header start) = (⟨some ⟨kind, []⟩⟩, []) := by
    simp [step, hkind, Scope.start]
  have hstop : step ⟨some ⟨kind, referencesOf inner⟩⟩ (.endBlock kind header' stop) =
      ({}, referencesOf inner) := by
    simp [step, hkind, Scope.finish]
  rw [run, hstart]
  dsimp only
  rw [run_append, run_quiet _ hquiet]
  simp only [Scope.collect, List.nil_append, run, hstop]

/-- The start and the end of a block that is not tracked change nothing. -/
theorem run_untracked (scope : Scope) (hkind : kind.isTracked = false) :
    run scope (.startBlock kind header start :: (inner ++ .endBlock kind header' stop :: es)) =
      run scope (inner ++ es) := by
  simp [run, run_append, step, hkind]

end Blocks

/-! ### Pages -/

/-- A margin box is tested whatever has been collected in front of it, and leaves no block to
collect for. -/
theorem run_margin {inner es : List Event} (hinner : WellNested BlockKind.pageMargin.body inner)
    {nest : List Bool} (hes : run {} es = ({}, testedFrom nest es)) (scope : Scope)
    (header : String) (start stop : Position) :
    run scope
        (.startBlock .pageMargin header start :: (inner ++ .endBlock .pageMargin "" stop :: es)) =
      ({}, testedFrom nest (.startBlock .pageMargin header start ::
        (inner ++ .endBlock .pageMargin "" stop :: es))) := by
  have hdecls := hinner.onlyDeclarations rfl
  rw [run_tracked _ _ _ _ _ _ rfl hdecls.isQuiet, hes,
    testedFrom_block hinner, hdecls.testedFrom_eq]
  rfl

/-- In a page that is not collected for, only the margin boxes are tested. -/
theorem run_page_idle {body : Body} {es : List Event} (h : WellNested body es)
    (hbody : body = .page) (nest : List Bool) :
    run {} es = ({}, testedFrom (false :: nest) es) := by
  induction h with
  | nil => rfl
  | importRule statement himports => subst hbody; cases himports
  | declaration decl _ _ ih =>
    rw [run, testedFrom]
    exact ih hbody
  | block header start stop hkind hinner _ _ ihes =>
    subst hbody
    obtain rfl := List.mem_singleton.mp hkind
    exact run_margin hinner (ihes rfl) {} header start stop

/-- If there is a margin box in a page, what has been collected for the page is dropped,
and only the margin boxes are tested. -/
theorem run_page_margin {body : Body} {es : List Event} (h : WellNested body es)
    (hbody : body = .page) (hmargin : es.any Event.startsMargin = true)
    (refs : List Reference) (nest : List Bool) :
    run ⟨some ⟨.page, refs⟩⟩ es = ({}, testedFrom (false :: nest) es) := by
  induction h generalizing refs with
  | nil => cases hmargin
  | importRule statement himports => subst hbody; cases himports
  | declaration decl _ _ ih =>
    rw [run, testedFrom]
    exact ih hbody hmargin _
  | block header start stop hkind hinner hes _ _ =>
    subst hbody
    obtain rfl := List.mem_singleton.mp hkind
    exact run_margin hinner (run_page_idle hes rfl nest) _ header start stop

/-- At the end of a page its own references come due, unless a margin box stands in it. -/
theorem run_page {inner es : List Event} (hinner : WellNested BlockKind.page.body inner)
    {nest : List Bool} (hes : run {} es = ({}, testedFrom nest es)) (header : String)
    (start stop : Position) :
    run {} (.startBlock .page header start :: (inner ++ .endBlock .page "" stop :: es)) =
      ({}, testedFrom nest
        (.startBlock .page header start :: (inner ++ .endBlock .page "" stop :: es))) := by
  rw [testedFrom_block hinner]
  by_cases hmargin : inner.any Event.startsMargin = true
  · -- the first margin box takes the place of the page
    have hinside := run_page_margin hinner rfl hmargin [] nest
    have htested : BlockKind.page.isTested inner = false := by
      simp only [BlockKind.isTested, hmargin, Bool.not_true]
    rw [htested]
    show run ⟨some ⟨.page, []⟩⟩ (inner ++ _) = _
    rw [run_append, hinside]
    -- nothing is left of the page when it ends
    show ((run {} es).1, _ ++ (run {} es).2) = _
    rw [hes]
  · rw [Bool.not_eq_true] at hmargin
    have hdecls := hinner.onlyDeclarations_page rfl hmargin
    have htested : BlockKind.page.isTested inner = true := by
      simp only [BlockKind.isTested, hmargin, Bool.not_false]
    rw [run_tracked _ _ _ _ _ _ rfl hdecls.isQuiet, hes, htested, hdecls.testedFrom_eq]
    rfl

/-! ### Stylesheets -/

/-- At the end of a tracked block of which all declarations are tested, they come due. -/
theorem run_block {kind : BlockKind} {inner es : List Event} {nest : List Bool}
    (hinner : WellNested kind.body inner) (hkind : kind.isTracked = true)
    (hquiet : ∀ e ∈ inner, e.isQuiet = true)
    (htested : testedFrom (kind.isTested inner :: nest) inner = referencesOf inner)
    (hes : run {} es = ({}, testedFrom nest es)) (header : String) (start stop : Position) :
    run {} (.startBlock kind header start :: (inner ++ .endBlock kind "" stop :: es)) =
      ({}, testedFrom nest
        (.startBlock kind header start :: (inner ++ .endBlock kind "" stop :: es))) := by
  rw [run_tracked _ _ _ _ _ _ hkind hquiet, hes, testedFrom_block hinner, htested]

/-- Where rules may stand, the references to be tested come due, in their order, and the
rule ends with no block to collect for. -/
theorem run_wellNested {body : Body} {es : List Event} (h : WellNested body es)
    (hbody : body.holdsImports = true) (nest : List Bool) :
    run {} es = ({}, testedFrom nest es) := by
  induction h generalizing nest with
  | nil => rfl
  | importRule statement _ _ ih =>
    rw [run, testedFrom]
    show ((run {} _).1, [statement.reference] ++ (run {} _).2) = _
    rw [ih hbody nest]
    rfl
  | @declaration body _ decl hdecls _ _ =>
    exfalso
    revert hdecls hbody
    cases body <;> decide
  | @block body kind inner es header start stop hkind hinner _ ihinner ihes =>
    -- each kind of block is collected for in one way; margins and steps do not stand here
    have hrest := ihes hbody nest
    have huntracked (hkind : kind.isTracked = false)
        (hinside : run {} inner = ({}, testedFrom (kind.isTested inner :: nest) inner)) :
        run {} (.startBlock kind header start :: (inner ++ .endBlock kind "" stop :: es)) =
          ({}, testedFrom nest
            (.startBlock kind header start :: (inner ++ .endBlock kind "" stop :: es))) := by
      rw [run_untracked _ _ _ _ _ _ hkind, run_append, hinside, hrest, testedFrom_block hinner]
    cases kind with
    | rule | fontFace =>
      have hdecls := hinner.onlyDeclarations rfl
      exact run_block hinner rfl hdecls.isQuiet (hdecls.testedFrom_eq true nest) hrest _ _ _
    | page => exact run_page hinner hrest _ _ _
    | keyframes =>
      exact run_block hinner rfl (hinner.isQuiet_keyframes rfl) (hinner.testedFrom_keyframes rfl _)
        hrest _ _ _
    | viewport =>
      have hdecls := hinner.onlyDeclarations rfl
      refine huntracked rfl ?_
      rw [run_quiet_idle hdecls.isQuiet, hdecls.testedFrom_eq]
      rfl
    | media | supports | document => exact huntracked rfl (ihinner rfl _)
    | pageMargin | keyframeRule =>
      exfalso
      revert hkind hbody
      cases body <;> decide

end Resource

theorem sort_eq_of_ordered {findings : List Finding} (ruleset : RuleSet)
    (h : findings.Pairwise fun a b => a.position.le b.position = true) :
    Diagnostic.sort (findings.map (Linter.diagnostic ruleset)) =
      findings.map (Linter.diagnostic ruleset) := by
  refine List.mergeSort_of_pairwise (List.pairwise_map.mpr (h.imp ?_))
  intro a b hab
  exact hab

/-- **What the rule on resources covers.**  Fed the events of any text, a fresh rule puts the
references to be tested to its tests, no others, each once and in the order of the source; it
ends with no block to collect for; what it finds is ordered by position, and sorting leaves
it as it is. -/
theorem resource_coverage (registry : Registry) (context : Context) (ruleset : RuleSet)
    (text : String) :
    let events := (Stylesheet.ofString text).events
    let tested := testedFrom [] events
    let evaluation := registry.evaluate context tested
    Resource.run {} events = ({}, tested) ∧
      (Resource.ruleWith registry).feed context (Resource.ruleWith registry).init events =
        ⟨({} : Scope), evaluation.findings, evaluation.asked⟩ ∧
      (tested.Pairwise fun a b => a.position.Before b.position) ∧
      (evaluation.findings.Pairwise fun a b => a.position.le b.position = true) ∧
      Linter.lintEvents ⟨[Resource.ruleWith registry]⟩ ruleset context events =
        if ruleset.isEnabled resourceId then
          ⟨evaluation.findings.map (Linter.diagnostic ruleset), evaluation.asked⟩
        else
          ⟨[], []⟩ := by
  intro events tested evaluation
  have hword : WellNested .sheet events :=
    completes_sheetFrom (.ofString text) .sheet [] (Source.ofString text).tokens
  have hrun : Resource.run {} events = ({}, tested) := Resource.run_wellNested hword rfl []
  have hordered : tested.Pairwise fun a b => a.position.Before b.position :=
    (references_ordered (.ofString text)).sublist (testedFrom_sublist [] events)
  have hfindings : evaluation.findings.Pairwise fun a b => a.position.le b.position = true :=
    findings_ordered registry context (hordered.imp fun h => h.le)
  refine ⟨hrun, ?_, hordered, hfindings, ?_⟩
  · have hfeed : (Resource.ruleWith registry).feed context (Resource.ruleWith registry).init
        events = _ := Resource.feed_eq_evaluate registry context {} events
    rw [hfeed, hrun]
  · rw [Resource.lintEvents_ruleWith, hrun, sort_eq_of_ordered ruleset hfindings]

end SheetLint
