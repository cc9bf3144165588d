import SheetLint.Proofs.Relayout
import SheetLint.Proofs.ResourceRun

/-! # Layout does not matter

White space and comments between tokens move tokens to other places and change nothing
else.  Two sources whose tokens have, one by one, the same kinds and texts yield events of
the same outline and faults of the same kinds (`sheetFrom_alike`).  The rule on resources
then collects, tests and reports the same paths in the same order (`run_alike`,
`evaluate_alike`).

Diagnostics are sorted by position in the end.  Since the places of the tokens increase
strictly in both sources, two positions compare in the one source as the positions of the
same tokens compare in the other (`SameOrder`), and sorting takes the same turns
(`sort_alike`).
-/
namespace SheetLint

/-! ### The rule on resources -/

section Resources
variable {At : Position → Position → Prop}

/-- Two scopes that collect references that are alike for blocks of one kind. -/
inductive ScopeAlike (At : Position → Position → Prop) : Scope → Scope → Prop where
  | idle : ScopeAlike At {} {}
  | collecting (kind : BlockKind) {refs refs' : List Reference}
      (h : List.Forall₂ (ReferenceAlike At) refs refs') :
      ScopeAlike At ⟨some ⟨kind, refs⟩⟩ ⟨some ⟨kind, refs'⟩⟩

theorem collect_alike {scope scope' : Scope} (h : ScopeAlike At scope scope')
    {refs refs' : List Reference} (hrefs : List.Forall₂ (ReferenceAlike At) refs refs') :
    ScopeAlike At (scope.collect refs).1 (scope'.collect refs').1 := by
  cases h with
  | idle => exact .idle
  | collecting kind h => exact .collecting kind (List.rel_append h hrefs)

theorem finish_alike {scope scope' : Scope} (h : ScopeAlike At scope scope') (kind : BlockKind) :
    ScopeAlike At (scope.finish kind).1 (scope'.finish kind).1 ∧
      List.Forall₂ (ReferenceAlike At) (((scope.finish kind).2.map Pending.references).getD [])
        (((scope'.finish kind).2.map Pending.references).getD []) := by
  cases h with
  | idle => exact ⟨.idle, .nil⟩
  | collecting other h =>
    simp only [Scope.finish]
    split
    · exact ⟨.idle, h⟩
    · exact ⟨.collecting other h, .nil⟩

namespace Resource

/-- At events that are alike, references that are alike come due. -/
theorem step_alike {scope scope' : Scope} (h : ScopeAlike At scope scope') {e e' : Event}
    (he : EventAlike At e e') :
    ScopeAlike At (step scope e).1 (step scope' e').1 ∧
      List.Forall₂ (ReferenceAlike At) (step scope e).2 (step scope' e').2 := by
  obtain ⟨houtline, hrefs⟩ := he
  cases e <;> cases e' <;> injection houtline
  case importRule.importRule => exact ⟨h, hrefs⟩
  case declaration.declaration => exact ⟨collect_alike h hrefs, .nil⟩
  case startBlock.startBlock kind _ _ _ _ _ hkind =>
    subst hkind
    simp only [step]
    split
    · exact ⟨.collecting kind .nil, .nil⟩
    · exact ⟨h, .nil⟩
  case endBlock.endBlock kind _ _ _ _ _ hkind =>
    subst hkind
    simp only [step]
    split
    · exact finish_alike h kind
    · exact ⟨h, .nil⟩

theorem run_alike {es es' : List Event} (hes : List.Forall₂ (EventAlike At) es es')
    {scope scope' : Scope} (h : ScopeAlike At scope scope') :
    List.Forall₂ (ReferenceAlike At) (run scope es).2 (run scope' es').2 := by
  induction hes generalizing scope scope' with
  | nil => exact .nil
  | cons he _ ih =>
    obtain ⟨hscope, hdue⟩ := step_alike h he
    exact List.rel_append hdue (ih hscope)

end Resource

/-! ### Findings -/

/-- Two findings of one rule with the same message at related positions. -/
structure FindingAlike (At : Position → Position → Prop) (f f' : Finding) : Prop where
  rule_eq : f.rule = f'.rule
  message_eq : f.message = f'.message
  position : At f.position f'.position

/-- Two evaluations that find alike and ask the same. -/
structure EvaluationAlike (At : Position → Position → Prop) (a a' : Evaluation) : Prop where
  findings : List.Forall₂ (FindingAlike At) a.findings a'.findings
  asked_eq : a.asked = a'.asked

theorem EvaluationAlike.empty : EvaluationAlike At {} {} := ⟨.nil, rfl⟩

theorem EvaluationAlike.append {a a' b b' : Evaluation} (h : EvaluationAlike At a a')
    (h' : EvaluationAlike At b b') : EvaluationAlike At (a ++ b) (a' ++ b') :=
  ⟨List.rel_append h.findings h'.findings, congrArg₂ (· ++ ·) h.asked_eq h'.asked_eq⟩

theorem evaluateTest_alike (test : PathTest) (context : Context) {ref ref' : Reference}
    (h : ReferenceAlike At ref ref') :
    EvaluationAlike At (test.evaluate context ref) (test.evaluate context ref') := by
  simp only [PathTest.evaluate, h.path_eq]
  split
  · refine ⟨?_, rfl⟩
    dsimp only
    split
    · exact .cons ⟨rfl, rfl, h.position⟩ .nil
    · exact .nil
  · exact .empty

theorem evaluateOne_alike (registry : Registry) (context : Context) {ref ref' : Reference}
    (h : ReferenceAlike At ref ref') :
    EvaluationAlike At (registry.evaluateOne context ref) (registry.evaluateOne context ref') := by
  simp only [Registry.evaluateOne, h.path_eq]
  split
  · exact .empty
  · refine List.rel_foldl ?_ .empty (List.forall₂_same.mpr fun _ _ => rfl)
    rintro a a' hsum test _ rfl
    exact hsum.append (evaluateTest_alike test context h)

/-- References that are alike are found fault with alike, and the same is asked. -/
theorem evaluate_alike (registry : Registry) (context : Context) {refs refs' : List Reference}
    (h : List.Forall₂ (ReferenceAlike At) refs refs') :
    EvaluationAlike At (registry.evaluate context refs) (registry.evaluate context refs') := by
  refine List.rel_foldl ?_ .empty h
  intro a a' hsum ref ref' href
  exact hsum.append (evaluateOne_alike registry context href)

end Resources

/-! ### Diagnostics -/

/-- What a diagnostic says, wherever it stands: its rule, its severity and its message. -/
def Diagnostic.content (d : Diagnostic) : String × Severity × String :=
  (d.rule, d.severity, d.message)

/-- Two diagnostics that say the same at related positions. -/
structure DiagnosticAlike (At : Position → Position → Prop) (d d' : Diagnostic) : Prop where
  content_eq : d.content = d'.content
  position : At d.position d'.position

/-- Related positions compare in the same way. -/
def SameOrder (At : Position → Position → Prop) : Prop :=
  ∀ ⦃p p' q q'⦄, At p p' → At q q' → p.le q = p'.le q'

section Diagnostics
variable {At : Position → Position → Prop}

/-- **Sorting takes the same turns** where related positions compare in the same way. -/
theorem sort_alike (hAt : SameOrder At) {ds ds' : List Diagnostic}
    (h : List.Forall₂ (DiagnosticAlike At) ds ds') :
    List.Forall₂ (DiagnosticAlike At) (Diagnostic.sort ds) (Diagnostic.sort ds') := by
  obtain ⟨hlength, halike⟩ := List.forall₂_iff_zip.mp h
  -- both sorts are projections of one sort of the pairs
  let pairs := ds.zip ds'
  let sorted := pairs.mergeSort fun a b => a.1.le b.1
  have hfirst : Diagnostic.sort ds = sorted.map Prod.fst := by
    rw [List.map_mergeSort (s := Diagnostic.le) fun a _ b _ => rfl,
      List.map_fst_zip (Nat.le_of_eq hlength)]
    rfl
  have hsecond : Diagnostic.sort ds' = sorted.map Prod.snd := by
    have horder : ∀ a ∈ pairs, ∀ b ∈ pairs, a.1.le b.1 = a.2.le b.2 := fun a ha b hb =>
      hAt (halike ha).position (halike hb).position
    rw [List.map_mergeSort (s := Diagnostic.le) horder,
      List.map_snd_zip (Nat.le_of_eq hlength.symm)]
    rfl
  rw [hfirst, hsecond, List.forall₂_map_left_iff, List.forall₂_map_right_iff, List.forall₂_same]
  intro pair hpair
  exact halike (List.mem_mergeSort.mp hpair)

theorem diagnostics_alike (ruleset : RuleSet) {fs fs' : List Finding}
    (h : List.Forall₂ (FindingAlike At) fs fs') :
    List.Forall₂ (DiagnosticAlike At) (fs.map (Linter.diagnostic ruleset))
      (fs'.map (Linter.diagnostic ruleset)) := by
  refine List.rel_map ?_ h
  intro f f' hf
  refine ⟨?_, hf.position⟩
  simp only [Diagnostic.content, Linter.diagnostic, hf.rule_eq, hf.message_eq]

theorem faultDiagnostics_alike {fs fs' : List Fault} (h : List.Forall₂ (FaultAlike At) fs fs') :
    List.Forall₂ (DiagnosticAlike At) (fs.map Linter.faultDiagnostic)
      (fs'.map Linter.faultDiagnostic) := by
  refine List.rel_map ?_ h
  intro f f' hf
  refine ⟨?_, hf.position⟩
  simp only [Diagnostic.content, Linter.faultDiagnostic, hf.kind_eq]

/-! ### Linting -/

/-- Two results that say the same, in the same order, and ask the same. -/
structure ResultAlike (At : Position → Position → Prop) (r r' : LintResult) : Prop where
  messages : List.Forall₂ (DiagnosticAlike At) r.messages r'.messages
  asked_eq : r.asked = r'.asked

theorem lintEvents_alike (hAt : SameOrder At) (registry : Registry) (ruleset : RuleSet)
    (context : Context) {es es' : List Event} (h : List.Forall₂ (EventAlike At) es es') :
    ResultAlike At (Linter.lintEvents ⟨[Resource.ruleWith registry]⟩ ruleset context es)
      (Linter.lintEvents ⟨[Resource.ruleWith registry]⟩ ruleset context es') := by
  have hdue := Resource.run_alike h .idle
  have hevaluation := evaluate_alike registry context hdue
  rw [Resource.lintEvents_ruleWith, Resource.lintEvents_ruleWith]
  split
  · exact ⟨sort_alike hAt (diagnostics_alike ruleset hevaluation.findings), hevaluation.asked_eq⟩
  · exact ⟨.nil, rfl⟩

theorem lint_alike (hAt : SameOrder At) (registry : Registry) (ruleset : RuleSet)
    (context : Context) {text text' : String}
    (h : SheetAlike At (Stylesheet.ofString text) (Stylesheet.ofString text')) :
    ResultAlike At (Linter.lint ⟨[Resource.ruleWith registry]⟩ ruleset context text)
      (Linter.lint ⟨[Resource.ruleWith registry]⟩ ruleset context text') := by
  have hevents := lintEvents_alike hAt registry ruleset context h.events
  simp only [Linter.lint, isEmpty_eq_of_forall₂ h.faults]
  split
  · exact hevents
  · refine ⟨sort_alike hAt ?_, hevents.asked_eq⟩
    exact List.rel_append hevents.messages (faultDiagnostics_alike h.faults)

end Diagnostics

/-! ### The same tokens -/

namespace Source

/-- The kinds and texts of the tokens of a source. -/
def spelling (src : Source) : List (TokenKind × String) :=
  src.tokens.map fun t => (t.kind, src.tokenText t)

/-- The positions of two sources at which tokens with the same number start. -/
def SameToken (src src' : Source) (p p' : Position) : Prop :=
  ∃ pair ∈ src.tokens.zip src'.tokens, p = src.place pair.1 ∧ p' = src'.place pair.2

variable {src src' : Source}

/-- Tokens with the same spelling are alike. -/
theorem tokens_alike (h : src.spelling = src'.spelling) :
    List.Forall₂ (TokenAlike src src' (SameToken src src')) src.tokens src'.tokens := by
  have hspelling : List.Forall₂
      (fun t t' => (t.kind, src.tokenText t) = (t'.kind, src'.tokenText t'))
      src.tokens src'.tokens := by
    rw [← List.forall₂_map_right_iff, ← List.forall₂_map_left_iff, List.forall₂_eq_eq_eq]
    exact h
  obtain ⟨hlength, hsame⟩ := List.forall₂_iff_zip.mp hspelling
  refine List.forall₂_iff_zip.mpr ⟨hlength, ?_⟩
  intro t t' hmem
  obtain ⟨hkind, htext⟩ := Prod.mk.inj (hsame hmem)
  exact ⟨hkind, htext, (t, t'), hmem, rfl, rfl⟩

/-- Positions of the same tokens compare in the same way, since tokens come in order in
both sources. -/
theorem sameOrder_sameToken (hlength : src.tokens.length = src'.tokens.length) :
    SameOrder (SameToken src src') := by
  have hfirst : (src.tokens.zip src'.tokens).Pairwise fun a b =>
      (src.place a.1).Before (src.place b.1) := by
    have hmap : (src.tokens.zip src'.tokens).map Prod.fst = src.tokens :=
      List.map_fst_zip (Nat.le_of_eq hlength)
    have hordered := src.tokens_ordered
    rwa [← hmap, List.pairwise_map] at hordered
  have hsecond : (src.tokens.zip src'.tokens).Pairwise fun a b =>
      (src'.place a.2).Before (src'.place b.2) := by
    have hmap : (src.tokens.zip src'.tokens).map Prod.snd = src'.tokens :=
      List.map_snd_zip (Nat.le_of_eq hlength.symm)
    have hordered := src'.tokens_ordered
    rwa [← hmap, List.pairwise_map] at hordered
  -- of two different tokens, the same one comes first in both sources
  have hpairs := hfirst.and hsecond
  rintro p p' q q' ⟨a, ha, rfl, rfl⟩ ⟨b, hb, rfl, rfl⟩
  refine List.Pairwise.forall_of_forall_of_flip
    (R := fun a b : Token × Token =>
      (src.place a.1).le (src.place b.1) = (src'.place a.2).le (src'.place b.2)) ?_
    (hpairs.imp fun h => ?_) (hpairs.imp fun h => ?_) ha hb
  · intro x _
    rw [Position.le_refl, Position.le_refl]
  · rw [h.1.le, h.2.le]
  · exact Eq.trans h.1 h.2.symm

/-- Two sources with the same spelling, positions being those of the same tokens. -/
def relayout (h : src.spelling = src'.spelling) : Relayout where
  src := src
  src' := src'
  At := SameToken src src'
  ends := forall₂_getLast? (tokens_alike h) src.getLast?_tokens src'.getLast?_tokens

end Source

/-- **Layout does not matter.**  Two texts whose tokens have the same kinds and texts have
events of the same outline and faults of the same kinds; linting them says the same in the
same order, and asks for the same files. -/
theorem lint_eq_of_spelling {text text' : String}
    (h : (Source.ofString text).spelling = (Source.ofString text').spelling) (ruleset : RuleSet)
    (context : Context) :
    (Linter.builtin.lint ruleset context text).messages.map Diagnostic.content =
        (Linter.builtin.lint ruleset context text').messages.map Diagnostic.content ∧
      (Linter.builtin.lint ruleset context text).asked =
        (Linter.builtin.lint ruleset context text').asked ∧
      (Stylesheet.ofString text).events.map Event.outline =
        (Stylesheet.ofString text').events.map Event.outline ∧
      (Stylesheet.ofString text).faults.map Fault.kind =
        (Stylesheet.ofString text').faults.map Fault.kind := by
  have htokens := Source.tokens_alike h
  have hsheet := sheetFrom_alike (L := Source.relayout h) .sheet [] htokens
  have hresult := lint_alike (Source.sameOrder_sameToken htokens.length_eq) .builtin ruleset
    context hsheet
  refine ⟨?_, hresult.asked_eq, ?_, ?_⟩
  · exact map_eq_of_forall₂ (fun _ _ hd => hd.content_eq) hresult.messages
  · exact map_eq_of_forall₂ (fun _ _ he => he.outline_eq) hsheet.events
  · exact map_eq_of_forall₂ (fun _ _ hf => hf.kind_eq) hsheet.faults

/-- A comment and some white space in a block that is left open and names a missing file. -/
theorem lint_eq_behind_comment :
    (Source.ofString "a\x7bsrc:url(x)").spelling =
        (Source.ofString "a \x7b /* y */ src :\n url(x)").spelling ∧
      (Linter.builtin.lint .allWarnings (some fun _ => false) "a\x7bsrc:url(x)").messages.map
          Diagnostic.content =
        (Linter.builtin.lint .allWarnings (some fun _ => false)
          "a \x7b /* y */ src :\n url(x)").messages.map Diagnostic.content := by
  have hspelling : (Source.ofString "a\x7bsrc:url(x)").spelling =
      (Source.ofString "a \x7b /* y */ src :\n url(x)").spelling := by
    decide +kernel
  exact ⟨hspelling, (lint_eq_of_spelling hspelling .allWarnings (some fun _ => false)).1⟩

end SheetLint
