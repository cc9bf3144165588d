import Mathlib.Data.List.Basic
import SheetLint.Proofs.Independence

/-! # What a probe changes

Only one of the tests that are always there asks for files, and it asks for the same ones
whatever the answers are (`asked_builtin`).  An answer decides on a single finding: that the
path names no file (`findings_builtin`).  So a probe that finds more files takes away the
findings about these files and leaves everything else as it is, in its order
(`lint_eq_filter`).  Without a probe there are no such findings at all, as with a probe that
finds everything (`findings_builtin_none`).
-/
namespace SheetLint
open Text

/-! ### The messages of the tests -/

namespace PathTest

/-- The message that a path names no file, with the path in its place. -/
theorem toList_message_filesystem (path : String) :
    (filesystem.message path).toList =
      ['\x27'] ++ path.toList ++ "' does not exist in the file system".toList := by
  have hcut : cutAt? pathMark.toList filesystem.template.toList =
      some (['\x27'], "' does not exist in the file system".toList) := by decide
  rw [message, String.toList_ofList, replaceFirst, hcut]

/-- The message that a path points at another host, with the path in its place. -/
theorem toList_message_external (path : String) :
    (external.message path).toList =
      "Consider using a localised resource instead for '".toList ++ path.toList ++ ['\x27'] := by
  have hcut : cutAt? pathMark.toList external.template.toList =
      some ("Consider using a localised resource instead for '".toList, ['\x27']) := by decide
  rw [message, String.toList_ofList, replaceFirst, hcut]

/-- A message about a missing file tells which file. -/
theorem message_filesystem_injective {path other : String}
    (h : filesystem.message path = filesystem.message other) : path = other := by
  have hlist := congrArg String.toList h
  rw [toList_message_filesystem, toList_message_filesystem] at hlist
  exact String.toList_inj.mp (List.append_cancel_left (List.append_cancel_right hlist))

theorem message_external_ne_filesystem (path other : String) :
    external.message path ≠ filesystem.message other := by
  intro h
  have hlist := congrArg String.toList h
  rw [toList_message_external, toList_message_filesystem] at hlist
  exact absurd (List.cons.inj hlist).1 (by decide)

/-- The test of paths that point at another host asks for no file. -/
theorem evaluate_external (context : Context) (ref : Reference) :
    external.evaluate context ref =
      ⟨if isExternal ref.path then [⟨resourceId, external.message ref.path, ref.position⟩] else [],
        []⟩ :=
  rfl

/-- The file that is asked for about a path, if any. -/
def fileOf? (path : String) : Option String :=
  let file := localPath path
  if file.isEmpty || isExternal file || (uriScheme? file).isSome then none else some file

theorem eq_of_fileOf? {path file : String} (h : fileOf? path = some file) :
    file = localPath path := by
  simp only [fileOf?] at h
  split at h
  · cases h
  · exact (Option.some.inj h).symm

/-- The question about a local path is put for one file or for none, and a file that is not
found is a fault. -/
theorem run_filesystem (probe : Probe) (path : String) :
    (filesystem.inquire path).run (some probe) =
      (!(fileOf? path).all probe, (fileOf? path).toList) := by
  simp only [filesystem, fileOf?]
  split
  · rfl
  · simp [Inquiry.run]

theorem evaluate_filesystem (probe : Probe) (ref : Reference) :
    filesystem.evaluate (some probe) ref =
      ⟨if (fileOf? ref.path).all probe then []
        else [⟨resourceId, filesystem.message ref.path, ref.position⟩],
        (fileOf? ref.path).toList⟩ := by
  have hrunnable : filesystem.isRunnable (some probe) = true := rfl
  simp only [evaluate, hrunnable, run_filesystem, if_true]
  cases (fileOf? ref.path).all probe <;> rfl

end PathTest

/-! ### Findings about missing files -/

/-- A finding that a path names no file. -/
def Finding.SaysMissing (finding : Finding) (path : String) : Prop :=
  finding.rule = resourceId ∧ finding.message = PathTest.filesystem.message path

open Classical in
/-- Whether a finding holds with a probe: it is not about a file that the probe finds. -/
noncomputable def Finding.standsWith (probe : Probe) (finding : Finding) : Bool :=
  decide (∀ path, finding.SaysMissing path → probe (PathTest.localPath path) = false)

theorem Finding.standsWith_iff {probe : Probe} {finding : Finding} :
    finding.standsWith probe = true ↔
      ∀ path, finding.SaysMissing path → probe (PathTest.localPath path) = false := by
  simp only [standsWith, decide_eq_true_eq]

section Tests
variable (probe : Probe) (ref : Reference)

theorem standsWith_external :
    (⟨resourceId, PathTest.external.message ref.path, ref.position⟩ : Finding).standsWith probe =
      true :=
  Finding.standsWith_iff.mpr fun path h =>
    absurd h.2 (PathTest.message_external_ne_filesystem ref.path path)

theorem standsWith_filesystem :
    (⟨resourceId, PathTest.filesystem.message ref.path, ref.position⟩ : Finding).standsWith probe =
      !probe (PathTest.localPath ref.path) := by
  rw [Bool.eq_iff_iff, Finding.standsWith_iff, Bool.not_eq_true']
  constructor
  · exact fun h => h ref.path ⟨rfl, rfl⟩
  · rintro h path ⟨-, hmessage⟩
    rw [← PathTest.message_filesystem_injective hmessage]
    exact h

end Tests

namespace Registry

theorem evaluateOne_builtin (context : Context) (ref : Reference) :
    builtin.evaluateOne context ref =
      if ref.path.isEmpty then {}
      else PathTest.external.evaluate context ref ++ PathTest.filesystem.evaluate context ref := by
  rfl

/-- Which files are asked for does not depend on the answers. -/
theorem asked_builtin (P Q : Probe) (refs : List Reference) :
    (builtin.evaluate (some P) refs).asked = (builtin.evaluate (some Q) refs).asked := by
  rw [asked_evaluate, asked_evaluate]
  refine List.flatMap_congr fun ref _ => ?_
  rw [evaluateOne_builtin, evaluateOne_builtin, PathTest.evaluate_external,
    PathTest.evaluate_external, PathTest.evaluate_filesystem, PathTest.evaluate_filesystem]
  split
  · rfl
  · cases PathTest.fileOf? ref.path <;> rfl

/-- Without a probe the same is found as with one that finds every file. -/
theorem findings_builtin_none (refs : List Reference) :
    (builtin.evaluate none refs).findings =
      (builtin.evaluate (some fun _ => true) refs).findings := by
  rw [findings_evaluate, findings_evaluate]
  refine List.flatMap_congr fun ref _ => ?_
  have hnone : PathTest.filesystem.evaluate none ref = {} := rfl
  rw [evaluateOne_builtin, evaluateOne_builtin, PathTest.evaluate_external,
    PathTest.evaluate_external, PathTest.evaluate_filesystem, hnone]
  split
  · rfl
  · cases PathTest.fileOf? ref.path <;> rfl

theorem filter_external (P : Probe) (context : Context) (ref : Reference) :
    (PathTest.external.evaluate context ref).findings.filter (Finding.standsWith P) =
      (PathTest.external.evaluate context ref).findings := by
  rw [PathTest.evaluate_external]
  split
  · simp only [List.filter_cons, standsWith_external, if_true, List.filter_nil]
  · rfl

theorem filter_filesystem {P Q : Probe} (h : ∀ path, Q path = true → P path = true)
    (ref : Reference) :
    (PathTest.filesystem.evaluate (some Q) ref).findings.filter (Finding.standsWith P) =
      (PathTest.filesystem.evaluate (some P) ref).findings := by
  rw [PathTest.evaluate_filesystem, PathTest.evaluate_filesystem]
  cases hfile : PathTest.fileOf? ref.path with
  | none => rfl
  | some file =>
    obtain rfl := PathTest.eq_of_fileOf? hfile
    cases hQ : Q (PathTest.localPath ref.path) with
    | true =>
      -- what the other probe finds is found
      simp [hQ, h _ hQ]
    | false =>
      cases hP : P (PathTest.localPath ref.path) <;>
        simp [hQ, hP, standsWith_filesystem]

/-- **What a probe takes away.**  With a probe that finds all that another finds, those
findings of the other are left that are not about files it finds. -/
theorem findings_builtin {P Q : Probe} (h : ∀ path, Q path = true → P path = true)
    (refs : List Reference) :
    (builtin.evaluate (some P) refs).findings =
      (builtin.evaluate (some Q) refs).findings.filter (Finding.standsWith P) := by
  rw [findings_evaluate, findings_evaluate, List.filter_flatMap]
  refine List.flatMap_congr fun ref _ => ?_
  rw [evaluateOne_builtin, evaluateOne_builtin]
  split
  · rfl
  · show _ ++ _ = (_ ++ _ : List Finding).filter _
    rw [List.filter_append]
    exact congrArg₂ (· ++ ·) (filter_external P (some Q) ref).symm (filter_filesystem h ref).symm

end Registry

/-! ### Whole sources -/

/-- What the rule on resources finds and asks about a source: nothing if it is not
enabled. -/
def Resource.evaluation (ruleset : RuleSet) (context : Context) (source : String) : Evaluation :=
  if ruleset.isEnabled resourceId then
    Registry.builtin.evaluate context (run {} (Stylesheet.ofString source).events).2
  else {}

section Sources
variable (ruleset : RuleSet) (source : String)

/-- Linting a source sorts what the rule on resources finds and the faults together. -/
theorem lint_builtin (context : Context) :
    Linter.builtin.lint ruleset context source =
      ⟨Diagnostic.sort
          ((Resource.evaluation ruleset context source).findings.map (Linter.diagnostic ruleset) ++
            (Stylesheet.ofString source).faults.map Linter.faultDiagnostic),
        (Resource.evaluation ruleset context source).asked⟩ := by
  have hevents : Linter.builtin.lintEvents ruleset context (Stylesheet.ofString source).events =
      ⟨Diagnostic.sort ((Resource.evaluation ruleset context source).findings.map
          (Linter.diagnostic ruleset)),
        (Resource.evaluation ruleset context source).asked⟩ := by
    refine (Resource.lintEvents_ruleWith .builtin ruleset context _).trans ?_
    rw [Resource.evaluation]
    split
    · rfl
    · simp [Diagnostic.sort]
  simp only [Linter.lint, hevents]
  split
  · rename_i hnone
    rw [List.isEmpty_iff.mp hnone, List.map_nil, List.append_nil]
  · rw [Diagnostic.sort_sort_append]

theorem evaluation_asked (P Q : Probe) :
    (Resource.evaluation ruleset (some P) source).asked =
      (Resource.evaluation ruleset (some Q) source).asked := by
  rw [Resource.evaluation, Resource.evaluation]
  split
  · exact Registry.asked_builtin P Q _
  · rfl

theorem evaluation_findings_none :
    (Resource.evaluation ruleset none source).findings =
      (Resource.evaluation ruleset (some fun _ => true) source).findings := by
  rw [Resource.evaluation, Resource.evaluation]
  split
  · exact Registry.findings_builtin_none _
  · rfl

theorem evaluation_findings {P Q : Probe} (h : ∀ path, Q path = true → P path = true) :
    (Resource.evaluation ruleset (some P) source).findings =
      (Resource.evaluation ruleset (some Q) source).findings.filter (Finding.standsWith P) := by
  rw [Resource.evaluation, Resource.evaluation]
  split
  · exact Registry.findings_builtin h _
  · rfl

/-- The messages with a probe that finds all that another finds are those with the other,
less those about files it finds. -/
theorem lint_eq_filter {P Q : Probe} (h : ∀ path, Q path = true → P path = true) :
    (Linter.builtin.lint ruleset (some P) source).messages =
      (Linter.builtin.lint ruleset (some Q) source).messages.filter
        fun d => d.finding.standsWith P := by
  have hfaults : ((Stylesheet.ofString source).faults.map Linter.faultDiagnostic).filter
      (fun d => d.finding.standsWith P) =
        (Stylesheet.ofString source).faults.map Linter.faultDiagnostic := by
    refine List.filter_eq_self.mpr fun d hd => Finding.standsWith_iff.mpr fun path hmissing => ?_
    obtain ⟨fault, -, rfl⟩ := List.mem_map.mp hd
    exact absurd hmissing.1 (show faultRule ≠ resourceId by decide)
  rw [lint_builtin, lint_builtin]
  dsimp only
  rw [Diagnostic.filter_sort, List.filter_append, hfaults, List.filter_map,
    evaluation_findings ruleset source h]
  rfl

/-- Whatever is said to be missing is not found by the probe. -/
theorem not_found_of_mem_lint {P : Probe} {d : Diagnostic} {path : String}
    (hd : d ∈ (Linter.builtin.lint ruleset (some P) source).messages)
    (hmissing : d.finding.SaysMissing path) : P (PathTest.localPath path) = false := by
  rw [lint_eq_filter ruleset source fun _ hpath => hpath] at hd
  exact Finding.standsWith_iff.mp (List.mem_filter.mp hd).2 path hmissing

/-- **A probe only ever adds findings about missing files.**  Without a probe the messages
are those with a probe that finds every file.  Two probes are asked for the same files in the
same order.  If one finds all that the other finds, its messages are those of the other, in
their order, without some that say of a path that it names no file, where it does for the one
and does not for the other. -/
theorem lint_probes :
    (Linter.builtin.lint ruleset none source).messages =
        (Linter.builtin.lint ruleset (some fun _ => true) source).messages ∧
      ∀ P Q : Probe,
        (Linter.builtin.lint ruleset (some P) source).asked =
            (Linter.builtin.lint ruleset (some Q) source).asked ∧
          ((∀ path, Q path = true → P path = true) →
            (Linter.builtin.lint ruleset (some P) source).messages.Sublist
                (Linter.builtin.lint ruleset (some Q) source).messages ∧
              ∃ more, (Linter.builtin.lint ruleset (some Q) source).messages.Perm
                  ((Linter.builtin.lint ruleset (some P) source).messages ++ more) ∧
                ∀ d ∈ more, ∃ path, d.finding.SaysMissing path ∧
                  P (PathTest.localPath path) = true ∧ Q (PathTest.localPath path) = false) := by
  refine ⟨?_, fun P Q => ⟨?_, fun h => ?_⟩⟩
  · rw [lint_builtin, lint_builtin, evaluation_findings_none]
  · rw [lint_builtin, lint_builtin]
    exact evaluation_asked ruleset source P Q
  · rw [lint_eq_filter ruleset source h]
    refine ⟨List.filter_sublist, _, (List.filter_append_perm _ _).symm, fun d hd => ?_⟩
    obtain ⟨hmem, hgone⟩ := List.mem_filter.mp hd
    rw [Bool.not_eq_true', ← Bool.not_eq_true, Finding.standsWith_iff] at hgone
    push Not at hgone
    obtain ⟨path, hmissing, hfound⟩ := hgone
    exact ⟨path, hmissing, eq_true_of_ne_false hfound,
      not_found_of_mem_lint ruleset source hmem hmissing⟩

end Sources

/-- One of two files is found by the one probe, and none by the other. -/
theorem lint_probes_twoFiles :
    let source := "a\x7bsrc:url(x)url(y)\x7d"
    let P : Probe := fun path => path == "x"
    let Q : Probe := fun _ => false
    (∀ path, Q path = true → P path = true) ∧
      (Linter.builtin.lint .allWarnings (some P) source).messages.length = 1 ∧
      (Linter.builtin.lint .allWarnings (some Q) source).messages.length = 2 ∧
      (Linter.builtin.lint .allWarnings (some P) source).messages.Sublist
        (Linter.builtin.lint .allWarnings (some Q) source).messages := by
  intro source P Q
  have hmore : ∀ path, Q path = true → P path = true := fun _ h => by cases h
  refine ⟨hmore, ?_, ?_, (((lint_probes .allWarnings source).2 P Q).2 hmore).1⟩
  · rw [lint_builtin]
    simp only [Diagnostic.sort, List.length_mergeSort]
    decide +kernel
  · rw [lint_builtin]
    simp only [Diagnostic.sort, List.length_mergeSort]
    decide +kernel

end SheetLint
