import SheetLint.Proofs.Probing
import SheetLint.Proofs.UrlBlanks

/-! # The tests that are always there

One of these tests finds fault with paths that point at another host, the other with local
paths that name no file.  The first looks at the whole path, the second at what stands in front
of the query and the fragment, and that may point nowhere where the whole path does: brackets
take a `?`, so that `http://[?]` points at another host and `http://[` does not.

What keeps the tests apart is the scheme.  It stands in front of both marks, so that it is left
in the local part, and it is one for `uriScheme?` as well (`uriScheme?_localPath`).  A file is
therefore asked for exactly where the local part is not empty and has no scheme
(`fileOf?_eq_some_iff`), and never for a path that points at another host.  So there is at most
one finding about a reference and at most one question (`evaluateOne_eq`).
-/
namespace SheetLint
open Text

/-! ### The local part of a path -/

/-- The longest beginning of a path without the marks of a query and a fragment. -/
structure IsLocalPart (path file : String) : Prop where
  start : file.toList <+: path.toList
  unmarked : ∀ c ∈ file.toList, c ≠ '?' ∧ c ≠ '#'
  longest : ∀ front, front <+: path.toList → (∀ c ∈ front, c ≠ '?' ∧ c ≠ '#') →
    front.length ≤ file.toList.length

/-- The file that a path names: its local part, unless that is empty or has a scheme. -/
structure NamesFile (path file : String) : Prop where
  isLocalPart : IsLocalPart path file
  ne_empty : file ≠ ""
  no_scheme : uriScheme? file = none

namespace PathTest

/-- Whether a character starts neither a query nor a fragment. -/
def isLocal (c : Char) : Bool := c != '?' && c != '#'

theorem isLocal_iff {c : Char} : isLocal c = true ↔ c ≠ '?' ∧ c ≠ '#' := by
  simp [isLocal]

theorem toList_localPath (path : String) :
    (localPath path).toList = path.toList.takeWhile isLocal := by
  rw [localPath, String.toList_ofList, List.takeWhile_takeWhile]
  congr 1
  funext c
  rw [Bool.eq_iff_iff]
  simp [isLocal, and_comm]

theorem isLocalPart_localPath (path : String) : IsLocalPart path (localPath path) := by
  refine ⟨?_, ?_, ?_⟩ <;> rw [toList_localPath]
  · exact List.takeWhile_prefix isLocal
  · exact fun c hc => isLocal_iff.mp (of_mem_takeWhile c hc)
  · rintro front ⟨more, hmore⟩ hfront
    rw [← hmore, List.takeWhile_append_of_pos fun c hc => isLocal_iff.mpr (hfront c hc),
      List.length_append]
    exact Nat.le_add_right _ _

/-- A path has one local part. -/
theorem eq_localPath {path file : String} (h : IsLocalPart path file) : file = localPath path := by
  have hlocal := isLocalPart_localPath path
  have hlength : file.toList.length = (localPath path).toList.length :=
    Nat.le_antisymm (hlocal.longest _ h.start h.unmarked) (h.longest _ hlocal.start hlocal.unmarked)
  have hstart : file.toList <+: (localPath path).toList :=
    List.prefix_of_prefix_length_le h.start hlocal.start hlength.le
  exact String.toList_inj.mp (hstart.eq_of_length hlength)

end PathTest

/-! ### The schemes of URLs that point at another host -/

namespace ExternalUrl
variable {path scheme : String} {rest : List Char}

/-- A text that points at another host starts with a scheme and its mark. -/
theorem exists_scheme (h : isExternal path = true) :
    ∃ scheme rest, lower scheme ∈ ["ftp", "http", "https"] ∧
      path.toList = scheme.toList ++ ':' :: rest := by
  obtain ⟨url, hurl⟩ := Option.isSome_iff_exists.mp h
  obtain ⟨hparts, rfl⟩ := wellFormed_of_parse? hurl
  exact ⟨url.scheme, _, hparts.scheme, toList_render url⟩

/-- Such a scheme is one of a URI: it has more than one letter. -/
theorem uriScheme?_eq_some (hscheme : lower scheme ∈ ["ftp", "http", "https"])
    (hpath : path.toList = scheme.toList ++ ':' :: rest) : uriScheme? path = some scheme := by
  have hcut : cutAt? [':'] path.toList = some (scheme.toList, rest) :=
    cutAt?_singleton_eq_some_iff.mpr ⟨hpath, colon_not_mem_scheme hscheme⟩
  have hlength : 2 ≤ scheme.toList.length := by
    have hknown : ∀ known ∈ ["ftp", "http", "https"], 2 ≤ known.toList.length := by decide
    have hlower := hknown _ hscheme
    rwa [toList_lower, List.length_map] at hlower
  have halpha : ∀ c ∈ scheme.toList, c.isAlpha = true := fun c => isAlpha_of_mem_scheme hscheme
  match hchars : scheme.toList with
  | [] | [_] => simp [hchars] at hlength
  | c :: d :: cs =>
    rw [hchars] at hcut halpha
    have hletters : (d :: cs).all (fun c => c.isAlphanum || ['+', '-', '.'].contains c) = true := by
      refine List.all_eq_true.mpr fun c hc => ?_
      rw [Char.isAlphanum, halpha c (List.mem_cons_of_mem _ hc)]
      rfl
    simp only [uriScheme?, hcut, halpha c List.mem_cons_self, hletters, Bool.and_self, if_true]
    rw [← hchars, String.ofList_toList]

/-- What points at another host has a scheme. -/
theorem uriScheme?_of_isExternal (h : isExternal path = true) :
    (uriScheme? path).isSome = true := by
  obtain ⟨scheme, rest, hscheme, hpath⟩ := exists_scheme h
  exact Option.isSome_iff_exists.mpr ⟨scheme, uriScheme?_eq_some hscheme hpath⟩

/-- The local part of what points at another host has a scheme, even where it no longer points
there: nothing in front of the colon starts a query or a fragment. -/
theorem uriScheme?_localPath (h : isExternal path = true) :
    (uriScheme? (PathTest.localPath path)).isSome = true := by
  obtain ⟨scheme, rest, hscheme, hpath⟩ := exists_scheme h
  have hmarks : '?'.isAlpha = false ∧ '#'.isAlpha = false ∧ PathTest.isLocal ':' = true := by decide
  have hlocal : ∀ c ∈ scheme.toList, PathTest.isLocal c = true := by
    intro c hc
    have halpha := isAlpha_of_mem_scheme hscheme hc
    rw [PathTest.isLocal_iff]
    constructor <;> rintro rfl <;> simp_all
  have hpart : (PathTest.localPath path).toList =
      scheme.toList ++ ':' :: rest.takeWhile PathTest.isLocal := by
    rw [PathTest.toList_localPath, hpath, List.takeWhile_append_of_pos hlocal,
      List.takeWhile_cons_of_pos hmarks.2.2]
  exact Option.isSome_iff_exists.mpr ⟨scheme, uriScheme?_eq_some hscheme hpart⟩

example : isExternal "http://[?]" = true ∧
    isExternal (PathTest.localPath "http://[?]") = false := by decide +kernel

end ExternalUrl

/-! ### The file asked for -/

namespace PathTest

/-- **Which file is asked for.**  That a local part does not point at another host follows from
its having no scheme. -/
theorem fileOf?_eq_some_iff {path file : String} :
    fileOf? path = some file ↔ NamesFile path file := by
  constructor
  · intro h
    obtain rfl := eq_of_fileOf? h
    simp only [fileOf?] at h
    split at h
    · cases h
    · rename_i hasked
      simp only [Bool.or_eq_true, not_or, Bool.not_eq_true, Option.isSome_eq_false_iff,
        Option.isNone_iff_eq_none] at hasked
      refine ⟨isLocalPart_localPath path, ?_, hasked.2⟩
      intro hempty
      rw [hempty] at hasked
      cases hasked.1.1
  · rintro ⟨hpart, hne, hscheme⟩
    obtain rfl := eq_localPath hpart
    have hinside : isExternal (localPath path) = false := by
      rw [← Bool.not_eq_true]
      intro hexternal
      have hsome := ExternalUrl.uriScheme?_of_isExternal hexternal
      rw [hscheme] at hsome
      cases hsome
    have hempty : (localPath path).isEmpty = false := by
      rw [← Bool.not_eq_true, String.isEmpty_iff]
      exact hne
    simp [fileOf?, hempty, hinside, hscheme]

/-- No file is asked for where a path points at another host. -/
theorem fileOf?_of_isExternal {path : String} (h : isExternal path = true) :
    fileOf? path = none := by
  have hscheme := ExternalUrl.uriScheme?_localPath h
  simp [fileOf?, hscheme]

theorem fileOf?_empty : fileOf? "" = none := by decide

/-- A message holds the path as it is. -/
theorem infix_message (path : String) :
    path.toList <:+: (external.message path).toList ∧
      path.toList <:+: (filesystem.message path).toList := by
  rw [toList_message_external, toList_message_filesystem]
  exact ⟨⟨_, _, rfl⟩, ⟨_, _, rfl⟩⟩

end PathTest

/-! ### What is found about a reference -/

namespace Reference
variable (context : Context) (ref : Reference)

/-- What a test reports about a reference. -/
def report (test : PathTest) : Finding := ⟨resourceId, test.message ref.path, ref.position⟩

/-- The file asked for about a reference: none without a probe. -/
def asked? : Option String := if context.isSome then PathTest.fileOf? ref.path else none

/-- Whether a probe denies the file asked for. -/
def isMissing : Bool := context.any fun probe => (ref.asked? context).any fun file => !probe file

/-- The finding about a reference, if there is one. -/
def finding? : Option Finding :=
  if isExternal ref.path then some (ref.report .external)
  else if ref.isMissing context then some (ref.report .filesystem)
  else none

/-- A file is asked for where there is a probe and the path names one. -/
theorem asked?_eq_some_iff {file : String} :
    ref.asked? context = some file ↔ context.isSome = true ∧ NamesFile ref.path file := by
  rw [asked?]
  split
  · rename_i hprobe
    rw [PathTest.fileOf?_eq_some_iff]
    exact ⟨fun h => ⟨hprobe, h⟩, fun h => h.2⟩
  · rename_i hprobe
    exact ⟨nofun, fun h => absurd h.1 hprobe⟩

theorem isMissing_iff :
    ref.isMissing context = true ↔
      ∃ probe file, context = some probe ∧ NamesFile ref.path file ∧ probe file = false := by
  cases context with
  | none => exact ⟨nofun, nofun⟩
  | some probe =>
    simp only [isMissing, Option.any_some, Option.any_eq_true, asked?_eq_some_iff]
    simp

theorem isMissing_some (probe : Probe) :
    ref.isMissing (some probe) = !(PathTest.fileOf? ref.path).all probe := by
  cases hfile : PathTest.fileOf? ref.path <;> simp [isMissing, asked?, hfile]

/-- No file is asked for about a path that points at another host. -/
theorem asked?_of_isExternal (h : isExternal ref.path = true) : ref.asked? context = none := by
  rw [asked?, PathTest.fileOf?_of_isExternal h, ite_self]

theorem asked?_of_empty (h : ref.path = "") : ref.asked? context = none := by
  rw [asked?, h, PathTest.fileOf?_empty, ite_self]

/-- Nothing is missing where nothing is asked for. -/
theorem isMissing_of_asked? (h : ref.asked? context = none) : ref.isMissing context = false := by
  cases context <;> simp [isMissing, h]

theorem report_external_ne_filesystem : ref.report .external ≠ ref.report .filesystem := by
  intro h
  exact PathTest.message_external_ne_filesystem _ _ (congrArg Finding.message h)

theorem finding?_cases :
    isExternal ref.path = true ∧ ref.finding? context = some (ref.report .external) ∨
      isExternal ref.path = false ∧ ref.isMissing context = true ∧
        ref.finding? context = some (ref.report .filesystem) ∨
      isExternal ref.path = false ∧ ref.isMissing context = false ∧
        ref.finding? context = none := by
  cases hexternal : isExternal ref.path <;> cases hmissing : ref.isMissing context <;>
    simp [finding?, hexternal, hmissing]

theorem finding?_eq_external_iff :
    ref.finding? context = some (ref.report .external) ↔ isExternal ref.path = true := by
  have hne := ref.report_external_ne_filesystem
  obtain ⟨hexternal, hfinding⟩ | ⟨hexternal, -, hfinding⟩ | ⟨hexternal, -, hfinding⟩ :=
    ref.finding?_cases context <;> simp [hexternal, hfinding, hne.symm]

/-- A file that is missing is reported as such: the other test has nothing to report then. -/
theorem finding?_eq_filesystem_iff :
    ref.finding? context = some (ref.report .filesystem) ↔ ref.isMissing context = true := by
  have hne := ref.report_external_ne_filesystem
  obtain ⟨hexternal, hfinding⟩ | ⟨-, hmissing, hfinding⟩ | ⟨-, hmissing, hfinding⟩ :=
    ref.finding?_cases context
  · have hasked := ref.asked?_of_isExternal context hexternal
    simp [hfinding, hne, ref.isMissing_of_asked? context hasked]
  · simp [hfinding, hmissing]
  · simp [hfinding, hmissing]

theorem finding?_of_empty (h : ref.path = "") : ref.finding? context = none := by
  have hexternal : isExternal ref.path = false := by rw [h]; decide
  have hmissing := ref.isMissing_of_asked? context (ref.asked?_of_empty context h)
  simp [finding?, hexternal, hmissing]

/-- What is found and asked about a reference by the tests that are always there. -/
structure Verdict (finding? : Option Finding) (asked? : Option String) : Prop where
  /-- Whatever is found is the report of one of the two tests, at the reference. -/
  report : ∀ finding ∈ finding?, finding = ref.report .external ∨ finding = ref.report .filesystem
  empty : ref.path = "" → finding? = none
  external : finding? = some (ref.report .external) ↔ isExternal ref.path = true
  missing : finding? = some (ref.report .filesystem) ↔
    ∃ probe file, context = some probe ∧ NamesFile ref.path file ∧ probe file = false
  asked : ∀ file, asked? = some file ↔ context.isSome = true ∧ NamesFile ref.path file
  not_asked : isExternal ref.path = true → asked? = none

theorem verdict : ref.Verdict context (ref.finding? context) (ref.asked? context) where
  report finding hfinding := by
    obtain ⟨-, h⟩ | ⟨-, -, h⟩ | ⟨-, -, h⟩ := ref.finding?_cases context <;> rw [h] at hfinding
    · exact .inl (Option.some.inj hfinding).symm
    · exact .inr (Option.some.inj hfinding).symm
    · cases hfinding
  empty := ref.finding?_of_empty context
  external := ref.finding?_eq_external_iff context
  missing := (ref.finding?_eq_filesystem_iff context).trans (ref.isMissing_iff context)
  asked _ := ref.asked?_eq_some_iff context
  not_asked := ref.asked?_of_isExternal context

end Reference

namespace Registry

/-! ### Counting -/

section Counting
variable (registry : Registry) (context : Context)

theorem length_evaluate (test : PathTest) (ref : Reference) :
    (test.evaluate context ref).findings.length =
      if test.isRunnable context && test.fails context ref.path then 1 else 0 := by
  rw [PathTest.evaluate]
  split
  · rename_i hrunnable
    rw [hrunnable, Bool.true_and, PathTest.fails]
    dsimp only
    split <;> rfl
  · rename_i hrunnable
    rw [Bool.not_eq_true] at hrunnable
    rw [hrunnable]
    rfl

/-- Each test that finds fault is counted once. -/
theorem countOne_eq (count : Nat) (ref : Reference) :
    registry.countOne context count ref =
      count + (registry.evaluateOne context ref).findings.length := by
  unfold countOne evaluateOne
  split
  · rfl
  · rw [Evaluation.findings_foldl, List.nil_append]
    induction registry.tests generalizing count with
    | nil => rfl
    | cons test tests ih =>
      rw [List.foldl_cons, ih, List.flatMap_cons, List.length_append, length_evaluate]
      split <;> omega

/-- The count of an evaluation is that of its findings, whatever the tests are. -/
theorem emitted_eq_length (refs : List Reference) :
    registry.emitted context refs = (registry.evaluate context refs).findings.length := by
  have hcount (count : Nat) : refs.foldl (registry.countOne context) count =
      count + (registry.evaluate context refs).findings.length := by
    rw [findings_evaluate]
    induction refs generalizing count with
    | nil => rfl
    | cons ref refs ih =>
      rw [List.foldl_cons, ih, countOne_eq, List.flatMap_cons, List.length_append, Nat.add_assoc]
  rw [emitted, hcount, Nat.zero_add]

end Counting

/-! ### The two tests together -/

/-- About a reference there is at most one finding and at most one question. -/
theorem evaluateOne_eq (context : Context) (ref : Reference) :
    builtin.evaluateOne context ref =
      ⟨(ref.finding? context).toList, (ref.asked? context).toList⟩ := by
  rw [evaluateOne_builtin]
  split
  · rename_i hempty
    have hpath := String.isEmpty_iff.mp hempty
    rw [ref.finding?_of_empty context hpath, ref.asked?_of_empty context hpath]
    rfl
  · have happend (a b : Evaluation) :
        a ++ b = ⟨a.findings ++ b.findings, a.asked ++ b.asked⟩ := rfl
    rw [happend, PathTest.evaluate_external]
    cases context with
    | none =>
      have hnone : PathTest.filesystem.evaluate none ref = {} := rfl
      have hmissing : ref.isMissing none = false := rfl
      rw [hnone, Reference.finding?, hmissing]
      cases isExternal ref.path <;> simp [Reference.report, Reference.asked?]
    | some probe =>
      rw [PathTest.evaluate_filesystem, Reference.finding?, Reference.isMissing_some]
      cases hexternal : isExternal ref.path with
      | true =>
        rw [ref.asked?_of_isExternal _ hexternal, PathTest.fileOf?_of_isExternal hexternal]
        simp [Reference.report]
      | false =>
        cases (PathTest.fileOf? ref.path).all probe <;> simp [Reference.report, Reference.asked?]

/-- **The two tests exclude each other.**  About the references of a list there is, one after
another, at most one finding each, at the reference: that it points at another host exactly if
its path does, that its file is missing exactly if there is a probe and denies the file that the
path names.  The probe is asked once for the file that a path names, in order, and for nothing
else; a path that points at another host names none.  The findings are counted, and both
messages hold the path as it is. -/
theorem builtin_tests_exclusive (context : Context) (refs : List Reference) :
    (builtin.evaluate context refs).findings = refs.filterMap (Reference.finding? context) ∧
      (builtin.evaluate context refs).asked = refs.filterMap (Reference.asked? context) ∧
      (∀ ref : Reference, ref.Verdict context (ref.finding? context) (ref.asked? context)) ∧
      builtin.emitted context refs = (builtin.evaluate context refs).findings.length ∧
      ∀ path : String, path.toList <:+: (PathTest.external.message path).toList ∧
        path.toList <:+: (PathTest.filesystem.message path).toList := by
  refine ⟨?_, ?_, fun ref => ref.verdict context, emitted_eq_length builtin context refs,
    PathTest.infix_message⟩
  · rw [findings_evaluate, List.filterMap_eq_flatMap_toList]
    exact List.flatMap_congr fun ref _ => congrArg Evaluation.findings (evaluateOne_eq context ref)
  · rw [asked_evaluate, List.filterMap_eq_flatMap_toList]
    exact List.flatMap_congr fun ref _ => congrArg Evaluation.asked (evaluateOne_eq context ref)

end Registry

end SheetLint
