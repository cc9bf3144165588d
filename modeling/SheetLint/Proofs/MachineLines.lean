import Mathlib
import SheetLint.Proofs.Origins
import SheetLint.Proofs.QuotedTargets
import SheetLint.Report

/-! # The lines of the machine format

The machine format gives one line to each diagnostic.  It can do so as long as no message
contains a line feed, and messages quote the source.  Of all tokens only a `url(…)` may go over
several lines: line feeds may stand around its target (`lineFeed_not_mem_tokenText`).  They are
no part of the target (`lineFeed_not_mem_urlTarget`), so a message about a path has none; but a
fault quotes the token as it stands.  Such a fault, and nothing else, breaks a line in two
(`lineFeed_mem_message_iff`).
-/
namespace SheetLint
open Pattern Text TokenGrammar

/-! ### Characters that a pattern avoids -/

/-- Whether no set of symbols in the pattern contains the character. -/
def Pattern.avoids (c : Char) : Pattern Char → Bool
  | never | empty => true
  | oneOf s => !s.contains c
  | seq p q | alt p q => p.avoids c && q.avoids c
  | many p => p.avoids c

theorem Pattern.not_mem_of_avoids {c : Char} {p : Pattern Char} {w : List Char}
    (hw : Matches p w) (h : p.avoids c = true) : c ∉ w := by
  induction hw with
  | empty => exact List.not_mem_nil
  | @oneOf s a ha =>
    rw [avoids, Bool.not_eq_true'] at h
    intro hmem
    rw [List.mem_singleton.mp hmem, ha] at h
    cases h
  | seq _ _ ihu ihv =>
    rw [avoids, Bool.and_eq_true] at h
    rw [List.mem_append, not_or]
    exact ⟨ihu h.1, ihv h.2⟩
  | left _ ih =>
    rw [avoids, Bool.and_eq_true] at h
    exact ih h.1
  | right _ ih =>
    rw [avoids, Bool.and_eq_true] at h
    exact ih h.2
  | done => exact List.not_mem_nil
  | more _ _ ihu ihv =>
    rw [List.mem_append, not_or]
    exact ⟨ihu h, ihv h⟩

/-- White space, comments and `url(…)` are all that may contain a line feed. -/
theorem avoids_lineFeed {rule : Option TokenKind × Pattern Char} (hrule : rule ∈ tokenGrammar)
    (hskipped : rule.1 ≠ none) (hurl : rule.1 ≠ some .url) : rule.2.avoids '\n' = true := by
  revert rule
  decide

/-! ### The words of `url(…)` -/

theorem eq_of_matches_letter {small capital : Char} {w : List Char}
    (h : Matches (letter small capital) w) : w = [small] ∨ w = [capital] := by
  obtain ⟨c, hc, rfl⟩ := matches_oneOf_iff.mp h
  simpa using contains_among_iff.mp hc

/-- The letters of a `url(…)` and its parenthesis would make a function. -/
theorem matches_function_opening {u r l : List Char} (hu : Matches (letter 'u' 'U') u)
    (hr : Matches (letter 'r' 'R') r) (hl : Matches (letter 'l' 'L') l) :
    byteSize (u ++ (r ++ (l ++ ['(']))) = 4 ∧
      Matches (seq TokenGrammar.ident (symbol '(')) (u ++ (r ++ (l ++ ['(']))) := by
  have hname {a b c : Char} (ha : Matches nameStart [a])
      (hmore : ∀ d ∈ [b, c], nameRest.contains d = true) :
      Matches (seq TokenGrammar.ident (symbol '(')) [a, b, c, '('] :=
    .seq (u := [a, b, c]) (.seq (u := []) (.right .empty) (.seq (u := []) (.right .empty)
      (.seq (u := [a]) ha (matches_many_of_forall hmore)))) (matches_symbol_iff.mpr rfl)
  rcases eq_of_matches_letter hu with rfl | rfl <;>
    rcases eq_of_matches_letter hr with rfl | rfl <;>
    rcases eq_of_matches_letter hl with rfl | rfl <;>
    exact ⟨rfl, hname (.oneOf (by decide)) (List.all_iff_forall_prop.mp (by decide))⟩

/-- The target of a `url(…)` contains no line feed, and white space stands around it. -/
theorem exists_of_matches_url {w : List Char} (h : Matches TokenGrammar.url w) :
    ∃ opening front target back,
      w = opening ++ (front ++ (target ++ back) ++ [')']) ∧ byteSize opening = 4 ∧
      Matches (seq TokenGrammar.ident (symbol '(')) opening ∧ '\n' ∉ target ∧
      (∀ c ∈ front, isSheetBlank c = true) ∧ ∀ c ∈ back, isSheetBlank c = true := by
  obtain ⟨u, w₁, hu, hw₁, rfl⟩ := matches_seq_iff.mp h
  obtain ⟨r, w₂, hr, hw₂, rfl⟩ := matches_seq_iff.mp hw₁
  obtain ⟨l, w₃, hl, hw₃, rfl⟩ := matches_seq_iff.mp hw₂
  obtain ⟨paren, w₄, hparen, hw₄, rfl⟩ := matches_seq_iff.mp hw₃
  obtain ⟨front, w₅, hfront, hw₅, rfl⟩ := matches_seq_iff.mp hw₄
  obtain ⟨target, w₆, htarget, hw₆, rfl⟩ := matches_seq_iff.mp hw₅
  obtain ⟨back, close, hback, hclose, rfl⟩ := matches_seq_iff.mp hw₆
  obtain rfl := matches_symbol_iff.mp hparen
  obtain rfl := matches_symbol_iff.mp hclose
  have hblank {cs : List Char} (h : Matches padding cs) : ∀ c ∈ cs, isSheetBlank c = true :=
    fun c hc => isSheetBlank_iff.mpr (contains_among_iff.mp (mem_of_matches_many h c hc))
  obtain ⟨hsize, hopening⟩ := matches_function_opening hu hr hl
  exact ⟨_, front, target, back, by simp, hsize, hopening, not_mem_of_avoids htarget (by decide),
    hblank hfront, hblank hback⟩

/-! ### Tokens -/

/-- Where a line feed could still become part of a token, there is a token already. -/
theorem lineFeed_not_mem_of_unreadable {cs w : List Char} (h : Unreadable cs w) : '\n' ∉ w := by
  have hskips : (none, skipped) ∈ tokenGrammar := by decide
  have hslashes : (some .slash, symbol '/') ∈ tokenGrammar := by decide
  have hurls : (some .url, TokenGrammar.url) ∈ tokenGrammar := by decide
  have hfunctions : (some .function, seq TokenGrammar.ident (symbol '(')) ∈ tokenGrammar := by
    decide
  intro hmem
  obtain ⟨c, more, rfl⟩ := List.exists_cons_of_ne_nil h.ne_nil
  have hfirst : [c] <+: cs := (List.prefix_append [c] more).trans h.isPrefix
  have hblank : c ∉ blanks := h.head_not_blank c rfl
  rcases h.starts_word with hone | ⟨rule, hrule, u, hword⟩
  · obtain ⟨d, hd⟩ := List.length_eq_one_iff.mp hone
    rw [hd, List.mem_singleton] at hmem
    exact hblank (by rw [(List.cons.inj hd).1, ← hmem]; decide)
  by_cases hskipped : rule.1 = none
  · -- what is skipped starts with white space, or with a slash, which is a token
    obtain rfl := rule_eq_of_kind hrule hskips hskipped
    rcases matches_alt_iff.mp hword with hblanks | hcomment
    · obtain ⟨v, rest, hv, -, hsplit⟩ := matches_seq_iff.mp hblanks
      obtain ⟨d, hd, rfl⟩ := matches_oneOf_iff.mp hv
      obtain rfl : c = d := (List.cons.inj hsplit).1
      exact hblank (contains_among_iff.mp hd)
    · obtain ⟨inside, hsplit, -⟩ := matches_comment hcomment
      obtain rfl : c = '/' := (List.cons.inj hsplit).1
      exact h.not_matches _ hslashes ['/'] hfirst (List.cons_ne_nil _ _)
        (matches_symbol_iff.mpr rfl)
  by_cases hurl : rule.1 = some .url
  · -- the line feed stands behind the parenthesis, up to which there is a function
    obtain rfl := rule_eq_of_kind hrule hurls hurl
    obtain ⟨opening, front, target, back, hsplit, hsize, hopening, -⟩ :=
      exists_of_matches_url hword
    have hplain : '\n' ∉ opening := not_mem_of_avoids hopening (by decide)
    have hstart : opening <+: c :: more := by
      refine (List.prefix_or_prefix_of_prefix (List.prefix_append opening _)
        (hsplit ▸ List.prefix_append (c :: more) u)).resolve_right fun hw => ?_
      exact hplain (hw.subset hmem)
    have hne : opening ≠ [] := by
      rintro rfl
      cases hsize
    exact h.not_matches _ hfunctions opening (hstart.trans h.isPrefix) hne hopening
  · exact not_mem_of_avoids hword (avoids_lineFeed hrule hskipped hurl)
      (List.mem_append_left u hmem)

section Tokens
variable {src : Source} {t : Token}

theorem matches_of_piece {kind : TokenKind} {p : Pattern Char} {cs w : List Char}
    (hrule : (some kind, p) ∈ tokenGrammar) (h : Piece cs (some kind) w) : Matches p w := by
  have hproper : ∀ rule ∈ tokenGrammar, rule.1 ≠ some .error := by decide
  generalize hkind : some kind = made at h hrule
  cases h with
  | longestMatch h =>
    obtain ⟨rule, hmem, hmade, hmatches⟩ := h.exists_rule
    obtain rfl := rule_eq_of_kind hmem hrule hmade
    exact hmatches
  | error => exact absurd rfl (hproper _ hrule)

/-- Of all tokens, only a `url(…)` may go over several lines. -/
theorem lineFeed_not_mem_tokenText {kind : TokenKind} (ht : t ∈ src.tokens)
    (hkind : t.kind = kind) (heof : kind ≠ .eof) (hurl : kind ≠ .url) :
    '\n' ∉ (src.tokenText t).toList := by
  obtain ⟨w, rest, hpiece, htext⟩ := exists_piece ht (hkind ▸ heof)
  rw [htext]
  rw [hkind] at hpiece
  cases hpiece with
  | longestMatch h =>
    obtain ⟨rule, hrule, hkind, hmatches⟩ := h.exists_rule
    refine not_mem_of_avoids hmatches (avoids_lineFeed hrule ?_ ?_)
    · rw [hkind]
      exact nofun
    · rw [hkind]
      exact fun h => hurl (Option.some.inj h)
  | error h => exact lineFeed_not_mem_of_unreadable h

end Tokens

/-! ### Paths -/

/-- The line feeds of a `url(…)` are no part of what it points at. -/
theorem lineFeed_not_mem_urlTarget {text : String} (h : Matches TokenGrammar.url text.toList) :
    '\n' ∉ (urlTarget text).toList := by
  obtain ⟨opening, front, target, back, hsplit, hsize, -, htarget, hfront, hback⟩ :=
    exists_of_matches_url h
  intro hmem
  rw [urlTarget, hsplit, insideUrl_append hsize, trimBy_surrounded target hfront hback] at hmem
  have hinside := mem_of_mem_unquote hmem
  rw [String.toList_ofList] at hinside
  exact htarget (mem_of_mem_trimBy hinside)

section Paths
variable {src : Source} {t : Token}

theorem lineFeed_not_mem_urlToken (ht : t ∈ src.tokens) (hurl : t.kind = .url) :
    '\n' ∉ (urlTarget (src.tokenText t)).toList := by
  obtain ⟨w, rest, hpiece, htext⟩ := exists_piece ht (by rw [hurl]; exact nofun)
  have hurls : (some t.kind, TokenGrammar.url) ∈ tokenGrammar := by
    rw [hurl]
    decide
  refine lineFeed_not_mem_urlTarget ?_
  rw [htext]
  exact matches_of_piece hurls hpiece

theorem lineFeed_not_mem_importTarget {path : String} (ht : t ∈ src.tokens)
    (h : src.importTarget? t = some path) : '\n' ∉ path.toList := by
  unfold Source.importTarget? at h
  split at h
  · rename_i hurl
    obtain rfl := Option.some.inj h
    exact lineFeed_not_mem_urlToken ht hurl
  · rename_i hstring
    obtain rfl := Option.some.inj h
    have hplain := lineFeed_not_mem_tokenText ht hstring nofun nofun
    exact fun hmem => hplain (mem_of_mem_unquote hmem)
  · cases h

theorem MentionedAt.lineFeed_not_mem {ref : Reference} (ht : t ∈ src.tokens)
    (h : MentionedAt src t ref) : '\n' ∉ ref.path.toList := by
  cases h with
  | url hkind hpath =>
    rw [hpath]
    exact lineFeed_not_mem_urlToken ht hkind
  | importRule _ _ htarget hpath => exact lineFeed_not_mem_importTarget htarget hpath

end Paths

/-! ### Messages -/

theorem lineFeed_not_mem_name (expected : Expected) : '\n' ∉ expected.name.toList := by
  cases expected <;> simp [Expected.name, TokenKind.name]

/-- What the message for a fault quotes. -/
def FaultKind.quoted : FaultKind → String
  | unexpectedToken _ (some text) => text
  | unknownAtRule name => name
  | emptyValue property => property
  | unexpectedToken _ none | unexpectedEnd _ | missingImportTarget => ""

theorem FaultKind.lineFeed_mem_message (kind : FaultKind) :
    '\n' ∈ kind.message.toList ↔ '\n' ∈ kind.quoted.toList := by
  have hname := lineFeed_not_mem_name
  cases kind with
  | unexpectedToken expected found =>
    cases found with
    | none =>
      change '\n' ∈ ("unexpected token: expected " ++ expected.name ++ ", found " ++
        TokenKind.eof.name).toList ↔ '\n' ∈ "".toList
      simp [hname, TokenKind.name]
    | some text =>
      change '\n' ∈ ("unexpected token: expected " ++ expected.name ++ ", found '" ++ text ++
        "'").toList ↔ '\n' ∈ text.toList
      simp [hname]
  | unexpectedEnd expected =>
    change '\n' ∈ ("unexpected end of file: expected " ++ expected.name).toList ↔
      '\n' ∈ "".toList
    simp [hname]
  | unknownAtRule name =>
    change '\n' ∈ ("unknown @ rule: " ++ name).toList ↔ '\n' ∈ name.toList
    simp
  | missingImportTarget =>
    change '\n' ∈ "@import is missing its target".toList ↔ '\n' ∈ "".toList
    simp
  | emptyValue property =>
    change '\n' ∈ ("expected a value for property '" ++ property ++ "'").toList ↔
      '\n' ∈ property.toList
    simp

theorem lineFeed_not_mem_message_test {test : PathTest} (htest : test ∈ Registry.builtin.tests)
    {path : String} (h : '\n' ∉ path.toList) : '\n' ∉ (test.message path).toList := by
  have htests : Registry.builtin.tests = [.external, .filesystem] := rfl
  rw [htests] at htest
  rcases List.mem_pair.mp htest with rfl | rfl
  · rw [PathTest.toList_message_external]
    simp [h]
  · rw [PathTest.toList_message_filesystem]
    simp [h]

/-- A fault quotes a `url(…)` that goes over several lines, and so does the diagnostic. -/
def QuotesUrlAcrossLines (src : Source) (d : Diagnostic) : Prop :=
  ∃ t ∈ src.tokens, t.kind = .url ∧ '\n' ∈ (src.tokenText t).toList ∧
    ∃ fault ∈ (Stylesheet.read src).faults, fault.span = t.span ∧
      (∃ expected, fault.kind = .unexpectedToken expected (some (src.tokenText t))) ∧
      d = Linter.faultDiagnostic fault

section Messages
variable {src : Source} {t : Token}

/-- Only a letter is made small, and that makes another letter. -/
theorem eq_lineFeed_of_toLower {c : Char} (h : c.toLower = '\n') : c = '\n' := by
  have hupper : c.isUpper = false := by
    have halpha := Char.isAlpha_toLower_eq_isAlpha c
    rw [h] at halpha
    exact (Bool.or_eq_false_iff.mp halpha.symm).1
  rw [← h, Char.toLower_eq_of_not_isUpper (Bool.not_eq_true _ ▸ hupper)]

theorem lineFeed_not_mem_lower {text : String} (h : '\n' ∉ text.toList) :
    '\n' ∉ (lower text).toList := by
  rw [toList_lower, List.mem_map]
  rintro ⟨c, hc, heq⟩
  exact h (eq_lineFeed_of_toLower heq ▸ hc)

theorem lineFeed_not_mem_propertyName {starred : Bool} {word : String}
    (h : '\n' ∉ word.toList) : '\n' ∉ (propertyName starred word).1.toList := by
  unfold propertyName
  split
  · exact h
  · split
    · rename_i rest hword
      rw [hword] at h
      rw [String.toList_ofList]
      exact fun hmem => h (List.mem_cons_of_mem _ hmem)
    · exact h

/-- Of what can be noted at a token, only an unexpected `url(…)` gets a line feed into the
message. -/
theorem CausedAt.eq_unexpectedToken {kind : FaultKind} (ht : t ∈ src.tokens)
    (h : CausedAt src t kind) (hmem : '\n' ∈ kind.quoted.toList) :
    t.kind = .url ∧ '\n' ∈ (src.tokenText t).toList ∧
      ∃ expected, kind = .unexpectedToken expected (some (src.tokenText t)) := by
  cases h with
  | unexpected expected =>
    split at hmem
    · simp [FaultKind.quoted] at hmem
    · rename_i heof
      refine ⟨?_, hmem, expected, by rw [if_neg heof]⟩
      by_contra hurl
      exact lineFeed_not_mem_tokenText ht rfl heof hurl hmem
  | ended | noTarget => simp [FaultKind.quoted] at hmem
  | unknown hkind hname =>
    have hplain := lineFeed_not_mem_tokenText ht hkind nofun nofun
    rcases hname with rfl | rfl
    · exact absurd hmem hplain
    · exact absurd hmem (lineFeed_not_mem_lower hplain)
  | noValue hword hkind starred =>
    have hplain := lineFeed_not_mem_tokenText hword hkind nofun nofun
    exact absurd hmem (lineFeed_not_mem_propertyName hplain)

/-- A message contains a line feed only if it quotes a `url(…)` that does. -/
theorem lineFeed_mem_message_iff {ruleset : RuleSet} {d : Diagnostic} (ht : t ∈ src.tokens)
    (h : Reports ruleset src d t) : '\n' ∈ d.message.toList ↔ QuotesUrlAcrossLines src d := by
  constructor
  · intro hmem
    cases h with
    | fault hfault hspan hcause hd =>
      rw [hd, Linter.faultDiagnostic, FaultKind.lineFeed_mem_message] at hmem
      obtain ⟨hurl, htext, hkind⟩ := hcause.eq_unexpectedToken ht hmem
      exact ⟨t, ht, hurl, htext, _, hfault, hspan, hkind, hd⟩
    | reference htest hmentioned hd =>
      rw [hd] at hmem
      exact absurd hmem
        (lineFeed_not_mem_message_test htest (hmentioned.lineFeed_not_mem ht))
  · rintro ⟨u, -, -, htext, fault, -, -, ⟨expected, hkind⟩, rfl⟩
    rw [Linter.faultDiagnostic, FaultKind.lineFeed_mem_message, hkind]
    exact htext

end Messages

/-! ### Lines -/

/-- Lines that contain no line feed, with one behind each of them, are what the text is cut
into; behind the last one stands nothing. -/
theorem pieces_lines_iff {lines : List (List Char)} :
    pieces (· == '\n') (lines.flatMap fun line => line ++ ['\n']) = lines ++ [[]] ↔
      ∀ line ∈ lines, '\n' ∉ line := by
  constructor
  · intro h line hline hmem
    have hpiece : line ∈ pieces (· == '\n') (lines.flatMap fun line => line ++ ['\n']) := by
      rw [h]
      exact List.mem_append_left _ hline
    exact absurd (not_sep_of_mem_pieces hpiece '\n' hmem) (by decide)
  · intro h
    induction lines with
    | nil => rfl
    | cons line lines ih =>
      obtain ⟨hline, hlines⟩ := List.forall_mem_cons.mp h
      rw [List.flatMap_cons, List.append_assoc, List.singleton_append,
        pieces_append_cons (by decide), pieces_of_not_mem hline, ih hlines]
      rfl

/-- The line of a diagnostic in the machine format: its severity, where it stands, what it says
and which rule says so. -/
def machineLine (path : String) (d : Diagnostic) : String :=
  d.severity.mark ++ " " ++ path ++ ":" ++ toString d.position.line ++ ":" ++
    toString d.position.column ++ " " ++ d.message ++ " (" ++ d.rule ++ ")"

theorem toList_render_machine (messages : List Diagnostic) (path source : String) :
    (Report.render .machine messages path source).toList =
      (messages.map fun d => (machineLine path d).toList).flatMap fun line => line ++ ['\n'] := by
  rw [Report.render, String.toList_join, List.flatMap_map, List.flatMap_map]
  refine List.flatMap_congr fun d _ => ?_
  simp [Report.machine, Report.place, Report.remark, Position.render, machineLine]

theorem lineFeed_not_mem_toString (n : Nat) : '\n' ∉ (toString n).toList := by
  intro hmem
  have hdigits : '\n' ∈ Nat.toDigits 10 n := by simpa [Nat.toString_eq_repr, Nat.repr] using hmem
  exact absurd (Nat.isDigit_of_mem_toDigits (by decide) (by decide) hdigits) (by decide)

/-- All that a line adds to the message is free of line feeds. -/
theorem count_machineLine {ruleset : RuleSet} {src : Source} {d : Diagnostic} {t : Token}
    {path : String} (hpath : '\n' ∉ path.toList) (h : Reports ruleset src d t) :
    (machineLine path d).toList.count '\n' = d.message.toList.count '\n' := by
  have hrule : '\n' ∉ d.rule.toList := by
    cases h with
    | fault _ _ _ hd =>
      rw [hd]
      simp [Linter.faultDiagnostic, faultRule]
    | reference _ _ hd =>
      rw [hd]
      simp [Linter.diagnostic, resourceId]
  have hmark : '\n' ∉ d.severity.mark.toList := by
    cases d.severity <;> simp [Severity.mark]
  have hline := lineFeed_not_mem_toString d.position.line
  have hcolumn := lineFeed_not_mem_toString d.position.column
  simp only [machineLine, String.toList_append, List.count_append,
    List.count_eq_zero_of_not_mem hrule, List.count_eq_zero_of_not_mem hmark,
    List.count_eq_zero_of_not_mem hpath, List.count_eq_zero_of_not_mem hline,
    List.count_eq_zero_of_not_mem hcolumn]
  simp

theorem count_render_machine {messages : List Diagnostic} {path : String}
    (h : ∀ d ∈ messages,
      (machineLine path d).toList.count '\n' = d.message.toList.count '\n') (source : String) :
    (Report.render .machine messages path source).toList.count '\n' =
      messages.length + (messages.map fun d => d.message.toList.count '\n').sum := by
  rw [toList_render_machine]
  induction messages with
  | nil => rfl
  | cons d messages ih =>
    obtain ⟨hd, hmessages⟩ := List.forall_mem_cons.mp h
    rw [List.map_cons, List.flatMap_cons, List.count_append, ih hmessages, List.count_append, hd,
      List.count_singleton_self, List.length_cons, List.map_cons, List.sum_cons]
    omega

/-- **The machine format breaks a line only at a `url(…)`.**  For a path without a line feed,
the output consists of one line for each message, exactly if no message quotes an unexpected
`url(…)` that goes over several lines.  There are as many line feeds as messages and line feeds
in messages, and these come from nowhere else. -/
theorem machine_oneLineEach_iff (ruleset : RuleSet) (context : Context) (text path : String)
    (hpath : '\n' ∉ path.toList) :
    let src := Source.ofString text
    let messages := (Linter.builtin.lint ruleset context text).messages
    let output := Report.render .machine messages path text
    (pieces (· == '\n') output.toList =
        (messages.map fun d => (machineLine path d).toList) ++ [[]] ↔
      ∀ d ∈ messages, ¬ QuotesUrlAcrossLines src d) ∧
    (∀ d ∈ messages, '\n' ∈ d.message.toList ↔ QuotesUrlAcrossLines src d) ∧
    output.toList.count '\n' =
      messages.length + (messages.map fun d => d.message.toList.count '\n').sum := by
  intro src messages output
  have hmessage : ∀ d ∈ messages, '\n' ∈ d.message.toList ↔ QuotesUrlAcrossLines src d := by
    intro d hd
    obtain ⟨t, ht, hreports, -⟩ := exists_reports hd
    exact lineFeed_mem_message_iff ht hreports
  have hcount : ∀ d ∈ messages,
      (machineLine path d).toList.count '\n' = d.message.toList.count '\n' := by
    intro d hd
    obtain ⟨t, -, hreports, -⟩ := exists_reports hd
    exact count_machineLine hpath hreports
  refine ⟨?_, hmessage, ?_⟩
  · rw [toList_render_machine, pieces_lines_iff, List.forall_mem_map]
    refine forall₂_congr fun d hd => not_congr ?_
    rw [← hmessage d hd, ← List.count_pos_iff, hcount d hd, List.count_pos_iff]
  · exact count_render_machine hcount text

/-- A resource that is named on a line of its own is reported on one line. -/
theorem machine_oneLineEach_resource :
    let text := "a\x7bsrc:url(\nhttp://b.c/d\n)\x7d"
    let messages := (Linter.builtin.lint .allWarnings none text).messages
    '\n' ∉ "a.css".toList ∧ messages.length = 1 ∧
      pieces (· == '\n') (Report.render .machine messages "a.css" text).toList =
        (messages.map fun d => (machineLine "a.css" d).toList) ++ [[]] := by
  intro text messages
  have hpath : '\n' ∉ "a.css".toList := by decide
  have hfaults : (Stylesheet.read (.ofString text)).faults = [] := by decide +kernel
  refine ⟨hpath, ?_, ?_⟩
  · simp only [messages, lint_builtin, Diagnostic.sort, List.length_mergeSort]
    decide +kernel
  · refine (machine_oneLineEach_iff .allWarnings none text "a.css" hpath).1.mpr fun d _ => ?_
    rintro ⟨t, -, -, -, fault, hfault, -⟩
    rw [hfaults] at hfault
    cases hfault

/-- A `url(…)` in the place of a property breaks the line of its message in two. -/
theorem machine_brokenLine :
    let text := "a\x7burl(\nb)\x7d"
    let messages := (Linter.builtin.lint .allWarnings none text).messages
    let output := Report.render .machine messages "a.css" text
    '\n' ∉ "a.css".toList ∧ messages.length = 1 ∧ output.toList.count '\n' = 2 ∧
      output = "ERROR a.css:1:3 unexpected token: expected a property name, found 'url(\nb)'" ++
        " (parse-error)\n" := by
  intro text messages output
  have hmessages : messages = [Linter.faultDiagnostic
      ⟨.unexpectedToken .propertyName (some "url(\nb)"), ⟨2, 9⟩, ⟨1, 3⟩⟩] := by
    have hfindings : (Resource.evaluation .allWarnings none text).findings = [] := by
      decide +kernel
    have hfaults : (Stylesheet.ofString text).faults =
        [⟨.unexpectedToken .propertyName (some "url(\nb)"), ⟨2, 9⟩, ⟨1, 3⟩⟩] := by
      decide +kernel
    simp only [messages, lint_builtin, hfindings, hfaults, Diagnostic.sort, List.map_nil,
      List.nil_append, List.map_cons, List.mergeSort_singleton]
  have houtput : output =
      "ERROR a.css:1:3 unexpected token: expected a property name, found 'url(\nb)'" ++
        " (parse-error)\n" := by
    simp only [output, hmessages]
    decide +kernel
  refine ⟨by decide, by rw [hmessages, List.length_singleton], ?_, houtput⟩
  rw [houtput]
  decide +kernel

end SheetLint
