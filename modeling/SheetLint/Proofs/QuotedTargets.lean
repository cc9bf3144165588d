import Mathlib.Data.Bool.AllAny
import SheetLint.Proofs.LongestMatch
import SheetLint.Proofs.Reading
import SheetLint.Proofs.Steps

/-! # Quoted targets come back

A target may be written between quotes, by itself or in a `url(…)`.  `quotation` writes a text
so: a backslash goes in front of each quote of the sort in use and of each backslash.

Three functions take part in reading it back.  The token grammar finds the end of the
quotation, `unquote` and `urlTarget` take off what surrounds the text, and `unescape` drops the
backslashes again.  They undo what `quotation` does for every text without a line feed, also
in an `@import` (`quotedTargets_roundTrip`).
-/
namespace SheetLint
open Pattern TokenGrammar Text

/-! ### Escaping -/

/-- The text with a backslash put in front of each of the given characters. -/
def escaped (marks : List Char) (cs : List Char) : List Char :=
  cs.flatMap fun c => if c ∈ marks then [backslash, c] else [c]

section Escaping
variable {marks : List Char} {c : Char} (cs : List Char)

theorem escaped_cons_of_mem (hc : c ∈ marks) :
    escaped marks (c :: cs) = backslash :: c :: escaped marks cs := by
  simp [escaped, hc]

theorem escaped_cons_of_not_mem (hc : c ∉ marks) :
    escaped marks (c :: cs) = c :: escaped marks cs := by
  simp [escaped, hc]

theorem unescape_backslash (c : Char) :
    unescape (backslash :: c :: cs) = c :: unescape cs := by
  simp [unescape]

theorem unescape_cons (hc : c ≠ backslash) : unescape (c :: cs) = c :: unescape cs := by
  cases cs <;> simp [unescape, hc]

/-- Escaping is undone, provided that backslashes are escaped too. -/
theorem unescape_escaped_append (h : backslash ∈ marks) (rest : List Char) :
    unescape (escaped marks cs ++ rest) = cs ++ unescape rest := by
  induction cs with
  | nil => rfl
  | cons c cs ih =>
    by_cases hc : c ∈ marks
    · rw [escaped_cons_of_mem cs hc, List.cons_append, List.cons_append, unescape_backslash, ih,
        List.cons_append]
    · have hne : c ≠ backslash := fun heq => hc (heq ▸ h)
      rw [escaped_cons_of_not_mem cs hc, List.cons_append, unescape_cons _ hne, ih,
        List.cons_append]

theorem unescape_escaped (h : backslash ∈ marks) : unescape (escaped marks cs) = cs := by
  have happend := unescape_escaped_append cs h []
  rwa [List.append_nil, unescape, List.append_nil] at happend

end Escaping

/-! ### Quotations -/

/-- The text between quotes. -/
def quotation (quote : Char) (target : String) : String :=
  String.ofList (quote :: (escaped [quote, backslash] target.toList ++ [quote]))

/-- A `url(…)` with a quoted target and the given texts around the quotation. -/
def quotedUrl (before : String) (quote : Char) (target behind : String) : String :=
  "url(" ++ before ++ quotation quote target ++ behind ++ ")"

/-- The two sorts of quotes. -/
def quotes : List Char := [doubleQuote, singleQuote]

/-- How a `url(…)` starts. -/
def urlOpening : List Char := ['u', 'r', 'l', '(']

section Reading
variable {quote : Char} {before target behind : String}

theorem toList_quotation (quote : Char) (target : String) :
    (quotation quote target).toList =
      quote :: (escaped [quote, backslash] target.toList ++ [quote]) :=
  String.toList_ofList

theorem stripQuotes_quoted (hquote : quote ∈ quotes) (cs : List Char) :
    stripQuotes (quote :: (cs ++ [quote])) = cs := by
  have hsort : quote = doubleQuote ∨ quote = singleQuote := by simpa [quotes] using hquote
  obtain ⟨d, ds, hsplit⟩ := List.exists_cons_of_ne_nil (List.concat_ne_nil quote cs)
  have hlast : (d :: ds).getLast? = some quote := by rw [← hsplit, List.getLast?_concat]
  rw [hsplit, stripQuotes, if_pos ⟨hsort, hlast⟩, ← hsplit, List.dropLast_concat]

theorem unquote_quotation (hquote : quote ∈ quotes) (target : String) :
    unquote (quotation quote target) = target := by
  rw [unquote, toList_quotation, stripQuotes_quoted hquote, unescape_escaped _ (by simp),
    String.ofList_toList]

theorem isSheetBlank_iff {c : Char} : isSheetBlank c = true ↔ c ∈ blanks := by
  simp [isSheetBlank, blanks, or_assoc]

/-- Between the four characters up to its parenthesis and the last character of a `url(…)`
stands its inside. -/
theorem insideUrl_append {opening : List Char} (h : byteSize opening = 4) (cs : List Char) :
    insideUrl (opening ++ (cs ++ [')'])) = cs := by
  have hdrop : dropBytes? 4 (opening ++ (cs ++ [')'])) = some (cs ++ [')']) := by
    rw [← h, dropBytes?_append]
  have hsize : byteSize (cs ++ [')']) = byteSize cs + 1 := byteSize_append cs [')']
  rw [insideUrl, hdrop]
  simp only [Option.bind_eq_bind, Option.bind_some, hsize, Nat.add_one_ne_zero, if_false,
    Nat.add_sub_cancel, charsIn?_append]
  exact List.take_left

theorem toList_url (before inside behind : String) :
    ("url(" ++ before ++ inside ++ behind ++ ")").toList =
      urlOpening ++ ((before.toList ++ (inside.toList ++ behind.toList)) ++ [')']) := by
  simp [urlOpening]

/-- A `url(…)` points at what stands inside it, without the white space around that. -/
theorem urlTarget_url (before inside behind : String) :
    urlTarget ("url(" ++ before ++ inside ++ behind ++ ")") =
      unquote (String.ofList
        (trimBy isSheetBlank (before.toList ++ (inside.toList ++ behind.toList)))) := by
  rw [urlTarget, toList_url, insideUrl_append rfl]

theorem urlTarget_quotedUrl (hquote : quote ∈ quotes)
    (hbefore : ∀ c ∈ before.toList, c ∈ blanks) (hbehind : ∀ c ∈ behind.toList, c ∈ blanks) :
    urlTarget (quotedUrl before quote target behind) = target := by
  have hblank : isSheetBlank quote = false := by
    have hquotes : ∀ c ∈ quotes, isSheetBlank c = false :=
      List.all_iff_forall_prop.mp (by decide)
    exact hquotes quote hquote
  have htrim : trimBy isSheetBlank
      (before.toList ++ ((quotation quote target).toList ++ behind.toList)) =
        (quotation quote target).toList := by
    refine trimBy_append (fun c hc => isSheetBlank_iff.mpr (hbefore c hc))
      (fun c hc => isSheetBlank_iff.mpr (hbehind c hc)) ?_ ?_
    · simpa [toList_quotation] using hblank
    · simpa [toList_quotation] using hblank
  rw [quotedUrl, urlTarget_url, htrim, String.ofList_toList, unquote_quotation hquote]

end Reading

/-! ### Words of the grammar -/

section Words
variable {quote : Char} {before target behind : String}

/-- An escaped text without a line feed has nothing bare in it that is to be escaped. -/
theorem matches_escaped {marks excluded cs : List Char}
    (hmarks : ∀ c ∈ excluded, c ∈ marks ∨ c = '\n') (hcs : '\n' ∉ cs) :
    Matches (many (alt (oneOf (.except excluded)) escape)) (escaped marks cs) := by
  induction cs with
  | nil => exact .done
  | cons c cs ih =>
    rw [List.mem_cons, not_or] at hcs
    have hc : c ≠ '\n' := Ne.symm hcs.1
    by_cases hmark : c ∈ marks
    · have hpair : Matches escape [backslash, c] :=
        .seq (matches_symbol_iff.mpr rfl) (.oneOf (contains_except_iff.mpr (by simpa using hc)))
      rw [escaped_cons_of_mem cs hmark]
      exact .more (.right hpair) (ih hcs.2)
    · have hplain : c ∉ excluded := by
        intro hmem
        rcases hmarks c hmem with h | h
        · exact hmark h
        · exact hc h
      rw [escaped_cons_of_not_mem cs hmark]
      exact .more (.left (.oneOf (contains_except_iff.mpr hplain))) (ih hcs.2)

theorem matches_quotation (htarget : '\n' ∉ target.toList) :
    Matches (quoted quote) (quotation quote target).toList := by
  have hmarks : ∀ c ∈ [quote, backslash, '\n'], c ∈ [quote, backslash] ∨ c = '\n' := by simp
  rw [toList_quotation]
  exact .seq (matches_symbol_iff.mpr rfl)
    (.seq (matches_escaped hmarks htarget) (matches_symbol_iff.mpr rfl))

theorem matches_string (hquote : quote ∈ quotes) (htarget : '\n' ∉ target.toList) :
    Matches (alt (quoted doubleQuote) (quoted singleQuote)) (quotation quote target).toList := by
  rcases List.mem_pair.mp hquote with rfl | rfl
  · exact .left (matches_quotation htarget)
  · exact .right (matches_quotation htarget)

theorem matches_padding {cs : List Char} (h : ∀ c ∈ cs, c ∈ blanks) : Matches padding cs :=
  matches_many_of_forall fun c hc => contains_among_iff.mpr (h c hc)

theorem matches_letter {small capital : Char} : Matches (letter small capital) [small] :=
  .oneOf (contains_among_iff.mpr List.mem_cons_self)

theorem matches_url {inside : String}
    (hinside : Matches (alt (quoted doubleQuote) (alt (quoted singleQuote) bareTarget))
      inside.toList)
    (hbefore : ∀ c ∈ before.toList, c ∈ blanks) (hbehind : ∀ c ∈ behind.toList, c ∈ blanks) :
    Matches TokenGrammar.url ("url(" ++ before ++ inside ++ behind ++ ")").toList := by
  have hletters : ("url(" ++ before ++ inside ++ behind ++ ")").toList =
      ['u'] ++ (['r'] ++ (['l'] ++ (['('] ++ (before.toList ++
        (inside.toList ++ (behind.toList ++ [')'])))))) := by
    rw [toList_url]
    simp [urlOpening]
  rw [hletters]
  exact .seq matches_letter (.seq matches_letter (.seq matches_letter
    (.seq (matches_symbol_iff.mpr rfl) (.seq (matches_padding hbefore)
      (.seq hinside (.seq (matches_padding hbehind) (matches_symbol_iff.mpr rfl)))))))

theorem matches_quotedUrl (hquote : quote ∈ quotes) (htarget : '\n' ∉ target.toList)
    (hbefore : ∀ c ∈ before.toList, c ∈ blanks) (hbehind : ∀ c ∈ behind.toList, c ∈ blanks) :
    Matches TokenGrammar.url (quotedUrl before quote target behind).toList := by
  refine matches_url ?_ hbefore hbehind
  rcases List.mem_pair.mp hquote with rfl | rfl
  · exact .left (matches_quotation htarget)
  · exact .right (.left (matches_quotation htarget))

end Words

/-! ### What does not go on -/

section Ends
variable {w : List Char} {rule : Option TokenKind × Pattern Char}

/-- What starts a name may stand inside one. -/
theorem nameRest_of_startsName {c : Char} (h : startsName c = true) :
    nameRest.contains c = true := by
  rw [startsName_iff] at h
  simp only [nameRest, SymbolSet.within, SymbolSet.contains]
  rcases h with h | h | h <;> simp [h]

theorem mem_of_matches_name (h : Matches TokenGrammar.name w) :
    ∀ c ∈ w, nameRest.contains c = true := by
  obtain ⟨c, more, rfl, hc, hmore⟩ := matches_name h
  exact List.forall_mem_cons.mpr ⟨nameRest_of_startsName hc, hmore⟩

/-- A hyphen in front of a name is a character of names too. -/
theorem mem_of_matches_hyphen {p : Pattern Char}
    (hp : ∀ {w}, Matches p w → ∀ c ∈ w, nameRest.contains c = true)
    (h : Matches (seq hyphen p) w) : ∀ c ∈ w, nameRest.contains c = true := by
  obtain ⟨u, v, hu, hv, rfl⟩ := matches_seq_iff.mp h
  rw [List.forall_mem_append]
  refine ⟨?_, hp hv⟩
  rcases matches_hyphen hu with rfl | rfl
  · exact List.all_iff_forall_prop.mp (by decide)
  · exact nofun

theorem mem_of_matches_hyphen_name (h : Matches (seq hyphen TokenGrammar.name) w) :
    ∀ c ∈ w, nameRest.contains c = true :=
  mem_of_matches_hyphen mem_of_matches_name h

theorem mem_of_matches_ident (h : Matches TokenGrammar.ident w) :
    ∀ c ∈ w, nameRest.contains c = true :=
  mem_of_matches_hyphen mem_of_matches_hyphen_name h

/-- A keyword has no other characters behind its `@` than those of names. -/
theorem not_matches_keyword {c : Char} (hc : nameRest.contains c = false) (hmem : c ∈ w)
    (hrule : rule ∈ tokenGrammar) : ¬ Matches rule.2 ('@' :: w) := by
  intro h
  have hkeywords : (some .atKeyword, seq (symbol '@') (seq hyphen TokenGrammar.name)) ∈
      tokenGrammar := by decide
  have hkeyword := matches_of_reading hrule hkeywords h
    (reading_mark (by decide) (List.ne_nil_of_mem hmem))
  obtain ⟨u, v, hu, hv, hsplit⟩ := matches_seq_iff.mp hkeyword
  obtain rfl := matches_symbol_iff.mp hu
  obtain rfl : w = v := (List.cons.inj hsplit).2
  rw [mem_of_matches_hyphen_name hv c hmem] at hc
  cases hc

/-- White space goes on with white space only. -/
theorem not_matches_blank {c : Char} (hc : c ∉ blanks) (hmem : c ∈ w)
    (hrule : rule ∈ tokenGrammar) : ¬ Matches rule.2 (' ' :: w) := by
  intro h
  have hskips : (none, skipped) ∈ tokenGrammar := by decide
  have hskipped := matches_of_reading hrule hskips h
    (reading_mark (by decide) (List.ne_nil_of_mem hmem))
  rcases matches_alt_iff.mp hskipped with hblanks | hcomment
  · obtain ⟨u, v, hu, hv, hsplit⟩ := matches_seq_iff.mp hblanks
    obtain ⟨d, -, rfl⟩ := matches_oneOf_iff.mp hu
    obtain rfl : w = v := (List.cons.inj hsplit).2
    exact hc (contains_among_iff.mp (mem_of_matches_many hv c hmem))
  · obtain ⟨u, v, hu, -, hsplit⟩ := matches_seq_iff.mp hcomment
    obtain ⟨slash, star, hslash, -, rfl⟩ := matches_seq_iff.mp hu
    obtain rfl := matches_symbol_iff.mp hslash
    cases hsplit

/-- A string ends with its quote. -/
theorem not_matches_behind_string {quote c : Char} (hquote : quote ∈ quotes) (hc : c ∉ quotes)
    (hrule : rule ∈ tokenGrammar) : ¬ Matches rule.2 (quote :: (w ++ [c])) := by
  intro h
  have hstrings : (some .string, alt (quoted doubleQuote) (quoted singleQuote)) ∈
      tokenGrammar := by decide
  have hmarks : ∀ quote ∈ quotes, marks.lookup quote = some (some .string) :=
    List.all_iff_forall_prop.mp (by decide)
  have hstring := matches_of_reading hrule hstrings h
    (reading_mark (hmarks quote hquote) (List.concat_ne_nil c w))
  obtain ⟨last, hlast, hword⟩ : ∃ last ∈ quotes, Matches (quoted last) (quote :: (w ++ [c])) := by
    rcases matches_alt_iff.mp hstring with hword | hword
    · exact ⟨doubleQuote, by decide, hword⟩
    · exact ⟨singleQuote, by decide, hword⟩
  have hend := ((endsWith_symbol last).seq _).seq _ _ hword
  rw [← List.cons_append, List.getLast?_concat] at hend
  exact hc (Option.some.inj hend ▸ hlast)

/-- What starts like a name and has a parenthesis in it ends with a parenthesis. -/
theorem not_matches_behind_url {c d : Char} (hc : startsName c = true) (hd : d ≠ '(' ∧ d ≠ ')')
    (hparen : '(' ∈ w) (hrule : rule ∈ tokenGrammar) : ¬ Matches rule.2 (c :: (w ++ [d])) := by
  intro h
  have hidents : (some .ident, TokenGrammar.ident) ∈ tokenGrammar := by decide
  have hreading : reading (c :: (w ++ [d])) = some .ident := by
    obtain ⟨first, more, rfl⟩ := List.exists_cons_of_ne_nil (List.ne_nil_of_mem hparen)
    rw [List.cons_append, reading_startsName hc, ← List.cons_append, ← List.cons_append]
    simp only [nameReading, List.getLast?_concat, Option.some.injEq, hd.1, hd.2, if_false]
  have hident := matches_of_reading hrule hidents h hreading
  have hinside : nameRest.contains '(' = true :=
    mem_of_matches_ident hident '(' (by simp [hparen])
  revert hinside
  decide

end Ends

/-! ### Imports -/

/-- The keyword of an import. -/
def importKeyword : List Char := ['@', 'i', 'm', 'p', 'o', 'r', 't']

/-- The text is a word of the given kind that neither continues the space in front of it nor
goes on into the semicolon behind it. -/
structure StandsApart (kind : TokenKind) (w : List Char) : Prop where
  exists_rule : ∃ rule ∈ tokenGrammar, rule.1 = some kind ∧ Matches rule.2 w
  exists_first : ∃ c ∈ w.head?, c ∉ blanks
  ends : ∀ rule ∈ tokenGrammar, ¬ Matches rule.2 (w ++ [';'])

section Imports
variable {kind : TokenKind} {w : List Char} {quote : Char} {before target behind : String}

theorem standsApart_quotation (hquote : quote ∈ quotes) (htarget : '\n' ∉ target.toList) :
    StandsApart .string (quotation quote target).toList where
  exists_rule := ⟨(some .string, _), by decide, rfl, matches_string hquote htarget⟩
  exists_first := by
    have hquotes : ∀ c ∈ quotes, c ∉ blanks := List.all_iff_forall_prop.mp (by decide)
    exact ⟨quote, by simp [toList_quotation], hquotes quote hquote⟩
  ends := by
    intro rule hrule
    rw [toList_quotation]
    exact not_matches_behind_string hquote (by decide) hrule

theorem standsApart_quotedUrl (hquote : quote ∈ quotes) (htarget : '\n' ∉ target.toList)
    (hbefore : ∀ c ∈ before.toList, c ∈ blanks) (hbehind : ∀ c ∈ behind.toList, c ∈ blanks) :
    StandsApart .url (quotedUrl before quote target behind).toList where
  exists_rule :=
    ⟨(some .url, _), by decide, rfl, matches_quotedUrl hquote htarget hbefore hbehind⟩
  exists_first := ⟨'u', by simp [quotedUrl], by decide⟩
  ends := by
    intro rule hrule
    rw [quotedUrl, toList_url]
    exact not_matches_behind_url (by decide) (by decide) (by simp) hrule

theorem StandsApart.ne_nil (h : StandsApart kind w) : w ≠ [] := by
  obtain ⟨c, hc, -⟩ := h.exists_first
  rintro rfl
  cases hc

theorem StandsApart.tokens_alone {text : String} (h : StandsApart kind text.toList) :
    (Source.ofString text).tokens =
      [⟨kind, ⟨0, (Source.ofString text).size⟩⟩, (Source.ofString text).endToken] := by
  obtain ⟨rule, hrule, hkind, hmatches⟩ := h.exists_rule
  exact tokens_of_word hrule hkind hmatches h.ne_nil

theorem piece_importKeyword (rest : List Char) :
    Piece (importKeyword ++ ' ' :: rest) (some .atKeyword) importKeyword := by
  have hkeywords : (some .atKeyword, seq (symbol '@') (seq hyphen TokenGrammar.name)) ∈
      tokenGrammar := by decide
  have hmatches : Matches (seq (symbol '@') (seq hyphen TokenGrammar.name)) importKeyword := by
    refine .seq (u := ['@']) (matches_symbol_iff.mpr rfl) (.seq (u := []) (.right .empty) ?_)
    refine .seq (u := ['i']) (.oneOf (by decide)) (matches_many_of_forall ?_)
    exact List.all_iff_forall_prop.mp (by decide)
  refine piece_of_word hkeywords hmatches (by decide) fun v hfront hne rule hrule => ?_
  obtain ⟨more, rfl, -⟩ := exists_cons_of_isPrefix hne hfront
  exact not_matches_keyword (c := ' ') (by decide) (by simp) hrule

theorem piece_space {c : Char} (hc : c ∉ blanks) (rest : List Char) :
    Piece ([' '] ++ c :: rest) none [' '] := by
  have hskips : (none, skipped) ∈ tokenGrammar := by decide
  have hmatches : Matches skipped [' '] := .left (.seq (.oneOf (by decide)) .done)
  refine piece_of_word hskips hmatches (by decide) fun v hfront hne rule hrule => ?_
  obtain ⟨more, rfl, -⟩ := exists_cons_of_isPrefix hne hfront
  exact not_matches_blank hc List.mem_cons_self hrule

theorem StandsApart.piece (h : StandsApart kind w) : Piece (w ++ [';']) (some kind) w := by
  obtain ⟨rule, hrule, hkind, hmatches⟩ := h.exists_rule
  rw [← hkind]
  refine piece_of_word hrule hmatches h.ne_nil fun v hfront hne rule' hrule' => ?_
  obtain ⟨more, rfl, hmore⟩ := exists_cons_of_isPrefix hne hfront
  rw [List.prefix_nil.mp hmore]
  exact h.ends rule' hrule'

/-- The pieces of an import are its keyword, a space, the target and the semicolon. -/
theorem StandsApart.tokenized_import (h : StandsApart kind w) :
    Tokenized 0 (importKeyword ++ ([' '] ++ (w ++ [';'])))
      [⟨.atKeyword, ⟨0, 7⟩⟩, ⟨kind, ⟨8, 8 + byteSize w⟩⟩,
        ⟨.semicolon, ⟨8 + byteSize w, 8 + byteSize w + 1⟩⟩,
        ⟨.eof, .point (8 + byteSize w + 1)⟩] := by
  have hspace : Piece ([' '] ++ (w ++ [';'])) none [' '] := by
    obtain ⟨c, hfirst, hc⟩ := h.exists_first
    obtain ⟨more, rfl⟩ := List.head?_eq_some_iff.mp hfirst
    exact piece_space hc _
  have hsemicolons : (some .semicolon, symbol ';') ∈ tokenGrammar := by decide
  have hsemicolon : Piece ([';'] ++ []) (some .semicolon) [';'] :=
    piece_of_word hsemicolons (matches_symbol_iff.mpr rfl) (by decide)
      fun v hfront hne => absurd (List.prefix_nil.mp hfront) hne
  exact .token (piece_importKeyword _) (.skipped hspace (.token h.piece (.token hsemicolon .done)))

/-- An import whose target is followed by a semicolon has no media queries. -/
theorem sheetFrom_import {src : Source} {keyword t semicolon : Token} {uri : String}
    (hkind : keyword.kind = .atKeyword)
    (hkeyword : AtRule.ofKeyword (lower (src.tokenText keyword)) = .importRule)
    (htarget : src.importTarget? t = some uri) (hsemicolon : semicolon.kind = .semicolon)
    (ts : List Token) :
    sheetFrom src .sheet [] (keyword :: t :: semicolon :: ts) =
      ⟨[.importRule ⟨uri, [], src.position keyword.span.start⟩], []⟩ ++
        sheetFrom src .sheet [] ts := by
  have hitem : readItem src .sheet keyword (t :: semicolon :: ts) =
      { events := [.importRule ⟨uri, [], src.position keyword.span.start⟩], rest := ts } := by
    simp only [readItem, hkind, readAtRule, hkeyword, readImport_target _ htarget]
    simp [headerTokens, afterHeader, Source.mediaQueries, pieces, eatSemicolon, hsemicolon,
      TokenKind.endsHeader]
  rw [sheetFrom_item _ _ (by simp [hkind]) (by simp [hkind]), innermost, hitem]
  rfl

/-- An import of a target that stands apart is read as nothing else. -/
theorem StandsApart.read_import {form uri : String} (h : StandsApart kind form.toList)
    (huri : ∀ (src : Source) (t : Token), t.kind = kind → src.tokenText t = form →
      src.importTarget? t = some uri) :
    Stylesheet.ofString ("@import " ++ form ++ ";") =
      ⟨[.importRule ⟨uri, [], ⟨1, 1⟩⟩], []⟩ := by
  obtain ⟨src, hsrc⟩ : ∃ src, src = Source.ofString ("@import " ++ form ++ ";") := ⟨_, rfl⟩
  have hchars : src.chars = [] ++ (importKeyword ++ ([' '] ++ (form.toList ++ [';']))) := by
    rw [hsrc]
    change ("@import " ++ form ++ ";").toList = _
    simp [importKeyword]
  have htokens := tokenized_iff.mp (hchars ▸ h.tokenized_import)
  have hkeyword : AtRule.ofKeyword (lower (src.tokenText ⟨.atKeyword, ⟨0, 7⟩⟩)) =
      .importRule := by
    have htext : src.tokenText ⟨.atKeyword, ⟨0, 7⟩⟩ = "@import" := Source.text_eq_ofList hchars
    rw [htext]
    decide
  have htarget : src.importTarget? ⟨kind, ⟨8, 8 + byteSize form.toList⟩⟩ = some uri := by
    have hsplit : src.chars = (importKeyword ++ [' ']) ++ (form.toList ++ [';']) := by
      rw [hchars, List.nil_append, List.append_assoc]
    have htext := Source.text_eq_ofList hsplit
    rw [String.ofList_toList] at htext
    exact huri src _ rfl htext
  have hposition : src.position 0 = ⟨1, 1⟩ := Source.position_eq_posAfter hchars
  rw [Stylesheet.ofString, ← hsrc, read_eq_sheetFrom, ← htokens,
    sheetFrom_import rfl hkeyword htarget rfl, hposition, sheetFrom_atEnd [] (by simp [AtEnd])]
  rfl

end Imports

/-- **Quoted targets come back.**  A text without a line feed, written between quotes, is one
string, and written so in a `url(…)` with white space around it is one URL; both stand for the
text again, and importing either of them is an import of the text and nothing else. -/
theorem quotedTargets_roundTrip {quote : Char} {target before behind : String}
    (hquote : quote ∈ quotes) (htarget : '\n' ∉ target.toList)
    (hbefore : ∀ c ∈ before.toList, c ∈ blanks) (hbehind : ∀ c ∈ behind.toList, c ∈ blanks) :
    let string := quotation quote target
    let url := quotedUrl before quote target behind
    (Source.ofString string).tokens =
        [⟨.string, ⟨0, (Source.ofString string).size⟩⟩, (Source.ofString string).endToken] ∧
      unquote string = target ∧
      (Source.ofString url).tokens =
        [⟨.url, ⟨0, (Source.ofString url).size⟩⟩, (Source.ofString url).endToken] ∧
      urlTarget url = target ∧
      ∀ form ∈ [string, url], Stylesheet.ofString ("@import " ++ form ++ ";") =
        ⟨[.importRule ⟨target, [], ⟨1, 1⟩⟩], []⟩ := by
  intro string url
  have hstring : StandsApart .string string.toList := standsApart_quotation hquote htarget
  have hurl : StandsApart .url url.toList :=
    standsApart_quotedUrl hquote htarget hbefore hbehind
  have hunquote : unquote string = target := unquote_quotation hquote target
  have hunwrap : urlTarget url = target := urlTarget_quotedUrl hquote hbefore hbehind
  refine ⟨hstring.tokens_alone, hunquote, hurl.tokens_alone, hunwrap, ?_⟩
  intro form hform
  rcases List.mem_pair.mp hform with rfl | rfl
  · refine hstring.read_import fun src t hkind htext => ?_
    rw [Source.importTarget?, hkind, htext, hunquote]
  · refine hurl.read_import fun src t hkind htext => ?_
    rw [Source.importTarget?, hkind, htext, hunwrap]

/-- A target with both sorts of quotes, a backslash, a parenthesis and the start of a comment. -/
theorem quotedTargets_roundTrip_marks :
    let target := "\"a'\\)/*é"
    let url := "url( \"\\\"a'\\\\)/*é\"\t)"
    doubleQuote ∈ quotes ∧ '\n' ∉ target.toList ∧ (∀ c ∈ " ".toList, c ∈ blanks) ∧
      (∀ c ∈ "\t".toList, c ∈ blanks) ∧ quotedUrl " " doubleQuote target "\t" = url ∧
      urlTarget url = target ∧
      Stylesheet.ofString ("@import " ++ url ++ ";") =
        ⟨[.importRule ⟨target, [], ⟨1, 1⟩⟩], []⟩ := by
  intro target url
  have hquote : doubleQuote ∈ quotes := by decide
  have htarget : '\n' ∉ target.toList := by decide
  have hbefore : ∀ c ∈ " ".toList, c ∈ blanks := List.all_iff_forall_prop.mp (by decide)
  have hbehind : ∀ c ∈ "\t".toList, c ∈ blanks := List.all_iff_forall_prop.mp (by decide)
  have hurl : quotedUrl " " doubleQuote target "\t" = url := by decide
  obtain ⟨-, -, -, hunwrap, himport⟩ := quotedTargets_roundTrip hquote htarget hbefore hbehind
  rw [hurl] at hunwrap himport
  exact ⟨hquote, htarget, hbefore, hbehind, hurl, hunwrap, himport url (by simp)⟩

end SheetLint
