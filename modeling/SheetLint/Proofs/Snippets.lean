import SheetLint.Proofs.Counting
import SheetLint.Proofs.Origins
import SheetLint.Report

/-! # Carets

A diagnostic for a reader comes with the line it stands on and a caret below it.  Lines are
told apart twice: `Source.position` counts line feeds and characters, and `Report.sourceLines`
cuts the source at its line feeds and drops a carriage return in front of them.  The two agree
on every line of the source (`getElem?_sourceLines`, `isLine_withoutReturn`).  A carriage return
is white space, and no token starts with white space (`Piece.head_not_blank`); so the caret
stands below a character that is shown, and this is the first character of the token that is
reported.  Only the end of the source may stand on a line that is not shown: the empty one behind
the last line feed.
-/
namespace SheetLint
open Pattern Text TokenGrammar

/-! ### Lines -/

/-- `line` is the line of the text with the given number.  It ends at a line feed or with the
text; a carriage return in front of the line feed is no part of it. -/
structure IsLine (text : List Char) (number : Nat) (line : List Char) : Prop where
  stands : ∃ earlier behind, text = earlier ++ (line ++ behind) ∧
    (∀ c ∈ earlier.getLast?, c = '\n') ∧ number = earlier.count '\n' + 1 ∧
    (behind = [] ∨ ['\r', '\n'] <+: behind ∨ ['\n'] <+: behind ∧ line.getLast? ≠ some '\r')
  lineFeed_not_mem : '\n' ∉ line

/-- What stands between two line feeds is a line, less a carriage return at its end. -/
theorem isLine_withoutReturn {earlier line : List Char}
    (hearlier : ∀ c ∈ earlier.getLast?, c = '\n') (hline : '\n' ∉ line) (behind : List Char) :
    IsLine (earlier ++ (line ++ '\n' :: behind)) (earlier.count '\n' + 1)
      (Report.withoutReturn line) := by
  unfold Report.withoutReturn
  split
  · rename_i hreturn
    obtain ⟨shown, rfl⟩ := List.getLast?_eq_some_iff.mp hreturn
    rw [List.dropLast_concat]
    exact ⟨⟨earlier, '\r' :: '\n' :: behind, by simp, hearlier, rfl,
      .inr (.inl (List.prefix_append ['\r', '\n'] behind))⟩,
      fun h => hline (List.mem_append_left _ h)⟩
  · rename_i hreturn
    exact ⟨⟨earlier, '\n' :: behind, rfl, hearlier, rfl,
      .inr (.inr ⟨List.prefix_append ['\n'] behind, hreturn⟩)⟩, hline⟩

/-- Another character than a carriage return is shown where it stands. -/
theorem exists_withoutReturn {c : Char} (hc : c ≠ '\r') (left more : List Char) :
    ∃ right, right.head? = some c ∧
      Report.withoutReturn (left ++ c :: more) = left ++ right := by
  have hne : c :: more ≠ [] := List.cons_ne_nil c more
  unfold Report.withoutReturn
  split
  · rename_i hreturn
    rw [List.getLast?_append_of_ne_nil _ hne] at hreturn
    have hmore : more ≠ [] := by
      rintro rfl
      exact hc (Option.some.inj hreturn)
    exact ⟨c :: more.dropLast, rfl,
      by rw [List.dropLast_append_of_ne_nil hne, List.dropLast_cons_of_ne_nil hmore]⟩
  · exact ⟨c :: more, rfl, rfl⟩

/-- There are as many pieces in front of a line as line feeds. -/
theorem exists_pieces_append {earlier : List Char} (h : ∀ c ∈ earlier.getLast?, c = '\n')
    (rest : List Char) :
    ∃ lines, lines.length = earlier.count '\n' ∧
      pieces (· == '\n') (earlier ++ rest) = lines ++ pieces (· == '\n') rest := by
  cases hlast : earlier.getLast? with
  | none =>
    rw [List.getLast?_eq_none_iff.mp hlast]
    exact ⟨[], rfl, rfl⟩
  | some c =>
    obtain ⟨front, rfl⟩ := List.getLast?_eq_some_iff.mp hlast
    obtain rfl := h c hlast
    refine ⟨pieces (· == '\n') front, ?_, ?_⟩
    · rw [length_pieces, List.count_append, List.count_singleton_self]
      rfl
    · rw [List.append_assoc, List.singleton_append, pieces_append_cons (by decide)]

/-- The line of a source behind some line feeds, as it is shown. -/
theorem getElem?_sourceLines {source : String} {earlier line behind : List Char}
    (hsource : source.toList = earlier ++ (line ++ behind))
    (hearlier : ∀ c ∈ earlier.getLast?, c = '\n') (hline : '\n' ∉ line)
    (hbehind : ∀ c ∈ behind.head?, c = '\n') :
    (Report.sourceLines source)[earlier.count '\n']? =
      if behind = [] then if line = [] then none else some (String.ofList line)
      else some (String.ofList (Report.withoutReturn line)) := by
  obtain ⟨lines, hlength, hpieces⟩ := exists_pieces_append hearlier (line ++ behind)
  unfold Report.sourceLines
  dsimp only
  rw [hsource, hpieces, ← hlength, List.getElem?_map]
  cases behind with
  | nil =>
    rw [List.append_nil, pieces_of_not_mem hline, List.dropLast_concat, List.getLast?_concat,
      List.getElem?_append_right (by simp), List.length_map, Nat.sub_self, if_pos rfl]
    by_cases hnil : line = []
    · simp [hnil]
    · simp [hnil, Option.filter]
  | cons c behind =>
    obtain rfl := hbehind c rfl
    have hne := pieces_ne_nil (· == '\n') behind
    rw [pieces_append_cons (by decide), pieces_of_not_mem hline, List.singleton_append,
      List.dropLast_append_of_ne_nil (List.cons_ne_nil _ _), List.dropLast_cons_of_ne_nil hne,
      List.map_append, List.append_assoc, List.getElem?_append_right (by simp), List.length_map,
      Nat.sub_self]
    simp

/-! ### Tokens -/

section Tokens
variable {src : Source} {t : Token}

/-- A token stands in the source where its span says. -/
theorem spells_tokenText (ht : t ∈ src.tokens) :
    src.Spells t.span.start t.span.stop (src.tokenText t) := by
  obtain ⟨first, hfirst, last, hlast, hspells⟩ :=
    src.covers_textOf (List.singleton_sublist.mpr ht) (List.cons_ne_nil t [])
  obtain rfl : t = first := Option.some.inj hfirst
  obtain rfl : t = last := Option.some.inj hlast
  exact hspells

/-- Where a token stands: at the end of the source there is nothing, and elsewhere a character
that is no white space, the first one of the token. -/
theorem exists_front_of_mem_tokens (ht : t ∈ src.tokens) :
    ∃ front rest, src.chars = front ++ rest ∧ src.place t = posAfter front ∧
      (t.kind = .eof ∧ rest = [] ∨ t.kind ≠ .eof ∧
        ∃ c ∈ rest.head?, c ∉ blanks ∧ (src.tokenText t).toList.head? = some c) := by
  obtain ⟨front, back, hchars, hstart, -⟩ := spells_tokenText ht
  refine ⟨front, (src.tokenText t).toList ++ back, hchars, ?_, ?_⟩
  · rw [Source.place, ← hstart, Source.position_eq_posAfter hchars]
  by_cases heof : t.kind = .eof
  · have hend : t = src.endToken := by
      rw [← src.dropLast_tokens_append] at ht
      rcases List.mem_append.mp ht with ht | ht
      · exact absurd heof (src.ne_eof_of_mem_dropLast_tokens ht)
      · exact List.mem_singleton.mp ht
    refine .inl ⟨heof, ?_⟩
    by_contra hne
    have hsize : byteSize front = byteSize src.chars := by
      rw [hstart, hend, ← src.size_eq]
      rfl
    have hpos := byteSize_pos hne
    rw [hchars, byteSize_append] at hsize
    omega
  · obtain ⟨w, rest, hpiece, htext⟩ := exists_piece ht heof
    obtain ⟨c, more, rfl⟩ := List.exists_cons_of_ne_nil hpiece.ne_nil
    rw [htext]
    exact .inr ⟨heof, c, rfl, hpiece.head_not_blank c rfl, rfl⟩

end Tokens

/-! ### What is shown -/

theorem exists_earlier (cs : List Char) :
    ∃ earlier, cs = earlier ++ lastLineOf cs ∧ (∀ c ∈ earlier.getLast?, c = '\n') ∧
      '\n' ∉ lastLineOf cs := by
  induction cs using List.reverseRecOn with
  | nil => exact ⟨[], rfl, by simp, List.not_mem_nil⟩
  | append_singleton cs c ih =>
    obtain ⟨earlier, hsplit, hearlier, hline⟩ := ih
    rw [lastLineOf_concat]
    by_cases hc : c = '\n'
    · exact ⟨cs ++ [c], by simp [hc], by simp [hc], by simp [hc]⟩
    · refine ⟨earlier, ?_, hearlier, ?_⟩
      · rw [if_neg hc, ← List.append_assoc, ← hsplit]
      · rw [if_neg hc, List.mem_append, List.mem_singleton, not_or]
        exact ⟨hline, fun h => hc h.symm⟩

/-- A text is the rest of a line and what follows it. -/
theorem exists_line (rest : List Char) :
    ∃ inside behind, rest = inside ++ behind ∧ '\n' ∉ inside ∧ ∀ c ∈ behind.head?, c = '\n' := by
  refine ⟨rest.takeWhile (· != '\n'), rest.dropWhile (· != '\n'),
    List.takeWhile_append_dropWhile.symm, fun h => ?_, fun c hc => ?_⟩
  · exact absurd (of_mem_takeWhile _ h) (by decide)
  · have hstop := List.head?_dropWhile_not (· != '\n') rest
    rw [Option.mem_def.mp hc] at hstop
    simpa using hstop

/-- A place behind which nothing follows, or a character that is no white space, is on a line
that is shown with this character, or on the empty line behind the last line feed. -/
theorem shown_line {source : String} {front rest : List Char}
    (hsource : source.toList = front ++ rest) (hrest : ∀ c ∈ rest.head?, c ∉ blanks) :
    (∃ right, right.head? = rest.head? ∧
        IsLine source.toList (posAfter front).line (lastLineOf front ++ right) ∧
        (Report.sourceLines source)[front.count '\n']? =
          some (String.ofList (lastLineOf front ++ right))) ∨
      rest = [] ∧ (∀ c ∈ source.toList.getLast?, c = '\n') ∧
        (Report.sourceLines source)[front.count '\n']? = none := by
  obtain ⟨earlier, hfront, hearlier, hleft⟩ := exists_earlier front
  obtain ⟨inside, behind, hsplit, hinside, hbehind⟩ := exists_line rest
  have hcount : front.count '\n' = earlier.count '\n' := by
    rw [hfront, List.count_append, List.count_eq_zero_of_not_mem hleft, Nat.add_zero]
  have hlines : source.toList = earlier ++ (lastLineOf front ++ inside ++ behind) := by
    calc source.toList = front ++ (inside ++ behind) := by rw [hsource, hsplit]
      _ = earlier ++ lastLineOf front ++ (inside ++ behind) := by rw [← hfront]
      _ = earlier ++ (lastLineOf front ++ inside ++ behind) := by simp only [List.append_assoc]
  have hline : '\n' ∉ lastLineOf front ++ inside := by
    rw [List.mem_append, not_or]
    exact ⟨hleft, hinside⟩
  have hnumber : (posAfter front).line = earlier.count '\n' + 1 := by
    rw [posAfter_eq_counts, hcount]
  rw [hcount, getElem?_sourceLines hlines hearlier hline hbehind]
  cases behind with
  | nil =>
    rw [if_pos rfl]
    rw [List.append_nil] at hsplit hlines
    by_cases hnil : lastLineOf front ++ inside = []
    · obtain ⟨-, rfl⟩ := List.append_eq_nil_iff.mp hnil
      rw [hnil, List.append_nil] at hlines
      exact .inr ⟨hsplit, by rwa [hlines], if_pos hnil⟩
    · refine .inl ⟨inside, by rw [hsplit], ⟨⟨earlier, [], ?_, hearlier, hnumber, .inl rfl⟩, hline⟩,
        if_neg hnil⟩
      rw [List.append_nil, hlines]
  | cons d behind =>
    left
    obtain rfl := hbehind d rfl
    rw [if_neg (List.cons_ne_nil _ _)]
    -- the line goes on with a character that is no white space
    obtain ⟨c, more, rfl⟩ : ∃ c more, inside = c :: more := by
      refine List.exists_cons_of_ne_nil ?_
      rintro rfl
      exact hrest '\n' (by rw [hsplit]; rfl) (by decide)
    have hc : c ≠ '\r' := by
      rintro rfl
      exact hrest '\r' (by rw [hsplit]; rfl) (by decide)
    obtain ⟨right, hright, hshown⟩ := exists_withoutReturn hc (lastLineOf front) more
    refine ⟨right, by rw [hright, hsplit]; rfl, ?_, by rw [hshown]⟩
    rw [← hshown, hlines, hnumber]
    exact isLine_withoutReturn hearlier hline behind

/-! ### Carets -/

/-- A report shows a line behind its heading.  In the row below it stands a caret, as far to the
right as the character behind `left`. -/
def ShowsCaret (heading report : String) (number : Nat) (left right : List Char) : Prop :=
  ∃ margin below : List Char,
    report.toList = heading.toList ++ (margin ++ (left ++ right) ++ ['\n']) ++
      (below ++ ['^', '\n']) ++ ['\n'] ∧
    margin = ("  " ++ toString number ++ " | ").toList ∧ '\n' ∉ below ∧
    below.length = margin.length + left.length

theorem showsCaret_humanVerbose {lines : List String} {d : Diagnostic} {left right : List Char}
    (hline : lines[d.position.line - 1]? = some (String.ofList (left ++ right)))
    (hnumber : d.position.line ≠ 0) (hcolumn : d.position.column = left.length + 1)
    (path : String) :
    ShowsCaret (Report.heading path d) (Report.humanVerbose path lines d) d.position.line left
      right := by
  refine ⟨_, ("  " ++ Report.spaces (toString d.position.line).length ++ " | " ++
    Report.spaces left.length).toList, ?_, rfl, ?_, ?_⟩
  · simp [Report.humanVerbose, Report.snippet?, hnumber, hline, hcolumn, Report.Snippet.render]
  · simp [Report.spaces]
  · have hspaces (n : Nat) : (Report.spaces n).toList.length = n := by simp [Report.spaces]
    simp only [String.toList_append, List.length_append, hspaces, String.length_toList]

theorem humanVerbose_of_none {lines : List String} {d : Diagnostic}
    (hline : lines[d.position.line - 1]? = none) (path : String) :
    Report.humanVerbose path lines d = Report.heading path d ++ "\n" := by
  simp [Report.humanVerbose, Report.snippet?, hline]

/-- **A caret stands below the first character of what is reported.**  Every diagnostic reports
a token and stands where it stands.  It is shown with its line of the source and a caret below
the character of its column, which is on the line or right behind it, and which is the first
one of the token, unless this is the end of the source.  Nothing is shown only at the end of a
source whose last line is empty. -/
theorem caret_belowToken (ruleset : RuleSet) (context : Context) (text path : String) :
    let src := Source.ofString text
    let messages := (Linter.builtin.lint ruleset context text).messages
    let report := Report.humanVerbose path (Report.sourceLines text)
    Report.render .humanVerbose messages path text = String.join (messages.map report) ∧
      ∀ d ∈ messages, ∃ t ∈ src.tokens, Reports ruleset src d t ∧ d.position = src.place t ∧
        ((∃ left right, IsLine text.toList d.position.line (left ++ right) ∧
            d.position.column = left.length + 1 ∧
            ShowsCaret (Report.heading path d) (report d) d.position.line left right ∧
            (t.kind ≠ .eof →
              ∃ c, right.head? = some c ∧ (src.tokenText t).toList.head? = some c)) ∨
          t.kind = .eof ∧ (∀ c ∈ text.toList.getLast?, c = '\n') ∧
            report d = Report.heading path d ++ "\n") := by
  intro src messages report
  refine ⟨rfl, fun d hd => ?_⟩
  obtain ⟨t, ht, hreports, hposition⟩ := exists_reports hd
  obtain ⟨front, rest, hchars, hplace, hkind⟩ := exists_front_of_mem_tokens ht
  have hcounts : d.position = ⟨front.count '\n' + 1, (lastLineOf front).length + 1⟩ := by
    rw [hposition, hplace, posAfter_eq_counts]
  have hrest : ∀ c ∈ rest.head?, c ∉ blanks := by
    rcases hkind with ⟨-, rfl⟩ | ⟨-, c, hc, hblank, -⟩
    · exact nofun
    · intro c' hc'
      rwa [← Option.some.inj (hc.symm.trans hc')]
  refine ⟨t, ht, hreports, hposition, ?_⟩
  rcases shown_line hchars hrest with ⟨right, hhead, hline, hshown⟩ | ⟨hnil, hlast, hshown⟩
  · left
    rw [← hplace, ← hposition] at hline
    refine ⟨lastLineOf front, right, hline, by rw [hcounts], ?_, fun heof => ?_⟩
    · refine showsCaret_humanVerbose ?_ ?_ ?_ path
      · rw [hcounts]
        exact hshown
      · rw [hcounts]
        exact Nat.succ_ne_zero _
      · rw [hcounts]
    · rcases hkind with ⟨heof', -⟩ | ⟨-, c, hc, -, hfirst⟩
      · exact absurd heof' heof
      · exact ⟨c, hhead.trans hc, hfirst⟩
  · right
    refine ⟨?_, hlast, humanVerbose_of_none ?_ path⟩
    · rcases hkind with ⟨heof, -⟩ | ⟨-, c, hc, -⟩
      · exact heof
      · rw [hnil] at hc
        cases hc
    · rw [hcounts]
      exact hshown

/-- Two carriage returns and a character of two bytes do not move the caret. -/
theorem caret_belowToken_secondLine :
    let text := "a\x7b\r\n/*\u00e9*/+:b\r\n\x7d"
    let d : Diagnostic :=
      ⟨faultRule, .error, "unexpected token: expected a property name, found '+'", ⟨2, 6⟩⟩
    d ∈ (Linter.builtin.lint .allWarnings none text).messages ∧
      ∃ left right, IsLine text.toList 2 (left ++ right) ∧ left.length = 5 ∧
        ShowsCaret (Report.heading "a.css" d)
          (Report.humanVerbose "a.css" (Report.sourceLines text) d) 2 left right := by
  intro text d
  have hd : d ∈ (Linter.builtin.lint .allWarnings none text).messages := by
    rw [lint_builtin, Diagnostic.sort, List.mem_mergeSort]
    decide +kernel
  obtain ⟨t, -, -, -, ⟨left, right, hline, hcolumn, hcaret, -⟩ | ⟨-, hlast, -⟩⟩ :=
    (caret_belowToken .allWarnings none text "a.css").2 d hd
  · exact ⟨hd, left, right, hline, (Nat.succ.inj hcolumn).symm, hcaret⟩
  · exact absurd (hlast '\x7d' (by decide)) (by decide)

end SheetLint
