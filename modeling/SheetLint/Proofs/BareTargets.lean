import SheetLint.Proofs.QuotedTargets

/-! # Bare targets and the blank at their end

A target may also be written in a `url(…)` without quotes.  Then a backslash goes in front of
everything that would end the target or stand in its way: the parenthesis, the quotes, the
backslash and white space (`bareUrl`).

The token grammar takes such a `url(…)` for one URL.  But `urlTarget` takes white space off its
inside before it looks at backslashes.  At the front that does no harm, for there a protected
blank stands behind its backslash.  At the end the blank goes, and the backslash in front of it
is left with nothing to protect.  So a target comes back exactly if it does not end with white
space, and otherwise it comes back without its last character (`bareTargets_roundTrip`).
-/
namespace SheetLint
open Pattern TokenGrammar Text

/-- The characters that a bare target protects by a backslash. -/
def bareMarks : List Char :=
  [')', doubleQuote, singleQuote, backslash, ' ', '\t', '\r', '\x0c']

/-- A `url(…)` with a bare target and the given texts around it. -/
def bareUrl (before target behind : String) : String :=
  "url(" ++ before ++ String.ofList (escaped bareMarks target.toList) ++ behind ++ ")"

/-! ### The ends of an escaped text -/

section Ends
variable {marks cs : List Char} {c : Char}

/-- An escaped text starts with a backslash or with a character that needs none. -/
theorem of_mem_head_escaped (hc : c ∈ (escaped marks cs).head?) :
    c = backslash ∨ (c ∉ marks ∧ c ∈ cs) := by
  cases cs with
  | nil => cases hc
  | cons d cs =>
    by_cases hd : d ∈ marks
    · rw [escaped_cons_of_mem cs hd] at hc
      exact .inl (Option.some.inj hc).symm
    · rw [escaped_cons_of_not_mem cs hd] at hc
      obtain rfl : d = c := Option.some.inj hc
      exact .inr ⟨hd, List.mem_cons_self⟩

theorem escaped_concat (marks cs : List Char) (c : Char) :
    escaped marks (cs ++ [c]) = escaped marks cs ++ if c ∈ marks then [backslash, c] else [c] := by
  simp [escaped]

/-- An escaped text ends as the text does. -/
theorem getLast?_escaped (marks cs : List Char) :
    (escaped marks cs).getLast? = cs.getLast? := by
  induction cs using List.reverseRecOn with
  | nil => rfl
  | append_singleton cs c _ =>
    rw [escaped_concat, List.getLast?_concat]
    split <;> simp

/-- White space is protected, but for the line feed. -/
theorem mem_bareMarks_of_blank (hc : c ∈ blanks) (hfeed : c ≠ '\n') : c ∈ bareMarks := by
  have hall : ∀ d ∈ blanks, d = '\n' ∨ d ∈ bareMarks := List.all_iff_forall_prop.mp (by decide)
  exact (hall c hc).resolve_left hfeed

/-- In front of an escaped target there is neither white space nor a quote. -/
theorem plain_of_mem_head_escaped (hcs : '\n' ∉ cs) (hc : c ∈ (escaped bareMarks cs).head?) :
    isSheetBlank c = false ∧ c ∉ quotes := by
  rcases of_mem_head_escaped hc with rfl | ⟨hmark, hmem⟩
  · decide
  · have hquotes : ∀ d ∈ quotes, d ∈ bareMarks := List.all_iff_forall_prop.mp (by decide)
    have hfeed : c ≠ '\n' := fun heq => hcs (heq ▸ hmem)
    refine ⟨?_, fun hquote => hmark (hquotes c hquote)⟩
    rw [Bool.eq_false_iff]
    exact fun hblank => hmark (mem_bareMarks_of_blank (isSheetBlank_iff.mp hblank) hfeed)

/-- A backslash behind an escaped target changes nothing about its front. -/
theorem plain_of_mem_head_escaped_append {rest : List Char} (hcs : '\n' ∉ cs)
    (hc : c ∈ (escaped bareMarks cs ++ backslash :: rest).head?) :
    isSheetBlank c = false ∧ c ∉ quotes := by
  cases hescaped : escaped bareMarks cs with
  | nil =>
    rw [hescaped] at hc
    obtain rfl : backslash = c := Option.some.inj hc
    decide
  | cons first more =>
    rw [hescaped] at hc
    have hfirst : c ∈ (escaped bareMarks cs).head? := by
      rw [hescaped]
      exact hc
    exact plain_of_mem_head_escaped hcs hfirst

end Ends

/-! ### Taking off what surrounds a target -/

section Trimming
variable {front back cs : List Char}

/-- A target that does not end with white space stays whole. -/
theorem trimBy_escaped (hfront : ∀ c ∈ front, isSheetBlank c = true)
    (hback : ∀ c ∈ back, isSheetBlank c = true) (hcs : '\n' ∉ cs)
    (hlast : ∀ c ∈ cs.getLast?, c ∉ blanks) :
    trimBy isSheetBlank (front ++ (escaped bareMarks cs ++ back)) = escaped bareMarks cs := by
  cases cs with
  | nil =>
    -- nothing but white space is there, and all of it goes
    have hall : ∀ c ∈ front ++ back, isSheetBlank c = true :=
      List.forall_mem_append.mpr ⟨hfront, hback⟩
    have htrim : trimBy isSheetBlank (front ++ back ++ ([] ++ [])) = [] :=
      trimBy_append hall (by simp) (by simp) (by simp)
    simpa [escaped] using htrim
  | cons d ds =>
    refine trimBy_append hfront hback ?_ ?_
    · intro c hc
      have hne : escaped bareMarks (d :: ds) ≠ [] := by
        rw [← List.getLast?_isSome, getLast?_escaped]
        rfl
      rw [List.head?_append_of_ne_nil _ hne] at hc
      exact (plain_of_mem_head_escaped hcs hc).1
    · intro c hc
      rw [List.head?_reverse, getLast?_escaped] at hc
      rw [Bool.eq_false_iff]
      exact fun hblank => hlast c hc (isSheetBlank_iff.mp hblank)

/-- White space at the end of a target goes, and its backslash stays. -/
theorem trimBy_escaped_blank {c : Char} (hfront : ∀ c ∈ front, isSheetBlank c = true)
    (hback : ∀ c ∈ back, isSheetBlank c = true) (hcs : '\n' ∉ cs ++ [c]) (hc : c ∈ blanks) :
    trimBy isSheetBlank (front ++ (escaped bareMarks (cs ++ [c]) ++ back)) =
      escaped bareMarks cs ++ [backslash] := by
  rw [List.mem_append, not_or] at hcs
  have hmark : c ∈ bareMarks := mem_bareMarks_of_blank hc fun heq => hcs.2 (by simp [heq])
  have hsplit : escaped bareMarks (cs ++ [c]) ++ back =
      (escaped bareMarks cs ++ [backslash]) ++ c :: back := by
    rw [escaped_concat, if_pos hmark]
    simp
  rw [hsplit]
  refine trimBy_append hfront ?_ ?_ ?_
  · exact List.forall_mem_cons.mpr ⟨isSheetBlank_iff.mpr hc, hback⟩
  · intro d hd
    rw [List.append_assoc] at hd
    exact (plain_of_mem_head_escaped_append hcs.1 hd).1
  · intro d hd
    rw [List.reverse_append] at hd
    obtain rfl : backslash = d := Option.some.inj hd
    decide

end Trimming

/-! ### Reading a bare target -/

section Reading
variable {before target behind : String}

/-- Only what starts with a quote can stand between quotes. -/
theorem stripQuotes_bare {cs : List Char} (h : ∀ c ∈ cs.head?, c ∉ quotes) :
    stripQuotes cs = cs := by
  match cs with
  | [] | [_] => rfl
  | c :: d :: ds =>
    have hc : ¬ (c = doubleQuote ∨ c = singleQuote) := by simpa [quotes] using h c rfl
    rw [stripQuotes, if_neg fun hboth => hc hboth.1]

theorem unquote_bare {cs : List Char} (h : ∀ c ∈ cs.head?, c ∉ quotes) :
    unquote (String.ofList cs) = String.ofList (unescape cs) := by
  rw [unquote, String.toList_ofList, stripQuotes_bare h]

theorem urlTarget_bareUrl (htarget : '\n' ∉ target.toList)
    (hbefore : ∀ c ∈ before.toList, c ∈ blanks) (hbehind : ∀ c ∈ behind.toList, c ∈ blanks)
    (hlast : ∀ c ∈ target.toList.getLast?, c ∉ blanks) :
    urlTarget (bareUrl before target behind) = target := by
  have htrim := trimBy_escaped (fun c hc => isSheetBlank_iff.mpr (hbefore c hc))
    (fun c hc => isSheetBlank_iff.mpr (hbehind c hc)) htarget hlast
  rw [bareUrl, urlTarget_url, String.toList_ofList, htrim,
    unquote_bare fun c hc => (plain_of_mem_head_escaped htarget hc).2,
    unescape_escaped _ (by decide), String.ofList_toList]

theorem urlTarget_bareUrl_blank {front : List Char} {c : Char} (htarget : '\n' ∉ target.toList)
    (hbefore : ∀ c ∈ before.toList, c ∈ blanks) (hbehind : ∀ c ∈ behind.toList, c ∈ blanks)
    (hsplit : target.toList = front ++ [c]) (hc : c ∈ blanks) :
    urlTarget (bareUrl before target behind) = String.ofList front := by
  rw [hsplit] at htarget
  have htrim := trimBy_escaped_blank (fun c hc => isSheetBlank_iff.mpr (hbefore c hc))
    (fun c hc => isSheetBlank_iff.mpr (hbehind c hc)) htarget hc
  have hfront : '\n' ∉ front := fun hmem => htarget (List.mem_append_left _ hmem)
  rw [bareUrl, urlTarget_url, String.toList_ofList, hsplit, htrim,
    unquote_bare fun c hc => (plain_of_mem_head_escaped_append hfront hc).2,
    unescape_escaped_append _ (by decide)]
  simp [unescape]

theorem matches_bareUrl (htarget : '\n' ∉ target.toList)
    (hbefore : ∀ c ∈ before.toList, c ∈ blanks) (hbehind : ∀ c ∈ behind.toList, c ∈ blanks) :
    Matches TokenGrammar.url (bareUrl before target behind).toList := by
  have hmarks : ∀ c ∈ [')', doubleQuote, singleQuote, backslash] ++ blanks,
      c ∈ bareMarks ∨ c = '\n' := List.all_iff_forall_prop.mp (by decide)
  refine matches_url ?_ hbefore hbehind
  rw [String.toList_ofList]
  exact .right (.right (matches_escaped hmarks htarget))

end Reading

/-- **Bare targets come back but for a blank at their end.**  A text without a line feed,
written bare in a `url(…)` with white space around it, is one URL.  It points at the text again
exactly if the text does not end with white space; if it does, the URL points at the text
without its last character. -/
theorem bareTargets_roundTrip {target before behind : String} (htarget : '\n' ∉ target.toList)
    (hbefore : ∀ c ∈ before.toList, c ∈ blanks) (hbehind : ∀ c ∈ behind.toList, c ∈ blanks) :
    let url := bareUrl before target behind
    (Source.ofString url).tokens =
        [⟨.url, ⟨0, (Source.ofString url).size⟩⟩, (Source.ofString url).endToken] ∧
      (urlTarget url = target ↔ ∀ c ∈ target.toList.getLast?, c ∉ blanks) ∧
      ∀ front, ∀ c ∈ blanks, target.toList = front ++ [c] →
        urlTarget url = String.ofList front := by
  intro url
  have hurls : (some .url, TokenGrammar.url) ∈ tokenGrammar := by decide
  have hne : url.toList ≠ [] := by simp [url, bareUrl]
  have hblank (front : List Char) (c : Char) (hc : c ∈ blanks)
      (hsplit : target.toList = front ++ [c]) : urlTarget url = String.ofList front :=
    urlTarget_bareUrl_blank htarget hbefore hbehind hsplit hc
  refine ⟨tokens_of_word hurls rfl (matches_bareUrl htarget hbefore hbehind) hne, ⟨?_, ?_⟩,
    hblank⟩
  · intro hback c hlast hc
    obtain ⟨front, hsplit⟩ := List.getLast?_eq_some_iff.mp hlast
    have hshort := congrArg String.length (hback.symm.trans (hblank front c hc hsplit))
    rw [← String.length_toList, hsplit, String.length_ofList] at hshort
    simp at hshort
  · exact urlTarget_bareUrl htarget hbefore hbehind

/-- A target with all that is to be protected, white space at its front included. -/
theorem bareTargets_roundTrip_marks :
    let target := " \t\r\x0c\"a'\\)é"
    let url := "url( \\ \\\t\\\r\\\x0c\\\"a\\'\\\\\\)é\n)"
    '\n' ∉ target.toList ∧ (∀ c ∈ " ".toList, c ∈ blanks) ∧ (∀ c ∈ "\n".toList, c ∈ blanks) ∧
      bareUrl " " target "\n" = url ∧ urlTarget url = target := by
  intro target url
  have htarget : '\n' ∉ target.toList := by decide
  have hbefore : ∀ c ∈ " ".toList, c ∈ blanks := List.all_iff_forall_prop.mp (by decide)
  have hbehind : ∀ c ∈ "\n".toList, c ∈ blanks := List.all_iff_forall_prop.mp (by decide)
  have hurl : bareUrl " " target "\n" = url := by decide
  have hlast : target.toList.getLast? = some 'é' := by decide
  have hblank : ∀ c ∈ target.toList.getLast?, c ∉ blanks := by
    rw [hlast]
    rintro _ ⟨⟩
    decide
  obtain ⟨-, hback, -⟩ := bareTargets_roundTrip htarget hbefore hbehind
  rw [hurl] at hback
  exact ⟨htarget, hbefore, hbehind, hurl, hback.mpr hblank⟩

/-- In `url(a\ )` the protected blank is taken for white space around the target. -/
theorem bareTarget_loses_blank :
    '\n' ∉ "a ".toList ∧ bareUrl "" "a " "" = "url(a\\ )" ∧ urlTarget "url(a\\ )" = "a" ∧
      urlTarget (bareUrl "" "a " "") ≠ "a " := by
  decide

end SheetLint
