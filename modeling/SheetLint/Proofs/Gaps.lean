import SheetLint.Proofs.LongestMatch

/-! # Nothing is lost between tokens

Every token but the last is a piece of the source that is not empty, one behind the other, and
the last one is the end of the source.  What stands in front of a token and behind the one
before it is a gap: white space and comments (`IsGap`).  So gaps and tokens, put together
again, are the source (`tokens_lossless`).

`LaidOut` says how tokens lie in a text, gap by gap.  The longest matches lie so
(`Tokenized.laidOut`), and the facts about spans are read off it.
-/
namespace SheetLint
open Pattern TokenGrammar Text

/-! ### Gaps -/

/-- What may stand between two tokens: white space and comments, in any order.  Inside a comment
there is no `*/`. -/
inductive IsGap : List Char → Prop where
  | nil : IsGap []
  | blank {c : Char} {cs : List Char} (hc : c ∈ blanks) (hcs : IsGap cs) : IsGap (c :: cs)
  | comment {inside cs : List Char} (hinside : ¬ ['*', '/'] <:+: inside) (hcs : IsGap cs) :
      IsGap ('/' :: '*' :: (inside ++ '*' :: '/' :: cs))

theorem IsGap.append {cs ds : List Char} (h : IsGap cs) (hds : IsGap ds) : IsGap (cs ++ ds) := by
  induction h with
  | nil => exact hds
  | blank hc _ ih => exact .blank hc ih
  | comment hinside _ ih =>
    have hall := IsGap.comment hinside ih
    simpa using hall

theorem isGap_of_blanks {cs : List Char} (h : ∀ c ∈ cs, c ∈ blanks) : IsGap cs := by
  induction cs with
  | nil => exact .nil
  | cons c cs ih =>
    obtain ⟨hc, hcs⟩ := List.forall_mem_cons.mp h
    exact .blank hc (ih hcs)

/-! ### Comments -/

section Comments
variable {w cs : List Char}

/-- A `*/` in a text stands at its start or further behind. -/
theorem commentEnd_infix_cons_iff {c : Char} :
    ['*', '/'] <:+: c :: cs ↔ (c = '*' ∧ cs.head? = some '/') ∨ ['*', '/'] <:+: cs := by
  rw [List.infix_cons_iff]
  refine or_congr_left ?_
  cases cs with
  | nil => simp
  | cons d ds => simp [eq_comm]

theorem not_commentEnd_infix_cons {c : Char} (hc : c ≠ '*') (h : ¬ ['*', '/'] <:+: cs) :
    ¬ ['*', '/'] <:+: c :: cs := by
  rw [commentEnd_infix_cons_iff]
  rintro (⟨rfl, -⟩ | hcs)
  · exact hc rfl
  · exact h hcs

/-- Stars do not end a comment unless a slash follows them. -/
theorem not_commentEnd_infix_stars (hw : ∀ c ∈ w, c = '*') (hhead : cs.head? ≠ some '/')
    (h : ¬ ['*', '/'] <:+: cs) : ¬ ['*', '/'] <:+: w ++ cs := by
  induction w with
  | nil => exact h
  | cons c w ih =>
    obtain ⟨rfl, hstars⟩ := List.forall_mem_cons.mp hw
    rw [List.cons_append, commentEnd_infix_cons_iff]
    rintro (⟨-, hslash⟩ | hcs)
    · cases w with
      | nil => exact hhead hslash
      | cons d w =>
        obtain rfl : d = '*' := hstars d List.mem_cons_self
        cases hslash
    · exact ih hstars hcs

theorem matches_stars (h : Matches (atLeastOne (symbol '*')) w) :
    ∃ more, w = '*' :: more ∧ ∀ c ∈ more, c = '*' := by
  obtain ⟨u, v, hu, hv, rfl⟩ := matches_seq_iff.mp h
  obtain rfl := matches_symbol_iff.mp hu
  refine ⟨v, rfl, fun c hc => ?_⟩
  simpa using contains_among_iff.mp (mem_of_matches_many hv c hc)

/-- One step through the inside of a comment does not end it. -/
theorem not_commentEnd_infix_step
    (hw : Matches (alt (oneOf (.except ['*']))
      (seq (atLeastOne (symbol '*')) (oneOf (.except ['*', '/'])))) w)
    (h : ¬ ['*', '/'] <:+: cs) : ¬ ['*', '/'] <:+: w ++ cs := by
  rcases matches_alt_iff.mp hw with hw | hw
  · obtain ⟨c, hc, rfl⟩ := matches_oneOf_iff.mp hw
    exact not_commentEnd_infix_cons (by simpa using contains_except_iff.mp hc) h
  · obtain ⟨u, v, hu, hv, rfl⟩ := matches_seq_iff.mp hw
    obtain ⟨c, hc, rfl⟩ := matches_oneOf_iff.mp hv
    obtain ⟨more, rfl, hmore⟩ := matches_stars hu
    have hchar : c ≠ '*' ∧ c ≠ '/' := by simpa using contains_except_iff.mp hc
    rw [List.append_assoc]
    refine not_commentEnd_infix_stars (List.forall_mem_cons.mpr ⟨rfl, hmore⟩) ?_
      (not_commentEnd_infix_cons hchar.1 h)
    simpa using hchar.2

theorem not_commentEnd_infix_steps
    (hw : Matches (many (alt (oneOf (.except ['*']))
      (seq (atLeastOne (symbol '*')) (oneOf (.except ['*', '/']))))) w)
    (h : ¬ ['*', '/'] <:+: cs) : ¬ ['*', '/'] <:+: w ++ cs := by
  refine matches_many_rec (P := fun w => ¬ ['*', '/'] <:+: w ++ cs) h ?_ hw
  intro u v hu _ ih
  rw [List.append_assoc]
  exact not_commentEnd_infix_step hu ih

/-- A comment has no `*/` but the one that ends it. -/
theorem matches_comment (h : Matches TokenGrammar.comment w) :
    ∃ inside, w = '/' :: '*' :: (inside ++ ['*', '/']) ∧ ¬ ['*', '/'] <:+: inside := by
  obtain ⟨opening, rest, hopening, hrest, rfl⟩ := matches_seq_iff.mp h
  obtain ⟨steps, close, hsteps, hclose, rfl⟩ := matches_seq_iff.mp hrest
  obtain ⟨slash, star, hslash, hstar, rfl⟩ := matches_seq_iff.mp hopening
  obtain ⟨stars, last, hstars, hlast, rfl⟩ := matches_seq_iff.mp hclose
  obtain rfl := matches_symbol_iff.mp hslash
  obtain rfl := matches_symbol_iff.mp hstar
  obtain rfl := matches_symbol_iff.mp hlast
  obtain ⟨more, rfl, hmore⟩ := matches_stars hstars
  -- the last of the stars ends the comment, those in front of it stand inside
  have hall : '*' :: more = more ++ ['*'] := by
    rw [List.eq_replicate_of_mem hmore, ← List.replicate_succ, List.replicate_succ']
  refine ⟨steps ++ more, by rw [hall]; simp, not_commentEnd_infix_steps hsteps ?_⟩
  have hstarsOnly : ¬ ['*', '/'] <:+: more ++ [] :=
    not_commentEnd_infix_stars hmore (by simp) (by simp)
  rwa [List.append_nil] at hstarsOnly

/-- What is skipped is a gap. -/
theorem isGap_of_skipped (h : Matches skipped w) : IsGap w := by
  rcases matches_alt_iff.mp h with h | h
  · obtain ⟨u, v, hu, hv, rfl⟩ := matches_seq_iff.mp h
    obtain ⟨c, hc, rfl⟩ := matches_oneOf_iff.mp hu
    refine .blank (contains_among_iff.mp hc) (isGap_of_blanks fun d hd => ?_)
    exact contains_among_iff.mp (mem_of_matches_many hv d hd)
  · obtain ⟨inside, rfl, hinside⟩ := matches_comment h
    exact .comment hinside .nil

end Comments

/-! ### How tokens lie in a text -/

/-- The tokens of a text that stands behind `front`: each stands behind a gap and is not empty,
and behind the last gap stands the end. -/
inductive LaidOut : List Char → List Char → List Token → Prop where
  | atEnd {front gap : List Char} (hgap : IsGap gap) :
      LaidOut front gap [⟨.eof, .point (byteSize (front ++ gap))⟩]
  | token {front gap w cs : List Char} {kind : TokenKind} {ts : List Token} (hgap : IsGap gap)
      (hw : w ≠ []) (hkind : kind ≠ .eof) (hts : LaidOut (front ++ gap ++ w) cs ts) :
      LaidOut front (gap ++ (w ++ cs))
        (⟨kind, ⟨byteSize (front ++ gap), byteSize (front ++ gap ++ w)⟩⟩ :: ts)

/-- A gap in front of a text makes its first gap longer. -/
theorem LaidOut.skip {front gap cs : List Char} {ts : List Token} (hgap : IsGap gap)
    (h : LaidOut (front ++ gap) cs ts) : LaidOut front (gap ++ cs) ts := by
  cases h with
  | atEnd hfirst =>
    rw [List.append_assoc]
    exact .atEnd (hgap.append hfirst)
  | @token _ first w cs kind ts hfirst hw hkind hts =>
    rw [List.append_assoc front] at hts ⊢
    rw [← List.append_assoc gap]
    exact .token (hgap.append hfirst) hw hkind hts

/-- The pieces of a text are its tokens and what its gaps are made of. -/
theorem Tokenized.laidOut {offset : Nat} {cs : List Char} {ts : List Token}
    (h : Tokenized offset cs ts) {front : List Char} (hoffset : offset = byteSize front) :
    LaidOut front cs ts := by
  have hgaps : ∀ rule ∈ tokenGrammar, rule.1 = none → rule.2 = TokenGrammar.skipped := by decide
  have hkinds : ∀ rule ∈ tokenGrammar, rule.1 ≠ some .eof := by decide
  induction h generalizing front with
  | done =>
    have hend : LaidOut front [] _ := .atEnd .nil
    rwa [List.append_nil, ← hoffset] at hend
  | @token offset kind w cs ts hpiece _ ih =>
    have hkind : kind ≠ .eof := by
      rintro rfl
      cases hpiece with
      | longestMatch hmatch =>
        obtain ⟨rule, hrule, heof, -⟩ := hmatch.exists_rule
        exact hkinds rule hrule heof
    have hts : LaidOut (front ++ [] ++ w) cs ts := ih (by simp [hoffset])
    simpa [hoffset] using LaidOut.token .nil hpiece.ne_nil hkind hts
  | @skipped offset w cs ts hpiece _ ih =>
    cases hpiece with
    | longestMatch hmatch =>
      obtain ⟨rule, hrule, hnone, hmatches⟩ := hmatch.exists_rule
      rw [hgaps rule hrule hnone] at hmatches
      exact .skip (isGap_of_skipped hmatches) (ih (by rw [hoffset, byteSize_append]))

section Spans
variable {front cs : List Char} {ts : List Token}

/-- Each token starts behind the start of the ones in front of it, and not before their end. -/
theorem LaidOut.increasing (h : LaidOut front cs ts) :
    (∀ t ∈ ts, byteSize front ≤ t.span.start) ∧
      ts.Pairwise fun t u => t.span.start < u.span.start ∧ t.span.stop ≤ u.span.start := by
  induction h with
  | atEnd hgap => simp [Span.point]
  | token hgap hw hkind hts ih =>
    obtain ⟨hstart, hrest⟩ := ih
    have hpos := byteSize_pos hw
    simp only [byteSize_append] at hstart ⊢
    constructor
    · refine List.forall_mem_cons.mpr ⟨Nat.le_add_right _ _, fun u hu => ?_⟩
      have := hstart u hu
      omega
    · refine List.pairwise_cons.mpr ⟨fun u hu => ?_, hrest⟩
      have := hstart u hu
      constructor <;> dsimp only <;> omega

/-- The end of the source stands behind all other tokens, and these are not empty. -/
theorem LaidOut.exists_body (h : LaidOut front cs ts) :
    ∃ body, ts = body ++ [⟨.eof, .point (byteSize (front ++ cs))⟩] ∧
      ∀ t ∈ body, t.kind ≠ .eof ∧ t.span.start < t.span.stop := by
  induction h with
  | atEnd hgap => exact ⟨[], rfl, nofun⟩
  | @token front gap w cs kind ts hgap hw hkind hts ih =>
    obtain ⟨body, rfl, hbody⟩ := ih
    have hpos := byteSize_pos hw
    refine ⟨⟨kind, ⟨byteSize (front ++ gap), byteSize (front ++ gap ++ w)⟩⟩ :: body,
      by simp only [List.append_assoc, List.cons_append], ?_⟩
    refine List.forall_mem_cons.mpr ⟨⟨hkind, ?_⟩, hbody⟩
    simp only [byteSize_append]
    omega

end Spans

/-! ### Gaps and tokens of a source -/

/-- The spans in front of the tokens: each from the end of the token before, the first one from
`offset`, to the start of the token. -/
def gapSpans (offset : Nat) : List Token → List Span
  | [] => []
  | t :: ts => ⟨offset, t.span.start⟩ :: gapSpans t.span.stop ts

namespace Source

/-- An offset between two characters of the source, or at one of its ends. -/
def IsBoundary (src : Source) (offset : Nat) : Prop :=
  ∃ front back, src.chars = front ++ back ∧ byteSize front = offset

/-- The texts in front of the tokens. -/
def gaps (src : Source) : List String := (gapSpans 0 src.tokens).map src.text

theorem IsBoundary.le_size {src : Source} {offset : Nat} (h : src.IsBoundary offset) :
    offset ≤ src.size := by
  obtain ⟨front, back, hchars, rfl⟩ := h
  rw [src.size_eq, hchars, byteSize_append]
  exact Nat.le_add_right _ _

end Source

section Texts
variable {src : Source} {front cs : List Char} {ts : List Token}

theorem LaidOut.isBoundary (h : LaidOut front cs ts) (hchars : src.chars = front ++ cs) :
    ∀ t ∈ ts, src.IsBoundary t.span.start ∧ src.IsBoundary t.span.stop := by
  induction h with
  | @atEnd front gap hgap =>
    intro t ht
    have hstop : src.IsBoundary (byteSize (front ++ gap)) := ⟨_, [], by simpa using hchars, rfl⟩
    rw [List.mem_singleton.mp ht]
    exact ⟨hstop, hstop⟩
  | token hgap hw hkind hts ih =>
    rw [← List.append_assoc] at hchars
    refine List.forall_mem_cons.mpr ⟨⟨⟨_, _, hchars, rfl⟩, ?_⟩, ih ?_⟩
    · exact ⟨_, _, hchars.trans (List.append_assoc _ _ _).symm, rfl⟩
    · exact hchars.trans (List.append_assoc _ _ _).symm

theorem text_behind {mid back : List Char} (h : src.chars = front ++ mid ++ back) :
    src.text ⟨byteSize front, byteSize (front ++ mid)⟩ = String.ofList mid := by
  rw [byteSize_append]
  exact Source.text_eq_ofList (h.trans (List.append_assoc _ _ _))

/-- The texts in front of the tokens are gaps, and with the texts of the tokens they make the
whole text. -/
theorem LaidOut.texts (h : LaidOut front cs ts) (hchars : src.chars = front ++ cs) :
    (∀ gap ∈ (gapSpans (byteSize front) ts).map src.text, IsGap gap.toList) ∧
      String.join (List.zipWith (fun gap t => gap ++ src.tokenText t)
        ((gapSpans (byteSize front) ts).map src.text) ts) = String.ofList cs := by
  induction h with
  | @atEnd front gap hgap =>
    have hgapText : src.text ⟨byteSize front, byteSize (front ++ gap)⟩ = String.ofList gap := by
      rw [← List.append_nil (front ++ gap)] at hchars
      exact text_behind hchars
    have hendText : src.tokenText ⟨.eof, ⟨byteSize (front ++ gap), byteSize (front ++ gap)⟩⟩ =
        String.ofList [] := by
      have hend : src.chars = front ++ gap ++ [] ++ [] := by simpa using hchars
      have htext := text_behind hend
      rwa [List.append_nil] at htext
    simp only [gapSpans, Span.point, List.map_cons, List.map_nil, hgapText, List.zipWith,
      hendText]
    simpa using hgap
  | @token front gap w cs kind ts hgap hw hkind hts ih =>
    rw [← List.append_assoc] at hchars
    have hrest := hchars.trans (List.append_assoc _ _ _).symm
    obtain ⟨hgaps, hjoin⟩ := ih hrest
    have hgapText : src.text ⟨byteSize front, byteSize (front ++ gap)⟩ = String.ofList gap :=
      text_behind hchars
    have hwordText : src.tokenText ⟨kind, ⟨byteSize (front ++ gap), byteSize (front ++ gap ++ w)⟩⟩ =
        String.ofList w := text_behind hrest
    simp only [gapSpans, List.map_cons, hgapText, List.zipWith, hwordText]
    refine ⟨List.forall_mem_cons.mpr ⟨by simpa using hgap, hgaps⟩, ?_⟩
    rw [String.join_cons, hjoin, String.ofList_append, String.ofList_append, String.append_assoc]

end Texts

/-- **Nothing is lost.**  The tokens of a text stand one behind the other, between its
characters; the last one is its end and the only such token, and no other is empty.  The texts
in front of the tokens are gaps, and gaps and tokens in turn are the text. -/
theorem tokens_lossless (text : String) :
    let src := Source.ofString text
    (src.tokens.Pairwise fun t u =>
        t.span.start < u.span.start ∧ t.span.stop ≤ u.span.start) ∧
      (∀ t ∈ src.tokens, t.span.stop ≤ src.size ∧ src.IsBoundary t.span.start ∧
        src.IsBoundary t.span.stop) ∧
      (∃ body, src.tokens = body ++ [⟨.eof, ⟨src.size, src.size⟩⟩] ∧
        ∀ t ∈ body, t.kind ≠ .eof ∧ t.span.start < t.span.stop) ∧
      (∀ gap ∈ src.gaps, IsGap gap.toList) ∧
      String.join (List.zipWith (fun gap t => gap ++ src.tokenText t) src.gaps src.tokens) =
        text := by
  intro src
  have hlaid : LaidOut [] src.chars src.tokens := (tokenized_iff.mpr rfl).laidOut rfl
  have hbounds := hlaid.isBoundary (List.nil_append src.chars).symm
  obtain ⟨hgaps, hjoin⟩ := hlaid.texts (List.nil_append src.chars).symm
  refine ⟨hlaid.increasing.2, ?_, ?_, hgaps, ?_⟩
  · intro t ht
    obtain ⟨hstart, hstop⟩ := hbounds t ht
    exact ⟨hstop.le_size, hstart, hstop⟩
  · exact hlaid.exists_body
  · exact hjoin.trans String.ofList_toList

end SheetLint
