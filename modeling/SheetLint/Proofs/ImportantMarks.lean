import Mathlib.Data.List.DropRight
import SheetLint.Proofs.OutsideGroups

/-! # Where a declaration is marked

A mark `!important` may stand in front of the parts of a value, between them and behind them.
Wherever it stands outside groups, it makes the declaration important, and the text of the value
goes from the first part to the last.  So the marks around the parts are not in the text, and
those between them are (`important_iff_marked`, `important_between_parts`).

Marks are told here by the tokens alone (`Source.MarkBefore`).  The segments of a value agree:
a mark outside groups is a segment (`Segmented.markBefore_iff`).
-/
namespace SheetLint
open Text

/-! ### Marks among tokens -/

/-- The tokens are marks `!important`, one behind the other. -/
inductive OnlyMarks (src : Source) : List Token → Prop where
  | nil : OnlyMarks src []
  | cons {bang word : Token} {ts : List Token} (hmark : IsMark src bang word)
      (h : OnlyMarks src ts) : OnlyMarks src (bang :: word :: ts)

namespace Source

/-- A mark stands in no group among the tokens, right in front of `back`. -/
def MarkBefore (src : Source) (ts : List Token) (back : List (Token × Nat)) : Prop :=
  ∃ front bang word, groupDepths 0 ts = front ++ (bang, 0) :: (word, 0) :: back ∧
    IsMark src bang word

/-- A mark stands in no group among the tokens. -/
def HasMark (src : Source) (ts : List Token) : Prop := ∃ back, src.MarkBefore ts back

/-- The tokens end with a mark that stands in no group. -/
def EndsMarked (src : Source) (ts : List Token) : Prop := src.MarkBefore ts []

end Source

/-- The tokens are those of `inner` between marks, and `inner` neither starts nor ends with
one. -/
structure Trimmed (src : Source) (ts lead inner trail : List Token) : Prop where
  eq_append : ts = lead ++ (inner ++ trail)
  lead_marks : OnlyMarks src lead
  trail_marks : OnlyMarks src trail
  starts_unmarked : ∀ first ∈ inner.head?, first.kind ≠ .bang
  ends_unmarked : ¬ src.EndsMarked inner

/-! ### Marks among segments -/

/-- What has no depth does not stand among the tokens of a group. -/
theorem AllInside.split {inside xs front ys : List (Token × Nat)} {t : Token}
    (h : AllInside inside) (heq : inside ++ xs = front ++ (t, 0) :: ys) :
    ∃ mid, xs = mid ++ (t, 0) :: ys := by
  rcases List.append_eq_append_iff.mp heq with ⟨mid, -, hxs⟩ | ⟨mid, rfl, hys⟩
  · exact ⟨mid, hxs⟩
  · cases mid with
    | nil => exact ⟨[], hys.symm⟩
    | cons p mid =>
      obtain ⟨rfl, -⟩ := List.cons.inj hys
      have hpos := h (t, 0) (by simp)
      exact absurd hpos (Nat.lt_irrefl 0)

section Segments
variable {src : Source} {segments : List Segment}

/-- The depths behind some segments do not depend on them. -/
theorem Segmented.groupDepths_append {as bs : List Segment} (h : Segmented src (as ++ bs)) :
    ∃ front, groupDepths 0 (tokensOf (as ++ bs)) = front ++ groupDepths 0 (tokensOf bs) := by
  induction as with
  | nil => exact ⟨[], rfl⟩
  | cons a as ih =>
    obtain ⟨front, hfront⟩ := ih h.tail
    obtain ⟨first, hfirst⟩ : ∃ first, groupDepths 0 (tokensOf (a :: as ++ bs)) =
        first ++ groupDepths 0 (tokensOf (as ++ bs)) := by
      cases hgroup : a.isGroup with
      | true =>
        obtain ⟨inside, -, heq⟩ := h.groupDepths_group hgroup
        exact ⟨inside, heq⟩
      | false => exact ⟨_, h.groupDepths_plain hgroup⟩
    exact ⟨first ++ front, by rw [hfirst, hfront, List.append_assoc]⟩

/-- A mark outside groups is the first segment, or it stands behind that. -/
theorem Segmented.mark_first_or_behind {segment : Segment}
    (h : Segmented src (segment :: segments)) {front back : List (Token × Nat)}
    {bang word : Token} (hmark : IsMark src bang word)
    (heq : groupDepths 0 (tokensOf (segment :: segments)) =
      front ++ (bang, 0) :: (word, 0) :: back) :
    segment = .mark bang word ∧ back = groupDepths 0 (tokensOf segments) ∨
      ∃ front, groupDepths 0 (tokensOf segments) = front ++ (bang, 0) :: (word, 0) :: back := by
  cases hgroup : segment.isGroup with
  | true =>
    obtain ⟨inside, hinside, hdepths⟩ := h.groupDepths_group hgroup
    exact .inr (hinside.split (hdepths.symm.trans heq))
  | false =>
    rw [h.groupDepths_plain hgroup] at heq
    cases h with
    | @mark b w _ hfirst _ =>
      rcases front with _ | ⟨p, _ | ⟨q, front⟩⟩
      · left
        simp only [Segment.tokens, List.map_cons, List.map_nil, List.cons_append,
          List.nil_append, List.cons.injEq, Prod.mk.injEq, and_true] at heq
        obtain ⟨rfl, rfl, hback⟩ := heq
        exact ⟨rfl, hback.symm⟩
      · -- the word of a mark is no exclamation mark
        have hword : w = bang := congrArg Prod.fst (List.cons.inj (List.cons.inj heq).2).1
        have hkind := hfirst.word_kind
        rw [hword, hmark.bang_kind] at hkind
        cases hkind
      · exact .inr ⟨front, (List.cons.inj (List.cons.inj heq).2).2⟩
    | @stray b _ _ hword _ =>
      cases front with
      | nil =>
        have htokens : tokensOf segments = word :: back.map Prod.fst := by
          rw [← map_fst_groupDepths 0 (tokensOf segments)]
          exact congrArg (List.map Prod.fst) (List.cons.inj heq).2
        rw [htokens, atImportant_cons.mpr ⟨hmark.word_kind, hmark.sameWord_text⟩] at hword
        cases hword
      | cons p front => exact .inr ⟨front, (List.cons.inj heq).2⟩
    | group hopener _ _ =>
      rw [Segment.isGroup, TokenKind.opensGroup_iff.mpr hopener] at hgroup
      cases hgroup
    | @single t _ _ hbang _ _ _ =>
      cases front with
      | nil =>
        have ht : t = bang := congrArg Prod.fst (List.cons.inj heq).1
        exact absurd (ht ▸ hmark.bang_kind) hbang
      | cons p front => exact .inr ⟨front, (List.cons.inj heq).2⟩

/-- A mark outside groups is one of the segments. -/
theorem Segmented.exists_mark (h : Segmented src segments) {front back : List (Token × Nat)}
    {bang word : Token} (hmark : IsMark src bang word)
    (heq : groupDepths 0 (tokensOf segments) = front ++ (bang, 0) :: (word, 0) :: back) :
    ∃ before behind, segments = before ++ .mark bang word :: behind ∧
      back = groupDepths 0 (tokensOf behind) := by
  induction segments generalizing front with
  | nil => cases front <;> cases heq
  | cons segment segments ih =>
    rcases h.mark_first_or_behind hmark heq with ⟨rfl, hback⟩ | ⟨front, hbehind⟩
    · exact ⟨[], segments, rfl, hback⟩
    · obtain ⟨before, behind, rfl, hback⟩ := ih h.tail hbehind
      exact ⟨segment :: before, behind, rfl, hback⟩

/-- The marks outside groups are the segments that are marks. -/
theorem Segmented.markBefore_iff (h : Segmented src segments) {back : List (Token × Nat)} :
    src.MarkBefore (tokensOf segments) back ↔
      ∃ before bang word behind, segments = before ++ .mark bang word :: behind ∧
        back = groupDepths 0 (tokensOf behind) := by
  constructor
  · rintro ⟨front, bang, word, heq, hmark⟩
    obtain ⟨before, behind, hsegments, hback⟩ := h.exists_mark hmark heq
    exact ⟨before, bang, word, behind, hsegments, hback⟩
  · rintro ⟨before, bang, word, behind, rfl, rfl⟩
    obtain ⟨front, hfront⟩ := h.groupDepths_append
    have hmarked := h.right
    refine ⟨front, bang, word, ?_, ?_⟩
    · rw [hfront, hmarked.groupDepths_plain rfl]
      rfl
    · cases hmarked with
      | mark hmark _ => exact hmark

theorem Segment.isMark_iff {segment : Segment} :
    segment.isMark = true ↔ ∃ bang word, segment = .mark bang word := by
  cases segment <;> simp [isMark]

theorem Segmented.hasMark_iff (h : Segmented src segments) :
    src.HasMark (tokensOf segments) ↔ ∃ segment ∈ segments, segment.isMark = true := by
  simp only [Source.HasMark, h.markBefore_iff]
  constructor
  · rintro ⟨_, before, bang, word, behind, rfl, -⟩
    exact ⟨.mark bang word, by simp, rfl⟩
  · rintro ⟨segment, hmem, hmark⟩
    obtain ⟨bang, word, rfl⟩ := Segment.isMark_iff.mp hmark
    obtain ⟨before, behind, rfl⟩ := List.append_of_mem hmem
    exact ⟨_, before, bang, word, behind, rfl, rfl⟩

theorem tokensOf_eq_nil_iff : tokensOf segments = [] ↔ segments = [] := by
  cases segments with
  | nil => simp
  | cons segment segments => cases segment <;> simp [Segment.tokens]

theorem Segmented.endsMarked_iff (h : Segmented src segments) :
    src.EndsMarked (tokensOf segments) ↔ ∃ last ∈ segments.getLast?, last.isMark = true := by
  rw [Source.EndsMarked, h.markBefore_iff]
  constructor
  · rintro ⟨before, bang, word, behind, rfl, hnil⟩
    have htokens : tokensOf behind = [] := by
      rw [← map_fst_groupDepths 0 (tokensOf behind), ← hnil]
      rfl
    rw [tokensOf_eq_nil_iff.mp htokens]
    exact ⟨.mark bang word, by simp, rfl⟩
  · rintro ⟨last, hlast, hmark⟩
    obtain ⟨bang, word, rfl⟩ := Segment.isMark_iff.mp hmark
    obtain ⟨before, rfl⟩ := List.getLast?_eq_some_iff.mp hlast
    exact ⟨before, bang, word, [], rfl, rfl⟩

theorem Segmented.onlyMarks (h : Segmented src segments)
    (hall : ∀ segment ∈ segments, segment.isMark = true) : OnlyMarks src (tokensOf segments) := by
  induction h with
  | nil => exact .nil
  | mark hmark _ ih => exact .cons hmark (ih fun s hs => hall s (List.mem_cons_of_mem _ hs))
  | stray _ _ _ _ | group _ _ _ _ | single _ _ _ _ _ _ =>
    have hfirst := hall _ List.mem_cons_self
    cases hfirst

/-- No part starts with an exclamation mark. -/
theorem Segmented.head_kind {first : Token} {more : List Token}
    (h : Segmented src (.part first more :: segments)) : first.kind ≠ .bang := by
  cases h with
  | group hopener _ _ => rcases hopener with h | h <;> rw [h] <;> exact nofun
  | single _ hbang _ _ _ => exact hbang

end Segments

/-! ### Taking off the marks at both ends -/

/-- A list whose elements do not all pass a test, between those that do at both of its ends. -/
theorem exists_core {α : Type} (p : α → Bool) {l : List α} (h : ∃ a ∈ l, p a = false) :
    ∃ lead inner trail, l = lead ++ (inner ++ trail) ∧ (∀ a ∈ lead, p a = true) ∧
      (∀ a ∈ trail, p a = true) ∧ (∃ a ∈ inner.head?, p a = false) ∧
      ∃ a ∈ inner.getLast?, p a = false := by
  have hdrop : l.dropWhile p ≠ [] := by
    simpa [List.dropWhile_eq_nil_iff] using h
  have hhead : p ((l.dropWhile p).head hdrop) = false := by
    simpa using List.head_dropWhile_not p hdrop
  have hinner : (l.dropWhile p).rdropWhile p ≠ [] := by
    intro hnil
    have hall := List.rdropWhile_eq_nil_iff.mp hnil _ (List.head_mem hdrop)
    rw [hhead] at hall
    cases hall
  refine ⟨l.takeWhile p, (l.dropWhile p).rdropWhile p, (l.dropWhile p).rtakeWhile p, ?_,
    fun a => List.mem_takeWhile_imp, fun a => List.mem_rtakeWhile_imp, ?_, ?_⟩
  · rw [List.rdropWhile_append_rtakeWhile, List.takeWhile_append_dropWhile]
  · have hfront := List.rdropWhile_prefix p (l.dropWhile p)
    refine ⟨_, List.head?_eq_some_head hinner, ?_⟩
    rwa [hfront.head hinner]
  · refine ⟨_, List.getLast?_eq_some_getLast hinner, ?_⟩
    simpa using List.rdropWhile_last_not p _ hinner

/-- Only marks stand in front of `inner` and behind it, and it starts and ends with a part. -/
structure Framed (lead inner trail : List Segment) : Prop where
  lead_marks : ∀ segment ∈ lead, segment.isMark = true
  trail_marks : ∀ segment ∈ trail, segment.isMark = true
  first_part : ∃ first more, .part first more ∈ inner.head?
  last_part : ∃ first more, .part first more ∈ inner.getLast?

section Trimming
variable {src : Source} {segments lead inner trail : List Segment}

theorem partsOf_eq_nil (h : ∀ segment ∈ segments, segment.isMark = true) :
    partsOf segments = [] := by
  refine List.filterMap_eq_nil_iff.mpr fun segment hsegment => ?_
  obtain ⟨bang, word, rfl⟩ := Segment.isMark_iff.mp (h segment hsegment)
  rfl

/-- Among segments that are all marks, there is one exactly if there is a token. -/
theorem any_isMark_iff (h : ∀ segment ∈ segments, segment.isMark = true) :
    segments.any Segment.isMark = true ↔ tokensOf segments ≠ [] := by
  rw [ne_eq, tokensOf_eq_nil_iff, List.any_eq_true]
  constructor
  · rintro ⟨segment, hmem, -⟩
    exact List.ne_nil_of_mem hmem
  · intro hne
    exact ⟨segments.head hne, List.head_mem hne, h _ (List.head_mem hne)⟩

/-- From a first part to a last, the parts cover what the segments cover. -/
theorem Framed.covers {text : String} (h : Framed lead inner trail)
    (hcovers : src.Covers (partsOf (lead ++ (inner ++ trail))).flatten text) :
    src.Covers (tokensOf inner) text := by
  have hheads : (partsOf inner).flatten.head? = (tokensOf inner).head? := by
    obtain ⟨first, more, hmem⟩ := h.first_part
    obtain ⟨behind, rfl⟩ := List.head?_eq_some_iff.mp hmem
    rfl
  have hlasts : (partsOf inner).flatten.getLast? = (tokensOf inner).getLast? := by
    obtain ⟨first, more, hmem⟩ := h.last_part
    obtain ⟨before, rfl⟩ := List.getLast?_eq_some_iff.mp hmem
    have hparts : (partsOf [Segment.part first more]).flatten = first :: more := by
      simp [partsOf, Segment.part?]
    have htokens : tokensOf [Segment.part first more] = first :: more := by
      simp [Segment.tokens]
    rw [partsOf_append, List.flatten_append, tokensOf_append, hparts, htokens,
      List.getLast?_append_of_ne_nil _ (List.cons_ne_nil _ _),
      List.getLast?_append_of_ne_nil _ (List.cons_ne_nil _ _)]
  rwa [partsOf_append, partsOf_append, partsOf_eq_nil h.lead_marks, partsOf_eq_nil h.trail_marks,
    List.nil_append, List.append_nil, Source.Covers, hheads, hlasts] at hcovers

theorem Framed.getLast_isMark_iff (h : Framed lead inner trail) :
    (∃ last ∈ (lead ++ (inner ++ trail)).getLast?, last.isMark = true) ↔ trail ≠ [] := by
  rcases List.eq_nil_or_concat trail with rfl | ⟨front, last, rfl⟩
  · obtain ⟨first, more, hmem⟩ := h.last_part
    obtain ⟨before, rfl⟩ := List.getLast?_eq_some_iff.mp hmem
    simp [Segment.isMark]
  · have hmark := h.trail_marks last (by simp)
    simp [hmark]

/-- The tokens between the marks at both ends of a value. -/
theorem Framed.trimmed (h : Framed lead inner trail)
    (hsegmented : Segmented src (lead ++ (inner ++ trail))) :
    Trimmed src (tokensOf (lead ++ (inner ++ trail))) (tokensOf lead) (tokensOf inner)
      (tokensOf trail) where
  eq_append := by rw [tokensOf_append, tokensOf_append]
  lead_marks := hsegmented.left.onlyMarks h.lead_marks
  trail_marks := hsegmented.right.right.onlyMarks h.trail_marks
  starts_unmarked := by
    obtain ⟨first, more, hmem⟩ := h.first_part
    obtain ⟨behind, rfl⟩ := List.head?_eq_some_iff.mp hmem
    rintro _ ⟨⟩
    exact hsegmented.right.left.head_kind
  ends_unmarked := by
    obtain ⟨first, more, hmem⟩ := h.last_part
    rw [hsegmented.right.left.endsMarked_iff, Option.mem_def.mp hmem]
    rintro ⟨_, ⟨⟩, hmark⟩
    cases hmark

theorem Segment.exists_part {segment : Segment} (hmark : segment.isMark = false)
    (hstray : segment.isStray = false) : ∃ first more, segment = .part first more := by
  cases segment with
  | part first more => exact ⟨first, more, rfl⟩
  | mark _ _ => cases hmark
  | stray _ => cases hstray

/-- The value of a declaration without stray exclamation marks is framed by marks. -/
theorem DeclaredBy.exists_framed {decl : Declaration} (h : DeclaredBy src decl segments)
    (hstray : ∀ segment ∈ segments, segment.isStray = false) :
    ∃ lead inner trail, segments = lead ++ (inner ++ trail) ∧ Framed lead inner trail := by
  have hpart : ∃ segment ∈ segments, segment.isMark = false := by
    by_contra hnone
    have hall : ∀ segment ∈ segments, segment.isMark = true := by simpa using hnone
    have hparts := h.forall₂_isPart
    rw [partsOf_eq_nil hall, List.forall₂_nil_left_iff] at hparts
    exact h.parts_ne_nil hparts
  obtain ⟨lead, inner, trail, rfl, hlead, htrail, hfirst, hlast⟩ :=
    exists_core Segment.isMark hpart
  have hinner : ∀ segment ∈ inner, segment.isMark = false →
      ∃ first more, segment = .part first more := fun segment hsegment hmark =>
    Segment.exists_part hmark (hstray segment (by simp [hsegment]))
  refine ⟨lead, inner, trail, rfl, hlead, htrail, ?_, ?_⟩
  · obtain ⟨segment, hmem, hmark⟩ := hfirst
    obtain ⟨first, more, rfl⟩ := hinner segment (List.mem_of_mem_head? hmem) hmark
    exact ⟨first, more, hmem⟩
  · obtain ⟨segment, hmem, hmark⟩ := hlast
    obtain ⟨first, more, rfl⟩ := hinner segment (List.mem_of_mem_getLast? hmem) hmark
    exact ⟨first, more, hmem⟩

end Trimming

/-- **Where a declaration is marked.**  The text of a value goes from its first part to its
last, so that the marks in front of these and behind them are not in it.  The declaration is
important exactly if a mark stands in front of the text, inside it and outside all groups, or
behind it; its value ends with a mark in the last of these cases only.  Hence, where no mark
stands in front of a part, the text has none, and the declaration is important exactly if its
value ends with one. -/
theorem important_iff_marked (text : String) {decl : Declaration}
    (hfaults : (Stylesheet.ofString text).faults = [])
    (hdecl : .declaration decl ∈ (Stylesheet.ofString text).events) :
    let src := Source.ofString text
    let value := src.valueTokens decl
    ∃ lead inner trail, Trimmed src value lead inner trail ∧
      src.Covers inner decl.value.text ∧
      (decl.important = true ↔ lead ≠ [] ∨ src.HasMark inner ∨ trail ≠ []) ∧
      (src.EndsMarked value ↔ trail ≠ []) := by
  intro src value
  obtain ⟨segments, h⟩ : ∃ segments, DeclaredBy src decl segments := exists_declaredBy hdecl
  obtain ⟨lead, inner, trail, rfl, hframed⟩ := h.exists_framed (h.not_stray hfaults)
  have hvalue : value = tokensOf (lead ++ (inner ++ trail)) := h.valueTokens_eq
  have hinner : Segmented src inner := h.segmented.right.left
  refine ⟨tokensOf lead, tokensOf inner, tokensOf trail, ?_, hframed.covers h.covers, ?_, ?_⟩
  · rw [hvalue]
    exact hframed.trimmed h.segmented
  · rw [h.important_eq, List.any_append, List.any_append, Bool.or_eq_true, Bool.or_eq_true,
      any_isMark_iff hframed.lead_marks, any_isMark_iff hframed.trail_marks, List.any_eq_true,
      hinner.hasMark_iff]
  · rw [hvalue, h.segmented.endsMarked_iff, hframed.getLast_isMark_iff, ne_eq, ne_eq,
      tokensOf_eq_nil_iff]

/-- A mark in a group, and two marks behind the parts. -/
theorem important_iff_marked_twice :
    let text := "a{b:f(!important) c!IMPORTANT !important}"
    let src := Source.ofString text
    let decl : Declaration :=
      ⟨"b", none, ⟨1, 3⟩, ⟨"f(!important) c",
        [⟨.function, "f(!important)", ⟨1, 5⟩, none⟩, ⟨.identifier, "c", ⟨1, 19⟩, none⟩]⟩, true⟩
    let value := src.valueTokens decl
    (Stylesheet.ofString text).faults = [] ∧
      .declaration decl ∈ (Stylesheet.ofString text).events ∧
      ∃ lead inner trail, Trimmed src value lead inner trail ∧
        src.Covers inner "f(!important) c" ∧ (lead ≠ [] ∨ src.HasMark inner ∨ trail ≠ []) ∧
        (src.EndsMarked value ↔ trail ≠ []) := by
  intro text src decl value
  have hfaults : (Stylesheet.ofString text).faults = [] := by decide +kernel
  have hdecl : .declaration decl ∈ (Stylesheet.ofString text).events := by decide +kernel
  obtain ⟨lead, inner, trail, htrimmed, hcovers, himportant, hends⟩ :=
    important_iff_marked text hfaults hdecl
  exact ⟨hfaults, hdecl, lead, inner, trail, htrimmed, hcovers, himportant.mp rfl, hends⟩

/-- In `c !important d` the mark stands between two parts.  The declaration is important although
its value does not end with the mark, and the text of the value, read by itself, has the mark. -/
theorem important_between_parts :
    let text := "a{b:c !important d}"
    let src := Source.ofString text
    let decl : Declaration :=
      ⟨"b", none, ⟨1, 3⟩, ⟨"c !important d",
        [⟨.identifier, "c", ⟨1, 5⟩, none⟩, ⟨.identifier, "d", ⟨1, 18⟩, none⟩]⟩, true⟩
    let within := Source.ofString decl.value.text
    (Stylesheet.ofString text).faults = [] ∧
      .declaration decl ∈ (Stylesheet.ofString text).events ∧ decl.important = true ∧
      (¬ ∃ front bang word, src.valueTokens decl = front ++ [bang, word] ∧
        IsMark src bang word) ∧
      within.HasMark within.tokens := by
  intro text src decl within
  refine ⟨by decide +kernel, by decide +kernel, rfl, ?_, ?_⟩
  · rintro ⟨front, bang, word, hvalue, hmark⟩
    have hlast : (src.valueTokens decl).getLast?.map src.tokenText = some "d" := by
      decide +kernel
    have hword : src.tokenText word = "d" := by simpa [hvalue] using hlast
    have hsame := hmark.sameWord_text
    rw [hword] at hsame
    revert hsame
    decide
  · refine ⟨[(⟨.ident, ⟨13, 14⟩⟩, 0), (⟨.eof, ⟨14, 14⟩⟩, 0)], [(⟨.ident, ⟨0, 1⟩⟩, 0)],
      ⟨.bang, ⟨2, 3⟩⟩, ⟨.ident, ⟨3, 12⟩⟩, ?_, rfl, rfl, ?_⟩
    · decide +kernel
    · decide +kernel

end SheetLint
