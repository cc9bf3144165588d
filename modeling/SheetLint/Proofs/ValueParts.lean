import SheetLint.Proofs.EventOrder
import SheetLint.Proofs.Gaps
import SheetLint.Proofs.Segments

/-! # The parts of a value

A declaration knows its value as a text and a list of parts.  In the source the value stands
behind the colon of the declaration, up to the `;`, the brace or the end of the source that
ends it (`Source.valueTokens`).  Here both are put side by side.

The value of every declaration that a stylesheet reports consists of segments, and its parts,
its text and its importance are read off them (`DeclaredBy`).  Tokens lie one behind the other
in the source, so the span around some of them goes from the start of the first to the end of
the last (`Apart.foldl_cover`), and the texts of the value and of its parts are slices of the
source (`value_partition`).
-/
namespace SheetLint
open Text

/-! ### Slices of a source -/

namespace Source

/-- The text stands in the source from one offset to another. -/
def Spells (src : Source) (start stop : Nat) (text : String) : Prop :=
  ∃ front back, src.chars = front ++ (text.toList ++ back) ∧ byteSize front = start ∧
    byteSize front + byteSize text.toList = stop

/-- The text stands in the source from the start of the first token to the end of the last. -/
def Covers (src : Source) (tokens : List Token) (text : String) : Prop :=
  ∃ first ∈ tokens.head?, ∃ last ∈ tokens.getLast?,
    src.Spells first.span.start last.span.stop text

variable {src : Source}

/-- Between two boundaries stands a text. -/
theorem spells_of_isBoundary {start stop : Nat} (hstart : src.IsBoundary start)
    (hstop : src.IsBoundary stop) (hle : start ≤ stop) :
    src.Spells start stop (src.text ⟨start, stop⟩) := by
  obtain ⟨front, back, hchars, rfl⟩ := hstart
  obtain ⟨front', back', hchars', rfl⟩ := hstop
  obtain ⟨mid, rfl⟩ : ∃ mid, front' = front ++ mid := by
    rcases List.append_eq_append_iff.mp (hchars.symm.trans hchars') with
      ⟨mid, rfl, -⟩ | ⟨mid, rfl, -⟩
    · exact ⟨mid, rfl⟩
    · -- the second front is not the shorter one
      have hmid : mid = [] := by
        by_contra hne
        have hpos := byteSize_pos hne
        rw [byteSize_append] at hle
        omega
      exact ⟨[], by simp [hmid]⟩
  rw [text_behind hchars']
  refine ⟨front, back', ?_, rfl, ?_⟩
  · rw [hchars', String.toList_ofList, List.append_assoc]
  · rw [String.toList_ofList, byteSize_append]

end Source

/-! ### Tokens one behind the other -/

/-- The spans of the tokens lie one behind the other. -/
structure Apart (ts : List Token) : Prop where
  ordered : ts.Pairwise fun t u => t.span.stop ≤ u.span.start
  start_le_stop : ∀ t ∈ ts, t.span.start ≤ t.span.stop

theorem Apart.sublist {ts us : List Token} (h : Apart ts) (hus : us.Sublist ts) : Apart us :=
  ⟨h.ordered.sublist hus, fun t ht => h.start_le_stop t (hus.subset ht)⟩

/-- The smallest span around tokens that lie apart goes from the first to the last. -/
theorem Apart.foldl_cover {t last : Token} {ts : List Token} (h : Apart (t :: ts))
    (hlast : last ∈ (t :: ts).getLast?) :
    (ts.map Token.span).foldl Span.cover t.span = ⟨t.span.start, last.span.stop⟩ := by
  induction ts using List.reverseRecOn generalizing last with
  | nil =>
    obtain rfl : t = last := Option.some.inj hlast
    rfl
  | append_singleton ts u ih =>
    rw [← List.cons_append] at h hlast
    obtain rfl : u = last := by
      rw [List.getLast?_concat] at hlast
      exact Option.some.inj hlast
    obtain ⟨before, hbefore⟩ : ∃ before, (t :: ts).getLast? = some before := ⟨_, List.getLast?_cons⟩
    have hbehind := (List.pairwise_append.mp h.ordered).2.2
    have hfirst := hbehind t List.mem_cons_self u List.mem_cons_self
    have hlater := hbehind before (List.mem_of_getLast? hbefore) u List.mem_cons_self
    have ht := h.start_le_stop t List.mem_cons_self
    have hu := h.start_le_stop u (by simp)
    rw [List.map_append, List.foldl_append, ih (h.sublist (List.sublist_append_left _ _)) hbefore]
    simp only [List.map_cons, List.map_nil, List.foldl_cons, List.foldl_nil, Span.cover,
      Span.mk.injEq]
    omega

namespace Source
variable {src : Source} {us : List Token}

theorem laidOut_tokens (src : Source) : LaidOut [] src.chars src.tokens :=
  (tokenized_iff.mpr rfl).laidOut rfl

theorem tokens_apart (src : Source) : Apart src.tokens := by
  refine ⟨src.laidOut_tokens.increasing.2.imp And.right, fun t ht => ?_⟩
  obtain ⟨body, hbody, hproper⟩ := src.laidOut_tokens.exists_body
  rw [hbody] at ht
  rcases List.mem_append.mp ht with ht | ht
  · exact Nat.le_of_lt (hproper t ht).2
  · rw [List.mem_singleton.mp ht]
    exact Nat.le_refl _

/-- What some tokens of a source cover is a slice of it. -/
theorem covers_textOf (hus : us.Sublist src.tokens) (hne : us ≠ []) :
    src.Covers us (src.textOf us) := by
  obtain ⟨first, more, rfl⟩ := List.exists_cons_of_ne_nil hne
  obtain ⟨last, hlast⟩ : ∃ last, (first :: more).getLast? = some last := ⟨_, List.getLast?_cons⟩
  have hapart := src.tokens_apart.sublist hus
  have hbounds := src.laidOut_tokens.isBoundary (List.nil_append src.chars).symm
  have hfirst : first ∈ src.tokens := hus.subset List.mem_cons_self
  have hend : last ∈ first :: more := List.mem_of_getLast? hlast
  have htext : src.textOf (first :: more) = src.text ⟨first.span.start, last.span.stop⟩ := by
    rw [← hapart.foldl_cover hlast]
    rfl
  have hle : first.span.start ≤ last.span.stop := by
    have hproper := hapart.start_le_stop
    rcases List.mem_cons.mp hend with rfl | hmore
    · exact hproper last List.mem_cons_self
    · have hbehind := (List.pairwise_cons.mp hapart.ordered).1 last hmore
      have hstart := hproper first List.mem_cons_self
      have hstop := hproper last (List.mem_cons_of_mem first hmore)
      omega
  rw [htext]
  exact ⟨first, rfl, last, hlast,
    spells_of_isBoundary (hbounds first hfirst).1 (hbounds last (hus.subset hend)).2 hle⟩

end Source

/-! ### Where the value of a declaration stands -/

/-- The tokens of the value of a declaration: those behind the first colon from the place of the
declaration on, up to the `;`, the closing brace or the end of the source. -/
def Source.valueTokens (src : Source) (decl : Declaration) : List Token :=
  let onward := src.tokens.dropWhile fun t => src.place t != decl.position
  (onward.dropWhile fun t => t.kind != .colon).tail.takeWhile fun t => !t.kind.stopsGroup

theorem Source.valueTokens_sublist (src : Source) (decl : Declaration) :
    (src.valueTokens decl).Sublist src.tokens :=
  (List.takeWhile_sublist _).trans ((List.tail_sublist _).trans
    ((List.dropWhile_sublist _).trans (List.dropWhile_sublist _)))

/-- The declaration is read from the tokens: it stands at the first of them, and its value is
what is read behind the first colon. -/
structure ReadAt (src : Source) (decl : Declaration) (scan : ValueScan) (ts : List Token) :
    Prop where
  position_eq : ∃ first ∈ ts.head?, decl.position = src.place first
  exists_colon : ∃ front colon value rest, ts = front ++ colon :: value ∧
    (∀ t ∈ front, t.kind ≠ .colon) ∧ colon.kind = .colon ∧
    readParts src {} value = (scan, rest) ∧ (src.peek rest).kind ≠ .leftBrace
  parts_ne_nil : scan.parts ≠ []
  value_eq : decl.value = scan.value src
  important_eq : decl.important = scan.important

section Items
variable {src : Source} {decl : Declaration} {t : Token} {ts : List Token}

theorem readNamed_readAt {front : List Token} {first : Token} (starred : Bool)
    (hfirst : first ∈ (front ++ [t]).head?) (hfront : ∀ u ∈ front ++ [t], u.kind ≠ .colon)
    (h : .declaration decl ∈ (readNamed src starred (src.place first) t ts).events) :
    ∃ scan, ReadAt src decl scan (front ++ t :: ts) ∧
      (readNamed src starred (src.place first) t ts).faults = scan.faults := by
  by_cases hcolon : (src.peek ts).kind = .colon
  case neg =>
    rw [readNamed_noColon _ _ _ hcolon] at h
    cases h
  cases ts with
  | nil => cases hcolon
  | cons colon value =>
    rw [Source.peek_cons] at hcolon
    obtain ⟨scan, rest, hparts⟩ : ∃ scan rest, readParts src {} value = (scan, rest) :=
      ⟨_, _, rfl⟩
    by_cases hbrace : (src.peek rest).kind = .leftBrace
    · rw [readNamed_block _ _ _ hcolon hparts hbrace] at h
      cases h
    by_cases hempty : scan.parts = []
    · rw [readNamed_empty _ _ _ hcolon hparts hbrace hempty] at h
      cases h
    · rw [readNamed_value _ _ _ hcolon hparts hbrace hempty] at h ⊢
      obtain rfl := Event.declaration.inj (List.mem_singleton.mp h)
      refine ⟨scan, ⟨⟨first, ?_, rfl⟩, ?_, hempty, rfl, rfl⟩, rfl⟩
      · rw [← List.singleton_append, ← List.append_assoc, List.head?_append,
          Option.mem_def.mp hfirst]
        rfl
      · exact ⟨front ++ [t], colon, value, rest, by simp, hfront, hcolon, hparts, hbrace⟩

theorem readStarred_readAt (ht : t.kind = .star)
    (h : .declaration decl ∈ (readStarred src (src.place t) ts).events) :
    ∃ scan, ReadAt src decl scan (t :: ts) ∧
      (readStarred src (src.place t) ts).faults = scan.faults := by
  unfold readStarred at h ⊢
  split at h
  · rename_i name ts
    split at h
    · rename_i hname
      have hfront : ∀ u ∈ [t] ++ [name], u.kind ≠ .colon := by simp [ht, hname]
      simp only [hname, if_true]
      exact readNamed_readAt true rfl hfront h
    · cases h
  · cases h

theorem readDeclaration_readAt {margins : Bool}
    (h : .declaration decl ∈ (readDeclaration src margins t ts).events) :
    ∃ scan, ReadAt src decl scan (t :: ts) ∧
      (readDeclaration src margins t ts).faults = scan.faults := by
  unfold readDeclaration at h ⊢
  dsimp only at h ⊢
  split at h
  · cases h
  · split at h
    · -- a margin box starts a block
      unfold openBlock at h
      split at h <;> simp at h
    · cases h
  · rename_i ht
    have hfront : ∀ u ∈ [] ++ [t], u.kind ≠ .colon := by simp [ht]
    exact readNamed_readAt false rfl hfront h
  · rename_i ht
    exact readStarred_readAt ht h
  · cases h

/-- An item with a declaration has been read from its name or its star on. -/
theorem readItem_readAt {body : Body}
    (h : .declaration decl ∈ (readItem src body t ts).events) :
    ∃ scan, ReadAt src decl scan (t :: ts) ∧
      (readItem src body t ts).faults = scan.faults := by
  cases readItem_shape src body t ts with
  | silent hevents | importRule _ _ hevents | block _ _ _ _ hevents =>
    rw [hevents] at h
    simp at h
  | declaration decl' hbody hevents =>
    cases body with
    | sheet | rules | keyframes => cases hbody
    | page => exact readDeclaration_readAt h
    | declarations => exact readDeclaration_readAt h

end Items

/-- Every declaration of a stylesheet is read somewhere among its tokens, and the faults in its
value are faults of the stylesheet. -/
theorem sheetFrom_readAt (src : Source) (base : Body) (nest : List BlockKind) (ts : List Token)
    {decl : Declaration} (h : .declaration decl ∈ (sheetFrom src base nest ts).events) :
    ∃ us scan, us <:+ ts ∧ ReadAt src decl scan us ∧
      scan.faults ⊆ (sheetFrom src base nest ts).faults := by
  revert h
  refine sheetFrom_rec (P := fun _ ts sheet => .declaration decl ∈ sheet.events →
    ∃ us scan, us <:+ ts ∧ ReadAt src decl scan us ∧ scan.faults ⊆ sheet.faults)
    ?atEnd ?close ?stray ?leave ?item nest ts
  case atEnd =>
    intro nest ts _ h
    simp [endSheet] at h
  case close =>
    intro kind outer t ts sheet _ ih h
    obtain ⟨us, scan, hus, hread, hfaults⟩ := ih (by simpa using h)
    exact ⟨us, scan, hus.trans (List.suffix_cons t ts), hread, hfaults⟩
  case stray =>
    intro _ t ts sheet _ ih h
    obtain ⟨us, scan, hus, hread, hfaults⟩ := ih h
    exact ⟨us, scan, hus.trans (List.suffix_cons t ts), hread,
      List.Subset.trans hfaults (List.subset_append_right _ _)⟩
  case leave =>
    intro _ t ts _ h
    cases h
  case item =>
    intro nest t ts sheet he hb ih h
    rcases List.mem_append.mp h with h | h
    · obtain ⟨scan, hread, hfaults⟩ := readItem_readAt h
      refine ⟨t :: ts, scan, List.suffix_rfl, hread, ?_⟩
      rw [← hfaults]
      exact List.subset_append_left _ _
    · obtain ⟨us, scan, hus, hread, hfaults⟩ := ih h
      have hrest := readItem_rest_suffix src (innermost base nest) ts he hb
      exact ⟨us, scan, hus.trans (hrest.trans (List.suffix_cons t ts)), hread,
        List.Subset.trans hfaults (List.subset_append_right _ _)⟩

/-- The value tokens of a declaration are found where it has been read. -/
theorem valueTokens_eq {src : Source} {decl : Declaration} {us front value rest : List Token}
    {first colon : Token} (hus : us <:+ src.tokens) (hfirst : first ∈ us.head?)
    (hposition : decl.position = src.place first) (hsplit : us = front ++ colon :: (value ++ rest))
    (hfront : ∀ t ∈ front, t.kind ≠ .colon) (hcolon : colon.kind = .colon)
    (hvalue : ∀ t ∈ value, t.kind.stopsGroup = false)
    (hrest : ∀ t ∈ rest.head?, t.kind.stopsGroup = true) : src.valueTokens decl = value := by
  obtain ⟨before, hbefore⟩ := hus
  obtain ⟨more, rfl⟩ := List.head?_eq_some_iff.mp hfirst
  -- no token in front of the declaration stands at its place
  have hplaces : ∀ t ∈ before, (src.place t != decl.position) = true := by
    intro t ht
    have hordered := src.tokens_ordered
    rw [← hbefore] at hordered
    have hlt := (List.pairwise_append.mp hordered).2.2 t ht first List.mem_cons_self
    rw [bne_iff_ne, hposition]
    intro heq
    rw [heq, Position.before_iff] at hlt
    omega
  have honward : (before ++ first :: more).dropWhile (fun t => src.place t != decl.position) =
      first :: more := (takeWhile_dropWhile_append hplaces (by simp [hposition])).2
  have hbehind : (front ++ colon :: (value ++ rest)).dropWhile (fun t => t.kind != .colon) =
      colon :: (value ++ rest) :=
    (takeWhile_dropWhile_append (by simpa using hfront) (by simp [hcolon])).2
  have hinside : (value ++ rest).takeWhile (fun t => !t.kind.stopsGroup) = value :=
    (takeWhile_dropWhile_append (by simpa using hvalue) (by simpa using hrest)).1
  rw [Source.valueTokens, ← hbefore, honward, hsplit, hbehind, List.tail_cons, hinside]

/-! ### Declarations and their segments -/

/-- The value of the declaration consists of the segments, and what the declaration says of its
value is read off them. -/
structure DeclaredBy (src : Source) (decl : Declaration) (segments : List Segment) : Prop where
  segmented : Segmented src segments
  valueTokens_eq : src.valueTokens decl = tokensOf segments
  parts_ne_nil : decl.value.parts ≠ []
  parts_eq : decl.value.parts = segments.filterMap (Segment.asPart src)
  text_eq : decl.value.text = src.textOf (partsOf segments).flatten
  important_eq : decl.important = segments.any Segment.isMark
  not_stray : (Stylesheet.read src).faults = [] → ∀ segment ∈ segments, segment.isStray = false

/-- The segments of every declaration of a stylesheet. -/
theorem exists_declaredBy {src : Source} {decl : Declaration}
    (h : .declaration decl ∈ (Stylesheet.read src).events) :
    ∃ segments, DeclaredBy src decl segments := by
  rw [read_eq_sheetFrom] at h
  obtain ⟨us, scan, hus, hread, hfaults⟩ := sheetFrom_readAt src .sheet [] src.tokens h
  obtain ⟨first, hfirst, hposition⟩ := hread.position_eq
  obtain ⟨front, colon, value, rest, hsplit, hfront, hcolon, hparts, hbrace⟩ := hread.exists_colon
  obtain ⟨segments, hvalue, hsegmented, hscans, hstop⟩ := readParts_segments src {} value
  rw [hparts] at hvalue hscans hstop
  -- of the tokens that stop a value, the brace that opens a block has been excluded
  have hrest : ∀ t ∈ rest.head?, t.kind.stopsGroup = true := by
    intro t ht
    obtain ⟨more, rfl⟩ := List.head?_eq_some_iff.mp ht
    have hends := hstop t rfl
    have hne : t.kind ≠ .leftBrace := hbrace
    revert hends hne
    cases t.kind <;> simp [TokenKind.endsHeader, TokenKind.stopsGroup]
  rw [hvalue] at hsplit
  have hparts_eq : scan.parts = segments.filterMap (Segment.asPart src) := hscans.parts_eq
  refine ⟨segments, hsegmented, ?_, ?_, ?_, ?_, ?_, ?_⟩
  · exact valueTokens_eq hus hfirst hposition hsplit hfront hcolon hsegmented.inside hrest
  · rw [hread.value_eq]
    exact hread.parts_ne_nil
  · rw [hread.value_eq]
    exact hparts_eq
  · have hcovered := hscans.covered_eq [] rfl
    rw [List.nil_append] at hcovered
    rw [hread.value_eq, ValueScan.value, hcovered, Source.textOf]
    cases Span.coverAll? ((partsOf segments).flatten.map Token.span) <;> rfl
  · rw [hread.important_eq, hscans.important_eq]
    rfl
  · intro hnone segment hsegment
    rw [read_eq_sheetFrom] at hnone
    rw [hnone] at hfaults
    have hlength := hscans.length_faults
    rw [List.subset_nil.mp hfaults] at hlength
    have hcount : segments.countP Segment.isStray = 0 := by simpa using hlength.symm
    simpa using List.countP_eq_zero.mp hcount segment hsegment

/-! ### Parts and their tokens -/

/-- What a part of a value says of its tokens.  It is a slice of the source, and it has a target
exactly if it is a URL by itself. -/
structure IsPart (src : Source) (tokens : List Token) (part : Part) : Prop where
  covers : src.Covers tokens part.text
  position_eq : ∀ first ∈ tokens.head?, part.position = src.position first.span.start
  kind_eq : ∀ first ∈ tokens.head?, part.kind = first.kind.part
  isUri_iff : part.kind = .uri ↔ ∃ t, tokens = [t] ∧ t.kind = .url
  uri_eq : part.uri = if part.kind = .uri then some (urlTarget part.text) else none

section Parts
variable {src : Source} {segments : List Segment}

theorem isPart_partOf {first : Token} {more : List Token}
    (hsub : (first :: more).Sublist src.tokens) (hmore : first.kind = .url → more = []) :
    IsPart src (first :: more) (src.partOf first more) where
  covers := src.covers_textOf hsub (List.cons_ne_nil _ _)
  position_eq := by
    rintro _ ⟨⟩
    obtain ⟨last, hlast⟩ : ∃ last, (first :: more).getLast? = some last := ⟨_, List.getLast?_cons⟩
    rw [Source.partOf, (src.tokens_apart.sublist hsub).foldl_cover hlast]
  kind_eq := by
    rintro _ ⟨⟩
    rfl
  isUri_iff := by
    rw [Source.partOf, TokenKind.part_eq_uri_iff]
    constructor
    · intro hurl
      exact ⟨first, by rw [hmore hurl], hurl⟩
    · rintro ⟨t, heq, hurl⟩
      rwa [(List.cons.inj heq).1]
  uri_eq := by simp only [Source.partOf, TokenKind.part_eq_uri_iff]

/-- The parts among the segments are those that their tokens make. -/
theorem Segmented.forall₂_isPart (h : Segmented src segments)
    (hsub : (tokensOf segments).Sublist src.tokens) :
    List.Forall₂ (IsPart src) (partsOf segments) (segments.filterMap (Segment.asPart src)) := by
  induction h with
  | nil => exact .nil
  | mark _ _ ih => exact ih ((List.sublist_append_right _ _).trans hsub)
  | stray _ _ _ ih => exact ih ((List.sublist_append_right _ _).trans hsub)
  | group hopener _ _ ih =>
    have hfirst := isPart_partOf ((List.sublist_append_left _ _).trans hsub)
      fun hurl => by rcases hopener with h | h <;> rw [h] at hurl <;> cases hurl
    exact .cons hfirst (ih ((List.sublist_append_right _ _).trans hsub))
  | single _ _ _ _ _ ih =>
    have hfirst := isPart_partOf ((List.sublist_append_left _ _).trans hsub) fun _ => rfl
    exact .cons hfirst (ih ((List.sublist_append_right _ _).trans hsub))

theorem flatten_partsOf_sublist (segments : List Segment) :
    (partsOf segments).flatten.Sublist (tokensOf segments) := by
  induction segments with
  | nil => exact .refl _
  | cons segment segments ih =>
    cases segment with
    | part first more => exact (List.Sublist.refl (first :: more)).append ih
    | mark bang word => exact ih.trans (List.sublist_append_right _ _)
    | stray bang => exact ih.trans (List.sublist_append_right _ _)

end Parts

section Declared
variable {src : Source} {decl : Declaration} {segments : List Segment}

theorem DeclaredBy.sublist (h : DeclaredBy src decl segments) :
    (tokensOf segments).Sublist src.tokens := by
  rw [← h.valueTokens_eq]
  exact src.valueTokens_sublist decl

theorem DeclaredBy.forall₂_isPart (h : DeclaredBy src decl segments) :
    List.Forall₂ (IsPart src) (partsOf segments) decl.value.parts := by
  rw [h.parts_eq]
  exact h.segmented.forall₂_isPart h.sublist

/-- The text of a value goes from its first part to its last. -/
theorem DeclaredBy.covers (h : DeclaredBy src decl segments) :
    src.Covers (partsOf segments).flatten decl.value.text := by
  have hne : (partsOf segments).flatten ≠ [] := by
    obtain ⟨part, parts, hparts⟩ := List.exists_cons_of_ne_nil h.parts_ne_nil
    have hall := h.forall₂_isPart
    rw [hparts] at hall
    obtain ⟨tokens, others, hfirst, -, hsplit⟩ := List.forall₂_cons_right_iff.mp hall
    obtain ⟨first, hmem, -⟩ := hfirst.covers
    obtain ⟨more, rfl⟩ := List.head?_eq_some_iff.mp hmem
    simp [hsplit]
  rw [h.text_eq]
  exact src.covers_textOf ((flatten_partsOf_sublist segments).trans h.sublist) hne

end Declared

/-- **The parts of a value.**  The tokens of the value of a declaration are those of its
segments, one behind the other: parts, of which there is at least one, marks, and exclamation
marks that mark nothing.  Each part of the declaration is what the tokens of one of these make,
and its text is a slice of the source, as is the text of the value from the first part to the
last. -/
theorem value_partition (text : String) {decl : Declaration}
    (hdecl : .declaration decl ∈ (Stylesheet.ofString text).events) :
    let src := Source.ofString text
    ∃ segments, Segmented src segments ∧ src.valueTokens decl = tokensOf segments ∧
      decl.value.parts ≠ [] ∧
      List.Forall₂ (IsPart src) (partsOf segments) decl.value.parts ∧
      src.Covers (partsOf segments).flatten decl.value.text := by
  intro src
  obtain ⟨segments, h⟩ := exists_declaredBy hdecl
  exact ⟨segments, h.segmented, h.valueTokens_eq, h.parts_ne_nil, h.forall₂_isPart, h.covers⟩

/-- A value with a mark in front, a group that holds an exclamation mark, a URL, and an
exclamation mark that marks nothing. -/
theorem value_partition_marks :
    let text := "a{b:!important f(c!) url(d)!}"
    let src := Source.ofString text
    let decl : Declaration :=
      ⟨"b", none, ⟨1, 3⟩, ⟨"f(c!) url(d)",
        [⟨.function, "f(c!)", ⟨1, 16⟩, none⟩, ⟨.uri, "url(d)", ⟨1, 22⟩, some "d"⟩]⟩, true⟩
    .declaration decl ∈ (Stylesheet.ofString text).events ∧
      ∃ segments, Segmented src segments ∧ src.valueTokens decl = tokensOf segments ∧
        List.Forall₂ (IsPart src) (partsOf segments) decl.value.parts ∧
        src.Covers (partsOf segments).flatten decl.value.text := by
  intro text src decl
  have hdecl : .declaration decl ∈ (Stylesheet.ofString text).events := by decide +kernel
  obtain ⟨segments, hsegmented, htokens, -, hparts, hcovers⟩ := value_partition text hdecl
  exact ⟨hdecl, segments, hsegmented, htokens, hparts, hcovers⟩

end SheetLint
