import Mathlib.Algebra.Ring.Nat
import SheetLint.Proofs.Cursor
import SheetLint.Proofs.Origins
import SheetLint.Proofs.OutsideGroups

/-! # The queries of an import

The queries of an import are cut at the commas between its target and what ends it.  All commas
count, those inside parentheses as well, so a query with a comma in its parentheses falls into
fragments (`importQuery_cut_inside_group`).

Cutting at the commas outside parentheses would give the same texts exactly if no comma stands
inside any (`texts_eq_iff`): each comma that is cut at is missing from the texts, so that cutting
at more of them leaves less text (`sum_width_pieces`).  In the same way the parentheses of every
query are balanced exactly if those of the list are and no comma stands inside
(`parenBalanced_queries_iff`).
-/
namespace SheetLint
open Text

/-! ### Cutting at commas -/

/-- The tokens between some of the commas, where there is any.  Which commas count may depend on
the number of groups that they stand in. -/
def queriesOf (sep : Token × Nat → Bool) (ts : List Token) : List (List Token) :=
  ((pieces sep (groupDepths 0 ts)).map (List.map Prod.fst)).filter fun query => !query.isEmpty

/-- Whether a token is a comma. -/
def isComma (p : Token × Nat) : Bool := p.1.kind == .comma

/-- Whether a token is a comma that stands in no group. -/
def isOuterComma (p : Token × Nat) : Bool := p.1.kind == .comma && p.2 == 0

/-- No comma stands in a group. -/
def NoCommaInside (ts : List Token) : Prop := ∀ p ∈ groupDepths 0 ts, p.1.kind = .comma → p.2 = 0

section Cutting
variable {sep sep' : Token × Nat → Bool} {ts : List Token}

/-- The queries of an import are cut at all commas. -/
theorem mediaQueries_eq (src : Source) (ts : List Token) :
    src.mediaQueries ts = (queriesOf isComma ts).map src.textOf := by
  rw [Source.mediaQueries, queriesOf]
  conv_lhs => rw [← map_fst_groupDepths 0 ts, pieces_map]
  rfl

theorem sublist_of_mem_pieces_groupDepths {depth : Nat} {ps : List (Token × Nat)}
    (h : ps ∈ pieces sep (groupDepths depth ts)) : (ps.map Prod.fst).Sublist ts := by
  have hmap := (sublist_of_mem_pieces h).map Prod.fst
  rwa [map_fst_groupDepths] at hmap

theorem sublist_of_mem_queriesOf {query : List Token} (h : query ∈ queriesOf sep ts) :
    query.Sublist ts ∧ query ≠ [] := by
  obtain ⟨hmem, hne⟩ := List.mem_filter.mp h
  obtain ⟨ps, hps, rfl⟩ := List.mem_map.mp hmem
  exact ⟨sublist_of_mem_pieces_groupDepths hps, by simpa using hne⟩

end Cutting

/-! ### How much text is covered -/

/-- The number of bytes from the start of the first token to the end of the last. -/
def width : List Token → Nat
  | [] => 0
  | [t] => t.span.stop - t.span.start
  | t :: u :: ts => (u.span.start - t.span.start) + width (u :: ts)

/-- None of the tokens is empty. -/
def Proper (ts : List Token) : Prop := ∀ t ∈ ts, t.span.start < t.span.stop

section Width
variable {t last : Token} {ts us : List Token}

theorem Apart.start_add_width (h : Apart (t :: ts)) (hlast : last ∈ (t :: ts).getLast?) :
    t.span.start + width (t :: ts) = last.span.stop := by
  induction ts generalizing t with
  | nil =>
    obtain rfl : t = last := Option.some.inj hlast
    exact Nat.add_sub_cancel' (h.start_le_stop t List.mem_cons_self)
  | cons u ts ih =>
    have hrest := ih (h.sublist (List.sublist_cons_self t _)) (by simpa using hlast)
    have hbehind := (List.pairwise_cons.mp h.ordered).1 u List.mem_cons_self
    have hproper := h.start_le_stop t List.mem_cons_self
    rw [width]
    omega

/-- The text that some tokens cover is as long as they are wide. -/
theorem byteSize_textOf {src : Source} (h : us.Sublist src.tokens) :
    byteSize (src.textOf us).toList = width us := by
  cases us with
  | nil => rfl
  | cons t us =>
    obtain ⟨first, hfirst, last, hlast, front, back, -, hstart, hstop⟩ :=
      src.covers_textOf h (List.cons_ne_nil t us)
    obtain rfl : t = first := Option.some.inj hfirst
    have hwidth := (src.tokens_apart.sublist h).start_add_width hlast
    omega

theorem width_lt_width_cons (hproper : t.span.start < t.span.stop)
    (hbehind : ∀ u ∈ ts.head?, t.span.stop ≤ u.span.start) : width ts < width (t :: ts) := by
  cases ts with
  | nil => exact Nat.sub_pos_of_lt hproper
  | cons u ts =>
    have hle := hbehind u rfl
    rw [width]
    omega

/-- One more token in front widens the longer of two lists at least as much. -/
theorem width_cons_add_le (hus : us <+: ts)
    (hbehind : ∀ u ∈ ts.head?, t.span.stop ≤ u.span.start) :
    width (t :: us) + width ts ≤ width (t :: ts) + width us := by
  cases us with
  | nil =>
    cases ts with
    | nil => exact Nat.le_refl _
    | cons u ts =>
      have hle := hbehind u rfl
      simp only [width]
      omega
  | cons u us =>
    obtain ⟨more, rfl⟩ := hus
    rw [List.cons_append, width, width]
    omega

/-- **Cutting at more separators leaves less.**  Every token that only the second of two cuts
cuts at takes from the width of the pieces. -/
theorem sum_width_pieces (sep sep' : Token × Nat → Bool) (ps : List (Token × Nat))
    (hsep : ∀ p, sep p = true → sep' p = true) (hapart : Apart (ps.map Prod.fst))
    (hproper : Proper (ps.map Prod.fst)) :
    ∃ q qs r rs, pieces sep ps = q :: qs ∧ pieces sep' ps = r :: rs ∧ r <+: q ∧
      ((r :: rs).map fun piece => width (piece.map Prod.fst)).sum +
          ps.countP (fun p => sep' p && !sep p) ≤
        ((q :: qs).map fun piece => width (piece.map Prod.fst)).sum := by
  induction ps with
  | nil => exact ⟨[], [], [], [], rfl, rfl, List.prefix_rfl, Nat.le_refl _⟩
  | cons p ps ih =>
    obtain ⟨q, qs, r, rs, hq, hr, hfront, hle⟩ :=
      ih (hapart.sublist (List.sublist_cons_self _ _))
        fun t ht => hproper t (List.mem_cons_of_mem _ ht)
    have hp : p.1.span.start < p.1.span.stop := hproper p.1 List.mem_cons_self
    have hbehind : ∀ u ∈ (q.map Prod.fst).head?, p.1.span.stop ≤ u.span.start := by
      intro u hu
      have hsub := (sublist_of_mem_pieces (hq ▸ List.mem_cons_self : q ∈ pieces sep ps)).map
        Prod.fst
      exact (List.pairwise_cons.mp hapart.ordered).1 u (hsub.subset (List.mem_of_mem_head? hu))
    simp only [List.map_cons, List.sum_cons] at hle ⊢
    by_cases hcut : sep p = true
    · refine ⟨[], q :: qs, [], r :: rs, by rw [pieces_cons_of_sep hcut, hq],
        by rw [pieces_cons_of_sep (hsep p hcut), hr], List.prefix_rfl, ?_⟩
      rw [List.countP_cons_of_neg (by simp [hcut])]
      simpa [width] using hle
    have hwhole := pieces_cons_of_not (by simpa using hcut) hq
    by_cases hcut' : sep' p = true
    · refine ⟨p :: q, qs, [], r :: rs, hwhole, by rw [pieces_cons_of_sep hcut', hr],
        List.nil_prefix, ?_⟩
      have hlt := width_lt_width_cons hp hbehind
      rw [List.countP_cons_of_pos (by simp [hcut, hcut'])]
      simp only [List.map_cons, List.map_nil, List.sum_cons, width]
      omega
    · refine ⟨p :: q, qs, p :: r, rs, hwhole, pieces_cons_of_not (by simpa using hcut') hr,
        List.cons_prefix_cons.mpr ⟨rfl, hfront⟩, ?_⟩
      have hmore := width_cons_add_le (hfront.map Prod.fst) hbehind
      rw [List.countP_cons_of_neg (by simp [hcut'])]
      simp only [List.map_cons]
      omega

end Width

/-! ### The texts of the queries -/

section Texts
variable {src : Source} {list : List Token}

/-- The texts of the queries are together as long as the pieces are wide. -/
theorem sum_byteSize_queriesOf (hlist : list.Sublist src.tokens) (sep : Token × Nat → Bool) :
    (((queriesOf sep list).map src.textOf).map fun text => byteSize text.toList).sum =
      ((pieces sep (groupDepths 0 list)).map fun piece => width (piece.map Prod.fst)).sum := by
  have hsub (piece) (hpiece : piece ∈ pieces sep (groupDepths 0 list)) :
      (piece.map Prod.fst).Sublist src.tokens :=
    (sublist_of_mem_pieces_groupDepths hpiece).trans hlist
  rw [queriesOf]
  generalize pieces sep (groupDepths 0 list) = ps at hsub
  induction ps with
  | nil => rfl
  | cons piece ps ih =>
    obtain ⟨hpiece, hps⟩ := List.forall_mem_cons.mp hsub
    have hrest := ih hps
    rw [List.map_cons, List.map_cons, List.sum_cons, ← hrest]
    cases piece with
    | nil => simp [width]
    | cons p piece =>
      have hwidth := byteSize_textOf hpiece
      rw [List.map_cons] at hwidth ⊢
      rw [List.filter_cons_of_pos (by rfl), List.map_cons, List.map_cons, List.sum_cons, hwidth]

/-- The plain tokens of a source are not empty. -/
theorem proper_of_plain (hlist : list.Sublist src.tokens) (hplain : Plain list) : Proper list := by
  intro t ht
  obtain ⟨body, hbody, hproper⟩ := src.laidOut_tokens.exists_body
  have hmem := hlist.subset ht
  rw [hbody] at hmem
  rcases List.mem_append.mp hmem with hmem | hmem
  · exact (hproper t hmem).2
  · have hkind := hplain.endless t ht
    rw [List.mem_singleton.mp hmem] at hkind
    exact absurd rfl hkind

/-- **The texts tell where commas stand.**  Cutting at all commas and cutting at those outside
groups give the same texts exactly if no comma stands in a group. -/
theorem texts_eq_iff (hlist : list.Sublist src.tokens) (hplain : Plain list) :
    (queriesOf isComma list).map src.textOf = (queriesOf isOuterComma list).map src.textOf ↔
      NoCommaInside list := by
  constructor
  · intro htexts
    have hfst := map_fst_groupDepths 0 list
    obtain ⟨q, qs, r, rs, hq, hr, -, hle⟩ :=
      sum_width_pieces isOuterComma isComma (groupDepths 0 list)
        (fun p hp => (Bool.and_eq_true_iff.mp hp).1)
        (by rw [hfst]; exact src.tokens_apart.sublist hlist)
        (by rw [hfst]; exact proper_of_plain hlist hplain)
    rw [← hq, ← hr, ← sum_byteSize_queriesOf hlist, ← sum_byteSize_queriesOf hlist, htexts] at hle
    have hnone : (groupDepths 0 list).countP (fun p => isComma p && !isOuterComma p) = 0 := by omega
    intro p hp hcomma
    have hnot := List.countP_eq_zero.mp hnone p hp
    simpa [isComma, isOuterComma, hcomma] using hnot
  · intro hnone
    have hpieces : pieces isComma (groupDepths 0 list) =
        pieces isOuterComma (groupDepths 0 list) := by
      refine pieces_congr fun p hp => ?_
      by_cases hcomma : p.1.kind = .comma
      · simp [isComma, isOuterComma, hcomma, hnone p hp hcomma]
      · simp [isComma, isOuterComma, hcomma]
    rw [queriesOf, queriesOf, hpieces]

end Texts

/-! ### Balanced parentheses -/

/-- The number of parentheses that are open behind some tokens when `depth` are open in front of
them; `none` if one of the tokens closes one that is not open. -/
def parensBehind (depth : Nat) : List Token → Option Nat
  | [] => some depth
  | t :: ts =>
    if t.kind.opensGroup then parensBehind (depth + 1) ts
    else if t.kind = .rightParen then
      if depth = 0 then none else parensBehind (depth - 1) ts
    else parensBehind depth ts

/-- The parentheses of the tokens are balanced. -/
def ParenBalanced (ts : List Token) : Prop := parensBehind 0 ts = some 0

/-- Pieces of tokens whose parentheses are balanced, the first one behind parentheses that are
open, come from tokens whose parentheses are balanced, and in which commas stand outside. -/
theorem parensBehind_pieces (depth : Nat) (ts : List Token) :
    ∃ p ps, pieces (fun t => t.kind == .comma) ts = p :: ps ∧
      (parensBehind depth p = some 0 ∧ (∀ q ∈ ps, ParenBalanced q) ↔
        parensBehind depth ts = some 0 ∧
          ∀ c ∈ groupDepths depth ts, c.1.kind = .comma → c.2 = 0) := by
  induction ts generalizing depth with
  | nil => exact ⟨[], [], rfl, by simp [groupDepths]⟩
  | cons t ts ih =>
    by_cases hcomma : t.kind = .comma
    · obtain ⟨p, ps, hpieces, hiff⟩ := ih 0
      refine ⟨[], p :: ps, by rw [pieces_cons_of_sep (by simp [hcomma]), hpieces], ?_⟩
      have hdepths : groupDepths depth (t :: ts) = (t, depth) :: groupDepths depth ts :=
        groupDepths_other (by rw [hcomma]; rfl) (by simp [hcomma]) depth ts
      have hbehind : parensBehind depth (t :: ts) = parensBehind depth ts := by
        simp [parensBehind, hcomma, TokenKind.opensGroup]
      rw [hdepths, hbehind, List.forall_mem_cons, List.forall_mem_cons]
      simp only [parensBehind, Option.some.injEq, hcomma, forall_const]
      constructor
      · rintro ⟨rfl, h⟩
        obtain ⟨hbalanced, hnone⟩ := hiff.mp h
        exact ⟨hbalanced, rfl, hnone⟩
      · rintro ⟨hbalanced, rfl, hnone⟩
        exact ⟨rfl, hiff.mpr ⟨hbalanced, hnone⟩⟩
    -- a token that is no comma belongs to the first piece
    have hfirst (next : Nat) (n : Nat)
        (hbehind : ∀ us, parensBehind depth (t :: us) = parensBehind next us)
        (hdepths : groupDepths depth (t :: ts) = (t, n) :: groupDepths next ts) :
        ∃ p ps, pieces (fun t => t.kind == .comma) (t :: ts) = p :: ps ∧
          (parensBehind depth p = some 0 ∧ (∀ q ∈ ps, ParenBalanced q) ↔
            parensBehind depth (t :: ts) = some 0 ∧
              ∀ c ∈ groupDepths depth (t :: ts), c.1.kind = .comma → c.2 = 0) := by
      obtain ⟨p, ps, hpieces, hiff⟩ := ih next
      refine ⟨t :: p, ps, pieces_cons_of_not (by simpa using hcomma) hpieces, ?_⟩
      rw [hbehind, hbehind, hdepths, List.forall_mem_cons, hiff]
      simp [hcomma]
    by_cases hopen : t.kind.opensGroup = true
    · exact hfirst (depth + 1) (depth + 1) (fun us => by simp [parensBehind, hopen])
        (groupDepths_opener hopen depth ts)
    by_cases hclose : t.kind = .rightParen
    · cases depth with
      | zero =>
        obtain ⟨p, ps, hpieces, -⟩ := ih 0
        refine ⟨t :: p, ps, pieces_cons_of_not (by simpa using hcomma) hpieces, ?_⟩
        simp [parensBehind, hclose, TokenKind.opensGroup]
      | succ depth =>
        exact hfirst depth (depth + 1)
          (fun us => by simp [parensBehind, hclose, TokenKind.opensGroup])
          (groupDepths_close hclose (depth + 1) ts)
    · exact hfirst depth depth (fun us => by simp [parensBehind, hopen, hclose])
        (groupDepths_other (by simpa using hopen) hclose depth ts)

/-- **The parentheses of every query are balanced** exactly if those of all tokens are and no
comma stands inside. -/
theorem parenBalanced_queries_iff (list : List Token) :
    (∀ query ∈ queriesOf isComma list, ParenBalanced query) ↔
      ParenBalanced list ∧ NoCommaInside list := by
  obtain ⟨p, ps, hpieces, hiff⟩ := parensBehind_pieces 0 list
  have hqueries : queriesOf isComma list = (p :: ps).filter fun query => !query.isEmpty := by
    rw [← hpieces, queriesOf]
    conv_rhs => rw [← map_fst_groupDepths 0 list, pieces_map]
    rfl
  have hall : (∀ query ∈ queriesOf isComma list, ParenBalanced query) ↔
      ∀ query ∈ p :: ps, ParenBalanced query := by
    rw [hqueries, List.forall_mem_filter]
    refine forall₂_congr fun query _ => ⟨fun h => ?_, fun h _ => h⟩
    cases query with
    | nil => rfl
    | cons t query => exact h rfl
  rw [hall, List.forall_mem_cons]
  exact hiff

/-! ### Where an import stands -/

/-- An import as it stands in the source: its keyword, its target and the tokens `list` behind
the target, up to the token `stop` that ends it. -/
structure ImportAt (src : Source) (statement : ImportRule) (keyword target : Token)
    (list : List Token) (stop : Token) : Prop where
  stands : keyword :: target :: (list ++ [stop]) <:+: src.tokens
  keyword_kind : keyword.kind = .atKeyword
  keyword_text : lower (src.tokenText keyword) = "@import"
  position_eq : statement.position = src.place keyword
  target_eq : src.importTarget? target = some statement.uri
  plain : Plain list
  stop_endsHeader : stop.kind.endsHeader = true

section Imports
variable {src : Source} {statement : ImportRule}

/-- An import that is read has a target, and its queries are those of the header behind it. -/
theorem exists_target_of_readImport {position : Position} {ts : List Token}
    (h : .importRule statement ∈ (readImport src position ts).events) :
    ∃ target us, ts = target :: us ∧ src.importTarget? target = some statement.uri ∧
      statement.position = position ∧ statement.media = src.mediaQueries (headerTokens us) ∧
      (readImport src position ts).faults =
        if (src.peek (afterHeader us)).kind = .semicolon then []
        else [src.unexpected (afterHeader us) .semicolon] := by
  cases ts with
  | nil =>
    rw [readImport_noTarget position rfl] at h
    cases h
  | cons target us =>
    cases htarget : src.importTarget? target with
    | none =>
      rw [readImport_noTarget position htarget] at h
      cases h
    | some uri =>
      rw [readImport_target position htarget] at h ⊢
      obtain rfl := Event.importRule.inj (List.mem_singleton.mp h)
      exact ⟨target, us, rfl, htarget, rfl, rfl, rfl⟩

/-- Every import that is reported stands in the source.  Without a fault, a `;` ends it. -/
theorem exists_importAt (h : .importRule statement ∈ (Stylesheet.read src).events) :
    ∃ keyword target list stop, ImportAt src statement keyword target list stop ∧
      statement.media = src.mediaQueries list ∧
      ((Stylesheet.read src).faults = [] → stop.kind = .semicolon) := by
  rw [read_eq_sheetFrom] at h ⊢
  obtain ⟨body, keyword, ts, hts, hmem, hfaults⟩ :=
    exists_readItem_of_mem src .sheet [] src.tokens (by simp) h
  obtain ⟨hkind, htext, hitem⟩ := readItem_eq_readImport hmem
  rw [hitem] at hmem hfaults
  obtain ⟨target, us, rfl, htarget, hposition, hmedia, hcomplaints⟩ :=
    exists_target_of_readImport hmem
  have hahead : Ahead (keyword :: target :: us) (afterHeader us) :=
    ((afterHeader_ahead us).cons (ne_of_plain (endsHeader_of_importTarget? htarget) rfl)).cons
      (by simp [hkind])
  obtain ⟨stop, rest, hafter⟩ := List.exists_cons_of_ne_nil
    ((src.tokens_endsOnce.suffix hts (List.cons_ne_nil _ _)).1.ahead hahead)
  have hsplit := headerTokens_append_afterHeader us
  rw [hafter] at hsplit
  refine ⟨keyword, target, headerTokens us, stop, ?_, hmedia, ?_⟩
  · refine ⟨?_, hkind, htext, hposition, htarget, plain_headerTokens us,
      endsHeader_of_afterHeader hafter⟩
    obtain ⟨front, hfront⟩ := hts
    refine ⟨front, rest, ?_⟩
    rw [← hfront]
    simp [hsplit]
  · intro hnone
    rw [hcomplaints, hafter, Source.peek_cons] at hfaults
    split at hfaults
    · assumption
    · have hfault := hfaults _ List.mem_cons_self
      rw [hnone] at hfault
      cases hfault

end Imports

/-- **The queries of an import.**  They are the texts between the commas that stand behind the
target, where there is any.  Cutting at the commas outside parentheses would give the same exactly
if no comma stands inside.  The parentheses of all queries are balanced exactly if those of the
list are and no comma stands inside. -/
theorem importMedia_cut (src : Source) {statement : ImportRule}
    (h : .importRule statement ∈ (Stylesheet.read src).events) :
    ∃ keyword target list stop, ImportAt src statement keyword target list stop ∧
      ((Stylesheet.read src).faults = [] → stop.kind = .semicolon) ∧
      statement.media = (queriesOf isComma list).map src.textOf ∧
      (∀ query ∈ queriesOf isComma list, src.Covers query (src.textOf query)) ∧
      (statement.media = (queriesOf isOuterComma list).map src.textOf ↔ NoCommaInside list) ∧
      ((∀ query ∈ queriesOf isComma list, ParenBalanced query) ↔
        ParenBalanced list ∧ NoCommaInside list) := by
  obtain ⟨keyword, target, list, stop, hat, hmedia, hstop⟩ := exists_importAt h
  rw [mediaQueries_eq] at hmedia
  have hlist : list.Sublist src.tokens := by
    have hinner : list.Sublist (keyword :: target :: (list ++ [stop])) :=
      ((List.sublist_append_left list [stop]).cons target).cons keyword
    exact hinner.trans hat.stands.sublist
  refine ⟨keyword, target, list, stop, hat, hstop, hmedia, ?_, ?_, parenBalanced_queries_iff list⟩
  · intro query hquery
    obtain ⟨hsub, hne⟩ := sublist_of_mem_queriesOf hquery
    exact src.covers_textOf (hsub.trans hlist) hne
  · rw [hmedia]
    exact texts_eq_iff hlist hat.plain

/-- A condition in parentheses, an empty query and a last comma are no obstacle. -/
theorem importMedia_cut_condition :
    let src := Source.ofString "@import url(a) screen and (b:c),,d,;"
    let statement : ImportRule := ⟨"a", ["screen and (b:c)", "d"], ⟨1, 1⟩⟩
    .importRule statement ∈ (Stylesheet.read src).events ∧
      ∃ keyword target list stop, ImportAt src statement keyword target list stop ∧
        stop.kind = .semicolon ∧
        statement.media = (queriesOf isComma list).map src.textOf ∧
        (statement.media = (queriesOf isOuterComma list).map src.textOf ↔ NoCommaInside list) := by
  intro src statement
  have hmem : .importRule statement ∈ (Stylesheet.read src).events := by decide +kernel
  obtain ⟨keyword, target, list, stop, hat, hstop, hmedia, -, houter, -⟩ := importMedia_cut src hmem
  exact ⟨hmem, keyword, target, list, stop, hat, hstop (by decide +kernel), hmedia, houter⟩

/-- In `f(b,c)` the comma stands inside parentheses, and the query falls into two fragments whose
parentheses are not balanced. -/
theorem importQuery_cut_inside_group :
    let src := Source.ofString "@import \"a\" f(b,c);"
    let statement : ImportRule := ⟨"a", ["f(b", "c)"], ⟨1, 1⟩⟩
    let list : List Token :=
      [⟨.function, ⟨12, 14⟩⟩, ⟨.ident, ⟨14, 15⟩⟩, ⟨.comma, ⟨15, 16⟩⟩, ⟨.ident, ⟨16, 17⟩⟩,
        ⟨.rightParen, ⟨17, 18⟩⟩]
    (Stylesheet.read src).faults = [] ∧
      .importRule statement ∈ (Stylesheet.read src).events ∧
      ImportAt src statement ⟨.atKeyword, ⟨0, 7⟩⟩ ⟨.string, ⟨8, 11⟩⟩ list
        ⟨.semicolon, ⟨18, 19⟩⟩ ∧
      (queriesOf isOuterComma list).map src.textOf = ["f(b,c)"] ∧
      ParenBalanced list ∧ ¬ ∀ query ∈ queriesOf isComma list, ParenBalanced query := by
  intro src statement list
  refine ⟨by decide +kernel, by decide +kernel, ?_, by decide +kernel, rfl, ?_⟩
  · refine ⟨⟨[], [⟨.eof, ⟨19, 19⟩⟩], ?_⟩, rfl, ?_, ?_, ?_, ?_, rfl⟩
    case refine_5 => simp [list, Plain, TokenKind.endsHeader]
    all_goals decide +kernel
  · rw [parenBalanced_queries_iff]
    rintro ⟨-, hnone⟩
    exact absurd (hnone (⟨.comma, ⟨15, 16⟩⟩, 1) (by decide) rfl) (by decide)

end SheetLint
