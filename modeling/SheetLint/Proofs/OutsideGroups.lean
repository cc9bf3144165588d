import SheetLint.Proofs.ValueParts

/-! # URLs in a value

A declaration refers to the URLs among the parts of its value.  A group is one part, whatever
stands inside it, so a URL in a group is no part and is not referred to.

`groupDepths` counts, token by token, the groups that a token stands in.  The segments of a
value agree with it: the tokens of a group have a depth, all others have none
(`Segmented.groupDepths_group`, `Segmented.groupDepths_plain`).  Hence a declaration refers to
exactly the URLs of depth zero (`references_eq_urls`), and to all URLs in its value only if no
group holds one (`url_inside_group`).
-/
namespace SheetLint
open Text

/-! ### The depth of a token -/

/-- The tokens, each with the number of groups it stands in, when `depth` groups are open in
front of them.  A parenthesis belongs to the group that it opens or closes. -/
def groupDepths (depth : Nat) : List Token → List (Token × Nat)
  | [] => []
  | t :: ts =>
    if t.kind.opensGroup then (t, depth + 1) :: groupDepths (depth + 1) ts
    else (t, depth) :: groupDepths (if t.kind = .rightParen then depth - 1 else depth) ts

/-- The tokens that stand in no group. -/
def outsideGroups (ts : List Token) : List Token :=
  ((groupDepths 0 ts).filter fun p => p.2 == 0).map Prod.fst

theorem map_fst_groupDepths (depth : Nat) (ts : List Token) :
    (groupDepths depth ts).map Prod.fst = ts := by
  induction ts generalizing depth with
  | nil => rfl
  | cons t ts ih =>
    rw [groupDepths]
    split
    · rw [List.map_cons, ih]
    · rw [List.map_cons, ih]

section Depths
variable {t : Token}

theorem groupDepths_opener (h : t.kind.opensGroup = true) (depth : Nat) (ts : List Token) :
    groupDepths depth (t :: ts) = (t, depth + 1) :: groupDepths (depth + 1) ts := by
  rw [groupDepths, if_pos h]

theorem groupDepths_close (h : t.kind = .rightParen) (depth : Nat) (ts : List Token) :
    groupDepths depth (t :: ts) = (t, depth) :: groupDepths (depth - 1) ts := by
  simp [groupDepths, h, TokenKind.opensGroup]

theorem groupDepths_other (hopen : t.kind.opensGroup = false) (hclose : t.kind ≠ .rightParen)
    (depth : Nat) (ts : List Token) :
    groupDepths depth (t :: ts) = (t, depth) :: groupDepths depth ts := by
  simp [groupDepths, hopen, hclose]

/-- Outside all groups, a token that opens none has no depth, and neither has what follows it
on its account. -/
theorem groupDepths_outside (h : t.kind.opensGroup = false) (ts : List Token) :
    groupDepths 0 (t :: ts) = (t, 0) :: groupDepths 0 ts := by
  by_cases hclose : t.kind = .rightParen
  · exact groupDepths_close hclose 0 ts
  · exact groupDepths_other h hclose 0 ts

end Depths

/-- All of the tokens stand in groups. -/
def AllInside (ps : List (Token × Nat)) : Prop := ∀ p ∈ ps, 0 < p.2

/-- A group that is split off takes the tokens that have a depth. -/
theorem groupDepths_splitGroup (depth : Nat) {ts : List Token}
    (h : ∀ t ∈ ts, t.kind.stopsGroup = false) :
    ∃ inside, AllInside inside ∧
      groupDepths (depth + 1) ts = inside ++ groupDepths 0 (splitGroup (depth + 1) ts).2 := by
  induction ts generalizing depth with
  | nil => exact ⟨[], nofun, rfl⟩
  | cons t ts ih =>
    obtain ⟨ht, hts⟩ := List.forall_mem_cons.mp h
    -- whatever the token does to the depth, it is inside the group itself
    have hcons {next n : Nat} (hnext : groupDepths (depth + 1) (t :: ts) =
          (t, n + 1) :: groupDepths (next + 1) ts)
        (hsplit : splitGroup (depth + 1) (t :: ts) = consFirst t (splitGroup (next + 1) ts)) :
        ∃ inside, AllInside inside ∧ groupDepths (depth + 1) (t :: ts) =
          inside ++ groupDepths 0 (splitGroup (depth + 1) (t :: ts)).2 := by
      obtain ⟨inside, hinside, heq⟩ := ih next hts
      refine ⟨(t, n + 1) :: inside, List.forall_mem_cons.mpr ⟨Nat.succ_pos n, hinside⟩, ?_⟩
      rw [hnext, hsplit, heq]
      rfl
    by_cases hclose : t.kind = .rightParen
    · cases depth with
      | zero =>
        refine ⟨[(t, 1)], by simp [AllInside], ?_⟩
        rw [groupDepths_close hclose]
        simp [splitGroup, hclose]
      | succ depth =>
        exact hcons (groupDepths_close hclose _ ts) (by simp [splitGroup, hclose])
    by_cases hopen : t.kind.opensGroup = true
    · refine hcons (groupDepths_opener hopen _ ts) ?_
      rcases TokenKind.opensGroup_iff.mp hopen with h | h <;> simp [splitGroup, h]
    · have hplain : t.kind.opensGroup = false := by simpa using hopen
      refine hcons (groupDepths_other hplain hclose _ ts) ?_
      rw [splitGroup]
      split <;> simp_all [TokenKind.opensGroup, TokenKind.stopsGroup]

/-! ### The depth of a segment -/

/-- Whether a segment is a group. -/
def Segment.isGroup : Segment → Bool
  | part first _ => first.kind.opensGroup
  | mark _ _ | stray _ => false

section Segments
variable {src : Source} {segment : Segment} {segments : List Segment}

/-- The tokens of a segment that is no group have no depth. -/
theorem Segmented.groupDepths_plain (h : Segmented src (segment :: segments))
    (hgroup : segment.isGroup = false) :
    groupDepths 0 (tokensOf (segment :: segments)) =
      segment.tokens.map (fun t => (t, 0)) ++ groupDepths 0 (tokensOf segments) := by
  cases h with
  | @mark bang word _ hmark _ =>
    have hbang : bang.kind.opensGroup = false := by rw [hmark.bang_kind]; rfl
    have hword : word.kind.opensGroup = false := by rw [hmark.word_kind]; rfl
    rw [tokensOf_cons, Segment.tokens, List.cons_append, groupDepths_outside hbang]
    exact congrArg ((bang, 0) :: ·) (groupDepths_outside hword _)
  | @stray bang _ hbang _ _ =>
    have hopen : bang.kind.opensGroup = false := by rw [hbang]; rfl
    exact groupDepths_outside hopen _
  | group hopener _ _ =>
    rw [Segment.isGroup, TokenKind.opensGroup_iff.mpr hopener] at hgroup
    cases hgroup
  | single _ _ _ _ _ => exact groupDepths_outside hgroup _

/-- The tokens of a group have a depth, and what follows them is outside. -/
theorem Segmented.groupDepths_group (h : Segmented src (segment :: segments))
    (hgroup : segment.isGroup = true) :
    ∃ inside, AllInside inside ∧ groupDepths 0 (tokensOf (segment :: segments)) =
      inside ++ groupDepths 0 (tokensOf segments) := by
  have hinside := h.inside
  cases h with
  | mark _ _ => cases hgroup
  | stray _ _ _ => cases hgroup
  | single _ _ hfunction hparen _ =>
    rw [Segment.isGroup, TokenKind.opensGroup_eq_false_iff.mpr ⟨hfunction, hparen⟩] at hgroup
    cases hgroup
  | @group opener tail _ hopener htail _ =>
    have hbehind : ∀ t ∈ tail ++ tokensOf segments, t.kind.stopsGroup = false :=
      fun t ht => hinside t (List.mem_cons_of_mem opener ht)
    obtain ⟨inside, hdepths, heq⟩ := groupDepths_splitGroup 0 hbehind
    rw [Nat.zero_add, htail.splitGroup_eq] at heq
    refine ⟨(opener, 1) :: inside, List.forall_mem_cons.mpr ⟨Nat.one_pos, hdepths⟩, ?_⟩
    rw [tokensOf_cons, Segment.tokens, List.cons_append, groupDepths_opener hgroup, Nat.zero_add,
      heq, List.cons_append]

/-- The tokens outside groups are those of the segments that are none. -/
theorem Segmented.outsideGroups_cons (h : Segmented src (segment :: segments)) :
    outsideGroups (tokensOf (segment :: segments)) =
      (if segment.isGroup then [] else segment.tokens) ++ outsideGroups (tokensOf segments) := by
  cases hgroup : segment.isGroup with
  | true =>
    obtain ⟨inside, hinside, heq⟩ := h.groupDepths_group hgroup
    have hnone : inside.filter (fun p => p.2 == 0) = [] := by
      refine List.filter_eq_nil_iff.mpr fun p hp => ?_
      simpa using Nat.ne_of_gt (hinside p hp)
    rw [outsideGroups, heq, List.filter_append, hnone]
    rfl
  | false =>
    have hall : (segment.tokens.map fun t => (t, 0)).filter (fun p => p.2 == 0) =
        segment.tokens.map fun t => (t, 0) := by
      refine List.filter_eq_self.mpr fun p hp => ?_
      obtain ⟨t, -, rfl⟩ := List.mem_map.mp hp
      rfl
    rw [outsideGroups, h.groupDepths_plain hgroup, List.filter_append, hall, List.map_append,
      List.map_map]
    exact congrArg (· ++ outsideGroups (tokensOf segments)) (List.map_id _)

end Segments

/-! ### References -/

/-- The reference that a URL in the value of a property makes. -/
def Source.urlReference (src : Source) (name : String) (t : Token) : Reference :=
  ⟨lower name, src.tokenText t, src.position t.span.start, urlTarget (src.tokenText t)⟩

/-- The URL that a segment is, if it is one. -/
def Segment.url? : Segment → Option Token
  | part first _ => if first.kind = .url then some first else none
  | mark _ _ | stray _ => none

section References
variable {src : Source} {segments : List Segment}

/-- The URLs outside groups are the segments that are URLs. -/
theorem Segmented.filter_outsideGroups (h : Segmented src segments) :
    (outsideGroups (tokensOf segments)).filter (fun t => t.kind == .url) =
      segments.filterMap Segment.url? := by
  induction segments with
  | nil => rfl
  | cons segment segments ih =>
    rw [h.outsideGroups_cons, List.filter_append, ih h.tail, List.filterMap_cons]
    cases h with
    | mark hmark _ =>
      simp [Segment.isGroup, Segment.tokens, Segment.url?, hmark.bang_kind, hmark.word_kind]
    | stray hbang _ _ => simp [Segment.isGroup, Segment.tokens, Segment.url?, hbang]
    | group hopener _ _ =>
      rcases hopener with h | h <;>
        simp [Segment.isGroup, Segment.url?, h, TokenKind.opensGroup]
    | @single t _ _ _ hfunction hparen _ =>
      have hopen := TokenKind.opensGroup_eq_false_iff.mpr ⟨hfunction, hparen⟩
      simp only [Segment.isGroup, Segment.tokens, Segment.url?, hopen, Bool.false_eq_true, if_false]
      by_cases hurl : t.kind = .url <;> simp [hurl]

/-- The parts that are URLs make the references of these URLs. -/
theorem Segmented.map_reference (h : Segmented src segments) (name : String) :
    ((segments.filterMap (Segment.asPart src)).filter fun part => part.kind == .uri).map
        (fun part => (⟨lower name, part.text, part.position, part.uri.getD ""⟩ : Reference)) =
      (segments.filterMap Segment.url?).map (src.urlReference name) := by
  induction h with
  | nil => rfl
  | mark _ _ ih => exact ih
  | stray _ _ _ ih => exact ih
  | @group opener tail segments hopener _ _ ih =>
    have hurl : opener.kind ≠ .url :=
      TokenKind.ne_url_of_opensGroup (TokenKind.opensGroup_iff.mpr hopener)
    simp [Segment.asPart, Segment.url?, Source.partOf, TokenKind.part_ne_uri hurl, hurl, ih]
  | @single t segments _ _ _ _ _ ih =>
    by_cases hurl : t.kind = .url
    · simp [Segment.asPart, Segment.url?, Source.partOf, TokenKind.part, hurl, ih,
        Source.urlReference, Source.tokenText]
    · simp [Segment.asPart, Segment.url?, Source.partOf, TokenKind.part_ne_uri hurl, hurl, ih]

/-- All URLs among some tokens stand outside groups exactly if those outside are as many. -/
theorem length_filter_outsideGroups_eq_iff (ts : List Token) :
    ((outsideGroups ts).filter fun t => t.kind == .url).length =
        (ts.filter fun t => t.kind == .url).length ↔
      ∀ p ∈ groupDepths 0 ts, p.1.kind = .url → p.2 = 0 := by
  have houtside : (outsideGroups ts).filter (fun t => t.kind == .url) =
      (((groupDepths 0 ts).filter fun p => p.1.kind == .url).filter fun p => p.2 == 0).map
        Prod.fst := by
    rw [outsideGroups, List.filter_map, List.filter_filter, List.filter_filter]
    simp only [Function.comp_def, Bool.and_comm]
  have hall : ts.filter (fun t => t.kind == .url) =
      ((groupDepths 0 ts).filter fun p => p.1.kind == .url).map Prod.fst := by
    conv_lhs => rw [← map_fst_groupDepths 0 ts, List.filter_map]
    rfl
  rw [houtside, hall, List.length_map, List.length_map, List.length_filter_eq_length_iff]
  simp

end References

/-- **The URLs of a declaration.**  The declaration of a property that loads resources refers to
each URL that stands in no group of its value, in the order of the source.  These are all URLs
in the value exactly if no group holds one. -/
theorem references_eq_urls (text : String) {decl : Declaration}
    (hdecl : .declaration decl ∈ (Stylesheet.ofString text).events)
    (hname : isResourceProperty decl.name = true) :
    let src := Source.ofString text
    let value := src.valueTokens decl
    decl.references =
        ((outsideGroups value).filter fun t => t.kind == .url).map
          (src.urlReference decl.name) ∧
      (decl.references =
          (value.filter fun t => t.kind == .url).map (src.urlReference decl.name) ↔
        ∀ p ∈ groupDepths 0 value, p.1.kind = .url → p.2 = 0) := by
  intro src value
  obtain ⟨segments, h⟩ : ∃ segments, DeclaredBy src decl segments := exists_declaredBy hdecl
  have hvalue : value = tokensOf segments := h.valueTokens_eq
  have hreferences : decl.references =
      ((outsideGroups value).filter fun t => t.kind == .url).map (src.urlReference decl.name) := by
    rw [Declaration.references, if_pos hname, h.parts_eq, h.segmented.map_reference, hvalue,
      h.segmented.filter_outsideGroups]
  refine ⟨hreferences, ?_⟩
  rw [hreferences, ← length_filter_outsideGroups_eq_iff]
  constructor
  · intro heq
    simpa using congrArg List.length heq
  · intro hlength
    have hsub : ((outsideGroups value).filter fun t => t.kind == .url).Sublist
        (value.filter fun t => t.kind == .url) := by
      have hmap := (List.filter_sublist (p := fun p => p.2 == 0)
        (l := groupDepths 0 value)).map Prod.fst
      rw [map_fst_groupDepths] at hmap
      exact hmap.filter _
    rw [hsub.eq_of_length hlength]

/-- Two URLs around a group, under a name with capital letters. -/
theorem references_eq_urls_around_group :
    let text := "a{Src:url(b) f(c),URL(d)}"
    let src := Source.ofString text
    let first : Part := ⟨.uri, "url(b)", ⟨1, 7⟩, some "b"⟩
    let last : Part := ⟨.uri, "URL(d)", ⟨1, 19⟩, some "d"⟩
    let decl : Declaration :=
      ⟨"Src", none, ⟨1, 3⟩, ⟨"url(b) f(c),URL(d)",
        [first, ⟨.function, "f(c)", ⟨1, 14⟩, none⟩, ⟨.operator, ",", ⟨1, 18⟩, none⟩, last]⟩, false⟩
    .declaration decl ∈ (Stylesheet.ofString text).events ∧ isResourceProperty decl.name = true ∧
      decl.references =
        ((src.valueTokens decl).filter fun t => t.kind == .url).map
          (src.urlReference decl.name) := by
  intro text src first last decl
  have hdecl : .declaration decl ∈ (Stylesheet.ofString text).events := by decide +kernel
  have hname : isResourceProperty decl.name = true := by decide
  refine ⟨hdecl, hname, (references_eq_urls text hdecl hname).2.mpr ?_⟩
  decide +kernel

/-- In `image-set(url(b.png) 1x)` the URL stands in a group, and the declaration does not refer
to it. -/
theorem url_inside_group :
    let text := "a{background:image-set(url(b.png) 1x)}"
    let src := Source.ofString text
    let group : Part := ⟨.function, "image-set(url(b.png) 1x)", ⟨1, 14⟩, none⟩
    let decl : Declaration :=
      ⟨"background", none, ⟨1, 3⟩, ⟨"image-set(url(b.png) 1x)", [group]⟩, false⟩
    .declaration decl ∈ (Stylesheet.ofString text).events ∧ isResourceProperty decl.name = true ∧
      ((src.valueTokens decl).filter fun t => t.kind == .url).map (src.urlReference decl.name) =
        [⟨"background", "url(b.png)", ⟨1, 24⟩, "b.png"⟩] ∧
      decl.references = [] := by
  decide +kernel

end SheetLint
