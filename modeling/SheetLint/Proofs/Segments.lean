import SheetLint.Proofs.Phrases

/-! # What a value is made of

The tokens of a value fall into segments, one behind the other: parts, the mark `!important`,
and exclamation marks that mark nothing.  A part is a single token or a group.  `Segmented`
says which segments may follow one another, without a word on how they are read.

Reading a value goes through its segments (`readParts_segments`).  Each part is added to what
has been read, each mark makes the declaration important, and each stray exclamation mark is a
fault (`ScansTo`).
-/
namespace SheetLint
open Text

/-! ### Segments -/

/-- A segment of a value. -/
inductive Segment where
  /-- A part: a single token, or a group behind the token that opens it. -/
  | part (first : Token) (more : List Token)
  /-- The mark `!important`. -/
  | mark (bang word : Token)
  /-- An exclamation mark that marks nothing. -/
  | stray (bang : Token)

namespace Segment

/-- The tokens of a segment. -/
def tokens : Segment → List Token
  | part first more => first :: more
  | mark bang word => [bang, word]
  | stray bang => [bang]

/-- The tokens of a segment that is a part. -/
def part? : Segment → Option (List Token)
  | part first more => some (first :: more)
  | mark _ _ | stray _ => none

/-- Whether a segment is the mark `!important`. -/
def isMark : Segment → Bool
  | mark _ _ => true
  | part _ _ | stray _ => false

/-- Whether a segment marks nothing and is no part. -/
def isStray : Segment → Bool
  | stray _ => true
  | part _ _ | mark _ _ => false

end Segment

/-- The tokens of some segments. -/
def tokensOf (segments : List Segment) : List Token := segments.flatMap Segment.tokens

/-- The parts among some segments, each as its tokens. -/
def partsOf (segments : List Segment) : List (List Token) := segments.filterMap Segment.part?

@[simp] theorem tokensOf_nil : tokensOf [] = [] := rfl

@[simp] theorem tokensOf_cons (segment : Segment) (segments : List Segment) :
    tokensOf (segment :: segments) = segment.tokens ++ tokensOf segments := rfl

@[simp] theorem tokensOf_append (as bs : List Segment) :
    tokensOf (as ++ bs) = tokensOf as ++ tokensOf bs := List.flatMap_append

@[simp] theorem partsOf_append (as bs : List Segment) :
    partsOf (as ++ bs) = partsOf as ++ partsOf bs := List.filterMap_append

/-- The tokens are the mark `!important`. -/
structure IsMark (src : Source) (bang word : Token) : Prop where
  bang_kind : bang.kind = .bang
  word_kind : word.kind = .ident
  sameWord_text : sameWord (src.tokenText word) "important" = true

/-- The segments follow one another as in a value.  A group ends with the parenthesis that
closes it, or with the value. -/
inductive Segmented (src : Source) : List Segment → Prop where
  | nil : Segmented src []
  | mark {bang word : Token} {segments : List Segment} (hmark : IsMark src bang word)
      (h : Segmented src segments) : Segmented src (.mark bang word :: segments)
  | stray {bang : Token} {segments : List Segment} (hbang : bang.kind = .bang)
      (hword : src.atImportant (tokensOf segments) = false) (h : Segmented src segments) :
      Segmented src (.stray bang :: segments)
  | group {opener : Token} {tail : List Token} {segments : List Segment}
      (hopener : opener.kind = .function ∨ opener.kind = .leftParen)
      (htail : GroupTail 0 tail (tokensOf segments)) (h : Segmented src segments) :
      Segmented src (.part opener tail :: segments)
  | single {t : Token} {segments : List Segment} (ht : t.kind.endsHeader = false)
      (hbang : t.kind ≠ .bang) (hfunction : t.kind ≠ .function) (hparen : t.kind ≠ .leftParen)
      (h : Segmented src segments) : Segmented src (.part t [] :: segments)

theorem TokenKind.opensGroup_eq_false_iff {kind : TokenKind} :
    kind.opensGroup = false ↔ kind ≠ .function ∧ kind ≠ .leftParen := by
  cases kind <;> simp [opensGroup]

theorem TokenKind.stopsGroup_of_plain {kind : TokenKind} (h : kind.endsHeader = false) :
    kind.stopsGroup = false := by
  revert h
  cases kind <;> simp [endsHeader, stopsGroup]

/-- No token of a value ends it. -/
theorem Segmented.inside {src : Source} {segments : List Segment} (h : Segmented src segments) :
    ∀ t ∈ tokensOf segments, t.kind.stopsGroup = false := by
  induction h with
  | nil => exact nofun
  | mark hmark _ ih =>
    simpa [Segment.tokens, hmark.bang_kind, hmark.word_kind, TokenKind.stopsGroup] using ih
  | stray hbang _ _ ih => simpa [Segment.tokens, hbang, TokenKind.stopsGroup] using ih
  | group hopener htail _ ih =>
    rw [tokensOf_cons, Segment.tokens, List.cons_append]
    refine List.forall_mem_cons.mpr ⟨?_, List.forall_mem_append.mpr ⟨htail.inside, ih⟩⟩
    rcases hopener with h | h <;> rw [h] <;> rfl
  | single ht _ _ _ _ ih =>
    exact List.forall_mem_cons.mpr ⟨TokenKind.stopsGroup_of_plain ht, ih⟩

section Ends
variable {src : Source}

theorem Segmented.tail {segment : Segment} {segments : List Segment}
    (h : Segmented src (segment :: segments)) : Segmented src segments := by
  cases h with
  | mark _ h | stray _ _ h | group _ _ h | single _ _ _ _ h => exact h

theorem Segmented.right {as bs : List Segment} (h : Segmented src (as ++ bs)) :
    Segmented src bs := by
  induction as with
  | nil => exact h
  | cons a as ih => exact ih h.tail

theorem atImportant_left {ts follow : List Token} (h : src.atImportant (ts ++ follow) = false) :
    src.atImportant ts = false := by
  cases ts with
  | nil => rfl
  | cons t ts => exact h

/-- A group stands in front of what is left of its value. -/
theorem GroupTail.left {depth : Nat} {ts us follow : List Token}
    (h : GroupTail depth ts (us ++ follow)) : GroupTail depth ts us := by
  cases h with
  | closed hinner hopened htotal hclose => exact .closed hinner hopened htotal hclose
  | stopped hts hopened hfollow =>
    refine .stopped hts hopened fun t ht => hfollow t ?_
    rw [List.head?_append, Option.mem_def.mp ht]
    rfl

/-- The segments in front in a value follow one another as in a value of their own. -/
theorem Segmented.left {as bs : List Segment} (h : Segmented src (as ++ bs)) :
    Segmented src as := by
  induction as with
  | nil => exact .nil
  | cons a as ih =>
    rw [List.cons_append] at h
    cases h with
    | mark hmark h => exact .mark hmark (ih h)
    | stray hbang hword h =>
      rw [tokensOf_append] at hword
      exact .stray hbang (atImportant_left hword) (ih h)
    | group hopener htail h =>
      rw [tokensOf_append] at htail
      exact .group hopener htail.left (ih h)
    | single ht hbang hfunction hparen h => exact .single ht hbang hfunction hparen (ih h)

end Ends

/-! ### Reading segments -/

/-- The part that some tokens make. -/
def Source.partOf (src : Source) (first : Token) (more : List Token) : Part :=
  let span := (more.map Token.span).foldl Span.cover first.span
  { kind := first.kind.part
    text := src.text span
    position := src.position span.start
    uri := if first.kind = .url then some (urlTarget (src.text span)) else none }

/-- The part that a segment makes, if it is one. -/
def Segment.asPart (src : Source) : Segment → Option Part
  | part first more => some (src.partOf first more)
  | mark _ _ | stray _ => none

/-- What has been read of a value before and behind some segments.  All parts, those in front of
the segments included, are covered by one span. -/
structure ScansTo (src : Source) (segments : List Segment) (scan out : ValueScan) : Prop where
  parts_eq : out.parts = scan.parts ++ segments.filterMap (Segment.asPart src)
  covered_eq : ∀ done : List Token, scan.covered = Span.coverAll? (done.map Token.span) →
    out.covered = Span.coverAll? ((done ++ (partsOf segments).flatten).map Token.span)
  important_eq : out.important = (scan.important || segments.any Segment.isMark)
  length_faults : out.faults.length = scan.faults.length + segments.countP Segment.isStray

theorem Span.cover_assoc (a b c : Span) : (a.cover b).cover c = a.cover (b.cover c) := by
  simp only [cover, Nat.min_assoc, Nat.max_assoc]

theorem Span.foldl_cover (a b : Span) (spans : List Span) :
    spans.foldl cover (a.cover b) = a.cover (spans.foldl cover b) := by
  induction spans generalizing b with
  | nil => rfl
  | cons c spans ih => rw [List.foldl_cons, List.foldl_cons, cover_assoc, ih]

section Scans
variable {src : Source} {scan out : ValueScan} {segments : List Segment}

/-- A part that is added is covered with those in front of it. -/
theorem covered_add (first : Token) (more done : List Token)
    (h : scan.covered = Span.coverAll? (done.map Token.span)) :
    (scan.add src first more).covered =
      Span.coverAll? ((done ++ first :: more).map Token.span) := by
  cases done with
  | nil =>
    have hnone : scan.covered = none := h
    simp [ValueScan.add, hnone, Span.coverAll?]
  | cons d done =>
    have hsome : scan.covered = some ((done.map Token.span).foldl Span.cover d.span) := h
    simp [ValueScan.add, hsome, Span.coverAll?, Span.foldl_cover]

theorem scansTo_nil : ScansTo src [] scan scan where
  parts_eq := (List.append_nil _).symm
  covered_eq done h := by simpa [partsOf] using h
  important_eq := (Bool.or_false _).symm
  length_faults := rfl

theorem ScansTo.part {first : Token} {more : List Token}
    (h : ScansTo src segments (scan.add src first more) out) :
    ScansTo src (.part first more :: segments) scan out where
  parts_eq := h.parts_eq.trans (List.append_assoc _ _ _)
  covered_eq done hdone := by
    have hall := h.covered_eq _ (covered_add first more done hdone)
    rwa [List.append_assoc] at hall
  important_eq := h.important_eq
  length_faults := h.length_faults

theorem ScansTo.mark {bang word : Token}
    (h : ScansTo src segments { scan with important := true } out) :
    ScansTo src (.mark bang word :: segments) scan out where
  parts_eq := h.parts_eq
  covered_eq := h.covered_eq
  important_eq := by simp [h.important_eq, Segment.isMark]
  length_faults := h.length_faults

theorem ScansTo.stray {bang : Token} {fault : Fault}
    (h : ScansTo src segments (scan.blame fault) out) :
    ScansTo src (.stray bang :: segments) scan out where
  parts_eq := h.parts_eq
  covered_eq := h.covered_eq
  important_eq := h.important_eq
  length_faults := by
    rw [h.length_faults, ValueScan.blame, List.length_append, List.countP_cons]
    simp only [Segment.isStray, List.length_singleton, if_true]
    omega

end Scans

/-- **A value is read segment by segment.**  What is read of it up to the token that stops it
are its segments. -/
theorem readParts_segments (src : Source) (scan : ValueScan) (ts : List Token) :
    ∃ segments, ts = tokensOf segments ++ (readParts src scan ts).2 ∧ Segmented src segments ∧
      ScansTo src segments scan (readParts src scan ts).1 ∧
      ∀ t ∈ (readParts src scan ts).2.head?, t.kind.endsHeader = true := by
  refine readParts_rec (P := fun scan ts out => ∃ segments, ts = tokensOf segments ++ out.2 ∧
    Segmented src segments ∧ ScansTo src segments scan out.1 ∧
    ∀ t ∈ out.2.head?, t.kind.endsHeader = true)
    ?nil ?stop ?important ?bang ?group ?single scan ts
  case nil =>
    intro scan
    exact ⟨[], rfl, .nil, scansTo_nil, by simp⟩
  case stop =>
    intro scan t ts hstop
    exact ⟨[], rfl, .nil, scansTo_nil, by simpa using hstop⟩
  case important =>
    rintro scan t ts out hbang hword ⟨segments, hts, hsegmented, hscans, hstop⟩
    obtain ⟨word, more, rfl, hident, hsame⟩ := exists_of_atImportant hword
    obtain rfl : more = tokensOf segments ++ out.2 := hts
    exact ⟨.mark t word :: segments, rfl, .mark ⟨hbang, hident, hsame⟩ hsegmented, hscans.mark,
      hstop⟩
  case bang =>
    rintro scan t ts out hbang hword ⟨segments, rfl, hsegmented, hscans, hstop⟩
    exact ⟨.stray t :: segments, rfl, .stray hbang (atImportant_left hword) hsegmented,
      hscans.stray, hstop⟩
  case group =>
    rintro scan t ts out hopen ⟨segments, hts, hsegmented, hscans, hstop⟩
    have htail : GroupTail 0 (splitGroup 1 ts).1 (tokensOf segments) :=
      (hts ▸ splitGroup_groupTail 0 ts).left
    refine ⟨.part t (splitGroup 1 ts).1 :: segments, ?_,
      .group (TokenKind.opensGroup_iff.mp hopen) htail hsegmented, hscans.part, hstop⟩
    rw [tokensOf_cons, Segment.tokens, List.cons_append, List.cons_append, List.append_assoc,
      ← hts, splitGroup_append]
  case single =>
    rintro scan t ts out hplain hbang hgroup ⟨segments, rfl, hsegmented, hscans, hstop⟩
    obtain ⟨hfunction, hparen⟩ := TokenKind.opensGroup_eq_false_iff.mp hgroup
    exact ⟨.part t [] :: segments, rfl, .single hplain hbang hfunction hparen hsegmented,
      hscans.part, hstop⟩

end SheetLint
