import SheetLint.Proofs.Position
import SheetLint.Token.Lexer

/-! # The order of tokens

The tokens of a source start between characters, one further behind than the other, and the
last of them is its end.  So the places of the tokens, as positions, are strictly increasing
(`tokens_ordered`).
-/
namespace SheetLint
open Text

/-! ### The tokens of a text -/

/-- The tokens of a text standing at `offset`. -/
def tokensIn (offset : Nat) (cs : List Char) : List Token := (tokensFrom offset #[] cs).toList

/-- The token of a lexeme standing at `offset` in front of a text, if it makes one. -/
def Lexeme.token? (lexeme : Lexeme) (offset : Nat) (cs : List Char) : Option Token :=
  lexeme.kind.map fun kind => ⟨kind, ⟨offset, offset + byteSize (cs.take lexeme.length)⟩⟩

/-- Reading tokens only ever adds to those already found. -/
theorem tokensFrom_found (offset : Nat) (found : Array Token) (cs : List Char) :
    (tokensFrom offset found cs).toList = found.toList ++ tokensIn offset cs := by
  -- the tokens found so far must be free in the induction
  suffices h : ∀ given : Array Token,
      (tokensFrom offset given cs).toList = given.toList ++ tokensIn offset cs from h found
  induction offset, found, cs using tokensFrom.induct with
  | case1 offset found =>
    intro given
    simp [tokensIn, tokensFrom.eq_def]
  | case2 offset found c cs lexeme stop _ ih =>
    intro given
    rw [tokensIn, tokensFrom.eq_def, tokensFrom.eq_def offset]
    dsimp only
    rw [ih, ih]
    cases (nextLexeme (c :: cs)).kind <;> simp

theorem tokensIn_nil (offset : Nat) : tokensIn offset [] = [⟨.eof, .point offset⟩] := by
  simp [tokensIn, tokensFrom.eq_def]

theorem tokensIn_cons (offset : Nat) (c : Char) (cs : List Char) :
    tokensIn offset (c :: cs) =
      ((nextLexeme (c :: cs)).token? offset (c :: cs)).toList ++
        tokensIn (offset + byteSize ((c :: cs).take (nextLexeme (c :: cs)).length))
          ((c :: cs).drop (nextLexeme (c :: cs)).length) := by
  rw [tokensIn, tokensFrom.eq_def]
  dsimp only
  rw [tokensFrom_found, Lexeme.token?]
  cases (nextLexeme (c :: cs)).kind <;> rfl

/-- **Induction over the tokens of a text.**  A property of the place at which a text
stands, the text and its tokens holds if it holds of the empty text and is handed back by
each lexeme. -/
theorem tokensIn_rec {P : Nat → List Char → List Token → Prop}
    (nil : ∀ offset, P offset [] [⟨.eof, .point offset⟩])
    (cons : ∀ offset lexeme cs ts, lexeme = nextLexeme cs → cs ≠ [] →
      P (offset + byteSize (cs.take lexeme.length)) (cs.drop lexeme.length) ts →
      P offset cs ((lexeme.token? offset cs).toList ++ ts))
    (offset : Nat) (cs : List Char) : P offset cs (tokensIn offset cs) := by
  induction offset, (#[] : Array Token), cs using tokensFrom.induct with
  | case1 offset found => exact tokensIn_nil offset ▸ nil offset
  | case2 offset found c cs lexeme stop _ ih =>
    rw [tokensIn_cons]
    exact cons offset lexeme (c :: cs) _ rfl (List.cons_ne_nil c cs) ih

theorem take_nextLexeme_ne_nil {cs : List Char} (h : cs ≠ []) :
    cs.take (nextLexeme cs).length ≠ [] := by
  rw [Ne, List.take_eq_nil_iff]
  rintro (hzero | hnil)
  · exact absurd hzero (Nat.ne_of_gt (nextLexeme cs).length_pos)
  · exact h hnil

/-! ### Where tokens start -/

/-- A token starts between two characters of a text that stands behind `front`. -/
def StartsIn (front cs : List Char) (t : Token) : Prop :=
  ∃ mid post, cs = mid ++ post ∧ t.span.start = byteSize (front ++ mid)

theorem StartsIn.le_start {front cs : List Char} {t : Token} (h : StartsIn front cs t) :
    byteSize front ≤ t.span.start := by
  obtain ⟨mid, post, -, hstart⟩ := h
  rw [hstart, byteSize_append]
  exact Nat.le_add_right _ _

/-- A token that starts behind the first part of a text starts in the text. -/
theorem StartsIn.prepend {front cs ds : List Char} {t : Token}
    (h : StartsIn (front ++ cs) ds t) : StartsIn front (cs ++ ds) t := by
  obtain ⟨mid, post, rfl, hstart⟩ := h
  exact ⟨cs ++ mid, post, by simp, by rw [hstart, List.append_assoc]⟩

/-- The tokens of a text start in it, one behind the other. -/
structure Ordered (front cs : List Char) (ts : List Token) : Prop where
  startsIn : ∀ t ∈ ts, StartsIn front cs t
  increasing : ts.Pairwise fun t u => t.span.start < u.span.start

/-- What follows a lexeme stays in order when the token of the lexeme is put in front. -/
theorem Ordered.cons {front cs ds : List Char} {ts : List Token}
    (h : Ordered (front ++ cs) ds ts) (hcs : cs ≠ []) (t? : Option Token)
    (ht : ∀ t ∈ t?, t.span.start = byteSize front) :
    Ordered front (cs ++ ds) (t?.toList ++ ts) := by
  have hlt : byteSize front < byteSize (front ++ cs) := by
    rw [byteSize_append]
    exact Nat.lt_add_of_pos_right (byteSize_pos hcs)
  constructor
  · intro t htmem
    rcases List.mem_append.mp htmem with htmem | htmem
    · exact ⟨[], cs ++ ds, rfl, by simpa using ht t (by simpa using htmem)⟩
    · exact (h.startsIn t htmem).prepend
  · -- a lexeme is not empty, so what follows it starts further behind
    refine List.pairwise_append.mpr ⟨?_, h.increasing, ?_⟩
    · cases t? <;> simp
    · intro t htmem u hu
      rw [ht t (by simpa using htmem)]
      exact Nat.lt_of_lt_of_le hlt (h.startsIn u hu).le_start

theorem ordered_tokensIn (front cs : List Char) :
    Ordered front cs (tokensIn (byteSize front) cs) := by
  suffices h : ∀ front', byteSize front' = byteSize front →
      Ordered front' cs (tokensIn (byteSize front) cs) from h front rfl
  refine tokensIn_rec
    (P := fun offset cs ts => ∀ front', byteSize front' = offset → Ordered front' cs ts)
    ?nil ?cons _ cs
  case nil =>
    rintro offset front' rfl
    refine ⟨?_, List.pairwise_singleton _ _⟩
    intro t ht
    rw [List.mem_singleton.mp ht]
    exact ⟨[], [], rfl, by simp [Span.point]⟩
  case cons =>
    rintro offset lexeme cs ts rfl hcs ih front' rfl
    have hrest := ih (front' ++ cs.take (nextLexeme cs).length) (byteSize_append _ _)
    have hall := hrest.cons (take_nextLexeme_ne_nil hcs)
      ((nextLexeme cs).token? (byteSize front') cs) ?_
    · rwa [List.take_append_drop] at hall
    · intro t ht
      obtain ⟨kind, -, rfl⟩ := Option.map_eq_some_iff.mp ht
      rfl

/-! ### The tokens of a source -/

namespace Source

/-- The position at which a token starts. -/
def place (src : Source) (t : Token) : Position := src.position t.span.start

theorem tokens_eq_tokensIn (src : Source) : src.tokens = tokensIn 0 src.chars := rfl

/-- **Tokens come in order.**  Each token of a source starts at a greater position than the
ones in front of it. -/
theorem tokens_ordered (src : Source) :
    src.tokens.Pairwise fun t u => (src.place t).Before (src.place u) := by
  have hordered : Ordered [] src.chars src.tokens := ordered_tokensIn [] src.chars
  refine hordered.increasing.imp_of_mem ?_
  intro t u ht hu hlt
  obtain ⟨front, back, hchars, hstart⟩ := hordered.startsIn t ht
  obtain ⟨front', back', hchars', hstart'⟩ := hordered.startsIn u hu
  rw [List.nil_append] at hstart hstart'
  rw [hstart, hstart'] at hlt
  rw [place, place, hstart, hstart']
  exact position_before_position hchars hchars' hlt

/-- The last token of a source is its end. -/
theorem getLast?_tokens (src : Source) : src.tokens.getLast? = some src.endToken := by
  have hlast : (tokensIn 0 src.chars).getLast? = some ⟨.eof, .point (0 + byteSize src.chars)⟩ := by
    refine tokensIn_rec
      (P := fun offset cs ts => ts.getLast? = some ⟨.eof, .point (offset + byteSize cs)⟩)
      ?nil ?cons 0 _
    case nil =>
      intro offset
      rfl
    case cons =>
      rintro offset lexeme cs ts rfl - ih
      have hsize : byteSize (cs.take (nextLexeme cs).length) +
          byteSize (cs.drop (nextLexeme cs).length) = byteSize cs := by
        rw [← byteSize_append, List.take_append_drop]
      rw [Nat.add_assoc, hsize] at ih
      rw [List.getLast?_append, ih]
      rfl
  rw [tokens_eq_tokensIn, hlast, endToken, src.size_eq, Nat.zero_add]

end Source

/-! ### The end of a source -/

/-- No lexeme makes the end of a source. -/
theorem nextLexeme_kind_ne_eof (cs : List Char) : (nextLexeme cs).kind ≠ some .eof := by
  have hgrammar : ∀ rule ∈ tokenGrammar, rule.1 ≠ some .eof := by decide
  have hmatch : (longestMatch cs).2 ≠ some .eof := by
    refine List.foldlRecOn (motive := fun best : Nat × Option TokenKind => best.2 ≠ some .eof)
      tokenGrammar _ (by simp) ?_
    intro best hbest rule hrule
    dsimp only
    split
    · exact hgrammar rule hrule
    · exact hbest
  unfold nextLexeme
  split
  · rename_i hlongest
    rwa [hlongest] at hmatch
  · simp

namespace Source

theorem dropLast_tokens_append (src : Source) :
    src.tokens.dropLast ++ [src.endToken] = src.tokens := by
  obtain ⟨body, hbody⟩ := List.getLast?_eq_some_iff.mp src.getLast?_tokens
  rw [hbody, List.dropLast_concat]

/-- In front of the end of a source stand only other tokens. -/
theorem ne_eof_of_mem_dropLast_tokens (src : Source) {t : Token} (h : t ∈ src.tokens.dropLast) :
    t.kind ≠ .eof := by
  have hall : tokensIn 0 src.chars ≠ [] ∧
      ∀ t ∈ (tokensIn 0 src.chars).dropLast, t.kind ≠ .eof := by
    refine tokensIn_rec (P := fun _ _ ts => ts ≠ [] ∧ ∀ t ∈ ts.dropLast, t.kind ≠ .eof)
      ?nil ?cons 0 _
    case nil =>
      intro offset
      exact ⟨List.cons_ne_nil _ _, fun t ht => absurd ht List.not_mem_nil⟩
    case cons =>
      rintro offset lexeme cs ts rfl - ⟨hne, ih⟩
      refine ⟨List.append_ne_nil_of_right_ne_nil _ hne, ?_⟩
      intro t ht
      rw [List.dropLast_append_of_ne_nil hne, List.mem_append] at ht
      rcases ht with ht | ht
      · obtain ⟨kind, hkind, rfl⟩ := Option.map_eq_some_iff.mp (Option.mem_toList.mp ht)
        intro heof
        obtain rfl : kind = .eof := heof
        exact nextLexeme_kind_ne_eof cs hkind
      · exact ih t ht
  exact hall.2 t h

end Source
end SheetLint
