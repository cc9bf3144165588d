import Mathlib.Data.Bool.AllAny
import SheetLint.Proofs.Readings
import SheetLint.Proofs.TokenOrder

/-! # The longest match at every place

The tokens of a source are what the token grammar makes of its text, piece by piece
(`tokens_longestMatch`).  A piece is the longest text that some pattern describes, and it makes
what that pattern stands for.  Where no pattern describes anything, the piece is an error: all
that could still have become a token, and at least one character.

`Tokenized` says so without any search.  It determines the tokens of a text, since no text has
two readings; so a text that makes a token makes the same token when it stands alone.
-/
namespace SheetLint
open Pattern Text

/-! ### Pieces -/

/-- The longest match of the grammar at the start of a text, and what it makes. -/
structure LongestMatch (cs : List Char) (kind : Option TokenKind) (w : List Char) : Prop where
  isPrefix : w <+: cs
  ne_nil : w ≠ []
  exists_rule : ∃ rule ∈ tokenGrammar, rule.1 = kind ∧ Matches rule.2 w
  longest : ∀ rule ∈ tokenGrammar, ∀ v, v <+: cs → Matches rule.2 v → v.length ≤ w.length

/-- The error at the start of a text of which no pattern describes anything: the longest prefix
with which a word of some pattern begins, and at least one character. -/
structure Unreadable (cs w : List Char) : Prop where
  isPrefix : w <+: cs
  ne_nil : w ≠ []
  not_matches : ∀ rule ∈ tokenGrammar, ∀ v, v <+: cs → v ≠ [] → ¬ Matches rule.2 v
  starts_word : w.length = 1 ∨ ∃ rule ∈ tokenGrammar, ∃ u, Matches rule.2 (w ++ u)
  longest : ∀ rule ∈ tokenGrammar, ∀ v u, v <+: cs → Matches rule.2 (v ++ u) →
    v.length ≤ w.length

/-- The piece at the start of a text, and the kind of token it makes, if any. -/
inductive Piece (cs : List Char) : Option TokenKind → List Char → Prop where
  | longestMatch {kind : Option TokenKind} {w : List Char} (h : LongestMatch cs kind w) :
      Piece cs kind w
  | error {w : List Char} (h : Unreadable cs w) : Piece cs (some .error) w

theorem eq_of_isPrefix {cs w w' : List Char} (h : w <+: cs) (h' : w' <+: cs)
    (hlength : w.length = w'.length) : w = w' :=
  (List.prefix_of_prefix_length_le h h' (Nat.le_of_eq hlength)).eq_of_length hlength

theorem LongestMatch.length_le {cs w w' : List Char} {kind kind' : Option TokenKind}
    (h : LongestMatch cs kind w) (h' : LongestMatch cs kind' w') : w.length ≤ w'.length := by
  obtain ⟨rule, hrule, -, hmatches⟩ := h.exists_rule
  exact h'.longest rule hrule w h.isPrefix hmatches

theorem Unreadable.length_le {cs w w' : List Char} (h : Unreadable cs w)
    (h' : Unreadable cs w') : w.length ≤ w'.length := by
  rcases h.starts_word with hone | ⟨rule, hrule, u, hmatches⟩
  · rw [hone]
    exact List.length_pos_iff.mpr h'.ne_nil
  · exact h'.longest rule hrule w u h.isPrefix hmatches

theorem LongestMatch.not_unreadable {cs w w' : List Char} {kind : Option TokenKind}
    (h : LongestMatch cs kind w) : ¬ Unreadable cs w' := by
  intro h'
  obtain ⟨rule, hrule, -, hmatches⟩ := h.exists_rule
  exact h'.not_matches rule hrule w h.isPrefix h.ne_nil hmatches

/-- A text starts with one piece. -/
theorem Piece.unique {cs w w' : List Char} {kind kind' : Option TokenKind} (h : Piece cs kind w)
    (h' : Piece cs kind' w') : kind = kind' ∧ w = w' := by
  cases h with
  | longestMatch h =>
    cases h' with
    | longestMatch h' =>
      have hlength := Nat.le_antisymm (h.length_le h') (h'.length_le h)
      obtain rfl := eq_of_isPrefix h.isPrefix h'.isPrefix hlength
      obtain ⟨rule, hrule, hkind, hmatches⟩ := h.exists_rule
      obtain ⟨rule', hrule', hkind', hmatches'⟩ := h'.exists_rule
      rw [← hkind, ← hkind', rule_unique hrule hrule' hmatches hmatches']
      exact ⟨rfl, rfl⟩
    | error h' => exact absurd h' h.not_unreadable
  | error h =>
    cases h' with
    | longestMatch h' => exact absurd h h'.not_unreadable
    | error h' =>
      have hlength := Nat.le_antisymm (h.length_le h') (h'.length_le h)
      exact ⟨rfl, eq_of_isPrefix h.isPrefix h'.isPrefix hlength⟩

/-- A word of a pattern is the piece at the start of a text if no word goes on behind it. -/
theorem piece_of_word {rule : Option TokenKind × Pattern Char} {w rest : List Char}
    (hrule : rule ∈ tokenGrammar) (h : Matches rule.2 w) (hne : w ≠ [])
    (hlongest : ∀ v, v <+: rest → v ≠ [] → ∀ rule' ∈ tokenGrammar, ¬ Matches rule'.2 (w ++ v)) :
    Piece (w ++ rest) rule.1 w := by
  refine .longestMatch ⟨List.prefix_append w rest, hne, ⟨rule, hrule, rfl, h⟩, ?_⟩
  intro rule' hrule' v hfront hmatches
  by_contra hlength
  obtain ⟨more, rfl⟩ : w <+: v :=
    List.prefix_of_prefix_length_le (List.prefix_append w rest) hfront (by omega)
  have hmore : more ≠ [] := by
    rintro rfl
    simp at hlength
  exact hlongest more ((List.prefix_append_right_inj w).mp hfront) hmore rule' hrule' hmatches

/-! ### The next lexeme -/

/-- A search that keeps the first of the best finds one that none of the others exceeds. -/
theorem foldl_best {α β : Type} (measure : β → Nat) (make : α → β) (step : β → α → β)
    (hstep : ∀ best a, step best a = if measure best < measure (make a) then make a else best)
    (as : List α) (best : β) :
    measure best ≤ measure (as.foldl step best) ∧
      (∀ a ∈ as, measure (make a) ≤ measure (as.foldl step best)) ∧
      (as.foldl step best = best ∨ ∃ a ∈ as, as.foldl step best = make a) := by
  induction as generalizing best with
  | nil => exact ⟨Nat.le_refl _, fun a ha => absurd ha List.not_mem_nil, .inl rfl⟩
  | cons a as ih =>
    obtain ⟨hle, hall, hfound⟩ := ih (step best a)
    have hkeeps : measure best ≤ measure (step best a) ∧
        measure (make a) ≤ measure (step best a) := by
      rw [hstep]
      split <;> omega
    rw [List.foldl_cons]
    refine ⟨Nat.le_trans hkeeps.1 hle, ?_, ?_⟩
    · intro b hb
      rcases List.mem_cons.mp hb with rfl | hb
      · exact Nat.le_trans hkeeps.2 hle
      · exact hall b hb
    · rcases hfound with hfound | ⟨b, hb, hfound⟩
      · rw [hfound, hstep]
        split
        · exact .inr ⟨a, List.mem_cons_self, rfl⟩
        · exact .inl rfl
      · exact .inr ⟨b, List.mem_cons_of_mem a hb, hfound⟩

/-- Every symbol set of the grammar has members. -/
theorem populatedBy_tokenGrammar :
    ∀ rule ∈ tokenGrammar, populatedBy (punctuation.map Prod.fst ++ marks.map Prod.fst ++
      ['-', 'a', 'u', 'r', 'l', '0', '%', backslash]) rule.2 = true := by
  decide

section Lexemes
variable (cs : List Char)

theorem longestMatch_spec :
    (∀ rule ∈ tokenGrammar, ∀ v, v <+: cs → Matches rule.2 v → v.length ≤ (longestMatch cs).1) ∧
      ((longestMatch cs).1 = 0 ∨ ∃ rule ∈ tokenGrammar, ∃ v, v <+: cs ∧ Matches rule.2 v ∧
        longestMatch cs = (v.length, rule.1)) := by
  obtain ⟨-, hall, hfound⟩ := foldl_best Prod.fst
    (fun rule : Option TokenKind × Pattern Char => (rule.2.furthest cs, rule.1)) _
    (fun _ _ => rfl) tokenGrammar (0, some .error)
  constructor
  · intro rule hrule v hfront hmatches
    exact Nat.le_trans ((furthest_spec rule.2 cs).1 v hfront hmatches) (hall rule hrule)
  · rcases hfound with hfound | ⟨rule, hrule, hfound⟩
    · exact .inl (congrArg Prod.fst hfound)
    · rcases (furthest_spec rule.2 cs).2 with hzero | ⟨v, hfront, hmatches, hlength⟩
      · exact .inl ((congrArg Prod.fst hfound).trans hzero)
      · exact .inr ⟨rule, hrule, v, hfront, hmatches, by rw [← hlength]; exact hfound⟩

theorem longestReach_spec :
    (∀ rule ∈ tokenGrammar, ∀ v u, v <+: cs → Matches rule.2 (v ++ u) →
      v.length ≤ longestReach cs) ∧
      (longestReach cs = 0 ∨ ∃ rule ∈ tokenGrammar, ∃ v u, v <+: cs ∧ Matches rule.2 (v ++ u) ∧
        longestReach cs = v.length) := by
  have hstep (best : Nat) (rule : Option TokenKind × Pattern Char) :
      max best (rule.2.reach cs) = if best < rule.2.reach cs then rule.2.reach cs else best := by
    split <;> omega
  obtain ⟨-, hall, hfound⟩ := foldl_best id (fun rule => rule.2.reach cs) _ hstep tokenGrammar 0
  constructor
  · intro rule hrule v u hfront hmatches
    exact Nat.le_trans
      ((reach_spec (populatedBy_tokenGrammar rule hrule) cs).1 v u hfront hmatches)
      (hall rule hrule)
  · rcases hfound with hfound | ⟨rule, hrule, hfound⟩
    · exact .inl hfound
    · rcases (reach_spec (populatedBy_tokenGrammar rule hrule) cs).2 with
        hzero | ⟨v, u, hfront, hmatches, hlength⟩
      · exact .inl (hfound.trans hzero)
      · exact .inr ⟨rule, hrule, v, u, hfront, hmatches, hfound.trans hlength⟩

variable {cs}

/-- The error found where there is no match. -/
theorem unreadable_of_longestMatch (hcs : cs ≠ []) (h : (longestMatch cs).1 = 0) :
    Unreadable cs (cs.take (max 1 (longestReach cs))) := by
  obtain ⟨hlongest, hreached⟩ := longestReach_spec cs
  have hlength : (cs.take (max 1 (longestReach cs))).length = max 1 (longestReach cs) := by
    have hpos := List.length_pos_iff.mpr hcs
    have hle : longestReach cs ≤ cs.length := by
      rcases hreached with hzero | ⟨rule, -, v, u, hfront, -, hv⟩
      · omega
      · have := hfront.length_le
        omega
    rw [List.length_take]
    omega
  constructor
  · exact List.take_prefix _ _
  · rw [← List.length_pos_iff, hlength]
    omega
  · intro rule hrule v hfront hne hmatches
    have hle := (longestMatch_spec cs).1 rule hrule v hfront hmatches
    have hpos := List.length_pos_iff.mpr hne
    omega
  · rcases hreached with hzero | ⟨rule, hrule, v, u, hfront, hmatches, hv⟩
    · left
      rw [hlength, hzero]
      rfl
    · by_cases hone : longestReach cs ≤ 1
      · left
        rw [hlength]
        omega
      · right
        have hmax : max 1 (longestReach cs) = v.length := by omega
        rw [hmax, ← List.prefix_iff_eq_take.mp hfront]
        exact ⟨rule, hrule, u, hmatches⟩
  · intro rule hrule v u hfront hmatches
    have := hlongest rule hrule v u hfront hmatches
    rw [hlength]
    omega

/-- The next lexeme is the piece at the start of a text. -/
theorem nextLexeme_piece (hcs : cs ≠ []) :
    Piece cs (nextLexeme cs).kind (cs.take (nextLexeme cs).length) := by
  obtain ⟨hlongest, hfound⟩ := longestMatch_spec cs
  unfold nextLexeme
  split
  · rename_i n kind heq
    rw [heq] at hlongest hfound
    rcases hfound with hzero | ⟨rule, hrule, v, hfront, hmatches, hv⟩
    · cases hzero
    · obtain ⟨hlength : n + 1 = v.length, rfl⟩ := Prod.mk.inj hv
      have htake : cs.take (n + 1) = v := by
        rw [hlength, ← List.prefix_iff_eq_take.mp hfront]
      change Piece cs rule.1 (cs.take (n + 1))
      rw [htake]
      refine .longestMatch ⟨hfront, ?_, ⟨rule, hrule, rfl, hmatches⟩, ?_⟩
      · rw [← List.length_pos_iff]
        omega
      · intro rule' hrule' v' hfront' hmatches'
        rw [← hlength]
        exact hlongest rule' hrule' v' hfront' hmatches'
  · rename_i kind heq
    exact .error (unreadable_of_longestMatch hcs (by rw [heq]))

end Lexemes

/-! ### The tokens of a text -/

/-- The tokens that the grammar makes of a text standing at `offset`, piece by piece. -/
inductive Tokenized : Nat → List Char → List Token → Prop where
  | done {offset : Nat} : Tokenized offset [] [⟨.eof, .point offset⟩]
  | token {offset : Nat} {kind : TokenKind} {w cs : List Char} {ts : List Token}
      (h : Piece (w ++ cs) (some kind) w) (hts : Tokenized (offset + byteSize w) cs ts) :
      Tokenized offset (w ++ cs) (⟨kind, ⟨offset, offset + byteSize w⟩⟩ :: ts)
  | skipped {offset : Nat} {w cs : List Char} {ts : List Token} (h : Piece (w ++ cs) none w)
      (hts : Tokenized (offset + byteSize w) cs ts) : Tokenized offset (w ++ cs) ts

theorem tokenized_tokensIn (offset : Nat) (cs : List Char) :
    Tokenized offset cs (tokensIn offset cs) := by
  refine tokensIn_rec (P := Tokenized) (fun _ => .done) ?_ offset cs
  rintro offset lexeme cs ts rfl hcs ih
  have hsplit := List.take_append_drop (nextLexeme cs).length cs
  have hpiece : Piece (cs.take (nextLexeme cs).length ++ cs.drop (nextLexeme cs).length)
      (nextLexeme cs).kind (cs.take (nextLexeme cs).length) := by
    rw [hsplit]
    exact nextLexeme_piece hcs
  cases hkind : (nextLexeme cs).kind with
  | none =>
    rw [hkind] at hpiece
    have htokens := Tokenized.skipped hpiece ih
    rw [hsplit] at htokens
    simpa [Lexeme.token?, hkind] using htokens
  | some kind =>
    rw [hkind] at hpiece
    have htokens := Tokenized.token hpiece ih
    rw [hsplit] at htokens
    simpa [Lexeme.token?, hkind] using htokens

theorem Piece.isPrefix {cs w : List Char} {kind : Option TokenKind} (h : Piece cs kind w) :
    w <+: cs := by
  cases h with
  | longestMatch h => exact h.isPrefix
  | error h => exact h.isPrefix

theorem Piece.ne_nil {cs w : List Char} {kind : Option TokenKind} (h : Piece cs kind w) :
    w ≠ [] := by
  cases h with
  | longestMatch h => exact h.ne_nil
  | error h => exact h.ne_nil

/-- White space is skipped, so nothing unreadable starts with it. -/
theorem Unreadable.head_not_blank {cs w : List Char} (h : Unreadable cs w) :
    ∀ c ∈ w.head?, c ∉ TokenGrammar.blanks := by
  intro c hc hblank
  obtain ⟨more, rfl⟩ := List.head?_eq_some_iff.mp hc
  have hskips : (none, TokenGrammar.skipped) ∈ tokenGrammar := by decide
  exact h.not_matches _ hskips [c] ((List.prefix_append [c] more).trans h.isPrefix)
    (List.cons_ne_nil _ _)
    (.left (.seq (u := [c]) (.oneOf (contains_among_iff.mpr hblank)) .done))

/-- No token starts with white space. -/
theorem Piece.head_not_blank {cs w : List Char} {kind : TokenKind} (h : Piece cs (some kind) w) :
    ∀ c ∈ w.head?, c ∉ TokenGrammar.blanks := by
  intro c hc hblank
  generalize hmade : some kind = made at h
  cases h with
  | longestMatch h =>
    obtain ⟨more, rfl⟩ := List.head?_eq_some_iff.mp hc
    obtain ⟨rule, hrule, hkind, hmatches⟩ := h.exists_rule
    have halone : ∀ c ∈ TokenGrammar.blanks, reading [c] = none :=
      List.all_iff_forall_prop.mp (by decide)
    have hmark : ∀ c ∈ TokenGrammar.blanks, marks.lookup c = some none :=
      List.all_iff_forall_prop.mp (by decide)
    have hreading : reading (c :: more) = none := by
      cases more with
      | nil => exact halone c hblank
      | cons d more => exact reading_mark (hmark c hblank) (List.cons_ne_nil d more)
    have hnone := reading_eq hrule hmatches
    rw [hreading, hkind, ← hmade] at hnone
    cases hnone
  | error h => exact h.head_not_blank c hc hblank

theorem Tokenized.of_nil {offset : Nat} {ts : List Token} (h : Tokenized offset [] ts) :
    ts = [⟨.eof, .point offset⟩] := by
  generalize hcs : ([] : List Char) = cs at h
  cases h with
  | done => rfl
  | token h => exact absurd (List.append_eq_nil_iff.mp hcs.symm).1 h.ne_nil
  | skipped h => exact absurd (List.append_eq_nil_iff.mp hcs.symm).1 h.ne_nil

/-- The tokens of a text are what its first piece makes and the tokens of what follows it. -/
theorem Tokenized.of_piece {offset : Nat} {w cs : List Char} {kind : Option TokenKind}
    {ts : List Token} (hpiece : Piece (w ++ cs) kind w) (h : Tokenized offset (w ++ cs) ts) :
    ∃ rest, Tokenized (offset + byteSize w) cs rest ∧
      ts = (kind.map fun kind => ⟨kind, ⟨offset, offset + byteSize w⟩⟩).toList ++ rest := by
  generalize hcs : w ++ cs = text at h hpiece
  cases h with
  | done => exact absurd (List.prefix_nil.mp hpiece.isPrefix) hpiece.ne_nil
  | token h hts =>
    obtain ⟨rfl, rfl⟩ := hpiece.unique h
    obtain rfl := List.append_cancel_left hcs
    exact ⟨_, hts, rfl⟩
  | skipped h hts =>
    obtain ⟨rfl, rfl⟩ := hpiece.unique h
    obtain rfl := List.append_cancel_left hcs
    exact ⟨_, hts, rfl⟩

/-- The grammar makes only one list of tokens of a text. -/
theorem Tokenized.unique {offset : Nat} {cs : List Char} {ts ts' : List Token}
    (h : Tokenized offset cs ts) (h' : Tokenized offset cs ts') : ts = ts' := by
  induction h generalizing ts' with
  | done => exact h'.of_nil.symm
  | token hpiece _ ih =>
    obtain ⟨rest, hrest, rfl⟩ := Tokenized.of_piece hpiece h'
    rw [ih hrest]
    rfl
  | skipped hpiece _ ih =>
    obtain ⟨rest, hrest, rfl⟩ := Tokenized.of_piece hpiece h'
    exact ih hrest

theorem tokenized_iff {src : Source} {ts : List Token} :
    Tokenized 0 src.chars ts ↔ ts = src.tokens := by
  have htokens : Tokenized 0 src.chars src.tokens := tokenized_tokensIn 0 src.chars
  constructor
  · intro h
    exact h.unique htokens
  · rintro rfl
    exact htokens

/-! ### Tokens alone -/

/-- The text of a token is a piece of the source that makes a token of its kind. -/
theorem Tokenized.piece_of_mem {src : Source} {cs : List Char} {offset : Nat} {ts : List Token}
    (h : Tokenized offset cs ts) {front : List Char} (hchars : src.chars = front ++ cs)
    (hoffset : offset = byteSize front) {t : Token} (ht : t ∈ ts) (heof : t.kind ≠ .eof) :
    ∃ w rest, Piece (w ++ rest) (some t.kind) w ∧ src.tokenText t = String.ofList w := by
  induction h generalizing front with
  | done =>
    rw [List.mem_singleton.mp ht] at heof
    exact absurd rfl heof
  | @token offset kind w cs ts hpiece _ ih =>
    rcases List.mem_cons.mp ht with rfl | ht
    · subst hoffset
      exact ⟨w, cs, hpiece, Source.text_eq_ofList hchars⟩
    · exact ih (hchars.trans (List.append_assoc _ _ _).symm)
        (by rw [hoffset, byteSize_append]) ht
  | @skipped offset w cs ts _ _ ih =>
    exact ih (hchars.trans (List.append_assoc _ _ _).symm) (by rw [hoffset, byteSize_append]) ht

theorem exists_piece {src : Source} {t : Token} (ht : t ∈ src.tokens) (heof : t.kind ≠ .eof) :
    ∃ w rest, Piece (w ++ rest) (some t.kind) w ∧ (src.tokenText t).toList = w := by
  obtain ⟨w, rest, hpiece, htext⟩ :=
    (tokenized_iff.mpr rfl).piece_of_mem (List.nil_append src.chars).symm rfl ht heof
  exact ⟨w, rest, hpiece, by rw [htext, String.toList_ofList]⟩

/-- A word of a pattern is one token when it stands alone. -/
theorem tokenized_word {rule : Option TokenKind × Pattern Char} {kind : TokenKind} {w : List Char}
    (hrule : rule ∈ tokenGrammar) (hkind : rule.1 = some kind) (h : Matches rule.2 w)
    (hne : w ≠ []) :
    Tokenized 0 w [⟨kind, ⟨0, byteSize w⟩⟩, ⟨.eof, .point (byteSize w)⟩] := by
  have hpiece : Piece (w ++ []) (some kind) w := by
    rw [List.append_nil]
    exact .longestMatch ⟨List.prefix_rfl, hne, ⟨rule, hrule, hkind, h⟩,
      fun _ _ v hfront _ => hfront.length_le⟩
  have hdone : Tokenized (0 + byteSize w) [] [⟨.eof, .point (byteSize w)⟩] := by
    rw [Nat.zero_add]
    exact .done
  have htokens := Tokenized.token hpiece hdone
  rwa [List.append_nil, Nat.zero_add] at htokens

theorem tokens_of_word {text : String} {rule : Option TokenKind × Pattern Char} {kind : TokenKind}
    (hrule : rule ∈ tokenGrammar) (hkind : rule.1 = some kind) (h : Matches rule.2 text.toList)
    (hne : text.toList ≠ []) :
    let src := Source.ofString text
    src.tokens = [⟨kind, ⟨0, src.size⟩⟩, src.endToken] :=
  (tokenized_iff.mp (tokenized_word hrule hkind h hne)).symm

/-- **Tokens are longest matches.**  The tokens of a text are exactly what the grammar makes of
it piece by piece, no text has two readings, and the text of a token that is neither an error
nor the end of the source makes that token again when it stands alone. -/
theorem tokens_longestMatch (text : String) :
    (∀ ts, Tokenized 0 (Source.ofString text).chars ts ↔ ts = (Source.ofString text).tokens) ∧
      (∀ rule ∈ tokenGrammar, ∀ rule' ∈ tokenGrammar, ∀ w,
        Matches rule.2 w → Matches rule'.2 w → rule = rule') ∧
      (∀ rule ∈ tokenGrammar, rule.1 ≠ some .error ∧ rule.1 ≠ some .eof) ∧
      ∀ t ∈ (Source.ofString text).tokens, t.kind ≠ .error → t.kind ≠ .eof →
        let alone := Source.ofString ((Source.ofString text).tokenText t)
        alone.tokens = [⟨t.kind, ⟨0, alone.size⟩⟩, alone.endToken] := by
  refine ⟨fun ts => tokenized_iff, fun rule hrule rule' hrule' w => rule_unique hrule hrule',
    by decide, ?_⟩
  intro t ht herror heof alone
  obtain ⟨w, rest, hpiece, htext⟩ :=
    (tokenized_iff.mpr rfl).piece_of_mem (List.nil_append _).symm rfl ht heof
  have hchars : alone.chars = w := by
    change ((Source.ofString text).tokenText t).toList = w
    rw [htext, String.toList_ofList]
  have hword : Tokenized 0 alone.chars [⟨t.kind, ⟨0, alone.size⟩⟩, alone.endToken] := by
    rw [Source.endToken, alone.size_eq, hchars]
    generalize t.kind = kind at hpiece herror
    cases hpiece with
    | longestMatch h =>
      obtain ⟨rule, hrule, hkind, hmatches⟩ := h.exists_rule
      exact tokenized_word hrule hkind hmatches h.ne_nil
    | error => exact absurd rfl herror
  exact (tokenized_iff.mp hword).symm

/-- A `url(` that is no whole URL is read as a function, and so it is when it stands alone. -/
theorem tokens_longestMatch_brokenUrl :
    let text := "url(a b)"
    let t : Token := ⟨.function, ⟨0, 4⟩⟩
    t ∈ (Source.ofString text).tokens ∧
      (Source.ofString ((Source.ofString text).tokenText t)).tokens =
        [⟨.function, ⟨0, 4⟩⟩, ⟨.eof, ⟨4, 4⟩⟩] := by
  intro text t
  have ht : t ∈ (Source.ofString text).tokens := by decide +kernel
  have hsize : (Source.ofString ((Source.ofString text).tokenText t)).size = 4 := by
    decide +kernel
  have halone := (tokens_longestMatch text).2.2.2 t ht (by decide) (by decide)
  dsimp only at halone
  rw [Source.endToken, hsize] at halone
  exact ⟨ht, halone⟩

end SheetLint
