import Mathlib.Order.Bounds.Basic
import SheetLint.Proofs.Loops

/-! # What is skipped

After a fault a block or a statement is skipped.  A block is skipped behind the first brace at
which as many braces are closed as opened (`EvensOut`), and the count of its open blocks is never
lowered where it is nothing (`blockLoop_pos`).  A statement is skipped up to the first token that
ends a header (`EndsAt`), and what becomes of that token depends on its kind.

Skipping reads tokens and nothing else: events and faults are as they were
(`readFrom_skipSilent`).
-/
namespace SheetLint

/-- Among the tokens from index `i` to index `j` as many braces are closed as opened. -/
def EvensOut (ts : List Token) (i j : Nat) : Prop :=
  i ≤ j ∧ j < ts.length ∧
    countKind .rightBrace ((ts.drop i).take (j + 1 - i)) =
      countKind .leftBrace ((ts.drop i).take (j + 1 - i))

/-- The token at index `k`, which is `i` or a later one, ends a header. -/
def EndsAt (ts : List Token) (i k : Nat) : Prop :=
  i ≤ k ∧ ∃ t, ts[k]? = some t ∧ t.kind.endsHeader = true

/-- What skipping the block that opens at index `i` comes to: it leaves off behind the first brace
at which the braces even out, or at the end of the source if they do not, and the loop that skips
it never closes a block where none is open. -/
structure BlockSkipped (ts : List Token) (i : Nat) : Prop where
  leavesOff : (∃ j, IsLeast {j | EvensOut ts i j} j ∧ skipBlock 0 (ts.drop i) = ts.drop (j + 1)) ∨
    ((∀ j, ¬ EvensOut ts i j) ∧ OnlyEndLeft ts (skipBlock 0 (ts.drop i)))
  runs : Runs blockLoop 0 (ts.drop i) () (skipBlock 0 (ts.drop i))
  pos : ∀ depth close rest, Reaches blockLoop 0 (ts.drop i) depth (close :: rest) →
    close.kind = .rightBrace → 0 < depth

/-- What skipping the statement at index `i` comes to: the first token that ends a header decides
where it leaves off. -/
def StatementSkipped (ts : List Token) (i : Nat) : Prop :=
  ∃ k t, IsLeast {k | EndsAt ts i k} k ∧ ts[k]? = some t ∧
    ((t.kind = .rightBrace ∨ t.kind = .eof) ∧ skipDeclaration (ts.drop i) = ts.drop k ∨
      t.kind = .semicolon ∧ skipDeclaration (ts.drop i) = ts.drop (k + 1) ∨
      t.kind = .leftBrace ∧ skipDeclaration (ts.drop i) = skipBlock 0 (ts.drop k))

/-! ### Blocks -/

section Block
variable {brace close : Token} {ts inner rest : List Token} {i behind : Nat}

/-- Behind the brace that opens a block more braces are open than closed, as long as none is
closed that the block does not hold. -/
theorem countKind_lt_of_front (hbrace : brace.kind = .leftBrace)
    (hdepth : depthBehind 0 inner = some behind) {front : List Token} (hfront : front <+: inner) :
    countKind .rightBrace (brace :: front) < countKind .leftBrace (brace :: front) := by
  have hle := (depthBehind_eq_some_iff.mp hdepth).1 front hfront
  simp only [countKind_cons, hbrace, reduceCtorEq, reduceIte]
  omega

theorem drop_of_getElem? {t : Token} (h : ts[i]? = some t) : ts.drop i = t :: ts.drop (i + 1) := by
  obtain ⟨hi, rfl⟩ := List.getElem?_eq_some_iff.mp h
  exact List.drop_eq_getElem_cons hi

/-- The tokens from a brace on, up to an index behind it. -/
theorem take_of_drop (hdrop : ts.drop i = brace :: rest) {j : Nat} (hij : i ≤ j) :
    (ts.drop i).take (j + 1 - i) = brace :: rest.take (j - i) := by
  rw [hdrop, Nat.succ_sub hij, List.take_succ_cons]

/-- Inside a block the braces do not even out. -/
theorem not_evensOut_inside (hbrace : brace.kind = .leftBrace)
    (hdrop : ts.drop i = brace :: (inner ++ rest)) (hdepth : depthBehind 0 inner = some behind)
    {j : Nat} (hj : j ≤ i + inner.length) : ¬ EvensOut ts i j := by
  rintro ⟨hij, -, heven⟩
  rw [take_of_drop hdrop hij, List.take_append_of_le_length (by omega)] at heven
  have hlt := countKind_lt_of_front hbrace hdepth (List.take_prefix (j - i) inner)
  omega

/-- The brace that closes a block is the first at which the braces even out. -/
theorem isLeast_close (hbrace : brace.kind = .leftBrace) (hclose : close.kind = .rightBrace)
    (hdrop : ts.drop i = brace :: (inner ++ close :: rest))
    (hdepth : depthBehind 0 inner = some 0) :
    IsLeast {j | EvensOut ts i j} (i + inner.length + 1) := by
  constructor
  · have hlength : ts.length - i = inner.length + rest.length + 2 := by
      have := congrArg List.length hdrop
      simp only [List.length_drop, List.length_cons, List.length_append] at this
      omega
    refine ⟨by omega, by omega, ?_⟩
    have htotal := (depthBehind_eq_some_iff.mp hdepth).2
    have htake : (inner ++ close :: rest).take (i + inner.length + 1 - i) = inner ++ [close] := by
      rw [show i + inner.length + 1 - i = inner.length + 1 by omega, List.take_length_add_append]
      rfl
    rw [take_of_drop hdrop (by omega), htake]
    simp only [countKind, List.countP_cons, List.countP_append, List.countP_nil, hbrace,
      hclose] at htotal ⊢
    simpa using htotal
  · intro j heven
    by_contra hj
    exact not_evensOut_inside hbrace hdrop hdepth (by omega) heven

/-- Skipping leaves off behind the brace that closes the block, or at the end of the source. -/
theorem skipBlock_leavesOff (hts : EndsOnce ts) (hopen : ts[i]? = some brace)
    (hbrace : brace.kind = .leftBrace) :
    (∃ j, IsLeast {j | EvensOut ts i j} j ∧ skipBlock 0 (ts.drop i) = ts.drop (j + 1)) ∨
      ((∀ j, ¬ EvensOut ts i j) ∧ OnlyEndLeft ts (skipBlock 0 (ts.drop i))) := by
  have hdrop := drop_of_getElem? hopen
  have hskip : skipBlock 0 (ts.drop i) = skipBlock 1 (ts.drop (i + 1)) := by
    rw [hdrop, skipBlock_leftBrace hbrace]
  have hahead := skipBlock_ahead 0 (ts.drop i)
  rw [hskip] at hahead ⊢
  obtain ⟨inner, behind, hdepth, hend, ⟨close, hclose, rfl, hinside⟩ | ⟨hatEnd, hinside⟩⟩ :=
    skipBlock_cases 0 (ts.drop (i + 1))
  · refine .inl ⟨_, isLeast_close hbrace hclose (hdrop.trans (congrArg _ hinside)) hdepth, ?_⟩
    have hbehind := congrArg (List.drop (inner.length + 1)) hinside
    rw [List.drop_drop, List.drop_length_add_append, List.drop_one, List.tail_cons] at hbehind
    rw [← hbehind]
    congr 1
    omega
  · have hcursor : EndsOnce (ts.drop i) :=
      (hts.suffix (List.drop_suffix i ts) (by simp [hdrop])).1
    have honly : OnlyEndLeft ts (skipBlock 1 (ts.drop (i + 1))) :=
      hts.onlyEndLeft (hahead.suffix.trans (List.drop_suffix i ts)) (hcursor.ahead hahead) hatEnd
    refine .inr ⟨fun j heven => ?_, honly⟩
    obtain ⟨stop, hstop, -, hleft⟩ := honly
    -- the end of the source counts for no brace
    have hall : depthBehind 0 (inner ++ [stop]) = some behind := by
      rw [depthBehind_append, hdepth, Option.bind_some,
        depthBehind_other (by simp [hstop]) (by simp [hstop]), depthBehind_nil]
    have hwhole : ts.drop i = brace :: ((inner ++ [stop]) ++ []) := by
      rw [List.append_nil, ← hleft, ← hinside, hdrop]
    have hlength := congrArg List.length hwhole
    simp only [List.length_drop, List.length_cons, List.append_nil] at hlength
    have hj := heven.2.1
    exact not_evensOut_inside hbrace hwhole hall (by omega) heven

/-- A step that goes on leaves a block open if one was open in front of it, or if it opens one. -/
theorem blockLoop_pos {depth next : Nat} {t : Token} {us vs : List Token}
    (hstep : blockLoop depth (t :: us) = .goOn next vs)
    (h : 0 < depth ∨ t.kind = .leftBrace) : 0 < next := by
  rw [blockLoop] at hstep
  split at hstep
  · cases hstep
  · cases hstep
    exact Nat.succ_pos depth
  · split at hstep
    · cases hstep
    · rename_i hdepth
      cases hstep
      exact Nat.pos_of_ne_zero hdepth
  · rename_i hl _
    cases hstep
    exact h.resolve_right hl

/-- Once the brace at the front has been read, a block is open as long as skipping goes on. -/
theorem pos_of_reaches (hbrace : brace.kind = .leftBrace) {depth : Nat} {us : List Token}
    (h : Reaches blockLoop 0 (brace :: ts) depth us) : 0 < depth ∨ us = brace :: ts := by
  induction h with
  | start => exact .inr rfl
  | @goOn depth next us vs _ hstep ih =>
    cases us with
    | nil => cases hstep
    | cons t us =>
      refine .inl (blockLoop_pos hstep (ih.imp_right fun hus => ?_))
      cases hus
      exact hbrace

/-- **Skipping a block is exact.** -/
theorem blockSkipped (hts : EndsOnce ts) (hopen : ts[i]? = some brace)
    (hbrace : brace.kind = .leftBrace) : BlockSkipped ts i where
  leavesOff := skipBlock_leavesOff hts hopen hbrace
  runs := skipBlock_runs 0 (ts.drop i)
  pos depth close rest hreaches hclose := by
    rw [drop_of_getElem? hopen] at hreaches
    refine (pos_of_reaches hbrace hreaches).resolve_right fun hstart => ?_
    cases hstart
    simp [hbrace] at hclose

end Block

/-! ### Statements -/

section Statement
variable {t : Token} {ts : List Token} {i : Nat}

/-- The first token behind a header is the first that ends one. -/
theorem isLeast_afterHeader {rest : List Token} (h : afterHeader (ts.drop i) = t :: rest) :
    IsLeast {k | EndsAt ts i k} (i + (headerTokens (ts.drop i)).length) ∧
      ts.drop (i + (headerTokens (ts.drop i)).length) = t :: rest := by
  have hsplit := headerTokens_append_afterHeader (ts.drop i)
  rw [h] at hsplit
  have hplain := plain_headerTokens (ts.drop i)
  generalize headerTokens (ts.drop i) = header at hsplit hplain ⊢
  have hat (k : Nat) : ts[i + k]? = (header ++ t :: rest)[k]? := by
    rw [hsplit, List.getElem?_drop]
  refine ⟨⟨⟨Nat.le_add_right _ _, t, by simp [hat], endsHeader_of_afterHeader h⟩, ?_⟩, ?_⟩
  · rintro k ⟨hik, u, hu, hends⟩
    by_contra hlt
    obtain ⟨m, rfl⟩ := Nat.exists_eq_add_of_le hik
    rw [hat, List.getElem?_append_left (by omega)] at hu
    have hnot := hplain u (List.mem_of_getElem? hu)
    simp [hends] at hnot
  · rw [← List.drop_drop, ← hsplit, List.drop_left]

/-- **Skipping a statement is exact.** -/
theorem statementSkipped (hts : EndsOnce ts) (hi : i < ts.length) : StatementSkipped ts i := by
  have hcursor : EndsOnce (ts.drop i) :=
    (hts.suffix (List.drop_suffix i ts) (by simpa using hi)).1
  obtain ⟨t, rest, hafter⟩ :=
    List.exists_cons_of_ne_nil (hcursor.ahead (afterHeader_ahead (ts.drop i)))
  obtain ⟨hleast, hdrop⟩ := isLeast_afterHeader hafter
  have hskip : skipDeclaration (ts.drop i) = skipDeclaration (t :: rest) := by
    rw [← headerTokens_append_afterHeader (ts.drop i), hafter]
    exact skipDeclaration_plain (plain_headerTokens _) _
  have hnext := congrArg List.tail hdrop
  rw [List.tail_drop, List.tail_cons] at hnext
  have hget : ts[i + (headerTokens (ts.drop i)).length]? = some t := by
    rw [← List.head?_drop, hdrop, List.head?_cons]
  refine ⟨_, t, hleast, hget, ?_⟩
  rw [hskip, hdrop, hnext]
  have hends := endsHeader_of_afterHeader hafter
  cases ht : t.kind <;> simp_all [skipDeclaration, TokenKind.endsHeader]

/-- A statement without effect adds nothing to what has been found: reading goes on behind it. -/
theorem readFrom_skipSilent (src : Source) (base : Body) (trail : Trail) (nest : List BlockKind)
    (hbody : innermost base nest = .sheet ∨ innermost base nest = .rules)
    (hkind : t.kind = .atKeyword)
    (hsilent : AtRule.ofKeyword (Text.lower (src.tokenText t)) = .silent) :
    readFrom src base trail nest (t :: ts) =
      readFrom src base trail nest (skipDeclaration ts) := by
  have hitem : readItem src (innermost base nest) t ts = { rest := skipDeclaration ts } := by
    rcases hbody with h | h <;> rw [h] <;> simp [readItem, hkind, readAtRule, hsilent]
  rw [readFrom_item _ _ _ _ _ (by simp [hkind]) (by simp [hkind]), hitem]
  simp [Trail.add]

end Statement

/-- **Skipping is exact.**  So it is for every block and for every statement, and neither adds an
event or a fault: what stands behind a statement without effect is read with what was found in
front of it. -/
theorem skipping_exact {ts : List Token} (hts : EndsOnce ts) :
    (∀ i brace, ts[i]? = some brace → brace.kind = .leftBrace → BlockSkipped ts i) ∧
    (∀ i, i < ts.length → StatementSkipped ts i) ∧
    ∀ (src : Source) base trail nest i t, ts[i]? = some t → t.kind = .atKeyword →
      AtRule.ofKeyword (Text.lower (src.tokenText t)) = .silent →
      (innermost base nest = .sheet ∨ innermost base nest = .rules) →
      readFrom src base trail nest (ts.drop i) =
        readFrom src base trail nest (skipDeclaration (ts.drop (i + 1))) := by
  refine ⟨fun _ _ => blockSkipped hts, fun _ => statementSkipped hts, ?_⟩
  intro src base trail nest i t hget hkind hsilent hbody
  rw [drop_of_getElem? hget]
  exact readFrom_skipSilent src base trail nest hbody hkind hsilent

/-- Two blocks in a statement, one of them inside the other, and a block that is left open. -/
theorem skipping_nested_exact :
    let ts := (Source.ofString "@x a\x7bb\x7bc\x7d\x7dd;@y\x7b").tokens
    EndsOnce ts ∧
      (∀ i brace, ts[i]? = some brace → brace.kind = .leftBrace → BlockSkipped ts i) ∧
      (∀ i, i < ts.length → StatementSkipped ts i) ∧
      ∀ (src : Source) base trail nest i t, ts[i]? = some t → t.kind = .atKeyword →
        AtRule.ofKeyword (Text.lower (src.tokenText t)) = .silent →
        (innermost base nest = .sheet ∨ innermost base nest = .rules) →
        readFrom src base trail nest (ts.drop i) =
          readFrom src base trail nest (skipDeclaration (ts.drop (i + 1))) :=
  ⟨Source.tokens_endsOnce _, skipping_exact (Source.tokens_endsOnce _)⟩

end SheetLint
