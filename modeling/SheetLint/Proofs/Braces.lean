import SheetLint.Proofs.Isolation

/-! # Braces

Tokens are balanced if their braces are (`BraceBalanced`).  `depthBehind` counts along: it
tells how many braces are open behind some tokens, or that one of them closes a brace that is
not open.  Both say the same (`braceBalanced_iff`), and the second goes token by token.

What is skipped after a fault ends with a `;`, with the brace that closes the block at hand,
in front of the brace that closes the block around it, or with the source.  `Skipped` says
so without the counting, and it is what `skipDeclaration` takes (`skipDeclaration_skipped`,
`Skipped.skipDeclaration_eq`).
-/
namespace SheetLint

theorem TokenKind.endsHeader_eq_false_iff {kind : TokenKind} :
    kind.endsHeader = false ↔
      kind ≠ .leftBrace ∧ kind ≠ .rightBrace ∧ kind ≠ .semicolon ∧ kind ≠ .eof := by
  cases kind <;> simp [endsHeader]

/-- The tokens hold no brace and no `;`, and none of them is the end of the source. -/
def Plain (ts : List Token) : Prop := ∀ t ∈ ts, t.kind.endsHeader = false

/-- None of the tokens is the end of the source. -/
def Endless (ts : List Token) : Prop := ∀ t ∈ ts, t.kind ≠ .eof

@[simp] theorem endless_append {as bs : List Token} :
    Endless (as ++ bs) ↔ Endless as ∧ Endless bs := List.forall_mem_append

@[simp] theorem endless_cons {t : Token} {ts : List Token} :
    Endless (t :: ts) ↔ t.kind ≠ .eof ∧ Endless ts := List.forall_mem_cons

theorem endless_nil : Endless [] := fun _ h => absurd h List.not_mem_nil

theorem plain_nil : Plain [] := fun _ h => absurd h List.not_mem_nil

theorem Plain.cons {t : Token} {ts : List Token} (ht : t.kind.endsHeader = false)
    (hts : Plain ts) : Plain (t :: ts) := by
  intro u hu
  rcases List.mem_cons.mp hu with rfl | hu
  · exact ht
  · exact hts u hu

theorem Plain.endless {ts : List Token} (h : Plain ts) : Endless ts :=
  fun t ht => ne_of_plain (h t ht) rfl

/-- The braces of the tokens are balanced: no part from the front on closes more of them than
it opens, and as many are closed as are opened. -/
structure BraceBalanced (ts : List Token) : Prop where
  closed_le_opened : ∀ front, front <+: ts →
    countKind .rightBrace front ≤ countKind .leftBrace front
  opened_eq_closed : countKind .leftBrace ts = countKind .rightBrace ts

/-! ### Headers -/

theorem headerTokens_append_afterHeader (ts : List Token) :
    headerTokens ts ++ afterHeader ts = ts :=
  List.takeWhile_append_dropWhile

theorem plain_headerTokens (ts : List Token) : Plain (headerTokens ts) := by
  induction ts with
  | nil => exact plain_nil
  | cons t ts ih =>
    rw [headerTokens, List.takeWhile_cons]
    split
    · rename_i ht
      exact ih.cons (by simpa using ht)
    · exact plain_nil

/-- Plain tokens in front of one that ends a header are the header. -/
theorem header_plain {header : List Token} (h : Plain header) {t : Token}
    (ht : t.kind.endsHeader = true) (ts : List Token) :
    headerTokens (header ++ t :: ts) = header ∧ afterHeader (header ++ t :: ts) = t :: ts := by
  induction header with
  | nil => simp [headerTokens, afterHeader, ht]
  | cons u us ih =>
    have hu := h u List.mem_cons_self
    obtain ⟨hheader, hafter⟩ := ih fun v hv => h v (List.mem_cons_of_mem u hv)
    simp only [headerTokens, afterHeader] at hheader hafter
    simp [headerTokens, afterHeader, hu, hheader, hafter]

/-! ### Counting along -/

/-- The number of braces that are open behind some tokens when `depth` are open in front of
them; `none` if one of the tokens closes a brace that is not open. -/
def depthBehind (depth : Nat) : List Token → Option Nat
  | [] => some depth
  | t :: ts =>
    match t.kind with
    | .leftBrace => depthBehind (depth + 1) ts
    | .rightBrace => if depth = 0 then none else depthBehind (depth - 1) ts
    | _ => depthBehind depth ts

section Depth
variable {t : Token} {ts : List Token}

@[simp] theorem depthBehind_nil (depth : Nat) : depthBehind depth [] = some depth := rfl

theorem depthBehind_leftBrace (h : t.kind = .leftBrace) (depth : Nat) :
    depthBehind depth (t :: ts) = depthBehind (depth + 1) ts := by
  cases t
  cases h
  rfl

theorem depthBehind_rightBrace (h : t.kind = .rightBrace) (depth : Nat) :
    depthBehind (depth + 1) (t :: ts) = depthBehind depth ts := by
  cases t
  cases h
  rfl

theorem depthBehind_unopened (h : t.kind = .rightBrace) (ts : List Token) :
    depthBehind 0 (t :: ts) = none := by
  cases t
  cases h
  rfl

theorem depthBehind_other (hl : t.kind ≠ .leftBrace) (hr : t.kind ≠ .rightBrace) (depth : Nat) :
    depthBehind depth (t :: ts) = depthBehind depth ts := by
  rw [depthBehind]
  split <;> simp_all

theorem depthBehind_append (depth : Nat) (ts us : List Token) :
    depthBehind depth (ts ++ us) =
      (depthBehind depth ts).bind fun behind => depthBehind behind us := by
  induction ts generalizing depth with
  | nil => rfl
  | cons t ts ih =>
    rw [List.cons_append]
    by_cases hl : t.kind = .leftBrace
    · rw [depthBehind_leftBrace hl, depthBehind_leftBrace hl, ih]
    by_cases hr : t.kind = .rightBrace
    · cases depth with
      | zero =>
        rw [depthBehind_unopened hr, depthBehind_unopened hr]
        rfl
      | succ depth => rw [depthBehind_rightBrace hr, depthBehind_rightBrace hr, ih]
    · rw [depthBehind_other hl hr, depthBehind_other hl hr, ih]

/-- More braces that are open in front are still open behind. -/
theorem depthBehind_add {depth behind : Nat} (h : depthBehind depth ts = some behind)
    (more : Nat) : depthBehind (depth + more) ts = some (behind + more) := by
  induction ts generalizing depth with
  | nil =>
    obtain rfl : depth = behind := Option.some.inj h
    rfl
  | cons t ts ih =>
    by_cases hl : t.kind = .leftBrace
    · rw [depthBehind_leftBrace hl] at h ⊢
      have hrest := ih h
      rwa [Nat.add_right_comm] at hrest
    by_cases hr : t.kind = .rightBrace
    · cases depth with
      | zero =>
        rw [depthBehind_unopened hr] at h
        cases h
      | succ depth =>
        rw [depthBehind_rightBrace hr] at h
        rw [Nat.add_right_comm, depthBehind_rightBrace hr]
        exact ih h
    · rw [depthBehind_other hl hr] at h ⊢
      exact ih h

theorem depthBehind_plain (h : Plain ts) (depth : Nat) : depthBehind depth ts = some depth := by
  induction ts with
  | nil => rfl
  | cons t ts ih =>
    have ht := h t List.mem_cons_self
    rw [depthBehind_other (ne_of_plain ht rfl) (ne_of_plain ht rfl)]
    exact ih fun u hu => h u (List.mem_cons_of_mem t hu)

/-- Counting along and counting all braces of each kind come to the same. -/
theorem depthBehind_eq_some_iff {depth behind : Nat} :
    depthBehind depth ts = some behind ↔
      (∀ front, front <+: ts →
        countKind .rightBrace front ≤ depth + countKind .leftBrace front) ∧
      behind + countKind .rightBrace ts = depth + countKind .leftBrace ts := by
  induction ts generalizing depth with
  | nil => simp [countKind, eq_comm]
  | cons t ts ih =>
    -- a front is empty or holds the first token
    have hfronts : (∀ front, front <+: t :: ts →
        countKind .rightBrace front ≤ depth + countKind .leftBrace front) ↔
        ∀ front, front <+: ts →
          countKind .rightBrace (t :: front) ≤ depth + countKind .leftBrace (t :: front) := by
      constructor
      · intro h front hfront
        exact h _ (List.cons_prefix_cons.mpr ⟨rfl, hfront⟩)
      · intro h front hfront
        rcases List.prefix_cons_iff.mp hfront with rfl | ⟨more, rfl, hmore⟩
        · simp [countKind]
        · exact h more hmore
    rw [hfronts]
    simp only [countKind_cons]
    by_cases hl : t.kind = .leftBrace
    · rw [depthBehind_leftBrace hl, ih]
      simp only [hl, reduceCtorEq, reduceIte]
      constructor <;> rintro ⟨h, htotal⟩ <;>
        exact ⟨fun front hfront => by have := h front hfront; omega, by omega⟩
    by_cases hr : t.kind = .rightBrace
    · simp only [hr, reduceCtorEq, reduceIte]
      cases depth with
      | zero =>
        rw [depthBehind_unopened hr]
        constructor
        · intro h
          cases h
        · intro h
          have := h.1 [] List.nil_prefix
          simp [countKind] at this
      | succ depth =>
        rw [depthBehind_rightBrace hr, ih]
        constructor <;> rintro ⟨h, htotal⟩ <;>
          exact ⟨fun front hfront => by have := h front hfront; omega, by omega⟩
    · rw [depthBehind_other hl hr, ih]
      simp only [hl, hr, reduceIte, Nat.add_zero]

theorem exists_depthBehind (h : ∀ front, front <+: ts →
    countKind .rightBrace front ≤ countKind .leftBrace front) :
    ∃ depth, depthBehind 0 ts = some depth := by
  have htotal := h ts List.prefix_rfl
  exact ⟨countKind .leftBrace ts - countKind .rightBrace ts, depthBehind_eq_some_iff.mpr
    ⟨fun front hfront => by simpa using h front hfront, by omega⟩⟩

theorem braceBalanced_iff : BraceBalanced ts ↔ depthBehind 0 ts = some 0 := by
  rw [depthBehind_eq_some_iff]
  constructor
  · intro h
    exact ⟨fun front hfront => by simpa using h.closed_le_opened front hfront,
      by simpa using h.opened_eq_closed.symm⟩
  · rintro ⟨hfront, htotal⟩
    exact ⟨fun front h => by simpa using hfront front h, by simpa using htotal.symm⟩

end Depth

/-! ### Skipping a block -/

section SkipBlock
variable {ts inner follow : List Token} {close : Token}

/-- Skipping passes what is inside a block, whether or not the block is closed there. -/
theorem skipBlock_append {depth behind : Nat} (hdepth : depthBehind depth inner = some behind)
    (hend : Endless inner) (follow : List Token) :
    skipBlock (depth + 1) (inner ++ follow) = skipBlock (behind + 1) follow := by
  induction inner generalizing depth with
  | nil =>
    obtain rfl : depth = behind := Option.some.inj hdepth
    rfl
  | cons t ts ih =>
    have he := hend t List.mem_cons_self
    have hend' : Endless ts := fun u hu => hend u (List.mem_cons_of_mem t hu)
    rw [List.cons_append]
    by_cases hl : t.kind = .leftBrace
    · rw [depthBehind_leftBrace hl] at hdepth
      rw [skipBlock_leftBrace hl]
      exact ih hdepth hend'
    by_cases hr : t.kind = .rightBrace
    · cases depth with
      | zero =>
        rw [depthBehind_unopened hr] at hdepth
        cases hdepth
      | succ depth =>
        rw [depthBehind_rightBrace hr] at hdepth
        rw [skipBlock_rightBrace hr]
        exact ih hdepth hend'
    · rw [depthBehind_other hl hr] at hdepth
      rw [skipBlock_other he hl hr]
      exact ih hdepth hend'

/-- The brace that closes a block is skipped with it. -/
theorem skipBlock_close (h : BraceBalanced inner) (hend : Endless inner)
    (hclose : close.kind = .rightBrace) (follow : List Token) :
    skipBlock 1 (inner ++ close :: follow) = follow := by
  rw [skipBlock_append (braceBalanced_iff.mp h) hend, skipBlock_lastBrace hclose]

/-- A block that is not closed is skipped up to the end of the source. -/
theorem skipBlock_atEnd {behind : Nat} (h : depthBehind 0 inner = some behind)
    (hend : Endless inner) (hfollow : AtEnd follow) : skipBlock 1 (inner ++ follow) = follow := by
  rw [skipBlock_append h hend]
  cases follow with
  | nil => rfl
  | cons t ts => exact skipBlock_eof (hfollow t rfl) _ ts

/-- What skipping takes: the inside of the block and the brace that closes it, or, if there
is none, all that is left of the source. -/
theorem skipBlock_cases (depth : Nat) (ts : List Token) :
    ∃ inner behind, depthBehind depth inner = some behind ∧ Endless inner ∧
      ((∃ close, close.kind = .rightBrace ∧ behind = 0 ∧
          ts = inner ++ close :: skipBlock (depth + 1) ts) ∨
        (AtEnd (skipBlock (depth + 1) ts) ∧ ts = inner ++ skipBlock (depth + 1) ts)) := by
  induction ts generalizing depth with
  | nil => exact ⟨[], depth, rfl, endless_nil, .inr ⟨nofun, rfl⟩⟩
  | cons t ts ih =>
    by_cases he : t.kind = .eof
    · rw [skipBlock_eof he]
      exact ⟨[], depth, rfl, endless_nil, .inr ⟨by simpa [AtEnd] using he, rfl⟩⟩
    -- the token belongs to the inside, and the rest is skipped from another depth on
    have hinside {next : Nat} (hstep : ∀ us, depthBehind depth (t :: us) = depthBehind next us)
        (hskip : skipBlock (depth + 1) (t :: ts) = skipBlock (next + 1) ts) :
        ∃ inner behind, depthBehind depth inner = some behind ∧ Endless inner ∧
          ((∃ close, close.kind = .rightBrace ∧ behind = 0 ∧
              t :: ts = inner ++ close :: skipBlock (depth + 1) (t :: ts)) ∨
            (AtEnd (skipBlock (depth + 1) (t :: ts)) ∧
              t :: ts = inner ++ skipBlock (depth + 1) (t :: ts))) := by
      obtain ⟨inner, behind, hdepth, hend, hrest⟩ := ih next
      refine ⟨t :: inner, behind, (hstep inner).trans hdepth, endless_cons.mpr ⟨he, hend⟩, ?_⟩
      · rw [hskip]
        rcases hrest with ⟨close, hclose, hbehind, hts⟩ | ⟨hatEnd, hts⟩
        · exact .inl ⟨close, hclose, hbehind, congrArg (t :: ·) hts⟩
        · exact .inr ⟨hatEnd, congrArg (t :: ·) hts⟩
    by_cases hl : t.kind = .leftBrace
    · exact hinside (fun us => depthBehind_leftBrace hl depth) (skipBlock_leftBrace hl _ ts)
    by_cases hr : t.kind = .rightBrace
    · cases depth with
      | zero =>
        rw [skipBlock_lastBrace hr]
        exact ⟨[], 0, rfl, endless_nil, .inl ⟨t, hr, rfl, rfl⟩⟩
      | succ depth =>
        exact hinside (fun us => depthBehind_rightBrace hr depth) (skipBlock_rightBrace hr depth ts)
    · exact hinside (fun us => depthBehind_other hl hr depth)
        (skipBlock_other he hl hr (depth + 1) ts)

end SkipBlock

/-! ### Skipping a statement -/

/-- The tokens that are skipped as one statement when `follow` stands behind them: up to a
`;`, up to the brace that closes the first block in them or, if it is left open, up to the
end of the source, or else up to the brace that closes the block around the statement or to
the end of the source. -/
inductive Skipped : List Token → List Token → Prop where
  | semicolon {ts follow : List Token} {t : Token} (hts : Plain ts) (ht : t.kind = .semicolon) :
      Skipped (ts ++ [t]) follow
  | block {ts inner follow : List Token} {brace close : Token} (hts : Plain ts)
      (hbrace : brace.kind = .leftBrace) (hinner : BraceBalanced inner) (hend : Endless inner)
      (hclose : close.kind = .rightBrace) :
      Skipped (ts ++ brace :: (inner ++ [close])) follow
  | openBlock {ts inner follow : List Token} {brace : Token} (hts : Plain ts)
      (hbrace : brace.kind = .leftBrace)
      (hinner : ∀ front, front <+: inner →
        countKind .rightBrace front ≤ countKind .leftBrace front)
      (hend : Endless inner) (hfollow : AtEnd follow) : Skipped (ts ++ brace :: inner) follow
  | stopped {ts follow : List Token} (hts : Plain ts)
      (hfollow : ∀ t ∈ follow.head?, t.kind = .rightBrace ∨ t.kind = .eof) : Skipped ts follow

theorem skipDeclaration_plain {ts : List Token} (h : Plain ts) (follow : List Token) :
    skipDeclaration (ts ++ follow) = skipDeclaration follow := by
  induction ts with
  | nil => rfl
  | cons t ts ih =>
    have ht := h t List.mem_cons_self
    have hskip (us : List Token) : skipDeclaration (t :: us) = skipDeclaration us := by
      rw [skipDeclaration]
      split <;> simp_all [TokenKind.endsHeader]
    rw [List.cons_append, hskip]
    exact ih fun u hu => h u (List.mem_cons_of_mem t hu)

/-- Skipping a statement takes all of it. -/
theorem Skipped.skipDeclaration_eq {ts follow : List Token} (h : Skipped ts follow) :
    skipDeclaration (ts ++ follow) = follow := by
  cases h with
  | semicolon hts ht =>
    rw [List.append_assoc, skipDeclaration_plain hts]
    simp [skipDeclaration, ht]
  | block hts hbrace hinner hend hclose =>
    rw [List.append_assoc, skipDeclaration_plain hts]
    simp only [List.cons_append, List.append_assoc, List.nil_append, skipDeclaration, hbrace,
      skipBlock_leftBrace hbrace]
    exact skipBlock_close hinner hend hclose follow
  | openBlock hts hbrace hinner hend hfollow =>
    obtain ⟨depth, hdepth⟩ := exists_depthBehind hinner
    rw [List.append_assoc, skipDeclaration_plain hts]
    simp only [List.cons_append, skipDeclaration, hbrace, skipBlock_leftBrace hbrace]
    exact skipBlock_atEnd hdepth hend hfollow
  | stopped hts hfollow =>
    rw [skipDeclaration_plain hts]
    cases follow with
    | nil => rfl
    | cons t ts => rcases hfollow t rfl with h | h <;> simp [skipDeclaration, h]

/-- A token that ends no header may be skipped in front of a statement. -/
theorem Skipped.cons {t : Token} {ts follow : List Token} (ht : t.kind.endsHeader = false)
    (h : Skipped ts follow) : Skipped (t :: ts) follow := by
  cases h with
  | semicolon hts hsemi => exact .semicolon (hts.cons ht) hsemi
  | block hts hbrace hinner hend hclose => exact .block (hts.cons ht) hbrace hinner hend hclose
  | openBlock hts hbrace hinner hend hfollow =>
    exact .openBlock (hts.cons ht) hbrace hinner hend hfollow
  | stopped hts hfollow => exact .stopped (hts.cons ht) hfollow

/-- Skipping a statement takes nothing but the statement. -/
theorem skipDeclaration_skipped (ts : List Token) :
    ∃ used, ts = used ++ skipDeclaration ts ∧ Skipped used (skipDeclaration ts) := by
  induction ts with
  | nil => exact ⟨[], rfl, .stopped plain_nil (by simp [skipDeclaration])⟩
  | cons t ts ih =>
    rw [skipDeclaration]
    split
    · rename_i ht
      exact ⟨[], rfl, .stopped plain_nil (by simp [ht])⟩
    · rename_i ht
      exact ⟨[], rfl, .stopped plain_nil (by simp [ht])⟩
    · rename_i ht
      exact ⟨[t], rfl, .semicolon plain_nil ht⟩
    · rename_i ht
      rw [skipBlock_leftBrace ht]
      obtain ⟨inner, behind, hdepth, hend, ⟨close, hclose, rfl, hts⟩ | ⟨hatEnd, hts⟩⟩ :=
        skipBlock_cases 0 ts
      · refine ⟨t :: (inner ++ [close]), ?_, ?_⟩
        · simpa using hts
        · exact .block plain_nil ht (braceBalanced_iff.mpr hdepth) hend hclose
      · refine ⟨t :: inner, congrArg (t :: ·) hts, .openBlock plain_nil ht ?_ hend hatEnd⟩
        intro front hfront
        simpa using (depthBehind_eq_some_iff.mp hdepth).1 front hfront
    · rename_i he hr hs hl
      obtain ⟨used, hts, hused⟩ := ih
      have hplain := TokenKind.endsHeader_eq_false_iff.mpr ⟨hl, hr, hs, he⟩
      exact ⟨t :: used, congrArg (t :: ·) hts, hused.cons hplain⟩

end SheetLint
