import SheetLint.Proofs.Loops

/-! # Progress

No loop of a reading goes on for ever: each of its steps leaves the loop or goes forward by a
token at least (`LoopStep.Advances`), whatever is wrong with the stylesheet.  No step goes back,
and none passes the end of the source, so the token that stands in for a missing one is never
read (`LoopStep.Progresses`).  A stylesheet is therefore read up to its end, and no further
(`reading_progresses`).
-/
namespace SheetLint

section Steps
variable {σ ρ : Type}

/-- A step leaves the loop or goes forward by a token at least. -/
inductive LoopStep.Advances (ts : List Token) : LoopStep σ ρ → Prop where
  | leave {result : ρ} {rest : List Token} (h : Ahead ts rest) : Advances ts (.leave result rest)
  | goOn {state : σ} {rest : List Token} (h : Ahead ts rest) (hshorter : rest.length < ts.length) :
      Advances ts (.goOn state rest)

namespace LoopStep.Advances

/-- Passing one token goes forward. -/
theorem next {state : σ} {t : Token} {ts : List Token} (ht : t.kind ≠ .eof) :
    (.goOn state ts : LoopStep σ ρ).Advances (t :: ts) :=
  .goOn (ahead_tail ht) (Nat.lt_succ_self _)

/-- Passing one token and going forward from there. -/
theorem nextAhead {state : σ} {t : Token} {ts rest : List Token} (ht : t.kind ≠ .eof)
    (h : Ahead ts rest) : (.goOn state rest : LoopStep σ ρ).Advances (t :: ts) :=
  .goOn (h.cons ht) (Nat.lt_succ_of_le h.suffix.length_le)

end LoopStep.Advances
end Steps

/-! ### The steps of each loop -/

theorem blockLoop_advances (depth : Nat) (ts : List Token) :
    (blockLoop depth ts).Advances ts := by
  cases ts with
  | nil => exact .leave (.refl [])
  | cons t ts =>
    rw [blockLoop]
    split
    · exact .leave (.refl _)
    · exact .next (by simp [*])
    · split
      · exact .leave (ahead_tail (by simp [*]))
      · exact .next (by simp [*])
    · exact .next ‹_›

theorem statementLoop_advances (ts : List Token) : (statementLoop () ts).Advances ts := by
  cases ts with
  | nil => exact .leave (.refl [])
  | cons t ts =>
    rw [statementLoop]
    split
    · exact .leave (.refl _)
    · exact .leave (.refl _)
    · exact .leave (ahead_tail (by simp [*]))
    · exact .leave (skipBlock_ahead 0 (t :: ts))
    · exact .next ‹_›

theorem headerLoop_advances (taken ts : List Token) : (headerLoop taken ts).Advances ts := by
  cases ts with
  | nil => exact .leave (.refl [])
  | cons t ts =>
    rw [headerLoop]
    split
    · exact .leave (.refl _)
    · rename_i ht
      exact .next (ne_of_plain (by simpa using ht) rfl)

theorem groupLoop_advances (group : Nat × List Token) (ts : List Token) :
    (groupLoop group ts).Advances ts := by
  cases ts with
  | nil => exact .leave (.refl [])
  | cons t ts =>
    unfold groupLoop
    dsimp only
    split
    · exact .leave (.refl _)
    · rename_i ht
      have he : t.kind ≠ .eof := (TokenKind.stopsGroup_eq_false_iff.mp (by simpa using ht)).2.2
      generalize (if t.kind.opensGroup = true then _ else _) = depth
      by_cases hdepth : depth = 0
      · rw [if_pos hdepth]
        exact .leave (ahead_tail he)
      · rw [if_neg hdepth]
        exact .next he

section Readings
variable (src : Source)

theorem valueLoop_advances (scan : ValueScan) (ts : List Token) :
    (valueLoop src scan ts).Advances ts := by
  cases ts with
  | nil => exact .leave (.refl [])
  | cons t ts =>
    rw [valueLoop]
    split
    · exact .leave (.refl _)
    · exact .leave (.refl _)
    · exact .leave (.refl _)
    · exact .leave (.refl _)
    · rename_i ht
      split
      · rename_i hword
        obtain ⟨word, more, rfl, hident, -⟩ := exists_of_atImportant hword
        exact .nextAhead (by simp [ht]) (ahead_tail (by simp [hident]))
      · exact .next (by simp [ht])
    · exact .nextAhead (by simp [*]) (splitGroup_ahead 1 ts)
    · exact .nextAhead (by simp [*]) (splitGroup_ahead 1 ts)
    · exact .next ‹_›

theorem queryLoop_advances (found : List String × List Token) (ts : List Token) :
    (queryLoop src found ts).Advances ts := by
  cases ts with
  | nil => exact .leave (.refl [])
  | cons t ts =>
    unfold queryLoop
    dsimp only
    split
    · exact .leave (ahead_tail (by simp [*]))
    · exact .leave (.refl _)
    · exact .leave (.refl _)
    · exact .leave (.refl _)
    · exact .next (by simp [*])
    · exact .next ‹_›

theorem bodyLoop_advances (body : Body) (trail : Trail) (ts : List Token) :
    (bodyLoop src body trail ts).Advances ts := by
  cases ts with
  | nil => exact .leave (.refl [])
  | cons t ts =>
    rw [bodyLoop]
    by_cases he : t.kind = .eof
    · rw [if_pos he]
      exact .leave (.refl _)
    rw [if_neg he]
    by_cases hb : t.kind = .rightBrace
    · rw [if_pos hb]
      split
      · exact .next he
      · exact .leave (.refl _)
    rw [if_neg hb]
    exact .goOn ((readItem_ahead src body ts he).trans (afterItem_ahead src trail _))
      (length_afterItem_lt src body trail ts he hb)

end Readings

/-! ### Every step makes progress -/

/-- From the tokens `cursor` on, the step goes forward and not past the end of the source.  What
is read there is a token of the source, not one that stands in for it, and if the loop goes on
then behind at least one of them. -/
structure LoopStep.Progresses {σ ρ : Type} (src : Source) (cursor : List Token)
    (step : LoopStep σ ρ) : Prop where
  forward : step.rest <:+ cursor
  keepsEnd : step.rest.getLast? = cursor.getLast?
  peek_mem : ∀ mid, step.rest <:+ mid → mid <:+ cursor → src.peek mid ∈ mid
  shorter : ∀ state rest, step = .goOn state rest → rest.length < cursor.length

/-- The steps of the loop make progress wherever a reading of the tokens `ts` may have come to. -/
def Loop.Progresses {σ ρ : Type} (src : Source) (ts : List Token) (loop : Loop σ ρ) : Prop :=
  ∀ state cursor, cursor <:+ ts → cursor ≠ [] → (loop state cursor).Progresses src cursor

theorem Source.peek_mem (src : Source) {ts : List Token} (h : ts ≠ []) : src.peek ts ∈ ts := by
  cases ts with
  | nil => exact absurd rfl h
  | cons t ts => exact List.mem_cons_self

section Progress
variable {σ ρ : Type} {ts : List Token}

theorem LoopStep.Advances.ahead {step : LoopStep σ ρ} (h : step.Advances ts) :
    Ahead ts step.rest := by
  cases h with
  | leave h => exact h
  | goOn h _ => exact h

/-- Where the end is marked once, going forward is all that is needed. -/
theorem LoopStep.Advances.progresses (src : Source) (hts : EndsOnce ts) {step : LoopStep σ ρ}
    (h : step.Advances ts) : step.Progresses src ts where
  forward := h.ahead.suffix
  keepsEnd := (hts.suffix h.ahead.suffix (hts.ahead h.ahead)).2
  peek_mem mid hrest _ := src.peek_mem fun hmid => hts.ahead h.ahead (by simpa [hmid] using hrest)
  shorter state rest hstep := by
    subst hstep
    cases h with
    | goOn _ hshorter => exact hshorter

theorem Loop.progresses_of_advances (src : Source) (hts : EndsOnce ts) {loop : Loop σ ρ}
    (h : ∀ state us, (loop state us).Advances us) : Loop.Progresses src ts loop := by
  intro state cursor hcursor hne
  exact (h state cursor).progresses src (hts.suffix hcursor hne).1

end Progress

/-- All loops of a reading of the tokens `ts` make progress. -/
structure ReadingProgresses (src : Source) (ts : List Token) : Prop where
  body : ∀ body, Loop.Progresses src ts (bodyLoop src body)
  queries : Loop.Progresses src ts (queryLoop src)
  value : Loop.Progresses src ts (valueLoop src)
  group : Loop.Progresses src ts groupLoop
  header : Loop.Progresses src ts headerLoop
  block : Loop.Progresses src ts blockLoop
  statement : Loop.Progresses src ts statementLoop

/-- Every reader goes through its loop, and leaves it at the end. -/
structure ReadersRun (src : Source) : Prop where
  body : ∀ body trail ts, Runs (bodyLoop src body) trail ts
    (readFrom src body trail [] ts).1 (readFrom src body trail [] ts).2
  queries : ∀ ts, Runs (queryLoop src) ([], []) ts
    (src.mediaQueries (headerTokens ts),
      if (src.peek (afterHeader ts)).kind = .semicolon then []
      else [src.unexpected (afterHeader ts) .semicolon])
    (eatSemicolon (afterHeader ts))
  value : ∀ scan ts, Runs (valueLoop src) scan ts
    (readParts src scan ts).1 (readParts src scan ts).2
  group : ∀ opener ts, opener.kind.opensGroup = true → Runs groupLoop (0, []) (opener :: ts)
    (opener :: (splitGroup 1 ts).1) (splitGroup 1 ts).2
  header : ∀ ts, Runs headerLoop [] ts (headerTokens ts) (afterHeader ts)
  block : ∀ depth ts, Runs blockLoop depth ts () (skipBlock depth ts)
  statement : ∀ ts, Runs statementLoop () ts () (skipDeclaration ts)

theorem EndsOnce.readingProgresses (src : Source) {ts : List Token} (hts : EndsOnce ts) :
    ReadingProgresses src ts where
  body body := Loop.progresses_of_advances src hts (bodyLoop_advances src body)
  queries := Loop.progresses_of_advances src hts (queryLoop_advances src)
  value := Loop.progresses_of_advances src hts (valueLoop_advances src)
  group := Loop.progresses_of_advances src hts groupLoop_advances
  header := Loop.progresses_of_advances src hts headerLoop_advances
  block := Loop.progresses_of_advances src hts blockLoop_advances
  statement := Loop.progresses_of_advances src hts fun _ => statementLoop_advances

theorem readersRun (src : Source) : ReadersRun src where
  body := readFrom_runs src
  queries := queries_runs src [] (List.forall_mem_nil _)
  value := readParts_runs src
  group _ ts h := group_runs h ts
  header := header_runs []
  block := skipBlock_runs
  statement := skipDeclaration_runs

/-- At the outermost level nothing but the end of the source stops the reading. -/
theorem atEnd_readSheet (src : Source) (trail : Trail) (nest : List BlockKind) (ts : List Token) :
    AtEnd (readFrom src .sheet trail nest ts).2 := by
  induction trail, nest, ts using readFrom.induct src .sheet with
  | case1 trail nest =>
    rw [readFrom_nil]
    simp [AtEnd]
  | case2 trail nest t ts he =>
    rw [readFrom_end _ _ _ _ _ he]
    simpa [AtEnd] using he
  | case3 trail t ts he hb kind outer _ ih =>
    rw [readFrom_close _ _ _ _ _ _ hb]
    exact ih
  | case4 trail t ts he hb _ ih =>
    rw [readFrom_stray _ _ _ hb]
    exact ih
  | case5 trail t ts he hb hbase => exact absurd rfl hbase
  | case6 trail nest t ts he hb item ih =>
    rw [readFrom_item _ _ _ _ _ he hb]
    exact ih

/-- **A reading makes progress and goes through all of the source.**  Every loop is gone through
to where it is left, each of its steps goes forward, and a reading of all tokens comes to stand in
front of the end of the source. -/
theorem reading_progresses (src : Source) {ts : List Token} (hts : EndsOnce ts) :
    ReadingProgresses src ts ∧ ReadersRun src ∧ OnlyEndLeft ts (readBody src .sheet ts).2 := by
  have hahead : Ahead ts (readBody src .sheet ts).2 := readFrom_ahead src .sheet {} [] ts
  exact ⟨hts.readingProgresses src, readersRun src,
    hts.onlyEndLeft hahead.suffix (hts.ahead hahead) (atEnd_readSheet src {} [] ts)⟩

/-- A header without a block, two stray braces and an import without an end are read through. -/
theorem reading_malformed_progresses :
    let src := Source.ofString "\x7da;@x \x7d@import url(b) \x7b"
    EndsOnce src.tokens ∧ ReadingProgresses src src.tokens ∧ ReadersRun src ∧
      OnlyEndLeft src.tokens (readBody src .sheet src.tokens).2 :=
  ⟨Source.tokens_endsOnce _, reading_progresses _ (Source.tokens_endsOnce _)⟩

end SheetLint
