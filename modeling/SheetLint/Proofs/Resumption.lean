import SheetLint.Proofs.EventOrder

/-! # Reading resumes behind a semicolon

Inside a block, whatever stands in front of a `;` and holds no brace is dealt with when the
`;` has been read: as a declaration, as a fault, or as several of them where an at-keyword
opens no margin box and the tokens behind it are read on their own.  In each of these cases
the `;` is taken once, by the item that reaches it (`readItem_leaves`).

So the tokens up to the `;` are read as if nothing followed them, and reading goes on behind
it as if nothing stood in front (`readFrom_resumes`, `readBody_resumes`).
-/
namespace SheetLint

/-! ### Chunks without braces -/

/-- Tokens that close no brace close none that was opened in front of them. -/
theorem Settled.eq_zero {depth : Nat} {ts : List Token} (h : Settled depth ts)
    (hclose : ∀ t ∈ ts, t.kind ≠ .rightBrace) : depth = 0 := by
  induction h with
  | nil => rfl
  | semicolon _ _ ih | plain _ _ _ ih => exact ih (List.forall_mem_cons.mp hclose).2
  | leftBrace _ _ ih => exact absurd (ih (List.forall_mem_cons.mp hclose).2) (Nat.succ_ne_zero _)
  | rightBrace ht _ _ => exact absurd ht (hclose _ List.mem_cons_self)

/-- Some plain tokens and the `;` behind them. -/
theorem Plain.settled {junk : List Token} (h : Plain junk) {semicolon : Token}
    (hsemicolon : semicolon.kind = .semicolon) : Settled 0 (junk ++ [semicolon]) := by
  induction junk with
  | nil => exact .semicolon hsemicolon .nil
  | cons t ts ih =>
    obtain ⟨ht, hts⟩ := List.forall_mem_cons.mp h
    exact .plain ht (List.append_ne_nil_of_right_ne_nil ts (List.cons_ne_nil _ _)) (ih hts)

section Chunks
variable (src : Source)

/-- An item of such a chunk opens no block, and what it leaves is such a chunk again. -/
theorem readItem_leaves (body : Body) {t : Token} {ts : List Token} (h : Settled 0 (t :: ts))
    (hclose : ∀ u ∈ t :: ts, u.kind ≠ .rightBrace) :
    (readItem src body t ts).opened = none ∧ Settled 0 (readItem src body t ts).rest ∧
      ∀ u ∈ (readItem src body t ts).rest, u.kind ≠ .rightBrace := by
  obtain ⟨ht, hts⟩ := List.forall_mem_cons.mp hclose
  have hrest : ∀ u ∈ (readItem src body t ts).rest, u.kind ≠ .rightBrace :=
    fun u hu => hts u ((readItem_rest_suffix src body ts h.ne_eof ht).subset hu)
  obtain ⟨depth, hdepth, hsettled⟩ := (readItem_staysWithin src body h).settles
  obtain rfl : depth = 0 := hsettled.eq_zero hrest
  refine ⟨?_, hsettled, hrest⟩
  cases hopened : (readItem src body t ts).opened with
  | none => rfl
  | some kind =>
    rw [hopened] at hdepth
    exact absurd hdepth (Nat.not_succ_le_zero _)

/-- **A reading goes on behind a chunk.**  The tokens behind it are read with what has been
found in it, and with no block open. -/
theorem readFrom_resumes (base : Body) (trail : Trail) {ts : List Token} (h : Settled 0 ts)
    (hclose : ∀ t ∈ ts, t.kind ≠ .rightBrace) (more : List Token) :
    readFrom src base trail [] (ts ++ more) =
      readFrom src base (readFrom src base trail [] ts).1 [] more := by
  match ts with
  | [] =>
    have hnothing : trail.endAll src [] [] = trail := by
      simp [Trail.endAll, Trail.add]
    rw [List.nil_append, readFrom_nil, hnothing]
  | t :: ts =>
    have ht := hclose t List.mem_cons_self
    obtain ⟨hopened, hsettled, hrest⟩ := readItem_leaves src (innermost base []) h hclose
    have hshorter := length_readItem_lt src (innermost base []) ts h.ne_eof ht
    rw [List.cons_append, readFrom_item _ _ _ _ _ h.ne_eof ht,
      readFrom_item _ _ _ _ _ h.ne_eof ht,
      (readItem_staysWithin src (innermost base []) h).followedBy more]
    simp only [Item.followedBy, hopened, Option.toList_none, List.nil_append]
    exact readFrom_resumes base _ hsettled hrest more
termination_by ts.length
decreasing_by exact hshorter

end Chunks

/-! ### Bodies -/

/-- **A semicolon resynchronises a body.**  In every body, and so among declarations with and
without margin boxes, plain tokens and the `;` behind them are read as if the source ended
there, and all that follows as if it came first. -/
theorem readBody_resumes (src : Source) (body : Body) {junk : List Token} (hjunk : Plain junk)
    {semicolon stop : Token} (hsemicolon : semicolon.kind = .semicolon)
    (hstop : stop.kind = .eof) (more : List Token) :
    (readBody src body (junk ++ [semicolon] ++ more)).1.events =
        (readBody src body (junk ++ [semicolon, stop])).1.events ++
          (readBody src body more).1.events ∧
      (readBody src body (junk ++ [semicolon] ++ more)).1.faults =
        (readBody src body (junk ++ [semicolon, stop])).1.faults ++
          (readBody src body more).1.faults ∧
      (readBody src body (junk ++ [semicolon] ++ more)).2 = (readBody src body more).2 := by
  have hclose : ∀ t ∈ junk ++ [semicolon], t.kind ≠ .rightBrace := by
    intro t ht
    rcases List.mem_append.mp ht with ht | ht
    · exact ne_of_plain (hjunk t ht) rfl
    · rw [List.mem_singleton.mp ht, hsemicolon]
      exact nofun
  have hresumes (rest : List Token) :=
    readFrom_resumes src body {} (hjunk.settled hsemicolon) hclose rest
  -- the end of the source adds nothing where no block is open
  have hend : (readBody src body (junk ++ [semicolon, stop])).1 =
      (readBody src body (junk ++ [semicolon])).1 := by
    have hsplit : junk ++ [semicolon, stop] = junk ++ [semicolon] ++ [stop] := by simp
    rw [readBody, hsplit, hresumes [stop], readFrom_end _ _ _ _ _ hstop]
    simp [Trail.endAll, Trail.add, readBody]
  rw [hend]
  simp only [readBody]
  rw [hresumes more, readFrom_trail]
  exact ⟨rfl, rfl, rfl⟩

/-- In a page, `@x` opens no margin box, so that `a:f(!` is read on its own; its group is not
closed and takes in a mark.  Behind the `;` nothing is left of all this. -/
theorem readBody_resumes_behind_margin :
    let src : Source := .ofString "@x a:f(!;b:c"
    let junk : List Token :=
      [⟨.atKeyword, ⟨0, 2⟩⟩, ⟨.ident, ⟨3, 4⟩⟩, ⟨.colon, ⟨4, 5⟩⟩, ⟨.function, ⟨5, 7⟩⟩,
        ⟨.bang, ⟨7, 8⟩⟩]
    let semicolon : Token := ⟨.semicolon, ⟨8, 9⟩⟩
    let more : List Token :=
      [⟨.ident, ⟨9, 10⟩⟩, ⟨.colon, ⟨10, 11⟩⟩, ⟨.ident, ⟨11, 12⟩⟩, src.endToken]
    src.tokens = junk ++ [semicolon] ++ more ∧ Plain junk ∧
      (readBody src .page (junk ++ [semicolon, src.endToken])).1.events.size = 1 ∧
      (readBody src .page (junk ++ [semicolon, src.endToken])).1.faults.size = 1 ∧
      (readBody src .page (junk ++ [semicolon] ++ more)).1.events =
        (readBody src .page (junk ++ [semicolon, src.endToken])).1.events ++
          (readBody src .page more).1.events := by
  intro src junk semicolon more
  have hjunk : Plain junk := show ∀ t ∈ junk, t.kind.endsHeader = false by decide
  refine ⟨by decide +kernel, hjunk, by decide +kernel, by decide +kernel, ?_⟩
  exact (readBody_resumes src .page hjunk rfl rfl more).1

end SheetLint
