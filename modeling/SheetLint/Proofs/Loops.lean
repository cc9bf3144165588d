import SheetLint.Proofs.Cursor

/-! # The loops of a reading

Each reader goes through its tokens in a loop.  A loop is given by its step (`Loop`): at the
tokens that are left it is left with a result, or goes on in another state at the tokens that are
left then.  `Runs` says that going on in this way ends, and with what; `Reaches` says which states
are come through.

Here are the loops one by one, each with the reader that runs it: blocks and statements that are
skipped, headers, groups, values, the queries of an import, and the items of a body.  The last one
takes a block of the body as one step, with all that is read inside it.  That is how bodies nest:
reading with several blocks open is reading the innermost to its end, closing it, and going on
with the others (`readFrom_inside`).
-/
namespace SheetLint

/-- What a step of a loop comes to: the loop is left with a result, or goes on in another state.
Both tell the tokens that are left. -/
inductive LoopStep (σ ρ : Type) where
  | leave (result : ρ) (rest : List Token)
  | goOn (state : σ) (rest : List Token)

/-- The tokens that are left behind a step. -/
def LoopStep.rest {σ ρ : Type} : LoopStep σ ρ → List Token
  | leave _ rest => rest
  | goOn _ rest => rest

/-- A loop, given by what a step does in each state. -/
abbrev Loop (σ ρ : Type) := σ → List Token → LoopStep σ ρ

section Runs
variable {σ ρ : Type} (loop : Loop σ ρ)

/-- Going through the loop from this state and these tokens on ends with the result, and leaves
the tokens `rest`. -/
inductive Runs : σ → List Token → ρ → List Token → Prop where
  | leave {state : σ} {ts rest : List Token} {result : ρ} (h : loop state ts = .leave result rest) :
      Runs state ts result rest
  | goOn {state next : σ} {ts us rest : List Token} {result : ρ} (h : loop state ts = .goOn next us)
      (hruns : Runs next us result rest) : Runs state ts result rest

/-- Going through the loop comes from one state and the tokens left there to another. -/
inductive Reaches (start : σ) (ts : List Token) : σ → List Token → Prop where
  | start : Reaches start ts start ts
  | goOn {state next : σ} {us vs : List Token} (hreaches : Reaches start ts state us)
      (h : loop state us = .goOn next vs) : Reaches start ts next vs

end Runs

/-! ### Skipping -/

/-- Skipping a block: the state is the number of blocks that are open. -/
def blockLoop : Loop Nat Unit
  | _, [] => .leave () []
  | depth, t :: ts =>
    match t.kind with
    | .eof => .leave () (t :: ts)
    | .leftBrace => .goOn (depth + 1) ts
    | .rightBrace => if depth - 1 = 0 then .leave () ts else .goOn (depth - 1) ts
    | _ => .goOn depth ts

/-- Skipping a statement. -/
def statementLoop : Loop Unit Unit
  | _, [] => .leave () []
  | _, t :: ts =>
    match t.kind with
    | .eof | .rightBrace => .leave () (t :: ts)
    | .semicolon => .leave () ts
    | .leftBrace => .leave () (skipBlock 0 (t :: ts))
    | _ => .goOn () ts

theorem blockLoop_other {t : Token} (he : t.kind ≠ .eof) (hl : t.kind ≠ .leftBrace)
    (hr : t.kind ≠ .rightBrace) (depth : Nat) (ts : List Token) :
    blockLoop depth (t :: ts) = .goOn depth ts := by
  rw [blockLoop]
  split <;> simp_all

theorem skipBlock_runs (depth : Nat) (ts : List Token) :
    Runs blockLoop depth ts () (skipBlock depth ts) := by
  fun_induction skipBlock depth ts with
  | case1 depth => exact .leave rfl
  | case2 depth t ts ht => exact .leave (by simp [blockLoop, ht])
  | case3 depth t ts ht ih => exact .goOn (by simp [blockLoop, ht]) ih
  | case4 depth t ts ht hlast => exact .leave (by simp [blockLoop, ht]; omega)
  | case5 depth t ts ht hlast ih => exact .goOn (by simp [blockLoop, ht]; omega) ih
  | case6 depth t ts he hl hr ih => exact .goOn (blockLoop_other he hl hr depth ts) ih

theorem skipDeclaration_runs (ts : List Token) :
    Runs statementLoop () ts () (skipDeclaration ts) := by
  fun_induction skipDeclaration ts with
  | case1 => exact .leave rfl
  | case2 t ts ht => exact .leave (by simp [statementLoop, ht])
  | case3 t ts ht => exact .leave (by simp [statementLoop, ht])
  | case4 t ts ht => exact .leave (by simp [statementLoop, ht])
  | case5 t ts ht => exact .leave (by simp [statementLoop, ht])
  | case6 t ts he hr hs hl ih =>
    refine .goOn ?_ ih
    rw [statementLoop]
    split <;> simp_all

/-! ### Headers and groups -/

/-- Collecting a header: the state are the tokens taken so far. -/
def headerLoop : Loop (List Token) (List Token)
  | taken, [] => .leave taken []
  | taken, t :: ts =>
    if t.kind.endsHeader then .leave taken (t :: ts) else .goOn (taken ++ [t]) ts

/-- Taking a group: the state are the parentheses that are open and the tokens taken so far. -/
def groupLoop : Loop (Nat × List Token) (List Token)
  | (_, taken), [] => .leave taken []
  | (depth, taken), t :: ts =>
    if t.kind.stopsGroup then .leave taken (t :: ts)
    else
      let depth :=
        if t.kind.opensGroup then depth + 1
        else if t.kind = .rightParen then depth - 1
        else depth
      if depth = 0 then .leave (taken ++ [t]) ts else .goOn (depth, taken ++ [t]) ts

theorem header_runs (taken ts : List Token) :
    Runs headerLoop taken ts (taken ++ headerTokens ts) (afterHeader ts) := by
  induction ts generalizing taken with
  | nil => exact .leave (by simp [headerLoop, headerTokens, afterHeader])
  | cons t ts ih =>
    by_cases ht : t.kind.endsHeader = true
    · exact .leave (by simp [headerLoop, headerTokens, afterHeader, ht])
    · have hrest := ih (taken ++ [t])
      rw [List.append_assoc, List.singleton_append] at hrest
      simp only [headerTokens, afterHeader, List.takeWhile_cons, List.dropWhile_cons, ht] at hrest ⊢
      exact .goOn (by simp [headerLoop, ht]) hrest

/-- The tokens of a group behind the one that opens it. -/
theorem splitGroup_runs (depth : Nat) (taken ts : List Token) :
    Runs groupLoop (depth + 1, taken) ts (taken ++ (splitGroup (depth + 1) ts).1)
      (splitGroup (depth + 1) ts).2 := by
  induction ts generalizing depth taken with
  | nil => exact .leave (by simp [groupLoop, splitGroup])
  | cons t ts ih =>
    by_cases hstop : t.kind.stopsGroup = true
    · rw [splitGroup_stop hstop]
      exact .leave (by simp [groupLoop, hstop])
    -- a token that is taken leaves some parentheses open
    have htake (next : Nat) (hsplit : splitGroup (depth + 1) (t :: ts) =
          consFirst t (splitGroup (next + 1) ts))
        (hstep : groupLoop (depth + 1, taken) (t :: ts) = .goOn (next + 1, taken ++ [t]) ts) :
        Runs groupLoop (depth + 1, taken) (t :: ts) (taken ++ (splitGroup (depth + 1) (t :: ts)).1)
          (splitGroup (depth + 1) (t :: ts)).2 := by
      have hrest := ih next (taken ++ [t])
      rw [List.append_assoc, List.singleton_append] at hrest
      rw [hsplit]
      exact .goOn hstep hrest
    by_cases hclose : t.kind = .rightParen
    · cases depth with
      | zero => exact .leave (by simp [groupLoop, splitGroup, hclose, TokenKind.stopsGroup,
          TokenKind.opensGroup])
      | succ depth =>
        refine htake depth (by simp [splitGroup, hclose]) ?_
        simp [groupLoop, hclose, TokenKind.stopsGroup, TokenKind.opensGroup]
    by_cases hopen : t.kind.opensGroup = true
    · refine htake (depth + 1) ?_ (by simp [groupLoop, hstop, hopen])
      rcases TokenKind.opensGroup_iff.mp hopen with h | h <;> simp [splitGroup, h]
    · refine htake depth ?_ (by simp [groupLoop, hstop, hopen, hclose])
      rw [splitGroup]
      split <;> simp_all [TokenKind.opensGroup, TokenKind.stopsGroup]

/-- A group is taken from the token that opens it on. -/
theorem group_runs {opener : Token} (h : opener.kind.opensGroup = true) (ts : List Token) :
    Runs groupLoop (0, []) (opener :: ts) (opener :: (splitGroup 1 ts).1) (splitGroup 1 ts).2 := by
  have hstop : opener.kind.stopsGroup = false := by
    rcases TokenKind.opensGroup_iff.mp h with h | h <;> rw [h] <;> rfl
  exact .goOn (by simp [groupLoop, hstop, h]) (splitGroup_runs 0 [opener] ts)

/-! ### Values and imports -/

/-- Reading a value: the state is what has been read so far. -/
def valueLoop (src : Source) : Loop ValueScan ValueScan
  | scan, [] => .leave scan []
  | scan, t :: ts =>
    match t.kind with
    | .semicolon | .leftBrace | .rightBrace | .eof => .leave scan (t :: ts)
    | .bang =>
      if src.atImportant ts then .goOn { scan with important := true } ts.tail
      else .goOn (scan.blame (src.unexpected ts .important)) ts
    | .function | .leftParen => .goOn (scan.add src t (splitGroup 1 ts).1) (splitGroup 1 ts).2
    | _ => .goOn (scan.add src t []) ts

theorem readParts_runs (src : Source) (scan : ValueScan) (ts : List Token) :
    Runs (valueLoop src) scan ts (readParts src scan ts).1 (readParts src scan ts).2 := by
  fun_induction readParts src scan ts with
  | case1 scan => exact .leave rfl
  | case2 scan t ts ht => exact .leave (by simp [valueLoop, ht])
  | case3 scan t ts ht => exact .leave (by simp [valueLoop, ht])
  | case4 scan t ts ht => exact .leave (by simp [valueLoop, ht])
  | case5 scan t ts ht => exact .leave (by simp [valueLoop, ht])
  | case6 scan t ts ht hword ih => exact .goOn (by simp [valueLoop, ht, hword]) ih
  | case7 scan t ts ht hword ih => exact .goOn (by simp [valueLoop, ht, hword]) ih
  | case8 scan t ts ht ih => exact .goOn (by simp [valueLoop, ht]) ih
  | case9 scan t ts ht ih => exact .goOn (by simp [valueLoop, ht]) ih
  | case10 scan t ts h1 h2 h3 h4 h5 h6 h7 ih =>
    refine .goOn ?_ ih
    rw [valueLoop]
    split <;> simp_all

/-- The texts of the queries that have been found, where there is any. -/
def Source.queryTexts (src : Source) (queries : List (List Token)) : List String :=
  (queries.filter fun query => !query.isEmpty).map src.textOf

/-- Reading the queries of an import: the state are the texts of those that are complete, and the
tokens of the one at hand.  The result are the texts of all, and a fault if no `;` ends them. -/
def queryLoop (src : Source) : Loop (List String × List Token) (List String × List Fault)
  | (texts, query), [] =>
    .leave (texts ++ src.queryTexts [query], [src.unexpected [] .semicolon]) []
  | (texts, query), t :: ts =>
    match t.kind with
    | .semicolon => .leave (texts ++ src.queryTexts [query], []) ts
    | .eof | .rightBrace | .leftBrace =>
      .leave (texts ++ src.queryTexts [query], [src.unexpected (t :: ts) .semicolon]) (t :: ts)
    | .comma => .goOn (texts ++ src.queryTexts [query], []) ts
    | _ => .goOn (texts, query ++ [t]) ts

/-- What has been found of a query stands in front of a comma, or of what ends all of them. -/
theorem mediaQueries_of_query (src : Source) {query : List Token}
    (hquery : ∀ t ∈ query, (t.kind == .comma) = false) :
    src.mediaQueries query = src.queryTexts [query] := by
  rw [Source.mediaQueries, Text.pieces_eq_singleton hquery]
  rfl

theorem mediaQueries_of_comma (src : Source) {query : List Token}
    (hquery : ∀ t ∈ query, (t.kind == .comma) = false) {comma : Token}
    (hcomma : comma.kind = .comma) (ts : List Token) :
    src.mediaQueries (query ++ comma :: ts) = src.queryTexts [query] ++ src.mediaQueries ts := by
  have hcut : Text.pieces (fun t => t.kind == .comma) (query ++ comma :: ts) =
      [query] ++ Text.pieces (fun t => t.kind == .comma) ts := by
    rw [Text.pieces_append_cons (by simp [hcomma]), Text.pieces_eq_singleton hquery]
  rw [Source.mediaQueries, hcut, List.filter_append, List.map_append]
  rfl

/-- The queries are read behind some tokens of the first of them. -/
theorem queries_runs (src : Source) (texts : List String) {query : List Token}
    (hquery : ∀ t ∈ query, (t.kind == .comma) = false) (ts : List Token) :
    Runs (queryLoop src) (texts, query) ts
      (texts ++ src.mediaQueries (query ++ headerTokens ts),
        if (src.peek (afterHeader ts)).kind = .semicolon then []
        else [src.unexpected (afterHeader ts) .semicolon])
      (eatSemicolon (afterHeader ts)) := by
  induction ts generalizing texts query with
  | nil =>
    have hlast := mediaQueries_of_query src hquery
    refine .leave ?_
    simp [queryLoop, headerTokens, afterHeader, eatSemicolon, hlast, Source.endToken]
  | cons t ts ih =>
    by_cases hend : t.kind.endsHeader = true
    · have hheader : headerTokens (t :: ts) = [] := by simp [headerTokens, hend]
      have hafter : afterHeader (t :: ts) = t :: ts := by simp [afterHeader, hend]
      refine .leave ?_
      rw [hheader, hafter, List.append_nil, mediaQueries_of_query src hquery, Source.peek_cons]
      revert hend
      cases ht : t.kind <;> simp [queryLoop, eatSemicolon, ht, TokenKind.endsHeader]
    · have hheader : headerTokens (t :: ts) = t :: headerTokens ts := by simp [headerTokens, hend]
      have hafter : afterHeader (t :: ts) = afterHeader ts := by simp [afterHeader, hend]
      rw [hheader, hafter]
      by_cases hcomma : t.kind = .comma
      · have hrest := ih (texts ++ src.queryTexts [query]) (List.forall_mem_nil _)
        rw [List.append_assoc, List.nil_append, ← mediaQueries_of_comma src hquery hcomma] at hrest
        exact .goOn (by simp [queryLoop, hcomma]) hrest
      · have hmore : ∀ u ∈ query ++ [t], (u.kind == .comma) = false := by
          refine List.forall_mem_append.mpr ⟨hquery, ?_⟩
          simpa using hcomma
        have hrest := ih texts hmore
        rw [List.append_assoc, List.singleton_append] at hrest
        refine .goOn ?_ hrest
        rw [queryLoop]
        split <;> simp_all [TokenKind.endsHeader]

/-! ### Bodies -/

/-- Closing a block: the brace is read if it is there, and its lack is a fault. -/
def closeBlock (src : Source) (kind : BlockKind) (trail : Trail) (ts : List Token) :
    Trail × List Token :=
  let ended := Event.endBlock kind "" (src.position (src.peek ts).span.start)
  if (src.peek ts).kind = .rightBrace then (trail.add [ended] [], ts.tail)
  else (trail.add [ended] [src.fault ts (.unexpectedEnd .rightBrace)], ts)

/-- Going on behind an item: if it opens a block, then behind that block, with all that is read
inside it. -/
def afterItem (src : Source) (trail : Trail) (item : Item) : Trail × List Token :=
  let found := trail.add item.events item.faults
  match item.opened with
  | none => (found, item.rest)
  | some kind =>
    let inside := readFrom src kind.body found [] item.rest
    closeBlock src kind inside.1 inside.2

/-- Reading the items of a body: the state are the events and faults so far. -/
def bodyLoop (src : Source) (body : Body) : Loop Trail Trail
  | trail, [] => .leave trail []
  | trail, t :: ts =>
    if t.kind = .eof then .leave trail (t :: ts)
    else if t.kind = .rightBrace then
      if body = .sheet then .goOn (trail.add [] [src.unexpected (t :: ts) .rule]) ts
      else .leave trail (t :: ts)
    else
      let behind := afterItem src trail (readItem src body t ts)
      .goOn behind.1 behind.2

section Bodies
variable (src : Source)

theorem endAll_nil (trail : Trail) (ts : List Token) : trail.endAll src [] ts = trail := by
  simp [Trail.endAll, Trail.add]

theorem add_add (trail : Trail) (es more : List Event) (fs others : List Fault) :
    (trail.add es fs).add more others = trail.add (es ++ more) (fs ++ others) := by
  simp [Trail.add, Array.append_assoc]

/-- The end of the source ends the inner blocks, then the block around them, then the others. -/
theorem endAll_append (trail : Trail) (inner outer : List BlockKind) (kind : BlockKind)
    {ts : List Token} (hend : AtEnd ts) :
    closeBlock src kind (trail.endAll src inner ts) ts =
        ((closeBlock src kind (trail.endAll src inner ts) ts).1, ts) ∧
      (closeBlock src kind (trail.endAll src inner ts) ts).1.endAll src outer ts =
        trail.endAll src (inner ++ kind :: outer) ts := by
  have hbrace : (src.peek ts).kind ≠ .rightBrace := by
    cases ts with
    | nil => simp [Source.endToken]
    | cons t ts => simp [hend t rfl]
  simp only [closeBlock, if_neg hbrace, Trail.endAll, add_add, List.map_append, List.map_cons,
    List.append_assoc, List.singleton_append, and_self]

/-- **Bodies nest.**  Reading with several blocks open is reading the body of one of them, with
those inside it, closing it, and going on with those around it. -/
theorem readFrom_inside (base : Body) (kind : BlockKind) (outer : List BlockKind) (trail : Trail)
    (inner : List BlockKind) (ts : List Token) :
    readFrom src base trail (inner ++ kind :: outer) ts =
      let inside := readFrom src kind.body trail inner ts
      let closed := closeBlock src kind inside.1 inside.2
      readFrom src base closed.1 outer closed.2 := by
  have hbody : kind.body ≠ .sheet := by cases kind <;> simp [BlockKind.body]
  induction trail, inner, ts using readFrom.induct src kind.body with
  | case1 trail inner =>
    obtain ⟨hclosed, hend⟩ := endAll_append src trail inner outer kind (by simp [AtEnd] : AtEnd [])
    rw [readFrom_nil, readFrom_nil, ← hend]
    dsimp only
    rw [hclosed, readFrom_nil]
  | case2 trail inner t ts he =>
    obtain ⟨hclosed, hend⟩ := endAll_append src trail inner outer kind
      (by simpa [AtEnd] using he : AtEnd (t :: ts))
    rw [readFrom_end _ _ _ _ _ he, readFrom_end _ _ _ _ _ he, ← hend]
    dsimp only
    rw [hclosed, readFrom_end _ _ _ _ _ he]
  | case3 trail t ts he hb k inner _ ih =>
    rw [List.cons_append, readFrom_close _ _ _ _ _ _ hb, readFrom_close _ _ _ _ _ _ hb]
    exact ih
  | case4 trail t ts he hb hbase ih => exact absurd hbase hbody
  | case5 trail t ts he hb hbase =>
    rw [List.nil_append, readFrom_close _ _ _ _ _ _ hb, readFrom_leave _ _ _ _ hb hbody]
    simp [closeBlock, hb]
  | case6 trail inner t ts he hb item ih =>
    have hinnermost : innermost base (inner ++ kind :: outer) = innermost kind.body inner := by
      cases inner <;> rfl
    rw [readFrom_item _ _ _ _ _ he hb, readFrom_item _ _ _ _ _ he hb, hinnermost,
      ← List.append_assoc]
    exact ih

theorem closeBlock_ahead (kind : BlockKind) (trail : Trail) (ts : List Token) :
    Ahead ts (closeBlock src kind trail ts).2 := by
  unfold closeBlock
  dsimp only
  split
  · rename_i hbrace
    exact ahead_tail_of_peek src (by simp [hbrace])
  · exact .refl ts

theorem afterItem_ahead (trail : Trail) (item : Item) :
    Ahead item.rest (afterItem src trail item).2 := by
  unfold afterItem
  dsimp only
  split
  · exact .refl _
  · exact (readFrom_ahead src _ _ [] item.rest).trans (closeBlock_ahead src _ _ _)

/-- An item that is read with the block it opens is at least one token. -/
theorem length_afterItem_lt (body : Body) (trail : Trail) {t : Token} (ts : List Token)
    (he : t.kind ≠ .eof) (hb : t.kind ≠ .rightBrace) :
    (afterItem src trail (readItem src body t ts)).2.length < (t :: ts).length :=
  Nat.lt_of_le_of_lt (afterItem_ahead src trail _).suffix.length_le
    (length_readItem_lt src body ts he hb)

/-- Reading on behind an item is reading on behind the block that it opens. -/
theorem readFrom_afterItem (body : Body) (trail : Trail) (item : Item) :
    readFrom src body (trail.add item.events item.faults) item.opened.toList item.rest =
      readFrom src body (afterItem src trail item).1 [] (afterItem src trail item).2 := by
  unfold afterItem
  cases item.opened with
  | none => rfl
  | some kind => exact readFrom_inside src body kind [] _ [] item.rest

/-- The items of a body are read one after another. -/
theorem readFrom_runs (body : Body) (trail : Trail) (ts : List Token) :
    Runs (bodyLoop src body) trail ts (readFrom src body trail [] ts).1
      (readFrom src body trail [] ts).2 := by
  match ts with
  | [] =>
    rw [readFrom_nil, endAll_nil]
    exact .leave rfl
  | t :: ts =>
    by_cases he : t.kind = .eof
    · rw [readFrom_end _ _ _ _ _ he, endAll_nil]
      exact .leave (by simp [bodyLoop, he])
    by_cases hb : t.kind = .rightBrace
    · by_cases hbody : body = .sheet
      · subst hbody
        rw [readFrom_stray _ _ _ hb]
        exact .goOn (by simp [bodyLoop, hb]) (readFrom_runs .sheet _ ts)
      · rw [readFrom_leave _ _ _ _ hb hbody]
        exact .leave (by simp [bodyLoop, hb, hbody])
    have hshorter := length_afterItem_lt src body trail ts he hb
    rw [readFrom_item _ _ _ _ _ he hb, List.append_nil]
    simp only [innermost]
    rw [readFrom_afterItem]
    exact .goOn (by simp [bodyLoop, he, hb]) (readFrom_runs body _ _)
termination_by ts.length
decreasing_by
  · exact Nat.lt_succ_self _
  · exact hshorter

end Bodies
end SheetLint
