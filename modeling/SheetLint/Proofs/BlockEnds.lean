import SheetLint.Proofs.Braces
import SheetLint.Proofs.Nesting
import SheetLint.Proofs.TokenOrder

/-! # Where blocks end

Every end in the events of a stylesheet goes with the innermost block that is open there
(`blockPairs`).  A block that does not run to the end of the source ends at a `}`.  That brace
is never behind the partner of the brace that opened the block, and it is the partner itself
unless a group inside the block takes in a brace (`blockEnds_partner`): a group takes a `{` for
an ordinary token and stops in front of a `}`, so that the block ends one brace too early
(`blockEnd_inside_group`).

While a stylesheet is read, each open block knows the tokens read since its brace.  How many
braces they leave open depends on how many blocks have been opened inside it since
(`IsOpen`), and every step of a reading keeps this (`IsOpen.advance`).
-/
namespace SheetLint

/-! ### Pairs of events -/

/-- The starts and ends of blocks that go together: an end goes with the innermost block
that is open.  The blocks of `opens` are open already, innermost first. -/
def blockPairs : List Event → List Event → List (Event × Event)
  | _, [] => []
  | opens, .startBlock kind header position :: es =>
    blockPairs (.startBlock kind header position :: opens) es
  | start :: outer, .endBlock kind header position :: es =>
    (start, .endBlock kind header position) :: blockPairs outer es
  | opens, _ :: es => blockPairs opens es

theorem mem_of_mem_blockPairs {opens es : List Event} {pair : Event × Event}
    (h : pair ∈ blockPairs opens es) : pair.2 ∈ es := by
  fun_induction blockPairs opens es with
  | case1 => cases h
  | case2 _ _ _ _ _ ih => exact List.mem_cons_of_mem _ (ih h)
  | case3 _ _ _ _ _ _ ih =>
    rcases List.mem_cons.mp h with rfl | h
    · exact List.mem_cons_self
    · exact List.mem_cons_of_mem _ (ih h)
  | case4 _ _ _ _ _ ih => exact List.mem_cons_of_mem _ (ih h)

/-! ### What an item uses up -/

/-- A group among the tokens takes in a brace that opens a block, where `follow` stands behind
the tokens. -/
def GroupTakesBrace (ts follow : List Token) : Prop :=
  ∃ t more, t :: more <:+ ts ∧ t.kind.opensGroup = true ∧
    ∃ brace ∈ (splitGroup 1 (more ++ follow)).1, brace.kind = .leftBrace

section Groups
variable {ts us follow : List Token}

theorem GroupTakesBrace.prepend (front : List Token) (h : GroupTakesBrace ts follow) :
    GroupTakesBrace (front ++ ts) follow := by
  obtain ⟨t, more, hsuffix, hgroup, hbrace⟩ := h
  exact ⟨t, more, hsuffix.trans (List.suffix_append front ts), hgroup, hbrace⟩

theorem GroupTakesBrace.extend (h : GroupTakesBrace ts (us ++ follow)) :
    GroupTakesBrace (ts ++ us) follow := by
  obtain ⟨t, more, ⟨front, hfront⟩, hgroup, hbrace⟩ := h
  refine ⟨t, more ++ us, ⟨front, ?_⟩, hgroup, ?_⟩
  · rw [← hfront, List.append_assoc, List.cons_append]
  · rwa [List.append_assoc]

/-- A group ends in front of a `}`. -/
theorem ne_rightBrace_of_mem_splitGroup {depth : Nat} {t : Token}
    (h : t ∈ (splitGroup depth ts).1) : t.kind ≠ .rightBrace := by
  induction ts generalizing depth with
  | nil => cases h
  | cons u ts ih =>
    by_cases hstop : u.kind.stopsGroup = true
    · rw [splitGroup_stop hstop] at h
      cases h
    · obtain ⟨hs, hr, he⟩ := TokenKind.stopsGroup_eq_false_iff.mp (by simpa using hstop)
      rcases splitGroup_cons u hs hr he depth with ⟨-, hsplit⟩ | ⟨n, hsplit⟩
      · rw [hsplit, List.mem_singleton] at h
        exact h ▸ hr
      · rw [hsplit] at h
        rcases List.mem_cons.mp h with rfl | h
        · exact hr
        · exact ih h

/-- A `}` behind the tokens stops a group as the end of the tokens does. -/
theorem splitGroup_rightBrace {close : Token} (hclose : close.kind = .rightBrace) (depth : Nat)
    (ts follow : List Token) :
    (splitGroup depth (ts ++ close :: follow)).1 = (splitGroup depth ts).1 := by
  induction ts generalizing depth with
  | nil => simp [splitGroup, hclose]
  | cons u ts ih =>
    rw [List.cons_append]
    by_cases hstop : u.kind.stopsGroup = true
    · rw [splitGroup_stop hstop, splitGroup_stop hstop]
    · obtain ⟨hs, hr, he⟩ := TokenKind.stopsGroup_eq_false_iff.mp (by simpa using hstop)
      rcases splitGroup_cons u hs hr he depth with ⟨-, hsplit⟩ | ⟨n, hsplit⟩
      · rw [hsplit, hsplit]
      · rw [hsplit, hsplit, consFirst, consFirst, ih]

theorem GroupTakesBrace.close {close : Token} (hclose : close.kind = .rightBrace)
    (h : GroupTakesBrace ts (close :: follow)) : GroupTakesBrace ts [] := by
  obtain ⟨t, more, hsuffix, hgroup, hbrace⟩ := h
  rw [splitGroup_rightBrace hclose] at hbrace
  exact ⟨t, more, hsuffix, hgroup, by rwa [List.append_nil]⟩

/-- Tokens that close no brace leave open what they open. -/
theorem depthBehind_opening (h : ∀ t ∈ ts, t.kind ≠ .rightBrace) :
    ∃ depth, depthBehind 0 ts = some depth ∧
      (depth = 0 ∨ ∃ brace ∈ ts, brace.kind = .leftBrace) := by
  induction ts with
  | nil => exact ⟨0, rfl, .inl rfl⟩
  | cons t ts ih =>
    obtain ⟨depth, hdepth, hcase⟩ := ih fun u hu => h u (List.mem_cons_of_mem t hu)
    by_cases hl : t.kind = .leftBrace
    · refine ⟨depth + 1, ?_, .inr ⟨t, List.mem_cons_self, hl⟩⟩
      rw [depthBehind_leftBrace hl]
      simpa using depthBehind_add hdepth 1
    · refine ⟨depth, ?_, hcase.imp_right ?_⟩
      · rw [depthBehind_other hl (h t List.mem_cons_self), hdepth]
      · rintro ⟨brace, hmem, hbrace⟩
        exact ⟨brace, List.mem_cons_of_mem t hmem, hbrace⟩

end Groups

/-- The tokens close the braces they open and no others, unless a group takes in a brace or
the source ends behind them. -/
def Levels (used rest : List Token) : Prop :=
  ∃ depth, depthBehind 0 used = some depth ∧
    (depth = 0 ∨ GroupTakesBrace used rest ∨ AtEnd rest)

section Levels
variable {used rest : List Token}

theorem Plain.levels (h : Plain used) : Levels used rest :=
  ⟨0, depthBehind_plain h 0, .inl rfl⟩

theorem Levels.prepend {front : List Token} (hfront : Plain front) (h : Levels used rest) :
    Levels (front ++ used) rest := by
  obtain ⟨depth, hdepth, hcase⟩ := h
  refine ⟨depth, ?_, hcase.imp_right (Or.imp_left (·.prepend front))⟩
  rw [depthBehind_append, depthBehind_plain hfront]
  exact hdepth

theorem levels_semicolon {t : Token} (h : t.kind = .semicolon) : Levels [t] rest := by
  refine ⟨0, ?_, .inl rfl⟩
  rw [depthBehind_other (by simp [h]) (by simp [h])]
  rfl

/-- A skipped statement closes what it opens. -/
theorem Skipped.levels (h : Skipped used rest) : Levels used rest := by
  cases h with
  | semicolon hts ht => exact (levels_semicolon ht).prepend hts
  | @block ts inner _ brace close hts hbrace hinner hend hclose =>
    refine Levels.prepend hts ⟨0, ?_, .inl rfl⟩
    have hblock := depthBehind_add (braceBalanced_iff.mp hinner) 1
    rw [depthBehind_leftBrace hbrace, depthBehind_append, hblock, Option.bind_some,
      depthBehind_rightBrace hclose]
    rfl
  | @openBlock ts inner _ brace hts hbrace hinner hend hfollow =>
    obtain ⟨depth, hdepth⟩ := exists_depthBehind hinner
    refine Levels.prepend hts ⟨depth + 1, ?_, .inr (.inr hfollow)⟩
    rw [depthBehind_leftBrace hbrace]
    exact depthBehind_add hdepth 1
  | stopped hts hfollow => exact hts.levels

/-- The parts of a value close no brace, and open none outside groups. -/
theorem readParts_used (src : Source) (scan : ValueScan) (ts : List Token) :
    ∃ used depth, ts = used ++ (readParts src scan ts).2 ∧ depthBehind 0 used = some depth ∧
      (depth = 0 ∨ GroupTakesBrace used (readParts src scan ts).2) := by
  refine readParts_rec (P := fun _ ts out => ∃ used depth, ts = used ++ out.2 ∧
    depthBehind 0 used = some depth ∧ (depth = 0 ∨ GroupTakesBrace used out.2))
    ?nil ?stop ?important ?bang ?group ?single scan ts
  case nil =>
    intro scan
    exact ⟨[], 0, rfl, rfl, .inl rfl⟩
  case stop =>
    intro scan t ts _
    exact ⟨[], 0, rfl, rfl, .inl rfl⟩
  case important =>
    rintro scan t ts out ht hword ⟨used, depth, hts, hdepth, hcase⟩
    obtain ⟨word, more, rfl, hident, -⟩ := exists_of_atImportant hword
    rw [List.tail_cons] at hts
    refine ⟨t :: word :: used, depth, by rw [hts]; rfl, ?_, ?_⟩
    · rw [depthBehind_other (by simp [ht]) (by simp [ht]),
        depthBehind_other (by simp [hident]) (by simp [hident]), hdepth]
    · exact hcase.imp_right (·.prepend [t, word])
  case bang =>
    rintro scan t ts out ht - ⟨used, depth, rfl, hdepth, hcase⟩
    refine ⟨t :: used, depth, rfl, ?_, hcase.imp_right (·.prepend [t])⟩
    rw [depthBehind_other (by simp [ht]) (by simp [ht]), hdepth]
  case group =>
    rintro scan t ts out ht ⟨used, depth, hts, hdepth, hcase⟩
    have hsplit : ts = (splitGroup 1 ts).1 ++ (used ++ out.2) := by
      rw [← hts, splitGroup_append]
    have hinside : ∀ u ∈ (splitGroup 1 ts).1, u.kind ≠ .rightBrace :=
      fun u hu => ne_rightBrace_of_mem_splitGroup hu
    obtain ⟨opened, hopened, hgroup⟩ := depthBehind_opening hinside
    have hplain : t.kind ≠ .leftBrace ∧ t.kind ≠ .rightBrace := by
      revert ht
      cases t.kind <;> simp [TokenKind.opensGroup]
    refine ⟨t :: ((splitGroup 1 ts).1 ++ used), depth + opened, ?_, ?_, ?_⟩
    · rw [List.cons_append, List.append_assoc, ← hsplit]
    · rw [depthBehind_other hplain.1 hplain.2, depthBehind_append, hopened, Option.bind_some]
      simpa using depthBehind_add hdepth opened
    · rcases hgroup with rfl | hbrace
      · rcases hcase with rfl | hcase
        · exact .inl rfl
        · exact .inr (hcase.prepend (t :: (splitGroup 1 ts).1))
      · refine .inr ⟨t, (splitGroup 1 ts).1 ++ used, List.suffix_rfl, ht, ?_⟩
        rwa [List.append_assoc, ← hsplit]
  case single =>
    rintro scan t ts out ht - - ⟨used, depth, rfl, hdepth, hcase⟩
    refine ⟨t :: used, depth, rfl, ?_, hcase.imp_right (·.prepend [t])⟩
    rw [depthBehind_other (ne_of_plain ht rfl) (ne_of_plain ht rfl), hdepth]

end Levels

/-- What an item whose events stand at `position` uses up of the tokens: either they open no
block, or they are the header of the block that the item opens, and its brace. -/
inductive ItemUse (position : Position) (ts : List Token) (item : Item) : Prop where
  | level (used : List Token) (hts : ts = used ++ item.rest) (hused : Levels used item.rest)
      (hopened : item.opened = none)
  | opens (header : List Token) {brace : Token} {kind : BlockKind} {text : String}
      (hts : ts = header ++ brace :: item.rest) (hheader : Plain header)
      (hbrace : brace.kind = .leftBrace) (hopened : item.opened = some kind)
      (hevents : item.events = [.startBlock kind text position])

section Items
variable (src : Source) {position : Position} {ts : List Token} {item : Item}

theorem ItemUse.prepend {front : List Token} (hfront : Plain front)
    (h : ItemUse position ts item) : ItemUse position (front ++ ts) item := by
  cases h with
  | level used hts hused hopened =>
    exact .level (front ++ used) (by rw [hts, List.append_assoc]) (hused.prepend hfront) hopened
  | opens header hts hheader hbrace hopened hevents =>
    refine .opens (front ++ header) (by rw [hts, List.append_assoc]) ?_ hbrace hopened hevents
    intro t ht
    rcases List.mem_append.mp ht with ht | ht
    · exact hfront t ht
    · exact hheader t ht

theorem eatSemicolon_used (ts : List Token) :
    ∃ used, ts = used ++ eatSemicolon ts ∧ Levels used (eatSemicolon ts) := by
  cases ts with
  | nil => exact ⟨[], rfl, plain_nil.levels⟩
  | cons t ts =>
    rw [eatSemicolon]
    split
    · rename_i ht
      exact ⟨[t], rfl, levels_semicolon ht⟩
    · exact ⟨[], rfl, plain_nil.levels⟩

theorem skip_use (events : List Event) (faults : List Fault) (ts : List Token) :
    ItemUse position ts { events := events, faults := faults, rest := skipDeclaration ts } := by
  obtain ⟨used, hts, hused⟩ := skipDeclaration_skipped ts
  exact .level used hts hused.levels rfl

theorem openBlock_use (kind : BlockKind) (text : String) (position : Position)
    (ts : List Token) : ItemUse position ts (openBlock src kind text position ts) := by
  unfold openBlock
  split
  · rename_i hbrace
    cases ts with
    | nil => simp [Source.endToken] at hbrace
    | cons t ts => exact .opens [] rfl plain_nil hbrace rfl rfl
  · obtain ⟨used, hts, hused⟩ := eatSemicolon_used ts
    exact .level used hts hused rfl

theorem readBlock_use (kind : BlockKind) (position : Position) (ts : List Token) :
    ItemUse position ts (readBlock src kind position ts) := by
  have hopen := openBlock_use src kind (src.textOf (headerTokens ts)) position (afterHeader ts)
  have hblock := hopen.prepend (plain_headerTokens ts)
  rwa [headerTokens_append_afterHeader] at hblock

theorem readImport_use (position : Position) (ts : List Token) :
    ItemUse position ts (readImport src position ts) := by
  cases htarget : src.importTarget? (src.peek ts) with
  | none =>
    rw [readImport_noTarget position htarget]
    exact skip_use [] _ ts
  | some uri =>
    cases ts with
    | nil => simp [Source.importTarget?, Source.endToken] at htarget
    | cons target ts =>
      rw [Source.peek_cons] at htarget
      rw [readImport_target position htarget]
      obtain ⟨used, hts, hused⟩ := eatSemicolon_used (afterHeader ts)
      have hplain : Plain (target :: headerTokens ts) :=
        (plain_headerTokens ts).cons (endsHeader_of_importTarget? htarget)
      refine .level (target :: headerTokens ts ++ used) ?_ (hused.prepend hplain) rfl
      rw [List.append_assoc, ← hts, List.cons_append, headerTokens_append_afterHeader]

theorem readAtRule_use (t : Token) (ts : List Token) :
    ItemUse (src.place t) ts (readAtRule src t ts) := by
  unfold readAtRule
  dsimp only
  split
  · exact readImport_use src _ ts
  · exact skip_use [] [] ts
  · exact readBlock_use src _ _ ts
  · exact skip_use [] _ ts

/-- The value of a declaration and what ends it. -/
theorem readNamed_use (starred : Bool) (at' : Position) (t : Token) (ts : List Token) :
    ItemUse position ts (readNamed src starred at' t ts) := by
  by_cases hcolon : (src.peek ts).kind = .colon
  · cases ts with
    | nil => simp [Source.endToken] at hcolon
    | cons colon ts =>
      rw [Source.peek_cons] at hcolon
      have hplain : Plain [colon] := plain_nil.cons (by rw [hcolon]; rfl)
      obtain ⟨value, depth, hts, hdepth, hcase⟩ := readParts_used src {} ts
      cases hparts : readParts src {} ts with
      | mk scan rest =>
        simp only [hparts] at hts hcase
        -- what ends the declaration closes what it opens, so the value decides
        have hend {tail left : List Token} (hrest : rest = tail ++ left)
            (htail : Levels tail left) : Levels ([colon] ++ (value ++ tail)) left := by
          obtain ⟨more, hmore, hmoreCase⟩ := htail
          refine Levels.prepend hplain ⟨more + depth, ?_, ?_⟩
          · rw [depthBehind_append, hdepth, Option.bind_some]
            simpa using depthBehind_add hmore depth
          · rcases hcase with rfl | hcase
            · exact hmoreCase.imp_right (Or.imp_left (·.prepend value))
            · rw [hrest] at hcase
              exact .inr (.inl hcase.extend)
        have htokens {tail left : List Token} (hrest : rest = tail ++ left) :
            colon :: ts = [colon] ++ (value ++ tail) ++ left := by
          rw [hts, hrest]
          simp
        by_cases hbrace : (src.peek rest).kind = .leftBrace
        · rw [readNamed_block starred at' t hcolon hparts hbrace]
          obtain ⟨brace, rest, rfl⟩ : ∃ brace more, rest = brace :: more := by
            cases rest with
            | nil => simp [Source.endToken] at hbrace
            | cons brace more => exact ⟨brace, more, rfl⟩
          rw [Source.peek_cons] at hbrace
          obtain ⟨tail, hrest, htail⟩ := skipDeclaration_skipped (brace :: rest)
          have hskip : skipDeclaration (brace :: rest) = skipBlock 0 (brace :: rest) := by
            simp [skipDeclaration, hbrace]
          rw [hskip] at hrest htail
          exact .level _ (htokens hrest) (hend hrest htail.levels) rfl
        · obtain ⟨tail, hrest, htail⟩ := eatSemicolon_used rest
          by_cases hempty : scan.parts = []
          · rw [readNamed_empty starred at' t hcolon hparts hbrace hempty]
            exact .level _ (htokens hrest) (hend hrest htail) rfl
          · rw [readNamed_value starred at' t hcolon hparts hbrace hempty]
            exact .level _ (htokens hrest) (hend hrest htail) rfl
  · rw [readNamed_noColon starred at' t hcolon]
    exact skip_use [] _ ts

theorem readStarred_use (at' : Position) (ts : List Token) :
    ItemUse position ts (readStarred src at' ts) := by
  unfold readStarred
  split
  · rename_i t ts
    split
    · rename_i ht
      exact (readNamed_use src true at' t ts).prepend (plain_nil.cons (by rw [ht]; rfl))
    · exact skip_use [] _ (t :: ts)
  · exact .level [] rfl plain_nil.levels rfl

theorem readDeclaration_use (margins : Bool) (t : Token) (ts : List Token) :
    ItemUse (src.place t) (t :: ts) (readDeclaration src margins t ts) := by
  have hplain (h : t.kind.endsHeader = false) : Plain [t] := plain_nil.cons h
  unfold readDeclaration
  dsimp only
  split
  · rename_i ht
    exact .level [t] rfl (levels_semicolon ht) rfl
  · rename_i ht
    split
    · exact (openBlock_use src _ _ _ ts).prepend (hplain (by rw [ht]; rfl))
    · exact (skip_use [] _ ts).prepend (hplain (by rw [ht]; rfl))
  · rename_i ht
    exact (readNamed_use src false _ t ts).prepend (hplain (by rw [ht]; rfl))
  · rename_i ht
    exact (readStarred_use src _ ts).prepend (hplain (by rw [ht]; rfl))
  · exact skip_use [] _ (t :: ts)

/-- Every item uses up tokens that open no block but its own. -/
theorem readItem_use (body : Body) (t : Token) (ts : List Token) :
    ItemUse (src.place t) (t :: ts) (readItem src body t ts) := by
  have hrules : ItemUse (src.place t) (t :: ts) (readItem src .rules t ts) := by
    unfold readItem
    dsimp only
    split
    · rename_i ht
      exact .level [t] rfl (levels_semicolon ht) rfl
    · rename_i ht
      exact (readAtRule_use src t ts).prepend (plain_nil.cons (by rw [ht]; rfl))
    · exact readBlock_use src _ _ (t :: ts)
  cases body with
  | sheet | rules => exact hrules
  | keyframes =>
    unfold readItem
    dsimp only
    split
    · rename_i ht
      exact .level [t] rfl (levels_semicolon ht) rfl
    · exact readBlock_use src _ _ (t :: ts)
  | page => exact readDeclaration_use src true t ts
  | declarations => exact readDeclaration_use src false t ts

end Items

/-! ### Open blocks -/

/-- A block that has been started, and the tokens read since its brace. -/
structure OpenBlock where
  start : Event
  since : List Token

/-- The block once more tokens have been read. -/
def OpenBlock.advance (used : List Token) (block : OpenBlock) : OpenBlock :=
  { block with since := block.since ++ used }

section Open
variable (src : Source) (tokens : List Token)

/-- A block that starts at `position` has its header and its brace in the tokens, and `behind`
stands behind the brace. -/
def StartsAt (position : Position) (behind : List Token) : Prop :=
  ∃ before header brace, tokens = before ++ (header ++ brace :: behind) ∧ Plain header ∧
    brace.kind = .leftBrace ∧ (header ++ [brace]).head?.map src.place = some position

/-- A block is open in front of `rest` and `above` blocks have been opened in it since that
are open still: as many braces are open, unless a group has taken in a brace. -/
structure IsOpen (rest : List Token) (above : Nat) (block : OpenBlock) : Prop where
  startsAt : StartsAt src tokens block.start.position (block.since ++ rest)
  depth : ∃ depth, depthBehind 0 block.since = some depth ∧ above ≤ depth ∧
    (depth = above ∨ GroupTakesBrace block.since rest ∨ AtEnd rest)

/-- The blocks are open, innermost first, with `above` blocks inside the first of them. -/
inductive AllOpen (rest : List Token) : Nat → List OpenBlock → Prop where
  | nil {above : Nat} : AllOpen rest above []
  | cons {above : Nat} {block : OpenBlock} {outer : List OpenBlock}
      (h : IsOpen src tokens rest above block) (houter : AllOpen rest (above + 1) outer) :
      AllOpen rest above (block :: outer)

variable {src tokens} {used rest : List Token} (above next : Nat) {extra : Nat}

/-- Reading tokens that change the number of open braces changes it for each open block. -/
theorem IsOpen.advance {block : OpenBlock} {inside : Nat}
    (h : IsOpen src tokens (used ++ rest) (above + inside) block)
    (hend : ¬ AtEnd (used ++ rest)) (hused : depthBehind above used = some (next + extra))
    (hextra : extra = 0 ∨ GroupTakesBrace used rest ∨ AtEnd rest) :
    IsOpen src tokens rest (next + inside) (block.advance used) := by
  obtain ⟨hstarts, depth, hdepth, hle, hcase⟩ := h
  obtain ⟨more, rfl⟩ := Nat.exists_eq_add_of_le hle
  refine ⟨?_, next + extra + (inside + more), ?_, by omega, ?_⟩
  · rw [OpenBlock.advance, List.append_assoc]
    exact hstarts
  · rw [OpenBlock.advance, depthBehind_append, hdepth, Option.bind_some, Nat.add_assoc]
    exact depthBehind_add hused (inside + more)
  · rcases hcase with hmore | hcase | hcase
    · rcases hextra with hextra | hextra | hextra
      · exact .inl (by omega)
      · exact .inr (.inl (hextra.prepend block.since))
      · exact .inr (.inr hextra)
    · exact .inr (.inl hcase.extend)
    · exact absurd hcase hend

theorem AllOpen.advance (inside : Nat) {blocks : List OpenBlock}
    (h : AllOpen src tokens (used ++ rest) (above + inside) blocks)
    (hend : ¬ AtEnd (used ++ rest)) (hused : depthBehind above used = some (next + extra))
    (hextra : extra = 0 ∨ GroupTakesBrace used rest ∨ AtEnd rest) :
    AllOpen src tokens rest (next + inside) (blocks.map (OpenBlock.advance used)) := by
  induction blocks generalizing inside with
  | nil => exact .nil
  | cons block outer ih =>
    cases h with
    | cons hblock houter =>
      exact .cons (hblock.advance above next hend hused hextra) (ih (inside + 1) houter)

theorem map_start_advance (used : List Token) (blocks : List OpenBlock) :
    (blocks.map (OpenBlock.advance used)).map OpenBlock.start = blocks.map OpenBlock.start := by
  rw [List.map_map]
  rfl

variable (src tokens)

/-- `inner` stands between the braces of a block that starts at `start` and ends at `stop`. -/
def Encloses (start stop : Position) (inner : List Token) : Prop :=
  ∃ close behind, StartsAt src tokens start (inner ++ close :: behind) ∧
    close.kind = .rightBrace ∧ src.place close = stop

/-- Where the block of a pair of events ends: at a brace that is not behind the partner of the
brace that opened it, and is the partner unless a group takes in a brace; or with the source. -/
inductive EndsRightly (pair : Event × Event) : Prop where
  | brace {inner : List Token} {depth : Nat}
      (hinner : Encloses src tokens pair.1.position pair.2.position inner)
      (hdepth : depthBehind 0 inner = some depth)
      (hcase : depth = 0 ∨ GroupTakesBrace inner [])
  | atEnd {rest : List Token} (hrest : rest <:+ tokens) (hend : AtEnd rest)
      (hposition : pair.2.position = src.place (src.peek rest))

variable {src tokens}

/-- The block that is closed by a `}`. -/
theorem IsOpen.close {block : OpenBlock} {t : Token} {ts : List Token}
    (h : IsOpen src tokens (t :: ts) 0 block) (ht : t.kind = .rightBrace) (kind : BlockKind)
    (header : String) :
    EndsRightly src tokens (block.start, .endBlock kind header (src.place t)) := by
  obtain ⟨hstarts, depth, hdepth, -, hcase⟩ := h
  refine .brace ⟨t, ts, hstarts, ht, rfl⟩ hdepth ?_
  rcases hcase with hcase | hcase | hcase
  · exact .inl hcase
  · exact .inr (hcase.close ht)
  · have he := hcase t rfl
    rw [ht] at he
    cases he

/-- An item that opens no block does not touch the pairs. -/
theorem blockPairs_level {body : Body} {item : Item} (hshape : ItemShape body item)
    (hopened : item.opened = none) (opens es : List Event) :
    blockPairs opens (item.events ++ es) = blockPairs opens es := by
  cases hshape with
  | silent hevents _ => rw [hevents, List.nil_append]
  | importRule statement _ hevents _ =>
    rw [hevents]
    cases opens <;> rfl
  | declaration decl _ hevents _ =>
    rw [hevents]
    cases opens <;> rfl
  | block kind header start _ _ hkind =>
    rw [hopened] at hkind
    cases hkind

/-- The pairs of a reading end rightly, if the blocks open in front of it are open in the
tokens. -/
theorem sheetFrom_endsRightly (nest : List BlockKind) {ts : List Token} (hts : ts <:+ tokens)
    {blocks : List OpenBlock} (hlength : blocks.length = nest.length)
    (hopen : AllOpen src tokens ts 0 blocks) :
    ∀ pair ∈ blockPairs (blocks.map OpenBlock.start) (sheetFrom src .sheet nest ts).events,
      EndsRightly src tokens pair := by
  revert hts blocks
  refine sheetFrom_rec (P := fun nest ts sheet => ts <:+ tokens → ∀ {blocks : List OpenBlock},
    blocks.length = nest.length → AllOpen src tokens ts 0 blocks →
    ∀ pair ∈ blockPairs (blocks.map OpenBlock.start) sheet.events, EndsRightly src tokens pair)
    ?atEnd ?close ?stray ?leave ?item nest ts
  case atEnd =>
    intro nest ts hend hts blocks _ _ pair hpair
    obtain ⟨kind, -, hstop⟩ := List.mem_map.mp (mem_of_mem_blockPairs hpair)
    exact .atEnd hts hend (by rw [← hstop]; rfl)
  case close =>
    intro kind outer t ts sheet ht ih hts blocks hlength hopen pair hpair
    have hsuffix : ts <:+ tokens := (List.suffix_cons t ts).trans hts
    cases hopen with
    | nil => cases hlength
    | @cons _ block blocks hblock houter =>
      rcases List.mem_cons.mp hpair with rfl | hpair
      · exact hblock.close ht kind ""
      · have hnotEnd : ¬ AtEnd ([t] ++ ts) := fun hend => by
          have he := hend t rfl
          rw [ht] at he
          cases he
        have hrest : AllOpen src tokens ts 0 (blocks.map (OpenBlock.advance [t])) :=
          houter.advance 1 0 0 hnotEnd (depthBehind_rightBrace ht 0) (.inl rfl)
        refine ih hsuffix (by simpa using hlength) hrest pair ?_
        rwa [map_start_advance]
  case stray =>
    intro _ t ts sheet ht ih hts blocks hlength hopen pair hpair
    obtain rfl : blocks = [] := List.length_eq_zero_iff.mp hlength
    exact ih ((List.suffix_cons t ts).trans hts) rfl .nil pair hpair
  case leave =>
    intro hbase
    exact absurd rfl hbase
  case item =>
    intro nest t ts sheet he hb ih hts blocks hlength hopen pair hpair
    have hnotEnd : ¬ AtEnd (t :: ts) := fun hend => he (hend t rfl)
    have hshape := readItem_shape src (innermost .sheet nest) t ts
    cases readItem_use src (innermost .sheet nest) t ts with
    | level used huse hused hopened =>
      obtain ⟨depth, hdepth, hcase⟩ := hused
      rw [huse] at hts hopen hnotEnd
      have hrest := hopen.advance 0 0 0 hnotEnd (by simpa using hdepth) hcase
      refine ih ((List.suffix_append used _).trans hts) ?_ hrest pair ?_
      · rw [hopened, List.length_map]
        exact hlength
      · rw [map_start_advance]
        rw [Stylesheet.events_append, Item.sheet, blockPairs_level hshape hopened] at hpair
        exact hpair
    | @opens header brace kind text huse hheader hbrace hopened hevents =>
      have hused : depthBehind 0 (header ++ [brace]) = some 1 := by
        rw [depthBehind_append, depthBehind_plain hheader, Option.bind_some,
          depthBehind_leftBrace hbrace]
        rfl
      have hfirst : (header ++ [brace]).head?.map src.place = some (src.place t) := by
        cases header with
        | nil => rw [(List.cons.inj huse).1]; rfl
        | cons first header => rw [(List.cons.inj huse).1]; rfl
      have hstart : IsOpen src tokens (readItem src (innermost .sheet nest) t ts).rest 0
          ⟨.startBlock kind text (src.place t), []⟩ := by
        obtain ⟨before, hbefore⟩ := hts
        refine ⟨⟨before, header, brace, ?_, hheader, hbrace, hfirst⟩, 0, rfl, Nat.le_refl 0,
          .inl rfl⟩
        rw [← hbefore, huse]
        rfl
      have huse' : t :: ts = (header ++ [brace]) ++
          (readItem src (innermost .sheet nest) t ts).rest := by
        rw [huse, List.append_assoc]
        rfl
      rw [huse'] at hts hopen hnotEnd
      have hrest := hopen.advance 0 1 0 hnotEnd hused (.inl rfl)
      refine ih ((List.suffix_append _ _).trans hts) ?_ (.cons hstart hrest) pair ?_
      · rw [hopened]
        simpa using hlength
      · rw [List.map_cons, map_start_advance]
        rw [Stylesheet.events_append, Item.sheet, hevents] at hpair
        exact hpair

end Open

/-! ### Blocks of a source -/

section Sources
variable {src : Source}

theorem peek_of_atEnd {rest : List Token} (hrest : rest <:+ src.tokens) (hend : AtEnd rest) :
    src.peek rest = src.endToken := by
  cases rest with
  | nil => rfl
  | cons t ts =>
    obtain ⟨before, hbefore⟩ := hrest
    by_cases hts : ts = []
    · subst hts
      have hlast := src.getLast?_tokens
      rw [← hbefore, List.getLast?_concat] at hlast
      exact Option.some.inj hlast
    · -- the end of the source would stand in front of other tokens
      refine absurd (hend t rfl) (src.ne_eof_of_mem_dropLast_tokens ?_)
      rw [← hbefore, List.dropLast_append_of_ne_nil (List.cons_ne_nil t ts),
        List.dropLast_cons_of_ne_nil hts]
      exact List.mem_append_right _ List.mem_cons_self

/-- A place of a source is that of one token only. -/
theorem eq_of_place_eq {as bs as' bs' : List Token} {t t' : Token}
    (h : src.tokens = as ++ t :: bs) (h' : src.tokens = as' ++ t' :: bs')
    (hplace : src.place t = src.place t') : as = as' ∧ t = t' ∧ bs = bs' := by
  -- of two different tokens one stands behind the other, and so does its place
  have hbehind {xs ys : List Token} {u v : Token} (hsplit : src.tokens = xs ++ u :: ys)
      (hv : v ∈ ys) : src.place u ≠ src.place v := by
    have hordered := src.tokens_ordered
    rw [hsplit] at hordered
    have hbefore := (List.pairwise_cons.mp (List.pairwise_append.mp hordered).2.1).1 v hv
    intro heq
    rw [heq, Position.before_iff] at hbefore
    omega
  rcases List.append_eq_append_iff.mp (h.symm.trans h') with ⟨mid, rfl, hmid⟩ | ⟨mid, rfl, hmid⟩
  · cases mid with
    | nil =>
      obtain ⟨rfl, rfl⟩ := List.cons.inj hmid
      exact ⟨(List.append_nil as).symm, rfl, rfl⟩
    | cons u mid =>
      obtain ⟨rfl, rfl⟩ := List.cons.inj hmid
      exact absurd hplace (hbehind h (List.mem_append_right mid List.mem_cons_self))
  · cases mid with
    | nil =>
      obtain ⟨rfl, rfl⟩ := List.cons.inj hmid
      exact ⟨List.append_nil as', rfl, rfl⟩
    | cons u mid =>
      obtain ⟨rfl, rfl⟩ := List.cons.inj hmid
      exact absurd hplace.symm (hbehind h' (List.mem_append_right mid List.mem_cons_self))

/-- What stands behind the brace of a block is fixed by where the block starts. -/
theorem StartsAt.unique {position : Position} {behind behind' : List Token}
    (h : StartsAt src src.tokens position behind)
    (h' : StartsAt src src.tokens position behind') : behind = behind' := by
  have hfirst {header : List Token} {brace : Token}
      (hplace : (header ++ [brace]).head?.map src.place = some position) (behind : List Token) :
      ∃ first more, header ++ brace :: behind = first :: more ∧ src.place first = position := by
    cases header with
    | nil => exact ⟨brace, behind, rfl, by simpa using hplace⟩
    | cons first header => exact ⟨first, header ++ brace :: behind, rfl, by simpa using hplace⟩
  obtain ⟨before, header, brace, htokens, hheader, hbrace, hplace⟩ := h
  obtain ⟨before', header', brace', htokens', hheader', hbrace', hplace'⟩ := h'
  obtain ⟨first, more, hsplit, hposition⟩ := hfirst hplace behind
  obtain ⟨first', more', hsplit', hposition'⟩ := hfirst hplace' behind'
  have hsame := eq_of_place_eq (hsplit ▸ htokens) (hsplit' ▸ htokens')
    (hposition.trans hposition'.symm)
  -- both headers end with the same brace
  have hboth : header ++ brace :: behind = header' ++ brace' :: behind' := by
    rw [hsplit, hsplit', hsame.2.1, hsame.2.2]
  have hafter := congrArg afterHeader hboth
  rw [(header_plain hheader (by rw [hbrace]; rfl) behind).2,
    (header_plain hheader' (by rw [hbrace']; rfl) behind').2] at hafter
  exact (List.cons.inj hafter).2

/-- What stands between the braces of a block is fixed by where it starts and ends. -/
theorem Encloses.unique {start stop : Position} {inner inner' : List Token}
    (h : Encloses src src.tokens start stop inner)
    (h' : Encloses src src.tokens start stop inner') : inner = inner' := by
  obtain ⟨close, behind, hstarts, hclose, hplace⟩ := h
  obtain ⟨close', behind', hstarts', hclose', hplace'⟩ := h'
  have hboth := hstarts.unique hstarts'
  obtain ⟨before, header, brace, htokens, -⟩ := hstarts
  have hfront : src.tokens = (before ++ (header ++ brace :: inner)) ++ close :: behind := by
    simpa using htokens
  have hfront' : src.tokens = (before ++ (header ++ brace :: inner')) ++ close' :: behind' := by
    rw [hboth] at htokens
    simpa using htokens
  have hsame := (eq_of_place_eq hfront hfront' (hplace.trans hplace'.symm)).1
  simpa using hsame

end Sources

/-- **Blocks end at the partner of their brace.**  A block of a text that does not end with
the text ends at a `}`, and the tokens between its two braces close no brace that they do not
open.  They are balanced, so that the `}` is the partner of the `{`, unless a group among them
takes in a brace. -/
theorem blockEnds_partner (text : String) {start stop : Event}
    (hpair : (start, stop) ∈ blockPairs [] (Stylesheet.ofString text).events)
    (hstop : stop.position ≠ (Source.ofString text).place (Source.ofString text).endToken) :
    ∃ inner,
      Encloses (.ofString text) (Source.ofString text).tokens start.position stop.position
        inner ∧
      (∀ front, front <+: inner →
        countKind .rightBrace front ≤ countKind .leftBrace front) ∧
      (¬ GroupTakesBrace inner [] → BraceBalanced inner) := by
  have hends : EndsRightly (.ofString text) (Source.ofString text).tokens (start, stop) :=
    sheetFrom_endsRightly [] List.suffix_rfl rfl .nil _ hpair
  cases hends with
  | @brace inner depth hinner hdepth hcase =>
    refine ⟨inner, hinner, fun front hfront => ?_, fun hgroup => ?_⟩
    · simpa using (depthBehind_eq_some_iff.mp hdepth).1 front hfront
    · rw [braceBalanced_iff, hdepth, hcase.resolve_right hgroup]
  | atEnd hrest hend hposition =>
    rw [peek_of_atEnd hrest hend] at hposition
    exact absurd hposition hstop

/-- The outer block of a text with two blocks, the inner one behind a closed group. -/
theorem blockEnds_partner_media :
    let text := "@media (x){a{b:f(c)}}"
    let start : Event := .startBlock .media "(x)" ⟨1, 1⟩
    let stop : Event := .endBlock .media "" ⟨1, 21⟩
    (start, stop) ∈ blockPairs [] (Stylesheet.ofString text).events ∧
      ∃ inner, Encloses (.ofString text) (Source.ofString text).tokens start.position
        stop.position inner ∧ (¬ GroupTakesBrace inner [] → BraceBalanced inner) := by
  intro text start stop
  have hpair : (start, stop) ∈ blockPairs [] (Stylesheet.ofString text).events := by
    decide +kernel
  obtain ⟨inner, hinner, -, hbalanced⟩ := blockEnds_partner text hpair (by decide +kernel)
  exact ⟨hpair, inner, hinner, hbalanced⟩

/-- In `a{b:({})}` the group takes in the inner `{` and stops in front of the inner `}`, which
then ends the rule: the tokens between its braces are not balanced. -/
theorem blockEnd_inside_group :
    let text := "a{b:({})}"
    let start : Event := .startBlock .rule "a" ⟨1, 1⟩
    let stop : Event := .endBlock .rule "" ⟨1, 7⟩
    (start, stop) ∈ blockPairs [] (Stylesheet.ofString text).events ∧
      stop.position ≠ (Source.ofString text).place (Source.ofString text).endToken ∧
      ¬ ∃ inner, Encloses (.ofString text) (Source.ofString text).tokens start.position
        stop.position inner ∧ BraceBalanced inner := by
  intro text start stop
  refine ⟨by decide +kernel, by decide +kernel, ?_⟩
  rintro ⟨inner, hinner, hbalanced⟩
  let between : List Token :=
    [⟨.ident, ⟨2, 3⟩⟩, ⟨.colon, ⟨3, 4⟩⟩, ⟨.leftParen, ⟨4, 5⟩⟩, ⟨.leftBrace, ⟨5, 6⟩⟩]
  have hbetween : Encloses (.ofString text) (Source.ofString text).tokens start.position
      stop.position between := by
    refine ⟨⟨.rightBrace, ⟨6, 7⟩⟩, [⟨.rightParen, ⟨7, 8⟩⟩, ⟨.rightBrace, ⟨8, 9⟩⟩, ⟨.eof, ⟨9, 9⟩⟩],
      ⟨[], [⟨.ident, ⟨0, 1⟩⟩], ⟨.leftBrace, ⟨1, 2⟩⟩, ?_, plain_nil.cons rfl, rfl, ?_⟩, rfl, ?_⟩
    all_goals decide +kernel
  rw [hinner.unique hbetween, braceBalanced_iff] at hbalanced
  exact absurd hbalanced (by decide)

end SheetLint
