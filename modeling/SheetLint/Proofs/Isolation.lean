import Mathlib.Data.List.Infix
import SheetLint.Proofs.Reading
import SheetLint.Proofs.Steps

/-! # Faults stay in their statement

A chunk of tokens whose braces are balanced and which ends with a statement or a block is
read as if nothing followed it, and what follows it is read as if nothing stood in front of
it.  So nothing that is wrong inside such a chunk changes how the rest is read.

The blocks that the reader holds open are not the blocks that the braces open: a group in a
value takes a `{` for an ordinary token, and a `}` that closes nothing is passed over.  But
the reader never holds more blocks open than the braces do, since every `}` it passes
closes one of its own blocks if it has any.  `Settled depth ts` says what is left to the
braces: `ts` closes `depth` blocks and all blocks it opens itself, and ends with `;` or
`}`.  Each reader stays within such tokens and leaves tokens that settle all that is open
then (`StaysWithin`).
-/
namespace SheetLint

/-- The tokens close `depth` blocks that were opened in front of them and all blocks that
they open, and they end with `;` or `}`, if there are any. -/
inductive Settled : Nat → List Token → Prop where
  | nil : Settled 0 []
  | semicolon {depth : Nat} {t : Token} {ts : List Token} (h : t.kind = .semicolon)
      (hts : Settled depth ts) : Settled depth (t :: ts)
  | leftBrace {depth : Nat} {t : Token} {ts : List Token} (h : t.kind = .leftBrace)
      (hts : Settled (depth + 1) ts) : Settled depth (t :: ts)
  | rightBrace {depth : Nat} {t : Token} {ts : List Token} (h : t.kind = .rightBrace)
      (hts : Settled depth ts) : Settled (depth + 1) (t :: ts)
  | plain {depth : Nat} {t : Token} {ts : List Token} (h : t.kind.endsHeader = false)
      (hne : ts ≠ []) (hts : Settled depth ts) : Settled depth (t :: ts)

namespace Settled
variable {depth : Nat} {t : Token} {ts : List Token}

theorem of_semicolon (h : Settled depth (t :: ts)) (ht : t.kind = .semicolon) :
    Settled depth ts := by
  cases h with
  | semicolon _ hts => exact hts
  | leftBrace hk _ | rightBrace hk _ => rw [ht] at hk; cases hk
  | plain hk _ _ => rw [ht] at hk; cases hk

theorem of_leftBrace (h : Settled depth (t :: ts)) (ht : t.kind = .leftBrace) :
    Settled (depth + 1) ts := by
  cases h with
  | leftBrace _ hts => exact hts
  | semicolon hk _ | rightBrace hk _ => rw [ht] at hk; cases hk
  | plain hk _ _ => rw [ht] at hk; cases hk

theorem of_rightBrace (h : Settled depth (t :: ts)) (ht : t.kind = .rightBrace) :
    ∃ d, depth = d + 1 ∧ Settled d ts := by
  cases h with
  | rightBrace _ hts => exact ⟨_, rfl, hts⟩
  | semicolon hk _ | leftBrace hk _ => rw [ht] at hk; cases hk
  | plain hk _ _ => rw [ht] at hk; cases hk

theorem of_plain (h : Settled depth (t :: ts)) (ht : t.kind.endsHeader = false) :
    ts ≠ [] ∧ Settled depth ts := by
  cases h with
  | plain _ hne hts => exact ⟨hne, hts⟩
  | semicolon hk _ | leftBrace hk _ | rightBrace hk _ => rw [hk] at ht; cases ht

theorem ne_eof (h : Settled depth (t :: ts)) : t.kind ≠ .eof := by
  intro he
  cases h with
  | semicolon hk _ | leftBrace hk _ | rightBrace hk _ => rw [he] at hk; cases hk
  | plain hk _ _ => rw [he] at hk; cases hk

end Settled

/-- A token that ends no header is none of those that do. -/
theorem ne_of_plain {kind other : TokenKind} (h : kind.endsHeader = false)
    (hother : other.endsHeader = true) : kind ≠ other := by
  rintro rfl
  rw [h] at hother
  cases hother

/-- The tokens close at least `depth` blocks opened in front of them. -/
def Settles (depth : Nat) (ts : List Token) : Prop := ∃ d, depth ≤ d ∧ Settled d ts

/-! ### Skipping -/

section Skipping
variable {depth : Nat} {ts : List Token} (more : List Token)

theorem skipBlock_settled {blocks d : Nat} (hpos : 0 < blocks) (h : Settled depth ts)
    (hdepth : depth = d + blocks) :
    skipBlock blocks (ts ++ more) = skipBlock blocks ts ++ more ∧
      Settled d (skipBlock blocks ts) := by
  induction h generalizing blocks with
  | nil => omega
  | @semicolon _ t ts hk _ ih =>
    have hskip := skipBlock_other (t := t) (by simp [hk]) (by simp [hk]) (by simp [hk]) blocks
    rw [List.cons_append, hskip, hskip]
    exact ih hpos hdepth
  | leftBrace hk _ ih =>
    rw [List.cons_append, skipBlock_leftBrace hk, skipBlock_leftBrace hk]
    exact ih (Nat.succ_pos _) (by omega)
  | @rightBrace _ _ ts hk hts ih =>
    rw [List.cons_append]
    rcases blocks with _ | _ | blocks
    · exact absurd hpos (Nat.lt_irrefl 0)
    · rw [skipBlock_lastBrace hk, skipBlock_lastBrace hk]
      obtain rfl : _ = d := Nat.succ.inj hdepth
      exact ⟨rfl, hts⟩
    · rw [skipBlock_rightBrace hk, skipBlock_rightBrace hk]
      exact ih (Nat.succ_pos _) (by omega)
  | plain hk _ _ ih =>
    have hskip := skipBlock_other (ne_of_plain hk rfl) (ne_of_plain hk rfl) (ne_of_plain hk rfl)
    rw [List.cons_append, hskip, hskip]
    exact ih hpos hdepth

theorem skipDeclaration_settled (h : Settled depth ts) (hne : ts ≠ []) :
    skipDeclaration (ts ++ more) = skipDeclaration ts ++ more ∧
      Settled depth (skipDeclaration ts) := by
  induction h with
  | nil => exact absurd rfl hne
  | semicolon hk hts _ =>
    simp only [List.cons_append, skipDeclaration, hk]
    exact ⟨trivial, hts⟩
  | leftBrace hk hts _ =>
    simp only [List.cons_append, skipDeclaration, hk, skipBlock_leftBrace hk]
    exact skipBlock_settled more Nat.one_pos hts rfl
  | rightBrace hk hts _ =>
    simp only [List.cons_append, skipDeclaration, hk]
    exact ⟨trivial, .rightBrace hk hts⟩
  | @plain _ t ts hk hne' _ ih =>
    have hskip (us : List Token) : skipDeclaration (t :: us) = skipDeclaration us := by
      rw [skipDeclaration]
      split <;> simp_all [TokenKind.endsHeader]
    rw [List.cons_append, hskip, hskip]
    exact ih hne'

theorem eatSemicolon_settled (h : Settled depth ts) (hne : ts ≠ []) :
    eatSemicolon (ts ++ more) = eatSemicolon ts ++ more ∧ Settled depth (eatSemicolon ts) := by
  cases ts with
  | nil => exact absurd rfl hne
  | cons t ts =>
    simp only [List.cons_append, eatSemicolon]
    split
    · rename_i hk
      exact ⟨rfl, h.of_semicolon hk⟩
    · exact ⟨rfl, h⟩

theorem peek_append (src : Source) (hne : ts ≠ []) : src.peek (ts ++ more) = src.peek ts := by
  cases ts with
  | nil => exact absurd rfl hne
  | cons t ts => rfl

/-- The header in front of a block and what is behind it: the token that ends the header is
there. -/
theorem header_settled (h : Settled depth ts) (hne : ts ≠ []) :
    headerTokens (ts ++ more) = headerTokens ts ∧
      afterHeader (ts ++ more) = afterHeader ts ++ more ∧
        Settled depth (afterHeader ts) ∧ afterHeader ts ≠ [] := by
  induction h with
  | nil => exact absurd rfl hne
  | semicolon hk hts _ =>
    simp only [List.cons_append, headerTokens, afterHeader, hk, TokenKind.endsHeader,
      List.takeWhile_cons, List.dropWhile_cons, Bool.not_true]
    exact ⟨rfl, rfl, .semicolon hk hts, List.cons_ne_nil _ _⟩
  | leftBrace hk hts _ =>
    simp only [List.cons_append, headerTokens, afterHeader, hk, TokenKind.endsHeader,
      List.takeWhile_cons, List.dropWhile_cons, Bool.not_true]
    exact ⟨rfl, rfl, .leftBrace hk hts, List.cons_ne_nil _ _⟩
  | rightBrace hk hts _ =>
    simp only [List.cons_append, headerTokens, afterHeader, hk, TokenKind.endsHeader,
      List.takeWhile_cons, List.dropWhile_cons, Bool.not_true]
    exact ⟨rfl, rfl, .rightBrace hk hts, List.cons_ne_nil _ _⟩
  | plain hk hne' _ ih =>
    obtain ⟨hheader, hafter, hsettled, hnonempty⟩ := ih hne'
    simp only [headerTokens, afterHeader] at hheader hafter hsettled hnonempty
    simp only [List.cons_append, headerTokens, afterHeader, hk, List.takeWhile_cons,
      List.dropWhile_cons, Bool.not_false, reduceIte, hheader]
    exact ⟨trivial, hafter, hsettled, hnonempty⟩

end Skipping

/-! ### Values -/

section Values
variable {depth : Nat} {ts : List Token} (more : List Token)

/-- A group ends before the end of the tokens.  It may take in braces that open blocks. -/
theorem splitGroup_settled (h : Settled depth ts) (hne : ts ≠ []) (parens : Nat) :
    splitGroup parens (ts ++ more) = ((splitGroup parens ts).1, (splitGroup parens ts).2 ++ more) ∧
      Settles depth (splitGroup parens ts).2 ∧ (splitGroup parens ts).2 ≠ [] := by
  induction h generalizing parens with
  | nil => exact absurd rfl hne
  | semicolon hk hts _ =>
    simp only [List.cons_append, splitGroup, hk]
    exact ⟨trivial, ⟨_, Nat.le_refl _, .semicolon hk hts⟩, List.cons_ne_nil _ _⟩
  | rightBrace hk hts _ =>
    simp only [List.cons_append, splitGroup, hk]
    exact ⟨trivial, ⟨_, Nat.le_refl _, .rightBrace hk hts⟩, List.cons_ne_nil _ _⟩
  | @leftBrace d t ts hk hts ih =>
    have hts' : ts ≠ [] := by
      rintro rfl
      cases hts
    rcases splitGroup_cons t (by simp [hk]) (by simp [hk]) (by simp [hk]) parens with
      ⟨hclose, _⟩ | ⟨n, hcons⟩
    · rw [hk] at hclose
      cases hclose
    · obtain ⟨hlocal, ⟨d', hd', hsettled⟩, hnonempty⟩ := ih hts' n
      rw [List.cons_append, hcons, hcons, hlocal]
      exact ⟨rfl, ⟨d', by omega, hsettled⟩, hnonempty⟩
  | @plain _ t ts hk hts' hts ih =>
    rcases splitGroup_cons t (ne_of_plain hk rfl) (ne_of_plain hk rfl) (ne_of_plain hk rfl)
      parens with
      ⟨_, hclose⟩ | ⟨n, hcons⟩
    · rw [List.cons_append, hclose, hclose]
      exact ⟨rfl, ⟨_, Nat.le_refl _, hts⟩, hts'⟩
    · obtain ⟨hlocal, hsettles, hnonempty⟩ := ih hts' n
      rw [List.cons_append, hcons, hcons, hlocal]
      exact ⟨rfl, hsettles, hnonempty⟩

theorem atImportant_append (src : Source) (hne : ts ≠ []) :
    src.atImportant (ts ++ more) = src.atImportant ts := by
  simp only [Source.atImportant, peek_append more src hne]

theorem fault_append (src : Source) (hne : ts ≠ []) (kind : FaultKind) :
    src.fault (ts ++ more) kind = src.fault ts kind := by
  simp only [Source.fault, peek_append more src hne]

theorem unexpected_append (src : Source) (hne : ts ≠ []) (expected : Expected) :
    src.unexpected (ts ++ more) expected = src.unexpected ts expected := by
  simp only [Source.unexpected, fault_append more src hne, peek_append more src hne]

omit more in
/-- The word behind the mark is an ordinary token. -/
theorem tail_settled_of_atImportant {src : Source} (h : Settles depth ts)
    (hword : src.atImportant ts = true) : Settles depth ts.tail ∧ ts.tail ≠ [] := by
  obtain ⟨d, hd, hsettled⟩ := h
  cases ts with
  | nil => simp [Source.atImportant, Source.endToken] at hword
  | cons t ts =>
    have hident : t.kind = .ident := by
      simp only [Source.atImportant, Source.peek_cons, Bool.and_eq_true, beq_iff_eq] at hword
      exact hword.1
    obtain ⟨hne, hts⟩ := hsettled.of_plain (by rw [hident]; rfl)
    exact ⟨⟨d, hd, hts⟩, hne⟩

/-- A value stops before the end of the tokens. -/
theorem readParts_settled (src : Source) (scan : ValueScan) (h : Settles depth ts)
    (hne : ts ≠ []) :
    readParts src scan (ts ++ more) =
        ((readParts src scan ts).1, (readParts src scan ts).2 ++ more) ∧
      Settles depth (readParts src scan ts).2 ∧ (readParts src scan ts).2 ≠ [] := by
  revert h hne
  refine readParts_rec (P := fun scan ts out => Settles depth ts → ts ≠ [] →
    readParts src scan (ts ++ more) = (out.1, out.2 ++ more) ∧ Settles depth out.2 ∧ out.2 ≠ [])
    ?nil ?stop ?important ?bang ?group ?single scan ts
  case nil =>
    intro scan _ hne
    exact absurd rfl hne
  case stop =>
    intro scan t ts hstop h hne
    rw [List.cons_append, readParts_stop src scan _ hstop]
    exact ⟨rfl, h, hne⟩
  case important =>
    intro scan t ts out hbang hword ih h _
    obtain ⟨d, hd, hsettled⟩ := h
    obtain ⟨hne', hts⟩ := hsettled.of_plain (by rw [hbang]; rfl)
    obtain ⟨htail, hnil⟩ := tail_settled_of_atImportant ⟨d, hd, hts⟩ hword
    rw [List.cons_append, readParts_important src scan _ hbang
      ((atImportant_append more src hne').trans hword), List.tail_append_of_ne_nil hne']
    exact ih htail hnil
  case bang =>
    intro scan t ts out hbang hword ih h _
    obtain ⟨d, hd, hsettled⟩ := h
    obtain ⟨hne', hts⟩ := hsettled.of_plain (by rw [hbang]; rfl)
    rw [List.cons_append, readParts_bang src scan _ hbang
      ((atImportant_append more src hne').trans hword), unexpected_append more src hne']
    exact ih ⟨d, hd, hts⟩ hne'
  case group =>
    intro scan t ts out hgroup ih h _
    obtain ⟨d, hd, hsettled⟩ := h
    have hplain : t.kind.endsHeader = false := by
      revert hgroup
      cases t.kind <;> simp [TokenKind.opensGroup, TokenKind.endsHeader]
    obtain ⟨hne', hts⟩ := hsettled.of_plain hplain
    obtain ⟨hlocal, ⟨d', hd', hsettled'⟩, hnonempty⟩ := splitGroup_settled more hts hne' 1
    rw [List.cons_append, readParts_group src scan _ hgroup, hlocal]
    exact ih ⟨d', by omega, hsettled'⟩ hnonempty
  case single =>
    intro scan t ts out hplain hbang hgroup ih h _
    obtain ⟨d, hd, hsettled⟩ := h
    obtain ⟨hne', hts⟩ := hsettled.of_plain hplain
    rw [List.cons_append, readParts_single src scan _ hplain hbang hgroup]
    exact ih ⟨d, hd, hts⟩ hne'

end Values

/-! ### Items -/

/-- The item with more tokens left behind it. -/
def Item.followedBy (item : Item) (more : List Token) : Item :=
  { item with rest := item.rest ++ more }

/-- A reader stays within tokens that close `depth` blocks: it does the same whatever
follows them, and what it leaves closes these blocks and the one it has opened. -/
structure StaysWithin (read : List Token → Item) (depth : Nat) (ts : List Token) : Prop where
  followedBy : ∀ more, read (ts ++ more) = (read ts).followedBy more
  settles : Settles (depth + (read ts).opened.toList.length) (read ts).rest

theorem staysWithin_cons {read : List Token → Item} {depth : Nat} {t : Token} {ts : List Token} :
    StaysWithin read depth (t :: ts) ↔ StaysWithin (fun us => read (t :: us)) depth ts :=
  ⟨fun h => ⟨h.followedBy, h.settles⟩, fun h => ⟨h.followedBy, h.settles⟩⟩

section Items
variable (src : Source) {depth : Nat} {ts : List Token}

/-- Skipping a statement and noting faults at the token at hand stays within the tokens. -/
theorem skip_staysWithin {faults : List Token → List Fault}
    (hfaults : ∀ more, faults (ts ++ more) = faults ts) (h : Settled depth ts) (hne : ts ≠ []) :
    StaysWithin (fun us => { faults := faults us, rest := skipDeclaration us }) depth ts where
  followedBy := by
    intro more
    simp only [Item.followedBy, (skipDeclaration_settled more h hne).1, hfaults]
  settles := ⟨depth, Nat.le_refl _, (skipDeclaration_settled [] h hne).2⟩

theorem openBlock_staysWithin (kind : BlockKind) (header : String) (position : Position)
    (h : Settled depth ts) (hne : ts ≠ []) :
    StaysWithin (openBlock src kind header position) depth ts where
  followedBy := by
    intro more
    simp only [openBlock, peek_append more src hne, List.tail_append_of_ne_nil hne,
      unexpected_append more src hne, (eatSemicolon_settled more h hne).1]
    split <;> rfl
  settles := by
    unfold openBlock
    split
    · rename_i hbrace
      cases ts with
      | nil => exact absurd rfl hne
      | cons t ts => exact ⟨depth + 1, Nat.le_refl _, h.of_leftBrace hbrace⟩
    · exact ⟨depth, Nat.le_refl _, (eatSemicolon_settled [] h hne).2⟩

theorem readBlock_staysWithin (kind : BlockKind) (position : Position)
    (h : Settled depth ts) (hne : ts ≠ []) :
    StaysWithin (readBlock src kind position) depth ts := by
  obtain ⟨_, _, hsettled, hnonempty⟩ := header_settled [] h hne
  have hopen := openBlock_staysWithin src kind (src.textOf (headerTokens ts)) position hsettled
    hnonempty
  refine ⟨fun more => ?_, hopen.settles⟩
  obtain ⟨hheader, hafter, _, _⟩ := header_settled more h hne
  rw [readBlock, hheader, hafter, hopen.followedBy more]
  rfl

/-- Skipping a statement behind one fault at the token at hand. -/
theorem skip_fault_staysWithin (kind : FaultKind) (h : Settled depth ts) (hne : ts ≠ []) :
    StaysWithin (fun us => { faults := [src.fault us kind], rest := skipDeclaration us })
      depth ts :=
  skip_staysWithin (fun more => by rw [fault_append more src hne]) h hne

/-- Skipping a statement whose first token is not the one expected. -/
theorem skip_unexpected_staysWithin (expected : Expected) (h : Settled depth ts) (hne : ts ≠ []) :
    StaysWithin (fun us => { faults := [src.unexpected us expected], rest := skipDeclaration us })
      depth ts :=
  skip_staysWithin (fun more => by rw [unexpected_append more src hne]) h hne

theorem readImport_staysWithin (position : Position) (h : Settled depth ts) (hne : ts ≠ []) :
    StaysWithin (readImport src position) depth ts := by
  cases htarget : src.importTarget? (src.peek ts) with
  | none =>
    have hskip := skip_fault_staysWithin src .missingImportTarget h hne
    refine ⟨fun more => ?_, ?_⟩
    · rw [readImport_noTarget position htarget,
        readImport_noTarget position (by rw [peek_append more src hne, htarget])]
      exact hskip.followedBy more
    · rw [readImport_noTarget position htarget]
      exact hskip.settles
  | some uri =>
    cases ts with
    | nil => exact absurd rfl hne
    | cons t ts =>
      rw [Source.peek_cons] at htarget
      obtain ⟨hne', hts⟩ := h.of_plain (endsHeader_of_importTarget? htarget)
      obtain ⟨_, _, hsettled, hnonempty⟩ := header_settled [] hts hne'
      refine ⟨fun more => ?_, ?_⟩
      · obtain ⟨hheader, hafter, _, _⟩ := header_settled more hts hne'
        rw [List.cons_append, readImport_target position htarget,
          readImport_target position htarget, hheader, hafter,
          (eatSemicolon_settled more hsettled hnonempty).1, peek_append more src hnonempty,
          unexpected_append more src hnonempty]
        rfl
      · rw [readImport_target position htarget]
        exact ⟨depth, Nat.le_refl _, (eatSemicolon_settled [] hsettled hnonempty).2⟩

theorem readAtRule_staysWithin (t : Token) (h : Settled depth ts) (hne : ts ≠ []) :
    StaysWithin (readAtRule src t) depth ts := by
  unfold readAtRule
  dsimp only
  cases AtRule.ofKeyword (Text.lower (src.tokenText t)) with
  | importRule => exact readImport_staysWithin src _ h hne
  | silent => exact skip_staysWithin (fun _ => rfl) h hne
  | block kind => exact readBlock_staysWithin src kind _ h hne
  | unknown => exact skip_staysWithin (fun _ => rfl) h hne

/-- A declaration whose value turns out to be a block ends with the block. -/
theorem skipBlock_peek_settled (h : Settles depth ts) (hbrace : (src.peek ts).kind = .leftBrace)
    (more : List Token) :
    skipBlock 0 (ts ++ more) = skipBlock 0 ts ++ more ∧ Settles depth (skipBlock 0 ts) := by
  obtain ⟨d, hd, hsettled⟩ := h
  cases ts with
  | nil => simp [Source.endToken] at hbrace
  | cons t ts =>
    rw [Source.peek_cons] at hbrace
    obtain ⟨hlocal, hrest⟩ :=
      skipBlock_settled more Nat.one_pos (hsettled.of_leftBrace hbrace) rfl
    rw [List.cons_append, skipBlock_leftBrace hbrace, skipBlock_leftBrace hbrace]
    exact ⟨hlocal, d, hd, hrest⟩

theorem readNamed_staysWithin (starred : Bool) (position : Position) (t : Token)
    (h : Settled depth ts) (hne : ts ≠ []) :
    StaysWithin (readNamed src starred position t) depth ts := by
  by_cases hcolon : (src.peek ts).kind = .colon
  · cases ts with
    | nil => exact absurd rfl hne
    | cons c ts =>
      rw [Source.peek_cons] at hcolon
      obtain ⟨hne', hts⟩ := h.of_plain (by rw [hcolon]; rfl)
      cases hparts : readParts src {} ts with
      | mk scan rest =>
        have hvalue (more : List Token) :=
          readParts_settled more src {} ⟨depth, Nat.le_refl _, hts⟩ hne'
        simp only [hparts] at hvalue
        obtain ⟨_, hsettles, hnonempty⟩ := hvalue []
        obtain ⟨d, hd, hsettled⟩ := hsettles
        have hrest : Settles depth (eatSemicolon rest) :=
          ⟨d, hd, (eatSemicolon_settled [] hsettled hnonempty).2⟩
        by_cases hbrace : (src.peek rest).kind = .leftBrace
        · have hskip := skipBlock_peek_settled src ⟨d, hd, hsettled⟩ hbrace
          refine ⟨fun more => ?_, ?_⟩
          · rw [List.cons_append, readNamed_block starred position t hcolon hparts hbrace,
              readNamed_block starred position t hcolon (hvalue more).1
                (by rw [peek_append more src hnonempty, hbrace]),
              unexpected_append more src hnonempty, (hskip more).1]
            rfl
          · rw [readNamed_block starred position t hcolon hparts hbrace]
            exact (hskip []).2
        have hbrace' (more : List Token) : (src.peek (rest ++ more)).kind ≠ .leftBrace := by
          rw [peek_append more src hnonempty]
          exact hbrace
        by_cases hempty : scan.parts = []
        · refine ⟨fun more => ?_, ?_⟩
          · rw [List.cons_append, readNamed_empty starred position t hcolon hparts hbrace hempty,
              readNamed_empty starred position t hcolon (hvalue more).1 (hbrace' more) hempty,
              fault_append more src hnonempty, (eatSemicolon_settled more hsettled hnonempty).1]
            rfl
          · rw [readNamed_empty starred position t hcolon hparts hbrace hempty]
            exact hrest
        · refine ⟨fun more => ?_, ?_⟩
          · rw [List.cons_append, readNamed_value starred position t hcolon hparts hbrace hempty,
              readNamed_value starred position t hcolon (hvalue more).1 (hbrace' more) hempty,
              (eatSemicolon_settled more hsettled hnonempty).1]
            rfl
          · rw [readNamed_value starred position t hcolon hparts hbrace hempty]
            exact hrest
  · have hskip := skip_unexpected_staysWithin src .colon h hne
    refine ⟨fun more => ?_, ?_⟩
    · rw [readNamed_noColon starred position t hcolon, readNamed_noColon starred position t
        (by rw [peek_append more src hne]; exact hcolon)]
      exact hskip.followedBy more
    · rw [readNamed_noColon starred position t hcolon]
      exact hskip.settles

theorem readStarred_staysWithin (position : Position) (h : Settled depth ts) (hne : ts ≠ []) :
    StaysWithin (readStarred src position) depth ts := by
  cases ts with
  | nil => exact absurd rfl hne
  | cons t ts =>
    by_cases hident : t.kind = .ident
    · have hread : (fun us => readStarred src position (t :: us)) =
          readNamed src true position t := by
        funext us
        rw [readStarred, if_pos hident]
      obtain ⟨hne', hts⟩ := h.of_plain (by rw [hident]; rfl)
      rw [staysWithin_cons, hread]
      exact readNamed_staysWithin src true position t hts hne'
    · have hread : (fun us => readStarred src position (t :: us)) = fun us =>
          { faults := [src.unexpected (t :: us) .propertyName]
            rest := skipDeclaration (t :: us) } := by
        funext us
        rw [readStarred, if_neg hident]
      rw [staysWithin_cons, hread]
      exact staysWithin_cons.mp (skip_unexpected_staysWithin src .propertyName h hne)

/-- Passing over a `;` stays within the tokens. -/
theorem pass_staysWithin {t : Token} (ht : t.kind = .semicolon) (h : Settled depth (t :: ts)) :
    StaysWithin (fun us => { rest := us }) depth ts :=
  ⟨fun _ => rfl, depth, Nat.le_refl _, h.of_semicolon ht⟩

theorem readDeclaration_staysWithin (margins : Bool) {t : Token} (h : Settled depth (t :: ts)) :
    StaysWithin (readDeclaration src margins t) depth ts := by
  unfold readDeclaration
  dsimp only
  split
  · rename_i ht
    exact pass_staysWithin ht h
  · rename_i ht
    obtain ⟨hne, hts⟩ := h.of_plain (by rw [ht]; rfl)
    split
    · exact openBlock_staysWithin src .pageMargin _ _ hts hne
    · exact skip_staysWithin (fun _ => rfl) hts hne
  · rename_i ht
    obtain ⟨hne, hts⟩ := h.of_plain (by rw [ht]; rfl)
    exact readNamed_staysWithin src false _ t hts hne
  · rename_i ht
    obtain ⟨hne, hts⟩ := h.of_plain (by rw [ht]; rfl)
    exact readStarred_staysWithin src _ hts hne
  · exact staysWithin_cons.mp
      (skip_unexpected_staysWithin src .propertyName h (List.cons_ne_nil _ _))

/-- Every item stays within the tokens. -/
theorem readItem_staysWithin (body : Body) {t : Token} (h : Settled depth (t :: ts)) :
    StaysWithin (readItem src body t) depth ts := by
  have hblock (kind : BlockKind) :
      StaysWithin (fun us => readBlock src kind (src.position t.span.start) (t :: us)) depth ts :=
    staysWithin_cons.mp (readBlock_staysWithin src kind _ h (List.cons_ne_nil _ _))
  unfold readItem
  cases body with
  | sheet | rules =>
    dsimp only
    split
    · rename_i ht
      exact pass_staysWithin ht h
    · rename_i ht
      obtain ⟨hne, hts⟩ := h.of_plain (by rw [ht]; rfl)
      exact readAtRule_staysWithin src t hts hne
    · exact hblock .rule
  | keyframes =>
    dsimp only
    split
    · rename_i ht
      exact pass_staysWithin ht h
    · exact hblock .keyframeRule
  | page => exact readDeclaration_staysWithin src true h
  | declarations => exact readDeclaration_staysWithin src false h

end Items

/-! ### Stylesheets -/

/-- **A reading of settled tokens ends at the outermost level.**  If no more blocks are
open than the tokens close, what follows them is read with no block open, and behind what
is read from them. -/
theorem sheetFrom_append (src : Source) {depth : Nat} {nest : List BlockKind} {ts : List Token}
    (hnest : nest.length ≤ depth) (h : Settled depth ts) (more : List Token) :
    sheetFrom src .sheet nest (ts ++ more) =
      sheetFrom src .sheet nest ts ++ sheetFrom src .sheet [] more := by
  suffices hall : ∀ depth, nest.length ≤ depth → Settled depth ts →
      sheetFrom src .sheet nest (ts ++ more) =
        sheetFrom src .sheet nest ts ++ sheetFrom src .sheet [] more from
    hall depth hnest h
  clear hnest h depth
  refine sheetFrom_rec (P := fun nest ts sheet => ∀ depth, nest.length ≤ depth →
    Settled depth ts → sheetFrom src .sheet nest (ts ++ more) =
      sheet ++ sheetFrom src .sheet [] more) ?atEnd ?close ?stray ?leave ?item nest ts
  case atEnd =>
    intro nest ts hend depth hnest h
    cases ts with
    | nil =>
      cases h
      obtain rfl : nest = [] := List.length_eq_zero_iff.mp (Nat.le_zero.mp hnest)
      rfl
    | cons t ts => exact absurd (hend t rfl) h.ne_eof
  case close =>
    intro kind outer t ts sheet hbrace ih depth hnest h
    obtain ⟨d, rfl, hts⟩ := h.of_rightBrace hbrace
    rw [List.cons_append, sheetFrom_close kind outer _ hbrace,
      ih d (Nat.le_of_succ_le_succ hnest) hts, Stylesheet.append_assoc]
  case stray =>
    intro _ t ts sheet hbrace ih depth _ h
    obtain ⟨d, rfl, hts⟩ := h.of_rightBrace hbrace
    rw [List.cons_append, sheetFrom_stray _ hbrace, ih d (Nat.zero_le d) hts,
      Stylesheet.append_assoc]
    rfl
  case leave =>
    intro hbase
    exact absurd rfl hbase
  case item =>
    intro nest t ts sheet he hb ih depth hnest h
    have hitem := readItem_staysWithin src (innermost .sheet nest) h
    obtain ⟨d, hd, hrest⟩ := hitem.settles
    rw [List.cons_append, sheetFrom_item nest _ he hb, hitem.followedBy more]
    have hstep := ih d (by rw [List.length_append]; omega) hrest
    rw [Stylesheet.append_assoc, ← hstep]
    rfl

/-! ### Balanced chunks -/

/-- The number of tokens of a kind. -/
def countKind (kind : TokenKind) (ts : List Token) : Nat := ts.countP fun t => t.kind == kind

/-- A chunk of a stylesheet: it does not hold the end of the source, no part of it from its
front on closes more braces than it opens, as a whole it closes all it opens, and it is
empty or ends with `}` or `;`. -/
structure BalancedChunk (ts : List Token) : Prop where
  noEnd : ∀ t ∈ ts, t.kind ≠ .eof
  closed_le_opened : ∀ front, front <+: ts →
    countKind .rightBrace front ≤ countKind .leftBrace front
  opened_eq_closed : countKind .leftBrace ts = countKind .rightBrace ts
  last : ∀ t ∈ ts.getLast?, t.kind = .rightBrace ∨ t.kind = .semicolon

theorem countKind_cons (kind : TokenKind) (t : Token) (ts : List Token) :
    countKind kind (t :: ts) = countKind kind ts + if t.kind = kind then 1 else 0 := by
  simp [countKind, List.countP_cons]

/-- Counting braces tells that tokens are settled. -/
theorem settled_of_counts {ts : List Token} {depth : Nat} (hend : ∀ t ∈ ts, t.kind ≠ .eof)
    (hfront : ∀ front, front <+: ts →
      countKind .rightBrace front ≤ depth + countKind .leftBrace front)
    (htotal : depth + countKind .leftBrace ts = countKind .rightBrace ts)
    (hlast : ∀ t ∈ ts.getLast?, t.kind = .rightBrace ∨ t.kind = .semicolon) :
    Settled depth ts := by
  induction ts generalizing depth with
  | nil =>
    obtain rfl : depth = 0 := by simpa [countKind] using htotal
    exact .nil
  | cons t ts ih =>
    have hend' : ∀ u ∈ ts, u.kind ≠ .eof := fun u hu => hend u (List.mem_cons_of_mem t hu)
    have hlast' : ∀ u ∈ ts.getLast?, u.kind = .rightBrace ∨ u.kind = .semicolon := by
      intro u hu
      refine hlast u ?_
      rw [List.getLast?_cons, Option.mem_def.mp hu]
      rfl
    have hcons (front : List Token) (h : front <+: ts) :=
      hfront (t :: front) (List.cons_prefix_cons.mpr ⟨rfl, h⟩)
    simp only [countKind_cons] at htotal hcons
    by_cases hleft : t.kind = .leftBrace
    · simp only [hleft, reduceCtorEq, reduceIte] at htotal hcons
      refine .leftBrace hleft (ih hend' (fun front h => ?_) (by omega) hlast')
      have := hcons front h
      omega
    · by_cases hright : t.kind = .rightBrace
      · simp only [hright, reduceCtorEq, reduceIte] at htotal hcons
        have hpos := hcons [] List.nil_prefix
        obtain ⟨d, rfl⟩ : ∃ d, depth = d + 1 := ⟨depth - 1, by simp [countKind] at hpos; omega⟩
        refine .rightBrace hright (ih hend' (fun front h => ?_) (by omega) hlast')
        have := hcons front h
        omega
      · simp only [hleft, hright, reduceIte, Nat.add_zero] at htotal hcons
        have hts : Settled depth ts := ih hend' hcons htotal hlast'
        by_cases hsemi : t.kind = .semicolon
        · exact .semicolon hsemi hts
        · have hplain : t.kind.endsHeader = false := by
            have heof := hend t List.mem_cons_self
            revert hleft hright hsemi heof
            cases t.kind <;> simp [TokenKind.endsHeader]
          refine .plain hplain ?_ hts
          rintro rfl
          rcases hlast t rfl with h | h
          · exact hright h
          · exact hsemi h

theorem BalancedChunk.settled {ts : List Token} (h : BalancedChunk ts) : Settled 0 ts :=
  settled_of_counts h.noEnd (fun front hf => by simpa using h.closed_le_opened front hf)
    (by simpa using h.opened_eq_closed) h.last

/-- **Faults do not leave their chunk.**  A balanced chunk and what follows it are read
apart: the events and the faults of both together are those of the chunk alone, followed by
those of what follows alone. -/
theorem readBody_balancedChunk (src : Source) {stop : Token} (hstop : stop.kind = .eof)
    {chunk : List Token} (hchunk : BalancedChunk chunk) (tail : List Token) :
    (readBody src .sheet (chunk ++ tail ++ [stop])).1.events =
        (readBody src .sheet (chunk ++ [stop])).1.events ++
          (readBody src .sheet (tail ++ [stop])).1.events ∧
      (readBody src .sheet (chunk ++ tail ++ [stop])).1.faults =
        (readBody src .sheet (chunk ++ [stop])).1.faults ++
          (readBody src .sheet (tail ++ [stop])).1.faults := by
  have hsplit (more : List Token) : sheetFrom src .sheet [] (chunk ++ more) =
      sheetFrom src .sheet [] chunk ++ sheetFrom src .sheet [] more :=
    sheetFrom_append src (Nat.zero_le 0) hchunk.settled more
  have hend : sheetFrom src .sheet [] [stop] = .nothing :=
    sheetFrom_atEnd [] (by simpa [AtEnd] using hstop)
  have hwhole : sheetFrom src .sheet [] (chunk ++ tail ++ [stop]) =
      sheetFrom src .sheet [] (chunk ++ [stop]) ++ sheetFrom src .sheet [] (tail ++ [stop]) := by
    rw [List.append_assoc, hsplit, hsplit, hend, Stylesheet.append_nothing]
  constructor
  · apply Array.toList_inj.mp
    rw [Array.toList_append]
    exact congrArg Stylesheet.events hwhole
  · apply Array.toList_inj.mp
    rw [Array.toList_append]
    exact congrArg Stylesheet.faults hwhole

/-- The tokens of `a{b:({;}}`: the group in the value takes in a brace, so the reader is back
at the outermost level one brace too early. -/
def brokenGroup : List Token :=
  [⟨.ident, ⟨0, 1⟩⟩, ⟨.leftBrace, ⟨1, 2⟩⟩, ⟨.ident, ⟨2, 3⟩⟩, ⟨.colon, ⟨3, 4⟩⟩,
    ⟨.leftParen, ⟨4, 5⟩⟩, ⟨.leftBrace, ⟨5, 6⟩⟩, ⟨.semicolon, ⟨6, 7⟩⟩, ⟨.rightBrace, ⟨7, 8⟩⟩,
    ⟨.rightBrace, ⟨8, 9⟩⟩]

theorem balancedChunk_brokenGroup : BalancedChunk brokenGroup where
  noEnd := by decide
  closed_le_opened := by
    intro front hfront
    have hcheck : ∀ front ∈ brokenGroup.inits,
        countKind .rightBrace front ≤ countKind .leftBrace front := by decide
    exact hcheck front ((List.mem_inits _ _).mpr hfront)
  opened_eq_closed := by decide
  last := by decide

/-- A rule behind the broken group is read on its own. -/
theorem readBody_behind_brokenGroup :
    let src : Source := .ofString "a\x7bb:(\x7b;\x7d\x7dc\x7b"
    let tail : List Token := [⟨.ident, ⟨9, 10⟩⟩, ⟨.leftBrace, ⟨10, 11⟩⟩]
    let stop : Token := ⟨.eof, ⟨11, 11⟩⟩
    BalancedChunk brokenGroup ∧
      (readBody src .sheet (brokenGroup ++ tail ++ [stop])).1.events =
        (readBody src .sheet (brokenGroup ++ [stop])).1.events ++
          (readBody src .sheet (tail ++ [stop])).1.events := by
  intro src tail stop
  exact ⟨balancedChunk_brokenGroup,
    (readBody_balancedChunk src rfl balancedChunk_brokenGroup tail).1⟩

end SheetLint
