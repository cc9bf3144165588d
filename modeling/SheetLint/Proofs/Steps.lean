import SheetLint.Stylesheet.Item

/-! # Steps through values and statements

The parts of a value are read token by token.  Here is one equation for each thing that
can happen at the token at hand: the value stops, the mark `!important` is read or missed, a
group is taken as one part, or the token is a part of its own.  A value stops at the tokens
that end a header.  `readParts_rec` packages these equations as an induction.

Declarations and imports, which end in several ways, have one equation for each of their
ends.
-/
namespace SheetLint

/-- The tokens that open a group. -/
def TokenKind.opensGroup : TokenKind → Bool
  | function | leftParen => true
  | _ => false

theorem TokenKind.opensGroup_iff {kind : TokenKind} :
    kind.opensGroup = true ↔ kind = .function ∨ kind = .leftParen := by
  cases kind <;> simp [opensGroup]

/-- A group is no URL. -/
theorem TokenKind.ne_url_of_opensGroup {kind : TokenKind} (h : kind.opensGroup = true) :
    kind ≠ .url := by
  rintro rfl
  cases h

/-- Among the parts of a value, the URLs are the tokens of this kind. -/
theorem TokenKind.part_eq_uri_iff {kind : TokenKind} : kind.part = .uri ↔ kind = .url := by
  cases kind <;> simp [part]

theorem TokenKind.part_ne_uri {kind : TokenKind} (h : kind ≠ .url) : kind.part ≠ .uri :=
  mt part_eq_uri_iff.mp h

/-- A token inside a group either closes it or is taken into it, whatever follows. -/
theorem splitGroup_cons (t : Token) (hs : t.kind ≠ .semicolon) (hb : t.kind ≠ .rightBrace)
    (he : t.kind ≠ .eof) (parens : Nat) :
    (t.kind = .rightParen ∧ ∀ us, splitGroup parens (t :: us) = ([t], us)) ∨
      ∃ n, ∀ us, splitGroup parens (t :: us) = consFirst t (splitGroup n us) := by
  by_cases hclose : t.kind = .rightParen
  · by_cases hlast : parens ≤ 1
    · exact .inl ⟨hclose, fun us => by simp [splitGroup, hclose, hlast]⟩
    · exact .inr ⟨parens - 1, fun us => by simp [splitGroup, hclose, hlast]⟩
  · by_cases hopen : t.kind = .function ∨ t.kind = .leftParen
    · refine .inr ⟨parens + 1, fun us => ?_⟩
      rcases hopen with h | h <;> simp [splitGroup, h]
    · refine .inr ⟨parens, fun us => ?_⟩
      rw [splitGroup]
      split <;> simp_all

/-- The tokens in front of which a group ends even if it is not closed. -/
def TokenKind.stopsGroup : TokenKind → Bool
  | semicolon | rightBrace | eof => true
  | _ => false

theorem TokenKind.stopsGroup_eq_false_iff {kind : TokenKind} :
    kind.stopsGroup = false ↔ kind ≠ .semicolon ∧ kind ≠ .rightBrace ∧ kind ≠ .eof := by
  cases kind <;> simp [stopsGroup]

theorem splitGroup_stop {t : Token} (h : t.kind.stopsGroup = true) (parens : Nat)
    (ts : List Token) : splitGroup parens (t :: ts) = ([], t :: ts) := by
  rw [splitGroup]
  split <;> simp_all [TokenKind.stopsGroup]

theorem atImportant_cons {src : Source} {t : Token} {ts : List Token} :
    src.atImportant (t :: ts) = true ↔
      t.kind = .ident ∧ Text.sameWord (src.tokenText t) "important" = true := by
  simp [Source.atImportant]

theorem exists_of_atImportant {src : Source} {ts : List Token} (h : src.atImportant ts = true) :
    ∃ word more, ts = word :: more ∧ word.kind = .ident ∧
      Text.sameWord (src.tokenText word) "important" = true := by
  cases ts with
  | nil => simp [Source.atImportant, Source.endToken] at h
  | cons word more => exact ⟨word, more, rfl, atImportant_cons.mp h⟩

section Steps
variable (src : Source) (scan : ValueScan) {t : Token} (ts : List Token)

theorem readParts_nil : readParts src scan [] = (scan, []) := by
  rw [readParts]

theorem readParts_stop (h : t.kind.endsHeader = true) :
    readParts src scan (t :: ts) = (scan, t :: ts) := by
  rw [readParts]
  split <;> simp_all [TokenKind.endsHeader]

theorem readParts_important (h : t.kind = .bang) (hword : src.atImportant ts = true) :
    readParts src scan (t :: ts) = readParts src { scan with important := true } ts.tail := by
  rw [readParts]
  simp [h, hword]

theorem readParts_bang (h : t.kind = .bang) (hword : src.atImportant ts = false) :
    readParts src scan (t :: ts) =
      readParts src (scan.blame (src.unexpected ts .important)) ts := by
  rw [readParts]
  simp [h, hword]

theorem readParts_group (h : t.kind.opensGroup = true) :
    readParts src scan (t :: ts) =
      readParts src (scan.add src t (splitGroup 1 ts).1) (splitGroup 1 ts).2 := by
  rw [readParts]
  split <;> simp_all [TokenKind.opensGroup]

theorem readParts_single (hstop : t.kind.endsHeader = false) (hbang : t.kind ≠ .bang)
    (hgroup : t.kind.opensGroup = false) :
    readParts src scan (t :: ts) = readParts src (scan.add src t []) ts := by
  rw [readParts]
  split <;> simp_all [TokenKind.endsHeader, TokenKind.opensGroup]

end Steps

/-- **Induction over a value.**  A property of what has been read, the tokens left and the
outcome holds if it holds where the value stops and is handed back by each step. -/
theorem readParts_rec {src : Source} {P : ValueScan → List Token → ValueScan × List Token → Prop}
    (nil : ∀ scan, P scan [] (scan, []))
    (stop : ∀ scan t ts, t.kind.endsHeader = true → P scan (t :: ts) (scan, t :: ts))
    (important : ∀ scan t ts out, t.kind = .bang → src.atImportant ts = true →
      P { scan with important := true } ts.tail out → P scan (t :: ts) out)
    (bang : ∀ scan t ts out, t.kind = .bang → src.atImportant ts = false →
      P (scan.blame (src.unexpected ts .important)) ts out → P scan (t :: ts) out)
    (group : ∀ scan t ts out, t.kind.opensGroup = true →
      P (scan.add src t (splitGroup 1 ts).1) (splitGroup 1 ts).2 out → P scan (t :: ts) out)
    (single : ∀ scan t ts out, t.kind.endsHeader = false → t.kind ≠ .bang →
      t.kind.opensGroup = false → P (scan.add src t []) ts out → P scan (t :: ts) out)
    (scan : ValueScan) (ts : List Token) : P scan ts (readParts src scan ts) := by
  induction scan, ts using readParts.induct src with
  | case1 scan => exact readParts_nil src scan ▸ nil scan
  | case2 scan t ts h | case3 scan t ts h | case4 scan t ts h | case5 scan t ts h =>
    have hstop : t.kind.endsHeader = true := by rw [h]; rfl
    exact readParts_stop src scan ts hstop ▸ stop scan t ts hstop
  | case6 scan t ts h hword ih =>
    rw [readParts_important src scan ts h hword]
    exact important scan t ts _ h hword ih
  | case7 scan t ts h hword ih =>
    have hword : src.atImportant ts = false := by simpa using hword
    rw [readParts_bang src scan ts h hword]
    exact bang scan t ts _ h hword ih
  | case8 scan t ts h ih | case9 scan t ts h ih =>
    have hgroup : t.kind.opensGroup = true := by rw [h]; rfl
    rw [readParts_group src scan ts hgroup]
    exact group scan t ts _ hgroup ih
  | case10 scan t ts h1 h2 h3 h4 h5 h6 h7 ih =>
    have hstop : t.kind.endsHeader = false := by
      revert h1 h2 h3 h4
      cases t.kind <;> simp [TokenKind.endsHeader]
    have hgroup : t.kind.opensGroup = false := by
      revert h6 h7
      cases t.kind <;> simp [TokenKind.opensGroup]
    rw [readParts_single src scan ts hstop h5 hgroup]
    exact single scan t ts _ hstop h5 hgroup ih

/-! ### Declarations -/

section Declarations
variable {src : Source} (starred : Bool) (position : Position) (t : Token)

theorem readNamed_noColon {ts : List Token} (h : (src.peek ts).kind ≠ .colon) :
    readNamed src starred position t ts =
      { faults := [src.unexpected ts .colon], rest := skipDeclaration ts } := by
  simp [readNamed, h]

variable {colon : Token} {ts rest : List Token} {scan : ValueScan}

/-- A declaration whose value turns out to be a block. -/
theorem readNamed_block (hcolon : colon.kind = .colon) (hparts : readParts src {} ts = (scan, rest))
    (hbrace : (src.peek rest).kind = .leftBrace) :
    readNamed src starred position t (colon :: ts) =
      { faults := scan.faults ++ [src.unexpected rest .semicolon], rest := skipBlock 0 rest } := by
  simp [readNamed, hcolon, hparts, hbrace]

/-- A declaration without a value. -/
theorem readNamed_empty (hcolon : colon.kind = .colon) (hparts : readParts src {} ts = (scan, rest))
    (hbrace : (src.peek rest).kind ≠ .leftBrace) (hempty : scan.parts = []) :
    readNamed src starred position t (colon :: ts) =
      { faults := scan.faults ++
          [src.fault rest (.emptyValue (propertyName starred (src.tokenText t)).1)]
        rest := eatSemicolon rest } := by
  simp [readNamed, hcolon, hparts, hbrace, hempty]

/-- A declaration with a value. -/
theorem readNamed_value (hcolon : colon.kind = .colon) (hparts : readParts src {} ts = (scan, rest))
    (hbrace : (src.peek rest).kind ≠ .leftBrace) (hvalue : scan.parts ≠ []) :
    readNamed src starred position t (colon :: ts) =
      { events := [.declaration ⟨(propertyName starred (src.tokenText t)).1,
          (propertyName starred (src.tokenText t)).2, position, scan.value src, scan.important⟩]
        faults := scan.faults
        rest := eatSemicolon rest } := by
  simp [readNamed, hcolon, hparts, hbrace, hvalue]

end Declarations

/-! ### Imports -/

section Imports
variable {src : Source} (position : Position)

theorem readImport_noTarget {ts : List Token} (h : src.importTarget? (src.peek ts) = none) :
    readImport src position ts =
      { faults := [src.fault ts .missingImportTarget], rest := skipDeclaration ts } := by
  simp [readImport, h]

variable {target : Token} {uri : String} {ts : List Token}

theorem readImport_target (htarget : src.importTarget? target = some uri) :
    readImport src position (target :: ts) =
      { events := [.importRule ⟨uri, src.mediaQueries (headerTokens ts), position⟩]
        faults :=
          if (src.peek (afterHeader ts)).kind = .semicolon then []
          else [src.unexpected (afterHeader ts) .semicolon]
        rest := eatSemicolon (afterHeader ts) } := by
  rw [readImport, Source.peek_cons, htarget]
  rfl

/-- The target of an import ends no header. -/
theorem endsHeader_of_importTarget? (htarget : src.importTarget? target = some uri) :
    target.kind.endsHeader = false := by
  revert htarget
  rw [Source.importTarget?]
  cases target.kind <;> simp [TokenKind.endsHeader]

end Imports
end SheetLint
