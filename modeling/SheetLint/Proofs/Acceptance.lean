import SheetLint.Proofs.Phrases
import SheetLint.Proofs.TokenOrder

/-! # Stylesheets without faults

A stylesheet is read without faults exactly if its tokens derive from the grammar of
stylesheets (`faults_eq_nil_iff_derives`).

While a stylesheet is read, the tokens left must derive from the bodies of all blocks that are
open, innermost first (`Accepts`).  What is accepted closes the innermost block or begins with
a phrase (`accepts_iff`), and a step of a reading without faults does just that, so every step
asks for the same.
-/
namespace SheetLint

section Acceptance
variable {src : Source} {nest : List BlockKind} {kind : BlockKind} {t : Token}
  {ts tokens rest : List Token}

/-- The tokens close the open blocks, innermost first, with items of the body of each block
behind the brace that closes the one inside it, up to the end of the source. -/
def Closes (src : Source) : List BlockKind → List Token → Prop
  | [], follow => AtEnd follow
  | _ :: outer, follow => ∃ close rest, follow = close :: rest ∧ close.kind = .rightBrace ∧
      ∃ ts behind, rest = ts ++ behind ∧ Derives src (innermost .sheet outer) ts behind ∧
        Closes src outer behind

/-- The tokens are items of the innermost open block, and close it and all blocks around
it. -/
def Accepts (src : Source) (nest : List BlockKind) (tokens : List Token) : Prop :=
  ∃ ts follow, tokens = ts ++ follow ∧ Derives src (innermost .sheet nest) ts follow ∧
    Closes src nest follow

theorem Closes.accepts (h : Closes src nest tokens) : Accepts src nest tokens :=
  ⟨[], tokens, rfl, .nil, h⟩

theorem closes_cons_iff :
    Closes src (kind :: nest) (t :: ts) ↔ t.kind = .rightBrace ∧ Accepts src nest ts := by
  constructor
  · rintro ⟨close, rest, heq, hclose, haccepts⟩
    obtain ⟨rfl, rfl⟩ := List.cons.inj heq
    exact ⟨hclose, haccepts⟩
  · rintro ⟨hclose, haccepts⟩
    exact ⟨t, ts, rfl, hclose, haccepts⟩

/-- Blocks are closed by a `}` or, if there is none, by the end of the source. -/
theorem Closes.head (h : Closes src nest (t :: ts)) : t.kind = .rightBrace ∨ t.kind = .eof := by
  cases nest with
  | nil => exact .inr (h t rfl)
  | cons kind outer => exact .inl (closes_cons_iff.mp h).1

theorem Derives.of_semicolon {body : Body} {follow : List Token} (ht : t.kind = .semicolon)
    (h : Derives src body (t :: ts) follow) : Derives src body ts follow := by
  generalize htokens : t :: ts = tokens at h
  cases h with
  | nil => cases htokens
  | statement hitem hts =>
    cases hitem with
    | semicolon =>
      obtain ⟨-, rfl⟩ := List.cons.inj htokens
      exact hts
    | importRule _ hkeyword =>
      obtain ⟨rfl, -⟩ := List.cons.inj htokens
      simp [hkeyword.isKeyword] at ht
    | silent _ hkeyword =>
      obtain ⟨rfl, -⟩ := List.cons.inj htokens
      simp [hkeyword.isKeyword] at ht
  | declaration _ hitem =>
    cases hitem with
    | named hname =>
      obtain ⟨rfl, -⟩ := List.cons.inj htokens
      simp [hname] at ht
    | starred hstar =>
      obtain ⟨rfl, -⟩ := List.cons.inj htokens
      simp [hstar] at ht
  | block hheader hbrace =>
    exfalso
    rcases mem_head_or_eq_brace htokens with hmem | rfl
    · exact ne_of_plain (hheader.plain t (List.mem_of_mem_head? hmem)) rfl ht
    · simp [hbrace] at ht

/-- A `;` may stand in front of any item. -/
theorem accepts_eatSemicolon_iff :
    Accepts src nest (eatSemicolon tokens) ↔ Accepts src nest tokens := by
  cases tokens with
  | nil => rfl
  | cons t ts =>
    by_cases ht : t.kind = .semicolon
    case neg => simp [eatSemicolon, ht]
    rw [eatSemicolon, if_pos ht]
    constructor
    · rintro ⟨us, follow, rfl, hderives, hcloses⟩
      exact ⟨[t] ++ us, follow, rfl, .statement (.semicolon ht) hderives, hcloses⟩
    · rintro ⟨us, follow, htokens, hderives, hcloses⟩
      cases us with
      | nil =>
        rw [List.nil_append] at htokens
        have hhead := (htokens ▸ hcloses).head
        simp [ht] at hhead
      | cons u us =>
        obtain ⟨rfl, rfl⟩ := List.cons.inj htokens
        exact ⟨us, follow, rfl, hderives.of_semicolon ht, hcloses⟩

/-- What is accepted closes the innermost block, or begins with a phrase. -/
theorem accepts_iff :
    Accepts src nest tokens ↔ Closes src nest tokens ∨
      ∃ opened rest, Phrase src (innermost .sheet nest) tokens opened rest ∧
        Accepts src (opened.toList ++ nest) rest := by
  constructor
  · rintro ⟨us, follow, rfl, hderives, hcloses⟩
    cases hderives with
    | nil => exact .inl hcloses
    | @statement _ item ts _ hitem hts =>
      refine .inr ⟨none, ts ++ follow, ?_, ts, follow, rfl, hts, hcloses⟩
      rw [List.append_assoc]
      exact .statement hitem
    | @declaration _ item ts _ hbody hitem hts =>
      refine .inr ⟨none, eatSemicolon (ts ++ follow), ?_, ?_⟩
      · rw [List.append_assoc]
        exact .declaration hbody hitem
      · exact accepts_eatSemicolon_iff.mpr ⟨ts, follow, rfl, hts, hcloses⟩
    | @block _ kind header inner ts _ brace close hheader hbrace hinner hclose hts =>
      refine .inr ⟨some kind, inner ++ close :: (ts ++ follow), ?_, ?_⟩
      · simpa using Phrase.block hheader hbrace
      · exact ⟨inner, _, rfl, hinner, close, _, rfl, hclose, ts, follow, rfl, hts, hcloses⟩
  · rintro (hcloses | ⟨opened, rest, hphrase, haccepts⟩)
    · exact hcloses.accepts
    · cases hphrase with
      | @statement item _ hitem =>
        obtain ⟨us, follow, rfl, hderives, hcloses⟩ := haccepts
        exact ⟨item ++ us, follow, by simp, .statement hitem hderives, hcloses⟩
      | @declaration item follow' hbody hitem =>
        obtain ⟨us, follow, rfl, hderives, hcloses⟩ := accepts_eatSemicolon_iff.mp haccepts
        exact ⟨item ++ us, follow, by simp, .declaration hbody hitem hderives, hcloses⟩
      | @block kind header _ brace hheader hbrace =>
        obtain ⟨inner, _, rfl, hinner, close, _, rfl, hclose, ts, follow, rfl, hts, hcloses⟩ :=
          haccepts
        exact ⟨header ++ brace :: (inner ++ close :: ts), follow, by simp,
          .block hheader hbrace hinner hclose hts, hcloses⟩

/-- Where no phrase can begin, the innermost block must be closed. -/
theorem accepts_iff_closes
    (hhead : ∀ t ∈ tokens.head?, t.kind = .rightBrace ∨ t.kind = .eof) :
    Accepts src nest tokens ↔ Closes src nest tokens := by
  rw [accepts_iff, or_iff_left_iff_imp]
  rintro ⟨opened, rest, hphrase, -⟩
  obtain ⟨t, ts, rfl, he, hb⟩ := hphrase.head_ne
  rcases hhead t rfl with h | h
  · exact absurd h hb
  · exact absurd h he

/-- Where a block cannot be closed, a phrase must begin. -/
theorem accepts_iff_phrase (he : t.kind ≠ .eof) (hb : t.kind ≠ .rightBrace) :
    Accepts src nest (t :: ts) ↔ ∃ opened rest,
      Phrase src (innermost .sheet nest) (t :: ts) opened rest ∧
        Accepts src (opened.toList ++ nest) rest := by
  rw [accepts_iff, or_iff_right_iff_imp]
  intro hcloses
  rcases hcloses.head with h | h
  · exact absurd h hb
  · exact absurd h he

theorem accepts_atEnd_iff (hend : AtEnd tokens) : Accepts src nest tokens ↔ nest = [] := by
  rw [accepts_iff_closes fun t ht => .inr (hend t ht)]
  cases nest with
  | nil => exact iff_of_true hend rfl
  | cons kind outer =>
    refine iff_of_false ?_ (List.cons_ne_nil _ _)
    rintro ⟨close, rest, rfl, hclose, -⟩
    simp [hend close rfl] at hclose

/-- **What is read without faults is accepted**, and nothing else is. -/
theorem sheetFrom_faults_iff (nest : List BlockKind) (ts : List Token) :
    (sheetFrom src .sheet nest ts).faults = [] ↔ Accepts src nest ts := by
  refine sheetFrom_rec (P := fun nest ts sheet => sheet.faults = [] ↔ Accepts src nest ts)
    ?atEnd ?close ?stray ?leave ?item nest ts
  case atEnd =>
    intro nest ts hend
    rw [accepts_atEnd_iff hend, endSheet, List.map_eq_nil_iff]
  case close =>
    intro kind outer t ts sheet hclose ih
    rw [accepts_iff_closes (by simp [hclose]), closes_cons_iff, ← ih]
    simp [hclose]
  case stray =>
    intro _ t ts sheet hclose _
    rw [accepts_iff_closes (by simp [hclose])]
    simp [Closes, AtEnd, hclose]
  case leave =>
    intro hbase
    exact absurd rfl hbase
  case item =>
    intro nest t ts sheet he hb ih
    rw [accepts_iff_phrase he hb, Stylesheet.faults_append, List.append_eq_nil_iff, ih]
    constructor
    · rintro ⟨hfaults, haccepts⟩
      -- behind a declaration that runs up to the end of the source its block is still open
      have hend (hrest : AtEnd (readItem src (innermost .sheet nest) t ts).rest) :
          (innermost .sheet nest).holdsDeclarations = false := by
        obtain ⟨-, rfl⟩ := List.append_eq_nil_iff.mp ((accepts_atEnd_iff hrest).mp haccepts)
        rfl
      exact ⟨_, _, phrase_of_yields hend ⟨hfaults, rfl, rfl⟩, haccepts⟩
    · rintro ⟨opened, rest, hphrase, haccepts⟩
      obtain ⟨hfaults, rfl, rfl⟩ := hphrase.yields
      exact ⟨hfaults, haccepts⟩

theorem eq_nil_of_atEnd_append {mid : List Token} (hmid : Endless mid)
    (hend : AtEnd (mid ++ rest)) : mid = [] := by
  cases mid with
  | nil => rfl
  | cons t mid => exact absurd (hend t rfl) (hmid t List.mem_cons_self)

/-- A source has one end. -/
theorem append_atEnd_inj {as bs rest rest' : List Token} (has : Endless as) (hbs : Endless bs)
    (hrest : AtEnd rest) (hrest' : AtEnd rest') (heq : as ++ rest = bs ++ rest') :
    as = bs ∧ rest = rest' := by
  rcases List.append_eq_append_iff.mp heq with ⟨mid, rfl, rfl⟩ | ⟨mid, rfl, rfl⟩
  · obtain rfl := eq_nil_of_atEnd_append (endless_append.mp hbs).2 hrest
    simp
  · obtain rfl := eq_nil_of_atEnd_append (endless_append.mp has).2 hrest'
    simp

end Acceptance

/-- **The grammar of what is read without faults.**  Reading a text yields no fault if and only
if its tokens in front of the end derive from the grammar of stylesheets. -/
theorem faults_eq_nil_iff_derives (text : String) :
    (Stylesheet.ofString text).faults = [] ↔
      Derives (.ofString text) .sheet (Source.ofString text).tokens.dropLast
        [(Source.ofString text).endToken] := by
  rw [Stylesheet.ofString, read_eq_sheetFrom, sheetFrom_faults_iff]
  have hsplit := (Source.ofString text).dropLast_tokens_append
  have hatEnd : AtEnd [(Source.ofString text).endToken] := by simp [AtEnd, Source.endToken]
  constructor
  · rintro ⟨ts, follow, htokens, hderives, hend⟩
    obtain ⟨rfl, rfl⟩ := append_atEnd_inj hderives.endless
      (fun t ht => (Source.ofString text).ne_eof_of_mem_dropLast_tokens ht) hend hatEnd
      (htokens.symm.trans hsplit.symm)
    exact hderives
  · intro hderives
    exact ⟨_, _, hsplit.symm, hderives, hatEnd⟩

end SheetLint
