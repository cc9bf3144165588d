import SheetLint.Stylesheet.Skip
import SheetLint.Stylesheet.Value
import SheetLint.Text.Cut

/-! # Items

A stylesheet, and each block in it, is a sequence of items: statements,
declarations and the openings of blocks.  `readItem` reads one of them.  What an
item may be depends on the `Body` it stands in.  An opened block is left to the
caller, who goes on with the items inside it.
-/
namespace SheetLint
open Text

/-- What the items between two braces may be. -/
inductive Body where
  /-- The outermost level: rules, with no brace around them. -/
  | sheet
  /-- Rules inside a block. -/
  | rules
  /-- The steps of an animation. -/
  | keyframes
  /-- Declarations and margin boxes. -/
  | page
  /-- Declarations only. -/
  | declarations
  deriving DecidableEq, Repr

/-- What stands between the braces of a block. -/
def BlockKind.body : BlockKind → Body
  | media | supports | document => .rules
  | keyframes => .keyframes
  | page => .page
  | rule | fontFace | pageMargin | keyframeRule | viewport => .declarations

/-- What reading an item yields: events, faults, the block that has been opened,
if any, and the tokens left. -/
structure Item where
  events : List Event := []
  faults : List Fault := []
  opened : Option BlockKind := none
  rest : List Token

/-- The tokens that end the header of a block. -/
def TokenKind.endsHeader : TokenKind → Bool
  | leftBrace | rightBrace | semicolon | eof => true
  | _ => false

/-- The tokens of a header. -/
def headerTokens (tokens : List Token) : List Token :=
  tokens.takeWhile fun t => !t.kind.endsHeader

/-- The tokens behind a header. -/
def afterHeader (tokens : List Token) : List Token :=
  tokens.dropWhile fun t => !t.kind.endsHeader

/-- The tokens left once a `;` has been read, if there is one. -/
def eatSemicolon : List Token → List Token
  | [] => []
  | t :: ts => if t.kind = .semicolon then ts else t :: ts

/-! ### Blocks -/

/-- Reads the brace that opens a block.  Without it there is no block, and a `;`
in its place is skipped. -/
def openBlock (src : Source) (kind : BlockKind) (header : String) (position : Position)
    (tokens : List Token) : Item :=
  if (src.peek tokens).kind = .leftBrace then
    { events := [.startBlock kind header position], opened := some kind, rest := tokens.tail }
  else
    { faults := [src.unexpected tokens .leftBrace], rest := eatSemicolon tokens }

/-- Reads the header of a block and the brace that opens it. -/
def readBlock (src : Source) (kind : BlockKind) (position : Position) (tokens : List Token) :
    Item :=
  openBlock src kind (src.textOf (headerTokens tokens)) position (afterHeader tokens)

/-! ### At-rules -/

/-- What an at-keyword introduces. -/
inductive AtRule where
  | importRule
  /-- A statement without effect on what is reported. -/
  | silent
  | block (kind : BlockKind)
  | unknown
  deriving DecidableEq, Repr

/-- The meaning of an at-keyword in small letters. -/
def AtRule.ofKeyword (keyword : String) : AtRule :=
  if keyword = "@import" then .importRule
  else if keyword ∈ ["@charset", "@namespace"] then .silent
  else if keyword = "@font-face" then .block .fontFace
  else if keyword = "@page" then .block .page
  else if keyword ∈ ["@viewport", "@-ms-viewport"] then .block .viewport
  else if keyword = "@media" then .block .media
  else if keyword = "@supports" then .block .supports
  else if keyword ∈ ["@document", "@-moz-document"] then .block .document
  else if keyword ∈ ["@keyframes", "@-webkit-keyframes", "@-moz-keyframes", "@-o-keyframes",
      "@-ms-keyframes"] then .block .keyframes
  else .unknown

/-- The target of an import, if the token is one. -/
def Source.importTarget? (src : Source) (token : Token) : Option String :=
  match token.kind with
  | .url => some (urlTarget (src.tokenText token))
  | .string => some (unquote (src.tokenText token))
  | _ => none

/-- The media queries of an import: the texts between the commas, where there is
any. -/
def Source.mediaQueries (src : Source) (tokens : List Token) : List String :=
  ((pieces (fun t => t.kind == .comma) tokens).filter fun p => !p.isEmpty).map src.textOf

/-- Reads an import behind its keyword. -/
def readImport (src : Source) (position : Position) (tokens : List Token) : Item :=
  match src.importTarget? (src.peek tokens) with
  | none =>
    { faults := [src.fault tokens .missingImportTarget], rest := skipDeclaration tokens }
  | some uri =>
    let media := src.mediaQueries (headerTokens tokens.tail)
    let rest := afterHeader tokens.tail
    { events := [.importRule ⟨uri, media, position⟩]
      faults :=
        if (src.peek rest).kind = .semicolon then [] else [src.unexpected rest .semicolon]
      rest := eatSemicolon rest }

/-- Reads an at-rule among rules. -/
def readAtRule (src : Source) (t : Token) (ts : List Token) : Item :=
  let position := src.position t.span.start
  let keyword := lower (src.tokenText t)
  match AtRule.ofKeyword keyword with
  | .importRule => readImport src position ts
  | .silent => { rest := skipDeclaration ts }
  | .block kind => readBlock src kind position ts
  | .unknown =>
    { faults := [src.fault (t :: ts) (.unknownAtRule keyword)], rest := skipDeclaration ts }

/-! ### Declarations -/

/-- The name of a property and its hack.  A star has been read apart from the
name; an underscore is taken from its front. -/
def propertyName (starred : Bool) (word : String) : String × Option Hack :=
  if starred then (word, some .star)
  else
    match word.toList with
    | '_' :: rest => (String.ofList rest, some .underscore)
    | _ => (word, none)

/-- Reads a declaration from its name on. -/
def readNamed (src : Source) (starred : Bool) (position : Position) (t : Token)
    (ts : List Token) : Item :=
  let (name, hack) := propertyName starred (src.tokenText t)
  if (src.peek ts).kind ≠ .colon then
    { faults := [src.unexpected ts .colon], rest := skipDeclaration ts }
  else
    let (scan, rest) := readParts src {} ts.tail
    if (src.peek rest).kind = .leftBrace then
      { faults := scan.faults ++ [src.unexpected rest .semicolon], rest := skipBlock 0 rest }
    else if scan.parts.isEmpty then
      { faults := scan.faults ++ [src.fault rest (.emptyValue name)], rest := eatSemicolon rest }
    else
      { events := [.declaration ⟨name, hack, position, scan.value src, scan.important⟩]
        faults := scan.faults
        rest := eatSemicolon rest }

/-- Reads a declaration behind its star. -/
def readStarred (src : Source) (position : Position) (tokens : List Token) : Item :=
  match tokens with
  | t :: ts =>
    if t.kind = .ident then readNamed src true position t ts
    else { faults := [src.unexpected tokens .propertyName], rest := skipDeclaration tokens }
  | [] => { faults := [src.unexpected [] .propertyName], rest := [] }

/-- Reads an item among declarations, `margins` telling whether at-keywords open
margin boxes. -/
def readDeclaration (src : Source) (margins : Bool) (t : Token) (ts : List Token) : Item :=
  let position := src.position t.span.start
  match t.kind with
  | .semicolon => { rest := ts }
  | .atKeyword =>
    let name := src.tokenText t
    if margins then openBlock src .pageMargin name position ts
    else { faults := [src.fault (t :: ts) (.unknownAtRule name)], rest := skipDeclaration ts }
  | .ident => readNamed src false position t ts
  | .star => readStarred src position ts
  | _ =>
    { faults := [src.unexpected (t :: ts) .propertyName], rest := skipDeclaration (t :: ts) }

/-! ### Items -/

/-- Reads one item of a body.  The first token is neither the end of the source
nor a closing brace. -/
def readItem (src : Source) (body : Body) (t : Token) (ts : List Token) : Item :=
  match body with
  | .sheet | .rules =>
    match t.kind with
    | .semicolon => { rest := ts }
    | .atKeyword => readAtRule src t ts
    | _ => readBlock src .rule (src.position t.span.start) (t :: ts)
  | .keyframes =>
    match t.kind with
    | .semicolon => { rest := ts }
    | _ => readBlock src .keyframeRule (src.position t.span.start) (t :: ts)
  | .page => readDeclaration src true t ts
  | .declarations => readDeclaration src false t ts

/-! ### Items take tokens -/

theorem length_eatSemicolon_le (ts : List Token) : (eatSemicolon ts).length ≤ ts.length := by
  unfold eatSemicolon
  split
  · exact Nat.le_refl _
  · split <;> simp

theorem length_afterHeader_le (ts : List Token) : (afterHeader ts).length ≤ ts.length :=
  (List.dropWhile_suffix _).length_le

theorem length_openBlock_le (src : Source) (kind : BlockKind) (header : String)
    (position : Position) (ts : List Token) :
    (openBlock src kind header position ts).rest.length ≤ ts.length := by
  unfold openBlock
  split
  · simp
  · exact length_eatSemicolon_le ts

theorem length_readBlock_le (src : Source) (kind : BlockKind) (position : Position)
    (ts : List Token) : (readBlock src kind position ts).rest.length ≤ ts.length :=
  Nat.le_trans (length_openBlock_le ..) (length_afterHeader_le ts)

/-- A block reads at least one token, unless it stands before a closing brace or
the end. -/
theorem length_readBlock_lt (src : Source) (kind : BlockKind) (position : Position)
    {t : Token} (ts : List Token) (he : t.kind ≠ .eof) (hb : t.kind ≠ .rightBrace) :
    (readBlock src kind position (t :: ts)).rest.length < (t :: ts).length := by
  unfold readBlock
  by_cases h : t.kind.endsHeader = true
  · have hrest : afterHeader (t :: ts) = t :: ts := by simp [afterHeader, h]
    rw [hrest]
    unfold openBlock
    split
    · simp
    · rename_i hpeek
      have hl : t.kind ≠ .leftBrace := hpeek
      have hs : t.kind = .semicolon := by
        revert h he hb hl
        cases t.kind <;> simp [TokenKind.endsHeader]
      simp [eatSemicolon, hs]
  · have hrest : afterHeader (t :: ts) = afterHeader ts := by
      simp [afterHeader, h]
    rw [hrest]
    exact Nat.lt_succ_of_le
      (Nat.le_trans (length_openBlock_le ..) (length_afterHeader_le ts))

theorem length_readImport_le (src : Source) (position : Position) (ts : List Token) :
    (readImport src position ts).rest.length ≤ ts.length := by
  unfold readImport
  split
  · exact length_skipDeclaration_le ts
  · have := length_eatSemicolon_le (afterHeader ts.tail)
    have := length_afterHeader_le ts.tail
    simp only [List.length_tail] at *
    omega

theorem length_readAtRule_le (src : Source) (t : Token) (ts : List Token) :
    (readAtRule src t ts).rest.length ≤ ts.length := by
  unfold readAtRule
  dsimp only
  split
  · exact length_readImport_le ..
  · exact length_skipDeclaration_le ts
  · exact length_readBlock_le ..
  · exact length_skipDeclaration_le ts

theorem length_readNamed_le (src : Source) (starred : Bool) (position : Position) (t : Token)
    (ts : List Token) : (readNamed src starred position t ts).rest.length ≤ ts.length := by
  have hparts := length_readParts_le src {} ts.tail
  have htail : ts.tail.length ≤ ts.length := by simp
  unfold readNamed
  dsimp only
  split
  · exact length_skipDeclaration_le ts
  · split
    · exact Nat.le_trans (length_skipBlock_le 0 _) (Nat.le_trans hparts htail)
    · split
      all_goals exact Nat.le_trans (length_eatSemicolon_le _) (Nat.le_trans hparts htail)

theorem length_readStarred_le (src : Source) (position : Position) (ts : List Token) :
    (readStarred src position ts).rest.length ≤ ts.length := by
  unfold readStarred
  split
  · split
    · exact Nat.le_succ_of_le (length_readNamed_le ..)
    · exact length_skipDeclaration_le _
  · simp

theorem length_readDeclaration_lt (src : Source) (margins : Bool) {t : Token} (ts : List Token)
    (he : t.kind ≠ .eof) (hb : t.kind ≠ .rightBrace) :
    (readDeclaration src margins t ts).rest.length < (t :: ts).length := by
  unfold readDeclaration
  dsimp only
  split
  · simp
  · split
    · exact Nat.lt_succ_of_le (length_openBlock_le ..)
    · exact Nat.lt_succ_of_le (length_skipDeclaration_le ts)
  · exact Nat.lt_succ_of_le (length_readNamed_le ..)
  · exact Nat.lt_succ_of_le (length_readStarred_le ..)
  · exact length_skipDeclaration_lt he hb

/-- Every item reads at least one token. -/
theorem length_readItem_lt (src : Source) (body : Body) {t : Token} (ts : List Token)
    (he : t.kind ≠ .eof) (hb : t.kind ≠ .rightBrace) :
    (readItem src body t ts).rest.length < (t :: ts).length := by
  unfold readItem
  split
  · split
    · simp
    · exact Nat.lt_succ_of_le (length_readAtRule_le ..)
    · exact length_readBlock_lt src _ _ ts he hb
  · split
    · simp
    · exact Nat.lt_succ_of_le (length_readAtRule_le ..)
    · exact length_readBlock_lt src _ _ ts he hb
  · split
    · simp
    · exact length_readBlock_lt src _ _ ts he hb
  · exact length_readDeclaration_lt src true ts he hb
  · exact length_readDeclaration_lt src false ts he hb

end SheetLint
