import SheetLint.Source

/-! # Tokens

The tokens of a stylesheet.  They are coarse: enough to find the boundaries of
blocks, the declarations and the literal URLs.  A token carries its kind and the
span of the source it stands for; its text is that of the span.
-/
namespace SheetLint

/-- The kinds of tokens. -/
inductive TokenKind where
  | leftBrace
  | rightBrace
  | leftParen
  | rightParen
  | leftBracket
  | rightBracket
  | colon
  | semicolon
  | comma
  | bang
  | slash
  | greater
  | plus
  | tilde
  | star
  | dot
  | equals
  /-- A keyword such as `@media` or `@font-face`. -/
  | atKeyword
  /-- A whole `url(…)`, quoted or not. -/
  | url
  /-- A name and the parenthesis that opens its arguments. -/
  | function
  | ident
  /-- A name behind a hash, such as `#fff` or `#main`. -/
  | hash
  /-- A number with its unit or percent sign. -/
  | number
  /-- A quoted string. -/
  | string
  /-- Text that begins no token. -/
  | error
  /-- The end of the source. -/
  | eof
  deriving DecidableEq, Repr

namespace TokenKind

/-- What messages call a token of this kind. -/
def name : TokenKind → String
  | leftBrace => "'\x7b'"
  | rightBrace => "'\x7d'"
  | leftParen => "'('"
  | rightParen => "')'"
  | leftBracket => "'['"
  | rightBracket => "']'"
  | colon => "':'"
  | semicolon => "';'"
  | comma => "','"
  | bang => "'!'"
  | slash => "'/'"
  | greater => "'>'"
  | plus => "'+'"
  | tilde => "'~'"
  | star => "'*'"
  | dot => "'.'"
  | equals => "'='"
  | atKeyword => "at-keyword"
  | url => "url"
  | function => "function"
  | ident => "identifier"
  | hash => "hash"
  | number => "number"
  | string => "string"
  | error => "unknown character"
  | eof => "end of file"

end TokenKind

/-- A token. -/
structure Token where
  kind : TokenKind
  span : Span
  deriving DecidableEq, Repr

namespace Source

/-- The token that stands for the end of the source. -/
def endToken (src : Source) : Token := ⟨.eof, .point src.size⟩

/-- The token to be read next: the first one left, or the end of the source. -/
def peek (src : Source) (tokens : List Token) : Token := tokens.headD src.endToken

@[simp] theorem peek_nil (src : Source) : src.peek [] = src.endToken := rfl

@[simp] theorem peek_cons (src : Source) (t : Token) (ts : List Token) :
    src.peek (t :: ts) = t := rfl

/-- The text of a token. -/
def tokenText (src : Source) (token : Token) : String := src.text token.span

/-- The text from the first to the last of some tokens, with all that stands
between them. -/
def textOf (src : Source) (tokens : List Token) : String :=
  match Span.coverAll? (tokens.map Token.span) with
  | some span => src.text span
  | none => ""

end Source
end SheetLint
