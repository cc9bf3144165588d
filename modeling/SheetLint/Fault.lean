import SheetLint.Token

/-! # Faults

What can be wrong with a stylesheet.  Reading goes on behind a fault; the faults
are collected beside the events.
-/
namespace SheetLint

/-- What was missing at the place of a fault. -/
inductive Expected where
  | leftBrace
  | rightBrace
  | colon
  | semicolon
  | important
  | rule
  | propertyName
  deriving DecidableEq, Repr

/-- What messages call the missing thing. -/
def Expected.name : Expected → String
  | leftBrace => TokenKind.leftBrace.name
  | rightBrace => TokenKind.rightBrace.name
  | colon => TokenKind.colon.name
  | semicolon => TokenKind.semicolon.name
  | important => "'important'"
  | rule => "a rule"
  | propertyName => "a property name"

/-- The causes of faults. -/
inductive FaultKind where
  /-- Another token was expected; `found` is the text that stands there, `none`
  at the end of the source. -/
  | unexpectedToken (expected : Expected) (found : Option String)
  /-- The source ends inside a block. -/
  | unexpectedEnd (expected : Expected)
  /-- An at-rule that nothing is known about. -/
  | unknownAtRule (name : String)
  /-- An `@import` without a string or `url(…)`. -/
  | missingImportTarget
  /-- A declaration without a value. -/
  | emptyValue (property : String)
  deriving DecidableEq, Repr

/-- The message for a fault. -/
def FaultKind.message : FaultKind → String
  | unexpectedToken expected (some text) =>
    "unexpected token: expected " ++ expected.name ++ ", found '" ++ text ++ "'"
  | unexpectedToken expected none =>
    "unexpected token: expected " ++ expected.name ++ ", found " ++ TokenKind.eof.name
  | unexpectedEnd expected => "unexpected end of file: expected " ++ expected.name
  | unknownAtRule name => "unknown @ rule: " ++ name
  | missingImportTarget => "@import is missing its target"
  | emptyValue property => "expected a value for property '" ++ property ++ "'"

/-- A fault and its place. -/
structure Fault where
  kind : FaultKind
  span : Span
  position : Position
  deriving DecidableEq, Repr

namespace Source

/-- A fault at the token to be read next. -/
def fault (src : Source) (tokens : List Token) (kind : FaultKind) : Fault :=
  let span := (src.peek tokens).span
  ⟨kind, span, src.position span.start⟩

/-- The fault of not finding what was expected at the token to be read next. -/
def unexpected (src : Source) (tokens : List Token) (expected : Expected) : Fault :=
  let token := src.peek tokens
  src.fault tokens <| .unexpectedToken expected <|
    if token.kind = .eof then none else some (src.tokenText token)

end Source
end SheetLint
