import SheetLint.Event
import SheetLint.Fault
import SheetLint.Text.Ascii
import SheetLint.Token.Target

/-! # Values of declarations

The tokens behind a colon, up to the `;` or the brace that ends the declaration,
make the parts of a value (`readParts`).  A part is one token, or a group: a
function or an opening parenthesis with all that it encloses.  The mark
`!important` is no part.
-/
namespace SheetLint
open Text

/-- Puts a token in front of the first of two lists. -/
def consFirst (t : Token) (split : List Token × List Token) : List Token × List Token :=
  (t :: split.1, split.2)

/-- Splits off the tokens that close `depth` open parentheses.  A group also ends
before a `;`, before a closing brace, and at the end of the source. -/
def splitGroup (depth : Nat) : List Token → List Token × List Token
  | [] => ([], [])
  | t :: ts =>
    match t.kind with
    | .semicolon | .rightBrace | .eof => ([], t :: ts)
    | .rightParen => if depth ≤ 1 then ([t], ts) else consFirst t (splitGroup (depth - 1) ts)
    | .function | .leftParen => consFirst t (splitGroup (depth + 1) ts)
    | _ => consFirst t (splitGroup depth ts)

theorem splitGroup_append (depth : Nat) (ts : List Token) :
    (splitGroup depth ts).1 ++ (splitGroup depth ts).2 = ts := by
  fun_induction splitGroup depth ts <;> simp_all [consFirst]

theorem length_splitGroup_le (depth : Nat) (ts : List Token) :
    (splitGroup depth ts).2.length ≤ ts.length := by
  have h := congrArg List.length (splitGroup_append depth ts)
  rw [List.length_append] at h
  omega

/-- What a single token is as a part of a value. -/
def TokenKind.part : TokenKind → PartKind
  | .url => .uri
  | .ident => .identifier
  | .string => .string
  | .number => .number
  | .hash => .color
  | .function => .function
  | .comma | .slash => .operator
  | _ => .unknown

/-- What has been read of a value. -/
structure ValueScan where
  parts : List Part := []
  /-- The span around all parts. -/
  covered : Option Span := none
  important : Bool := false
  faults : List Fault := []

namespace ValueScan

/-- The scan with one more part, made of the given tokens. -/
def add (src : Source) (scan : ValueScan) (first : Token) (more : List Token) : ValueScan :=
  let span := (more.map Token.span).foldl Span.cover first.span
  let text := src.text span
  let part : Part :=
    { kind := first.kind.part
      text := text
      position := src.position span.start
      uri := if first.kind = .url then some (urlTarget text) else none }
  { scan with
    parts := scan.parts ++ [part]
    covered := some ((scan.covered.map fun c => c.cover span).getD span) }

/-- The scan with one more fault. -/
def blame (scan : ValueScan) (fault : Fault) : ValueScan :=
  { scan with faults := scan.faults ++ [fault] }

/-- The value that has been read. -/
def value (src : Source) (scan : ValueScan) : Value :=
  ⟨(scan.covered.map src.text).getD "", scan.parts⟩

end ValueScan

/-- Whether the word `important` is to be read next. -/
def Source.atImportant (src : Source) (tokens : List Token) : Bool :=
  let token := src.peek tokens
  token.kind == .ident && sameWord (src.tokenText token) "important"

/-- Reads the parts of a value, up to the `;`, the brace or the end of the source
that stops it. -/
def readParts (src : Source) (scan : ValueScan) : List Token → ValueScan × List Token
  | [] => (scan, [])
  | t :: ts =>
    match t.kind with
    | .semicolon | .leftBrace | .rightBrace | .eof => (scan, t :: ts)
    | .bang =>
      if src.atImportant ts then readParts src { scan with important := true } ts.tail
      else readParts src (scan.blame (src.unexpected ts .important)) ts
    | .function | .leftParen =>
      readParts src (scan.add src t (splitGroup 1 ts).1) (splitGroup 1 ts).2
    | _ => readParts src (scan.add src t []) ts
termination_by ts => ts.length
decreasing_by
  all_goals simp only [List.length_cons, List.length_tail]
  all_goals have := length_splitGroup_le 1 ts
  all_goals omega

theorem length_readParts_le (src : Source) (scan : ValueScan) (ts : List Token) :
    (readParts src scan ts).2.length ≤ ts.length := by
  have hsplit := length_splitGroup_le 1
  fun_induction readParts src scan ts <;> grind

end SheetLint
