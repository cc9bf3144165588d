import SheetLint.Token.Grammar

/-! # Comments in configurations

A configuration is JSON with comments: `//` to the end of the line, and `/*` to
the next `*/`.  Inside a string there are no comments.  `removeComments` takes
them out and keeps everything else.
-/
namespace SheetLint.Config

/-- Where a place of a configuration lies. -/
inductive CommentState where
  | outside
  | inString
  | inLine
  | inBlock
  deriving DecidableEq, Repr

/-- The text without its comments, from a place in the given state on. -/
def removeFrom : CommentState → List Char → List Char
  | _, [] => []
  | .outside, [c] => [c]
  | .outside, c :: d :: cs =>
    if c = doubleQuote then c :: removeFrom .inString (d :: cs)
    else if c = '/' ∧ d = '/' then removeFrom .inLine cs
    else if c = '/' ∧ d = '*' then removeFrom .inBlock cs
    else c :: removeFrom .outside (d :: cs)
  | .inString, [c] => [c]
  | .inString, c :: d :: cs =>
    if c = doubleQuote then c :: removeFrom .outside (d :: cs)
    else if c = backslash then c :: d :: removeFrom .inString cs
    else c :: removeFrom .inString (d :: cs)
  | .inLine, c :: cs =>
    if c = '\n' then c :: removeFrom .outside cs else removeFrom .inLine cs
  | .inBlock, [_] => []
  | .inBlock, c :: d :: cs =>
    if c = '*' ∧ d = '/' then removeFrom .outside cs else removeFrom .inBlock (d :: cs)

/-- The text without its comments. -/
def removeComments (cs : List Char) : List Char := removeFrom .outside cs

end SheetLint.Config
