import SheetLint.Pattern
import SheetLint.Token

/-! # How tokens are spelled

`tokenGrammar` lists the patterns of all tokens, and the pattern of what is
skipped between them: white space and comments.  No text has two readings: the
patterns describe disjoint sets of words.
-/
namespace SheetLint
open Pattern

/-- The double quote. -/
def doubleQuote : Char := '\x22'

/-- The single quote. -/
def singleQuote : Char := '\x27'

/-- The backslash, which takes the meaning from the character behind it. -/
def backslash : Char := '\x5c'

namespace TokenGrammar

/-- The white space of stylesheets. -/
def blanks : List Char := [' ', '\t', '\r', '\n', '\x0c']

/-- The characters that start a name. -/
def nameStart : Pattern Char := oneOf (.within [('a', 'z'), ('A', 'Z'), ('_', '_')])

/-- The characters inside a name. -/
def nameRest : SymbolSet Char :=
  .within [('a', 'z'), ('A', 'Z'), ('0', '9'), ('_', '_'), ('-', '-')]

/-- The start of a name and the rest of it. -/
def name : Pattern Char := seq nameStart (many (oneOf nameRest))

/-- A hyphen, or nothing. -/
def hyphen : Pattern Char := opt (symbol '-')

/-- A backslash and the character it protects, which is no line feed. -/
def escape : Pattern Char := seq (symbol backslash) (oneOf (.except ['\n']))

/-- A string between two quotes: no bare quote and no bare line feed inside. -/
def quoted (quote : Char) : Pattern Char :=
  seq (symbol quote)
    (seq (many (alt (oneOf (.except [quote, backslash, '\n'])) escape)) (symbol quote))

/-- The target of a `url(…)` without quotes. -/
def bareTarget : Pattern Char :=
  many (alt (oneOf (.except ([')', doubleQuote, singleQuote, backslash] ++ blanks))) escape)

/-- Any amount of white space. -/
def padding : Pattern Char := many (oneOf (.among blanks))

/-- An ASCII letter in either case. -/
def letter (small capital : Char) : Pattern Char := oneOf (.among [small, capital])

/-- A `url(…)` with a quoted or a bare target. -/
def url : Pattern Char :=
  seq (letter 'u' 'U') <| seq (letter 'r' 'R') <| seq (letter 'l' 'L') <| seq (symbol '(') <|
    seq padding <|
    seq (alt (quoted doubleQuote) (alt (quoted singleQuote) bareTarget)) <|
    seq padding (symbol ')')

/-- An identifier: a name behind at most two hyphens. -/
def ident : Pattern Char := seq hyphen (seq hyphen name)

/-- One digit or more. -/
def digits : Pattern Char := atLeastOne (oneOf (.within [('0', '9')]))

/-- A decimal number with an optional sign and an optional unit. -/
def number : Pattern Char :=
  seq (opt (oneOf (.among ['+', '-']))) <|
    seq (alt (seq digits (opt (seq (symbol '.') digits))) (seq (symbol '.') digits)) <|
    opt (alt (atLeastOne (oneOf (.within [('a', 'z'), ('A', 'Z')]))) (symbol '%'))

/-- A comment: it ends with the first `*/` behind its start. -/
def comment : Pattern Char :=
  seq (word ['/', '*']) <|
    seq
      (many (alt (oneOf (.except ['*']))
        (seq (atLeastOne (symbol '*')) (oneOf (.except ['*', '/']))))) <|
    seq (atLeastOne (symbol '*')) (symbol '/')

/-- What may stand between two tokens: white space or a comment. -/
def skipped : Pattern Char := alt (atLeastOne (oneOf (.among blanks))) comment

end TokenGrammar

open TokenGrammar in
/-- The pattern of each kind of token; `none` stands for what is skipped. -/
def tokenGrammar : List (Option TokenKind × Pattern Char) :=
  [(none, skipped),
   (some .leftBrace, symbol '{'),
   (some .rightBrace, symbol '}'),
   (some .leftParen, symbol '('),
   (some .rightParen, symbol ')'),
   (some .leftBracket, symbol '['),
   (some .rightBracket, symbol ']'),
   (some .colon, symbol ':'),
   (some .semicolon, symbol ';'),
   (some .comma, symbol ','),
   (some .bang, symbol '!'),
   (some .slash, symbol '/'),
   (some .greater, symbol '>'),
   (some .plus, symbol '+'),
   (some .tilde, symbol '~'),
   (some .star, symbol '*'),
   (some .dot, symbol '.'),
   (some .equals, symbol '='),
   (some .atKeyword, seq (symbol '@') (seq hyphen TokenGrammar.name)),
   (some .url, TokenGrammar.url),
   (some .function, seq TokenGrammar.ident (symbol '(')),
   (some .ident, TokenGrammar.ident),
   (some .hash, seq (symbol '#') (atLeastOne (oneOf nameRest))),
   (some .number, TokenGrammar.number),
   (some .string, alt (quoted doubleQuote) (quoted singleQuote))]

end SheetLint
