import SheetLint.Token.Grammar

/-! # Reading the tokens of a source

At each place the longest text that some pattern of the grammar describes is
read (`nextLexeme`).  Where no pattern describes anything, an `error` token
covers what could still have become a token, and at least one character.
`Source.tokens` are the tokens of a whole source; the last one is `eof`.
-/
namespace SheetLint
open Text

/-- A piece at the start of a text: its number of characters, and the kind of
token it makes, if any. -/
structure Lexeme where
  length : Nat
  kind : Option TokenKind
  length_pos : 0 < length

/-- The longest match of the grammar at the start of a text: its length, 0 if
there is none, and what it makes. -/
def longestMatch (cs : List Char) : Nat × Option TokenKind :=
  tokenGrammar.foldl
    (fun best rule =>
      let n := rule.2.furthest cs
      if best.1 < n then (n, rule.1) else best)
    (0, some .error)

/-- The length of the longest prefix of a text with which some token could
begin. -/
def longestReach (cs : List Char) : Nat :=
  tokenGrammar.foldl (fun best rule => max best (rule.2.reach cs)) 0

/-- The piece at the start of a text that is not empty. -/
def nextLexeme (cs : List Char) : Lexeme :=
  match longestMatch cs with
  | (n + 1, kind) => ⟨n + 1, kind, by omega⟩
  | (0, _) => ⟨max 1 (longestReach cs), some .error, by omega⟩

/-- The tokens of a text standing at `offset`, behind those already found. -/
def tokensFrom (offset : Nat) (found : Array Token) : List Char → Array Token
  | [] => found.push ⟨.eof, .point offset⟩
  | c :: cs =>
    let lexeme := nextLexeme (c :: cs)
    let stop := offset + byteSize ((c :: cs).take lexeme.length)
    let found :=
      match lexeme.kind with
      | some kind => found.push ⟨kind, ⟨offset, stop⟩⟩
      | none => found
    tokensFrom stop found ((c :: cs).drop lexeme.length)
termination_by cs => cs.length
decreasing_by
  have := (nextLexeme (c :: cs)).length_pos
  simp only [List.length_drop, List.length_cons]
  omega

/-- The tokens of a source, up to and including its end. -/
def Source.tokens (src : Source) : List Token :=
  (tokensFrom 0 #[] src.chars).toList

end SheetLint
