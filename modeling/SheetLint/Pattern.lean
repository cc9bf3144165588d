/-! # Patterns

A pattern describes a set of words over an ordered alphabet: characters for the
tokens of a stylesheet, bytes for the globs of a command line.  `Matches` says
which words a pattern describes.  Matching a prefix goes symbol by symbol: the
derivative of a pattern by a symbol (`Pattern.deriv`) describes what may follow
that symbol, and a pattern that describes the empty word (`Pattern.nullable`)
has been matched.

The two questions a tokenizer asks are answered without backtracking:

* `Pattern.furthest` is the length of the longest non-empty prefix of a text
  that the pattern describes;
* `Pattern.reach` is the length of the longest prefix that can still be
  completed to a word of the pattern.
-/
namespace SheetLint

/-- A set of symbols: those in one of the closed ranges, or those in none. -/
structure SymbolSet (σ : Type) where
  /-- The closed ranges, first and last symbol. -/
  ranges : List (σ × σ)
  /-- Whether the set is the complement of the ranges. -/
  negated : Bool
  deriving DecidableEq, Repr

namespace SymbolSet
variable {σ : Type}

/-- The symbols in one of the ranges. -/
def within (ranges : List (σ × σ)) : SymbolSet σ := ⟨ranges, false⟩

/-- The symbols in none of the ranges. -/
def outside (ranges : List (σ × σ)) : SymbolSet σ := ⟨ranges, true⟩

/-- The symbols of a list. -/
def among (symbols : List σ) : SymbolSet σ := within (symbols.map fun a => (a, a))

/-- The symbols not in a list. -/
def except (symbols : List σ) : SymbolSet σ := outside (symbols.map fun a => (a, a))

/-- Every symbol. -/
def all : SymbolSet σ := outside []

variable [LE σ] [DecidableLE σ]

/-- Whether a symbol belongs to the set. -/
def contains (s : SymbolSet σ) (a : σ) : Bool :=
  s.negated != s.ranges.any fun r => decide (r.1 ≤ a) && decide (a ≤ r.2)

end SymbolSet

/-- A regular expression. -/
inductive Pattern (σ : Type) where
  /-- No word. -/
  | never
  /-- The empty word. -/
  | empty
  /-- One symbol of a set. -/
  | oneOf (set : SymbolSet σ)
  /-- A word of the first pattern followed by one of the second. -/
  | seq (first second : Pattern σ)
  /-- A word of either pattern. -/
  | alt (left right : Pattern σ)
  /-- Any number of words of a pattern, one after another. -/
  | many (item : Pattern σ)
  deriving DecidableEq, Repr

namespace Pattern
variable {σ : Type}

/-! ### Words -/

section Words
variable [LE σ] [DecidableLE σ]

/-- The words that a pattern describes. -/
inductive Matches : Pattern σ → List σ → Prop where
  | empty : Matches empty []
  | oneOf {s : SymbolSet σ} {a : σ} (h : s.contains a = true) : Matches (oneOf s) [a]
  | seq {p q : Pattern σ} {u v : List σ} (hu : Matches p u) (hv : Matches q v) :
      Matches (seq p q) (u ++ v)
  | left {p q : Pattern σ} {w : List σ} (h : Matches p w) : Matches (alt p q) w
  | right {p q : Pattern σ} {w : List σ} (h : Matches q w) : Matches (alt p q) w
  | done {p : Pattern σ} : Matches (many p) []
  | more {p : Pattern σ} {u v : List σ} (hu : Matches p u) (hv : Matches (many p) v) :
      Matches (many p) (u ++ v)

end Words

/-! ### Building patterns -/

/-- Exactly the given symbol. -/
def symbol (a : σ) : Pattern σ := oneOf (.among [a])

/-- Exactly the given word. -/
def word : List σ → Pattern σ
  | [] => empty
  | [a] => symbol a
  | a :: w => seq (symbol a) (word w)

/-- A word of the pattern, or nothing. -/
def opt (p : Pattern σ) : Pattern σ := alt p empty

/-- At least one word of the pattern. -/
def atLeastOne (p : Pattern σ) : Pattern σ := seq p (many p)

/-! ### Derivatives -/

/-- Whether the pattern describes the empty word. -/
def nullable : Pattern σ → Bool
  | never => false
  | empty => true
  | oneOf _ => false
  | seq p q => nullable p && nullable q
  | alt p q => nullable p || nullable q
  | many _ => true

/-- Whether the pattern plainly describes no word: a symbol set counts as
having members. -/
def isVoid : Pattern σ → Bool
  | never => true
  | empty => false
  | oneOf _ => false
  | seq p q => isVoid p || isVoid q
  | alt p q => isVoid p && isVoid q
  | many _ => false

/-- A `seq` with the trivial cases taken out. -/
def andThen : Pattern σ → Pattern σ → Pattern σ
  | never, _ => never
  | empty, q => q
  | _, never => never
  | p, q => seq p q

section Derivatives
variable [DecidableEq σ]

/-- Whether `q` is among the alternatives of a pattern. -/
def offers (q : Pattern σ) : Pattern σ → Bool
  | alt l r => offers q l || offers q r
  | p => decide (p = q)

/-- An `alt` with the trivial cases taken out, and without the alternatives of the
second pattern that the first one has already. -/
def orElse (p : Pattern σ) : Pattern σ → Pattern σ
  | never => p
  | alt l r => orElse (orElse p l) r
  | q =>
    match p with
    | never => q
    | _ => if offers q p then p else alt p q

variable [LE σ] [DecidableLE σ]

/-- What may follow the symbol `a` in a word of the pattern. -/
def deriv (a : σ) : Pattern σ → Pattern σ
  | never => never
  | empty => never
  | oneOf s => if s.contains a then empty else never
  | seq p q =>
    if nullable p then orElse (andThen (deriv a p) q) (deriv a q)
    else andThen (deriv a p) q
  | alt p q => orElse (deriv a p) (deriv a q)
  | many p => andThen (deriv a p) (many p)

/-- The value of `furthest` for what is left of a pattern once `n` symbols have been read, of
which `best` made a word. -/
def furthestFrom (n best : Nat) (p : Pattern σ) : List σ → Nat
  | [] => best
  | a :: w =>
    let q := deriv a p
    if isVoid q then best
    else furthestFrom (n + 1) (if nullable q then n + 1 else best) q w

/-- The length of the longest non-empty prefix of a text that the pattern
describes, 0 if there is none. -/
def furthest (p : Pattern σ) (text : List σ) : Nat :=
  furthestFrom 0 0 p text

/-- The value of `reach` for what is left of a pattern once `n` symbols have been read. -/
def reachFrom (n : Nat) (p : Pattern σ) : List σ → Nat
  | [] => n
  | a :: w =>
    let q := deriv a p
    if isVoid q then n else reachFrom (n + 1) q w

/-- The length of the longest prefix of a text that is a prefix of some word of
the pattern. -/
def reach (p : Pattern σ) (text : List σ) : Nat :=
  reachFrom 0 p text

end Derivatives

end Pattern
end SheetLint
