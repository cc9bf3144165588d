import SheetLint.Pattern

/-! # Marked patterns

Whether a pattern describes a text as a whole can be told with marks on its symbols: a
mark says that what has been read may end with that symbol.  Reading a symbol moves
the marks on (`Marked.shift`).  The pattern itself stays as it is, so each symbol of a
text costs the same however many ways there are to match it.
-/
namespace SheetLint

/-- A pattern with a mark on some of its symbols. -/
inductive Marked (σ : Type) where
  | never
  | empty
  | oneOf (set : SymbolSet σ) (mark : Bool)
  | seq (first second : Marked σ)
  | alt (left right : Marked σ)
  | many (item : Marked σ)

namespace Marked
variable {σ : Type}

/-- A pattern without marks. -/
def ofPattern : Pattern σ → Marked σ
  | .never => never
  | .empty => empty
  | .oneOf set => oneOf set false
  | .seq p q => seq (ofPattern p) (ofPattern q)
  | .alt p q => alt (ofPattern p) (ofPattern q)
  | .many p => many (ofPattern p)

/-- Whether the pattern describes the empty word. -/
def nullable : Marked σ → Bool
  | never => false
  | empty => true
  | oneOf _ _ => false
  | seq p q => nullable p && nullable q
  | alt p q => nullable p || nullable q
  | many _ => true

/-- Whether there is a mark where a word may end. -/
def ends : Marked σ → Bool
  | never => false
  | empty => false
  | oneOf _ mark => mark
  | seq p q => ends q || (nullable q && ends p)
  | alt p q => ends p || ends q
  | many p => ends p

variable [LE σ] [DecidableLE σ]

/-- Moves the marks on over the symbol `a`: from each mark to the symbols that may
follow it and, if a word may begin, to those it may begin with. -/
def shift (begins : Bool) (a : σ) : Marked σ → Marked σ
  | never => never
  | empty => empty
  | oneOf set _ => oneOf set (begins && set.contains a)
  | seq p q => seq (shift begins a p) (shift ((begins && nullable p) || ends p) a q)
  | alt p q => alt (shift begins a p) (shift begins a q)
  | many p => many (shift (begins || ends p) a p)

end Marked

variable {σ : Type} [LE σ] [DecidableLE σ]

/-- Whether the pattern describes a text as a whole. -/
def Pattern.accepts (p : Pattern σ) : List σ → Bool
  | [] => p.nullable
  | a :: w => (w.foldl (fun m b => m.shift false b) ((Marked.ofPattern p).shift true a)).ends

end SheetLint
