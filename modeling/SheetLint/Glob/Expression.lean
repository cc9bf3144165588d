import SheetLint.Glob

/-! # Globs as expressions

A glob can be written as a regular expression over bytes, which is how messages show
it.  Expressions may be nested only up to a limit: a group, its alternatives, items
side by side, a repetition and a class with more than one item are each a level.
-/
namespace SheetLint.Glob

/-- A regular expression as it is written: items side by side. -/
structure Expression where
  text : String
  /-- How many items there are. -/
  items : Nat
  /-- The levels of the item with the most of them. -/
  depth : Nat
  deriving DecidableEq, Repr

namespace Expression

/-- Nothing. -/
def none : Expression := ⟨"", 0, 0⟩

/-- The items of both, side by side. -/
def append (e f : Expression) : Expression :=
  ⟨e.text ++ f.text, e.items + f.items, max e.depth f.depth⟩

instance : Append Expression := ⟨append⟩

/-- The levels of an expression as a whole: more than one item makes a level. -/
def levels (e : Expression) : Nat := if e.items ≤ 1 then e.depth else e.depth + 1

/-- The characters that have a meaning in an expression. -/
def signs : List Char :=
  ['\\', '.', '+', '*', '?', '(', ')', '|', '[', ']', '{', '}', '^', '$', '#', '&', '-', '~']

/-- The spelling of a byte.  Signs have a backslash in front, and bytes outside ASCII
are written by their number. -/
def spellByte (b : UInt8) : String :=
  if 0x80 ≤ b then "\\x" ++ String.ofList (Nat.toDigits 16 b.toNat)
  else
    let c := Char.ofNat b.toNat
    if signs.contains c then "\\" ++ c.toString else c.toString

/-- The spelling of a character: that of its bytes. -/
def spell (c : Char) : String := String.join ((charBytes c).map spellByte)

/-- A character stands for its bytes, which are one item each. -/
def char (c : Char) : Expression := ⟨spell c, (charBytes c).length, 0⟩

/-- Any byte. -/
def any : Expression := ⟨".", 1, 0⟩

/-- An item with a sign behind it that says how often it occurs. -/
def repeated (item : Expression) (sign : String) : Expression :=
  ⟨item.text ++ sign, 1, item.depth + 1⟩

/-- Any bytes. -/
def anyText : Expression := any.repeated "*"

/-- A slash. -/
def slash : Expression := char '/'

/-- A group of alternatives.  Empty ones are left out, and a group without others is
nothing. -/
def group (branches : List Expression) : Expression :=
  match branches.filter fun branch => branch.items ≠ 0 with
  | [] => none
  | [branch] => ⟨"(?:" ++ branch.text ++ ")", 1, branch.levels + 1⟩
  | branches =>
    ⟨"(?:" ++ "|".intercalate (branches.map text) ++ ")", 1,
      (branches.map levels).foldl max 0 + 2⟩

/-- A range of a class. -/
def spellRange (range : Char × Char) : String :=
  if range.1 = range.2 then spell range.1 else spell range.1 ++ "-" ++ spell range.2

/-- A class. -/
def oneOf (set : CharClass) : Expression :=
  ⟨"[" ++ (if set.negated then "^" else "") ++ String.join (set.ranges.map spellRange) ++ "]",
    1, if (set.ranges.flatMap byteRanges).length = 1 then 1 else 2⟩

/-- The most levels that an expression may have. -/
def maxLevels : Nat := 250

end Expression

mutual

/-- The expression of a part. -/
def Part.expression : Part → Expression
  | .literal c => .char c
  | .any => .any
  | .anyText => .anyText
  | .leadingFolders => .group [.repeated .slash "?", .anyText ++ .slash]
  | .allBelow => .slash ++ .anyText
  | .foldersBetween => .group [.slash, .slash ++ .anyText ++ .slash]
  | .oneOf set => .oneOf set
  | .group branches => .group (branchExpressions branches)

/-- The expression of parts, one after another. -/
def sequenceExpression : List Part → Expression
  | [] => .none
  | part :: parts => part.expression ++ sequenceExpression parts

/-- The expression of each of some alternatives. -/
def branchExpressions : List (List Part) → List Expression
  | [] => []
  | branch :: branches => sequenceExpression branch :: branchExpressions branches

end

/-- The expression of a whole glob.  It works on bytes and on paths from start to
end; the signs for that are an item each. -/
def expression (glob : Glob) : Expression :=
  let inner :=
    match glob.parts with
    | [.leadingFolders] => .anyText
    | parts => sequenceExpression parts
  ⟨"(?-u)^", 2, 0⟩ ++ inner ++ ⟨"$", 1, 0⟩

/-- Whether the expression of a glob has more levels than it may. -/
def isTooDeep (glob : Glob) : Bool := Expression.maxLevels < glob.expression.levels

example : (Expression.oneOf ⟨true, [('a', 'a'), ('-', '-')]⟩).text = "[^a\\-]" := by
  decide +kernel
example : (Part.expression .leadingFolders) = ⟨"(?:/?|.*/)", 1, 4⟩ := by decide +kernel

end SheetLint.Glob
