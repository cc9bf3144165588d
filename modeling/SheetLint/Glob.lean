import SheetLint.Pattern.Marked
import SheetLint.Text.Utf8

/-! # Globs

A glob describes a set of paths.

* `?` stands for any byte, and `*` for any text;
* `**/` in front stands for any folders or none, `/**/` for a slash or any folders
  between two, `/**` at the end for all that is below a folder, and `**` alone for
  everything.  Any other `**` is two times `*`;
* `[...]` stands for a byte of a class, `[!...]` and `[^...]` for one of no such
  class;
* `{a,b}` stands for what one of its alternatives stands for.  Alternatives that
  are empty do not count;
* a backslash takes the meaning from the next character.

`Glob.covers` applies a glob.  Behind it stands a `Pattern` over the bytes of a path
in UTF-8, so a character outside ASCII counts as its bytes, also in a class.
-/
namespace SheetLint
open Text

namespace Glob

/-- A class of characters between brackets. -/
structure CharClass where
  negated : Bool
  /-- The first and last character of each range. -/
  ranges : List (Char × Char)
  deriving DecidableEq, Repr

/-- One part of a glob. -/
inductive Part where
  | literal (c : Char)
  /-- A question mark. -/
  | any
  /-- A star. -/
  | anyText
  /-- Two stars and a slash, in front. -/
  | leadingFolders
  /-- A slash and two stars, at the end. -/
  | allBelow
  /-- Two stars between slashes. -/
  | foldersBetween
  | oneOf (set : CharClass)
  /-- A group, with the parts of each alternative. -/
  | group (branches : List (List Part))
  deriving Repr

/-! ### Meaning -/

/-- The bytes of a character. -/
def charBytes (c : Char) : List UInt8 := utf8 c.toString

/-- The slash, as a byte. -/
def slash : UInt8 := 0x2F

/-- Any byte. -/
def anyByte : Pattern UInt8 := .oneOf .all

/-- Any bytes. -/
def anyBytes : Pattern UInt8 := .many anyByte

/-- The ranges of bytes for a range of characters.  The last byte of the first
character and the first byte of the last one are the ends of a range, and every
other byte stands for itself. -/
def byteRanges (range : Char × Char) : List (UInt8 × UInt8) :=
  let single (b : UInt8) : UInt8 × UInt8 := (b, b)
  let first := charBytes range.1
  if range.1 = range.2 then
    first.map single
  else
    let last := charBytes range.2
    first.dropLast.map single ++ (first.getLast?.toList.zip last.head?.toList) ++
      last.tail.map single

/-- The bytes of a class. -/
def CharClass.bytes (set : CharClass) : SymbolSet UInt8 :=
  ⟨set.ranges.flatMap byteRanges, set.negated⟩

/-- What alternatives stand for, given what each stands for.  Empty ones do not
count, and a group of such stands for nothing. -/
def alternatives (branches : List (Pattern UInt8)) : Pattern UInt8 :=
  let patterns := branches.filter (· ≠ .empty)
  if patterns.isEmpty then .empty else patterns.foldl .orElse .never

mutual

/-- What a part stands for. -/
def Part.pattern : Part → Pattern UInt8
  | .literal c => .word (charBytes c)
  | .any => anyByte
  | .anyText => anyBytes
  | .leadingFolders => .alt (.opt (.symbol slash)) (.seq anyBytes (.symbol slash))
  | .allBelow => .seq (.symbol slash) anyBytes
  | .foldersBetween =>
    .alt (.symbol slash) (.seq (.symbol slash) (.seq anyBytes (.symbol slash)))
  | .oneOf set => .oneOf set.bytes
  | .group branches => alternatives (branchPatterns branches)

/-- What parts stand for, one after another. -/
def sequence : List Part → Pattern UInt8
  | [] => .empty
  | part :: parts => part.pattern.andThen (sequence parts)

/-- What each of some alternatives stands for. -/
def branchPatterns : List (List Part) → List (Pattern UInt8)
  | [] => []
  | branch :: branches => sequence branch :: branchPatterns branches

end

end Glob

/-- A glob that has been read. -/
structure Glob where
  parts : List Glob.Part
  deriving Repr

namespace Glob

/-- What a whole glob stands for, on the bytes of a path. -/
def pattern (glob : Glob) : Pattern UInt8 :=
  match glob.parts with
  | [.leadingFolders] => anyBytes
  | parts => sequence parts

/-- Whether a path is among those that a glob describes. -/
def covers (glob : Glob) (path : String) : Bool := glob.pattern.accepts (utf8 path)

end Glob
end SheetLint
