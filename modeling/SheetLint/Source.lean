import SheetLint.Text.Utf8

/-! # Sources and places in them

A source is the text of one stylesheet.  Tokens know their place as a `Span` of
byte offsets; messages show a `Position`, the line and column of a character.
`Source.position` finds it by a search in the table of line starts that every
source carries, and `Source.text` is the text of a span.
-/
namespace SheetLint
open Text

/-- A half-open range of byte offsets. -/
structure Span where
  start : Nat
  stop : Nat
  deriving DecidableEq, Repr

namespace Span

/-- The empty span at an offset. -/
def point (offset : Nat) : Span := ⟨offset, offset⟩

/-- Whether a span starts where it stops. -/
def isEmpty (s : Span) : Bool := s.start == s.stop

/-- The smallest span around two spans. -/
def cover (s t : Span) : Span := ⟨min s.start t.start, max s.stop t.stop⟩

/-- The smallest span around all spans of a list. -/
def coverAll? : List Span → Option Span
  | [] => none
  | s :: ss => some (ss.foldl cover s)

end Span

/-- A line and a column, both counted from 1; columns count characters. -/
structure Position where
  line : Nat
  column : Nat
  deriving DecidableEq, Repr

namespace Position

/-- The order of positions: by line, then by column. -/
def le (p q : Position) : Bool :=
  decide (p.line < q.line) || (p.line == q.line && decide (p.column ≤ q.column))

/-- The usual spelling, `line:column`. -/
def render (p : Position) : String :=
  toString p.line ++ ":" ++ toString p.column

end Position

/-- A line of a source: the offset at which it starts, and the source from there
on. -/
structure Line where
  start : Nat
  onward : List Char
  deriving DecidableEq, Repr

/-- The lines that start behind the line feeds of a text standing at `offset`,
added to `found`. -/
def linesFrom (offset : Nat) (found : Array Line) : List Char → Array Line
  | [] => found
  | c :: cs =>
    let next := offset + c.utf8Size
    linesFrom next (if c = '\n' then found.push ⟨next, cs⟩ else found) cs

/-- The lines of a text.  Only a line feed ends a line, and there is always a
first line. -/
def lineTable (cs : List Char) : Array Line :=
  linesFrom 0 #[⟨0, cs⟩] cs

/-- A stylesheet's text with its size in bytes and its table of lines. -/
structure Source where
  chars : List Char
  size : Nat
  lines : Array Line
  size_eq : size = byteSize chars
  lines_eq : lines = lineTable chars

namespace Source

/-- The source with the given text. -/
def ofString (text : String) : Source :=
  let chars := text.toList
  ⟨chars, byteSize chars, lineTable chars, rfl, rfl⟩

/-- The number of lines: one more than there are line feeds. -/
def lineCount (src : Source) : Nat := src.lines.size

/-- Halves the range `lo` to `hi` of a table until one line is left, keeping a
line that starts at or before `offset` at its lower end. -/
def searchLine (table : Array Line) (offset lo hi : Nat) : Nat :=
  if lo + 1 < hi then
    let mid := (lo + hi) / 2
    if (table[mid]?.any fun line => line.start ≤ offset) then
      searchLine table offset mid hi
    else
      searchLine table offset lo mid
  else
    lo
termination_by hi - lo

/-- The index of the last line that starts at or before `offset`. -/
def lineIndex (src : Source) (offset : Nat) : Nat :=
  searchLine src.lines offset 0 src.lines.size

/-- The line of a given index. -/
def lineAt (src : Source) (index : Nat) : Line :=
  src.lines[index]?.getD ⟨0, src.chars⟩

/-- The position of a byte offset.  An offset past the end counts as the end;
one inside a character has no column of its own and gets the bytes since the
start of the line in place of the characters. -/
def position (src : Source) (offset : Nat) : Position :=
  let offset := min offset src.size
  let index := src.lineIndex offset
  let line := src.lineAt index
  let width := offset - line.start
  ⟨index + 1, (charsIn? width line.onward).getD width + 1⟩

/-- The characters of a span, if it starts and stops between characters. -/
def slice? (src : Source) (span : Span) : Option (List Char) :=
  if span.stop < span.start then
    none
  else
    let line := src.lineAt (src.lineIndex span.start)
    (dropBytes? (span.start - line.start) line.onward).bind fun cs =>
      (charsIn? (span.stop - span.start) cs).map cs.take

/-- The text of a span, empty if there is none. -/
def text (src : Source) (span : Span) : String :=
  String.ofList ((src.slice? span).getD [])

end Source
end SheetLint
