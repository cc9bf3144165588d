import SheetLint.Stylesheet.Item
import SheetLint.Token.Lexer

/-! # Reading stylesheets

`Stylesheet.read` turns a source into its events and faults.  Reading keeps the
list of blocks that are open; the innermost one says what its items may be.  A
closing brace ends the innermost block, and the end of the source ends all of
them, each with a fault.

`readBody` reads the items of any body up to the brace that closes it; a whole
sheet is the body in which a closing brace has nothing to close.
-/
namespace SheetLint

/-- The events and faults of a reading so far. -/
structure Trail where
  events : Array Event := #[]
  faults : Array Fault := #[]

namespace Trail

/-- The trail behind one more item. -/
def add (trail : Trail) (events : List Event) (faults : List Fault) : Trail :=
  ⟨trail.events ++ events.toArray, trail.faults ++ faults.toArray⟩

/-- The trail once the source has ended inside the given blocks, innermost
first. -/
def endAll (trail : Trail) (src : Source) (nest : List BlockKind) (tokens : List Token) :
    Trail :=
  let position := src.position (src.peek tokens).span.start
  trail.add (nest.map fun kind => .endBlock kind "" position)
    (nest.map fun _ => src.fault tokens (.unexpectedEnd .rightBrace))

end Trail

/-- The body whose items are read while the blocks of `nest` are open, innermost
first, in a body `base`. -/
def innermost (base : Body) : List BlockKind → Body
  | [] => base
  | kind :: _ => kind.body

/-- Reads items until the body `base` is closed or the source ends, and tells
which tokens are left. -/
def readFrom (src : Source) (base : Body) (trail : Trail) (nest : List BlockKind) :
    List Token → Trail × List Token
  | [] => (trail.endAll src nest [], [])
  | t :: ts =>
    if _he : t.kind = .eof then
      (trail.endAll src nest (t :: ts), t :: ts)
    else if _hb : t.kind = .rightBrace then
      match nest with
      | kind :: outer =>
        let trail := trail.add [.endBlock kind "" (src.position t.span.start)] []
        readFrom src base trail outer ts
      | [] =>
        if base = .sheet then
          readFrom src base (trail.add [] [src.unexpected (t :: ts) .rule]) [] ts
        else
          (trail, t :: ts)
    else
      let item := readItem src (innermost base nest) t ts
      readFrom src base (trail.add item.events item.faults) (item.opened.toList ++ nest) item.rest
termination_by tokens => tokens.length
decreasing_by
  · exact Nat.lt_succ_self _
  · exact Nat.lt_succ_self _
  · exact length_readItem_lt src _ ts _he _hb

/-- Reads the items of a body. -/
def readBody (src : Source) (base : Body) (tokens : List Token) : Trail × List Token :=
  readFrom src base {} [] tokens

/-- The events and faults of a stylesheet, in the order of the source. -/
structure Stylesheet where
  events : List Event
  faults : List Fault
  deriving DecidableEq, Repr

/-- Reads a source. -/
def Stylesheet.read (src : Source) : Stylesheet :=
  let trail := (readBody src .sheet src.tokens).1
  ⟨trail.events.toList, trail.faults.toList⟩

/-- Reads the text of a stylesheet. -/
def Stylesheet.ofString (text : String) : Stylesheet :=
  .read (.ofString text)

end SheetLint
