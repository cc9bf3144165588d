import SheetLint.Source

/-! # Events

Reading a stylesheet yields a flat list of events: imports, declarations, and
the start and end of each block.  Rules subscribe to kinds of events
(`EventKind`).  Every started block is ended, even when the source leaves it
open.
-/
namespace SheetLint

/-- The kinds of blocks. -/
inductive BlockKind where
  /-- A style rule, `selector { … }`. -/
  | rule
  | fontFace
  | page
  /-- A margin box inside a page, such as `@top-left { … }`. -/
  | pageMargin
  | keyframes
  /-- One step of an animation, such as `50% { … }`. -/
  | keyframeRule
  | media
  | supports
  | document
  | viewport
  deriving DecidableEq, Hashable, Repr

/-- The short name of a kind of block. -/
def BlockKind.name : BlockKind → String
  | rule => "rule"
  | fontFace => "fontface"
  | page => "page"
  | pageMargin => "pagemargin"
  | keyframes => "keyframes"
  | keyframeRule => "keyframerule"
  | media => "media"
  | supports => "supports"
  | document => "document"
  | viewport => "viewport"

/-- What a part of a value is. -/
inductive PartKind where
  | uri
  | identifier
  | string
  | number
  | color
  | function
  | operator
  | unknown
  deriving DecidableEq, Repr

/-- One part of the value of a declaration. -/
structure Part where
  kind : PartKind
  /-- The part as written. -/
  text : String
  position : Position
  /-- Where a `url(…)` points. -/
  uri : Option String
  deriving DecidableEq, Repr

/-- The value of a declaration. -/
structure Value where
  /-- The value as written, without `!important` at its ends. -/
  text : String
  parts : List Part
  deriving DecidableEq, Repr

/-- A character in front of a property name that only some browsers ignore. -/
inductive Hack where
  | star
  | underscore
  deriving DecidableEq, Repr

/-- A declaration, `name: value`. -/
structure Declaration where
  /-- The property, without its hack. -/
  name : String
  hack : Option Hack
  position : Position
  value : Value
  important : Bool
  deriving DecidableEq, Repr

/-- An `@import` with its target and its media queries. -/
structure ImportRule where
  uri : String
  media : List String
  position : Position
  deriving DecidableEq, Repr

/-- What happens while a stylesheet is read from front to back. -/
inductive Event where
  | importRule (statement : ImportRule)
  | declaration (decl : Declaration)
  /-- A block starts; its header is the text in front of the brace. -/
  | startBlock (kind : BlockKind) (header : String) (position : Position)
  /-- A block ends; the header is empty wherever the event comes from a source. -/
  | endBlock (kind : BlockKind) (header : String) (position : Position)
  deriving DecidableEq, Repr

/-- The kinds of events. -/
inductive EventKind where
  | importRule
  | declaration
  | startBlock (kind : BlockKind)
  | endBlock (kind : BlockKind)
  deriving DecidableEq, Hashable, Repr

namespace Event

/-- The kind of an event. -/
def kind : Event → EventKind
  | importRule _ => .importRule
  | declaration _ => .declaration
  | startBlock kind _ _ => .startBlock kind
  | endBlock kind _ _ => .endBlock kind

/-- Where an event happens. -/
def position : Event → Position
  | importRule statement => statement.position
  | declaration decl => decl.position
  | startBlock _ _ position => position
  | endBlock _ _ position => position

end Event
end SheetLint
