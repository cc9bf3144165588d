import SheetLint.Event
import SheetLint.Text.Ascii

/-! # References to resources

A reference is one URL that a stylesheet mentions: the target of an import, or a
`url(…)` in the value of a property that can load something.
-/
namespace SheetLint
open Text

/-- One mention of a URL. -/
structure Reference where
  /-- The property in small letters, or `@import`. -/
  name : String
  /-- The URL as written. -/
  raw : String
  position : Position
  /-- What the URL points at. -/
  path : String
  deriving DecidableEq, Repr

/-- The properties whose values load resources. -/
def resourceProperties : List String :=
  ["background", "background-image", "border-image", "border-image-source", "content", "src"]

/-- Whether the values of a property load resources. -/
def isResourceProperty (name : String) : Bool :=
  resourceProperties.any (sameWord name)

/-- The references in a declaration: one for each `url(…)` among the parts of its
value. -/
def Declaration.references (decl : Declaration) : List Reference :=
  if isResourceProperty decl.name then
    (decl.value.parts.filter fun part => part.kind == .uri).map fun part =>
      ⟨lower decl.name, part.text, part.position, part.uri.getD ""⟩
  else
    []

/-- The reference of an import. -/
def ImportRule.reference (statement : ImportRule) : Reference :=
  ⟨"@import", statement.uri, statement.position, statement.uri⟩

end SheetLint
