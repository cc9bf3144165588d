import SheetLint.Keyed
import SheetLint.Probe
import SheetLint.Resource.Url

/-! # Tests of paths

A path test finds fault with some paths.  Tests are kept in a registry, in the
order in which they report.
-/
namespace SheetLint
open Text

/-- A named test of paths. -/
structure PathTest where
  id : String
  /-- The message; the path takes the place of `pathMark`. -/
  template : String
  /-- Whether the test is left out where there is no probe. -/
  needsProbe : Bool := false
  /-- Whether there is something wrong with a path. -/
  inquire : String → Inquiry

/-- What a template has in place of the path. -/
def pathMark : String := "\x7bpath\x7d"

namespace PathTest

/-- Whether the test can be run. -/
def isRunnable (test : PathTest) (context : Context) : Bool :=
  !test.needsProbe || context.isSome

/-- The message for a path. -/
def message (test : PathTest) (path : String) : String :=
  String.ofList (replaceFirst pathMark.toList path.toList test.template.toList)

/-- Finds fault with paths that point at another host. -/
def external : PathTest where
  id := "external"
  template := "Consider using a localised resource instead for '" ++ pathMark ++ "'"
  inquire path := .settled (isExternal path)

/-- The path without its query and its fragment. -/
def localPath (path : String) : String :=
  String.ofList ((path.toList.takeWhile (· != '?')).takeWhile (· != '#'))

/-- Finds fault with local paths that name no file. -/
def filesystem : PathTest where
  id := "filesystem"
  template := "'" ++ pathMark ++ "' does not exist in the file system"
  needsProbe := true
  inquire path :=
    let file := localPath path
    if file.isEmpty || isExternal file || (uriScheme? file).isSome then
      .settled false
    else
      .ask file fun answer =>
        match answer with
        | some found => .settled !found
        | none => .settled false

end PathTest

/-- The tests to run, in order, at most one per id. -/
structure Registry where
  tests : List PathTest

namespace Registry

/-- A registry without tests. -/
def empty : Registry := ⟨[]⟩

/-- Adds a test; one with the same id gives up its place to it. -/
def register (registry : Registry) (test : PathTest) : Registry :=
  ⟨Keyed.put PathTest.id test registry.tests⟩

/-- The test with the given id. -/
def get? (registry : Registry) (id : String) : Option PathTest :=
  Keyed.find? PathTest.id id registry.tests

/-- The tests that are always there: `external`, then `filesystem`. -/
def builtin : Registry := (empty.register .external).register .filesystem

end Registry
end SheetLint
