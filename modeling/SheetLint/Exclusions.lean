import SheetLint.Glob.Expression
import SheetLint.Glob.Reader

/-! # Exclusions

Globs say which files a run leaves out: those that one of the globs describes.  Most
globs fix only the start or the end of a path and are compared as texts; the others go
by their expression, by itself where the extension is fixed and jointly where it is
not.  Expressions that are nested too deeply are refused.
-/
namespace SheetLint

/-- Why it cannot be told which files are left out. -/
inductive ExclusionError where
  /-- A glob is not understood. -/
  | flawed (glob : String) (flaw : GlobFlaw)
  /-- An expression that goes by itself is nested too deeply. -/
  | tooDeep (expression : String)
  /-- Of the expressions that go jointly, the one at an index is nested too deeply. -/
  | tooDeepAt (index : Nat)
  deriving DecidableEq, Repr

/-- The wording of such an error. -/
def ExclusionError.message : ExclusionError → String
  | flawed glob flaw => "error parsing glob '" ++ glob ++ "': " ++ flaw.message
  | tooDeep expression => "error parsing glob '" ++ expression ++ "': error parsing pattern 0"
  | tooDeepAt index => "error parsing pattern " ++ toString index

namespace Glob

/-- The text that parts stand for, if they are all literal. -/
def literals? (parts : List Part) : Option (List Char) :=
  parts.mapM fun
    | .literal c => some c
    | _ => none

/-- The text that paths start with, if that is all a glob says. -/
def startText? (parts : List Part) : Option (List Char) :=
  let text :=
    match parts.getLast? with
    | some .anyText => literals? parts.dropLast
    | some .allBelow => (literals? parts.dropLast).map (· ++ ['/'])
    | _ => literals? parts
  text.filter (· ≠ [])

/-- The text that paths end with, if that is all a glob says.  A slash alone does not
count. -/
def endText? (parts : List Part) : Option (List Char) :=
  let text :=
    match parts with
    | .leadingFolders :: .anyText :: rest => literals? rest
    | .leadingFolders :: rest => (literals? rest).map ('/' :: ·)
    | .anyText :: rest => literals? rest
    | rest => literals? rest
  text.filter fun text => text ≠ [] ∧ text ≠ ['/']

/-- Whether a part is a character of a name other than the dot. -/
def Part.isInName : Part → Bool
  | .literal c => c ≠ '.' ∧ c ≠ '/'
  | _ => false

/-- Whether a glob ends in an extension. -/
def fixesExtension (parts : List Part) : Bool :=
  match parts.reverse.dropWhile Part.isInName with
  | .literal '.' :: _ => true
  | _ => false

/-- How paths are compared with a glob. -/
inductive Method where
  /-- By their start or their end. -/
  | text
  /-- By the expression of the glob, if the extension is the same. -/
  | extension
  /-- By the expression of the glob, together with other globs. -/
  | joint
  deriving DecidableEq, Repr

/-- How paths are compared with a glob. -/
def method (glob : Glob) : Method :=
  if (startText? glob.parts).isSome || (endText? glob.parts).isSome then .text
  else if fixesExtension glob.parts then .extension
  else .joint

end Glob

/-- The files to leave out: those that one of the globs describes. -/
structure Exclusions where
  globs : List Glob

namespace Exclusions

/-- The globs with a method. -/
def withMethod (globs : List Glob) (method : Glob.Method) : List Glob :=
  globs.filter fun glob => glob.method = method

/-- The exclusions by some globs.  Expressions that go by themselves are looked at
first. -/
def ofGlobs (globs : List Glob) : Except ExclusionError Exclusions :=
  match (withMethod globs .extension).find? Glob.isTooDeep with
  | some glob => .error (.tooDeep glob.expression.text)
  | none =>
    match (withMethod globs .joint).findIdx? Glob.isTooDeep with
    | some index => .error (.tooDeepAt index)
    | none => .ok ⟨globs⟩

/-- Reads globs, up to the first that is not understood. -/
def parseGlobs (texts : List String) : Except ExclusionError (List Glob) :=
  texts.mapM fun text =>
    match Glob.parse text with
    | .ok glob => .ok glob
    | .error flaw => .error (.flawed text flaw)

/-- Reads exclusions. -/
def parse (texts : List String) : Except ExclusionError Exclusions := do
  ofGlobs (← parseGlobs texts)

/-- Whether a path is left out. -/
def covers (excludes : Exclusions) (path : String) : Bool :=
  excludes.globs.any fun glob => glob.covers path

end Exclusions
end SheetLint
