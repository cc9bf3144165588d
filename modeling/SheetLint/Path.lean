import SheetLint.Text.Ascii
import SheetLint.Text.Cut

/-! # Paths

A path is a text: names with slashes between them.  A slash in front makes it
absolute.  Joining and taking the parent keep the spelling of what is left, while
`Path.normalize` gives each path one spelling: no empty names, and no `.` but one
at the start of a relative path.  The name `..` always stays.
-/
namespace SheetLint.Path
open Text

/-- Whether a path starts at the root. -/
def isAbsolute (path : String) : Bool := path.toList.head? == some '/'

/-- What stands between the slashes of a path. -/
def segments (cs : List Char) : List String := (pieces (· == '/') cs).map String.ofList

/-- Whether a segment leads nowhere: it is empty, or it is `.`. -/
def isIdle (segment : String) : Bool := segment == "" || segment == "."

/-- The path that leads along the given segments. -/
def ofSegments (segments : List String) : String := String.intercalate "/" segments

/-- The start of a path, and the text behind it: a slash, a leading `.` or
nothing. -/
def splitHead (path : String) : String × List Char :=
  match path.toList with
  | '/' :: rest => ("/", rest)
  | ['.'] => (".", [])
  | '.' :: '/' :: rest => (".", '/' :: rest)
  | cs => ("", cs)

/-- The names along a path. -/
def names (path : String) : List String :=
  (segments path.toList).filter fun segment => !isIdle segment

/-- The names without `..`: each takes away the name before it, if there is
one. -/
def withoutParents (names : List String) : List String :=
  names.foldl (fun trail name => if name = ".." then trail.dropLast else trail ++ [name]) []

/-- The path behind `base`.  An absolute path stands for itself. -/
def join (base path : String) : String :=
  if isAbsolute path then path
  else if base.isEmpty || base.toList.getLast? == some '/' then base ++ path
  else base ++ "/" ++ path

/-- The path in its only spelling. -/
def normalize (path : String) : String :=
  match (splitHead path).1 with
  | "/" => "/" ++ ofSegments (names path)
  | "." => ofSegments ("." :: names path)
  | _ => ofSegments (names path)

/-- The path seen from `base`, in its only spelling. -/
def absolute (base path : String) : String := normalize (join base path)

/-- The path without its last name and what stands around it that leads nowhere,
if it has a name. -/
def parent? (path : String) : Option String :=
  let (head, body) := splitHead path
  match (segments body).reverse.dropWhile isIdle with
  | _ :: rest => some (head ++ ofSegments (rest.dropWhile isIdle).reverse)
  | [] => if head = "." then some "" else none

/-- The names of `path` behind those of `base`, if it starts with them. -/
def dropNames? : List String → List String → Option (List String)
  | [], path => some path
  | _ :: _, [] => none
  | b :: base, p :: path => if b = p then dropNames? base path else none

/-- The path as seen from the folder `base`: what follows it, or the path itself
if it leads elsewhere.  Both are absolute. -/
def relativeTo (base path : String) : String :=
  match dropNames? (names base) (names path) with
  | some rest => ofSegments rest
  | none => path

/-- What stands behind the last dot of a file name.  A dot in front of the whole
name does not count. -/
def extension? (name : String) : Option String :=
  let reversed := name.toList.reverse
  let tail := reversed.takeWhile (· != '.')
  match reversed.dropWhile (· != '.') with
  | '.' :: _ :: _ => some (String.ofList tail.reverse)
  | _ => none

/-- Whether a file name is that of a stylesheet. -/
def isStylesheet (name : String) : Bool :=
  match extension? name with
  | some ext => sameWord ext "css"
  | none => false

example : normalize "/a//./b/../c/" = "/a/b/../c" := by decide
example : parent? "/site/css/." = some "/site" := by decide
example : parent? "a/.." = some "a" := by decide
example : relativeTo "/site" "/site/css/a.css" = "css/a.css" := by decide
example : isStylesheet "a.min.CSS" = true ∧ isStylesheet ".css" = false := by decide

end SheetLint.Path
