import SheetLint.Path
import SheetLint.Text.Utf8

/-! # Folders

A folder holds files and folders in the order of their names.  `Folder.locate`
follows a path from the root as the system does: every name on the way must be
there, `..` leads back up, and nothing leads on from a file.
-/
namespace SheetLint
open Text

/-- A folder, as the list of what is in it. -/
inductive Folder where
  | empty
  /-- A file, in front of the rest. -/
  | file (name : String) (content : ByteArray) (rest : Folder)
  /-- A folder, in front of the rest. -/
  | folder (name : String) (inside rest : Folder)
  deriving DecidableEq

/-- What a name stands for. -/
inductive Node where
  | file (content : ByteArray)
  | folder (inside : Folder)

/-- Why a file cannot be read. -/
inductive FileError where
  /-- A name on the way does not exist. -/
  | notFound
  /-- A name on the way is that of a file. -/
  | notFolder
  /-- The path leads to a folder. -/
  | isFolder
  /-- A name, or the whole path, is too long. -/
  | nameTooLong
  /-- The path has the character with number 0 in it. -/
  | zeroInName
  /-- The content is not UTF-8. -/
  | notText
  deriving DecidableEq, Repr

/-- The message of the system. -/
def FileError.message : FileError → String
  | notFound => "No such file or directory (os error 2)"
  | notFolder => "Not a directory (os error 20)"
  | isFolder => "Is a directory (os error 21)"
  | nameTooLong => "File name too long (os error 36)"
  | zeroInName => "file name contained an unexpected NUL byte"
  | notText => "stream did not contain valid UTF-8"

namespace Folder

/-- A folder with one more entry in front. -/
def cons (name : String) : Node → Folder → Folder
  | .file content, rest => file name content rest
  | .folder inside, rest => folder name inside rest

/-- The entry with a name. -/
def child? (name : String) : Folder → Option Node
  | empty => none
  | file n content rest => if n = name then some (.file content) else child? name rest
  | folder n inside rest => if n = name then some (.folder inside) else child? name rest

/-- The folder with an entry put in its place, instead of one with the same
name. -/
def put (name : String) (node : Node) : Folder → Folder
  | empty => cons name node empty
  | file n content rest =>
    if name = n then cons name node rest
    else if name < n then cons name node (file n content rest)
    else file n content (put name node rest)
  | folder n inside rest =>
    if name = n then cons name node rest
    else if name < n then cons name node (folder n inside rest)
    else folder n inside (put name node rest)

/-- The folder with a name, an empty one if there is none. -/
def inside (name : String) (f : Folder) : Folder :=
  match f.child? name with
  | some (.folder inside) => inside
  | _ => empty

/-- Makes the folder at the end of some names, with all folders on the way. -/
def addFolder : List String → Folder → Folder
  | [], f => f
  | name :: names, f => f.put name (.folder (addFolder names (f.inside name)))

/-- Puts a file at the end of some names, with all folders on the way. -/
def addFile (content : ByteArray) : List String → Folder → Folder
  | [], f => f
  | [name], f => f.put name (.file content)
  | name :: names, f => f.put name (.folder (addFile content names (f.inside name)))

/-- The files in a folder and below it, each with the names that lead there.
What is below a folder stands in its place. -/
def files : Folder → List (List String)
  | empty => []
  | file name _ rest => [name] :: files rest
  | folder name inside rest => (files inside).map (name :: ·) ++ files rest

end Folder

/-! ### Following a path -/

/-- A place in a folder. -/
inductive Place where
  /-- A folder, with the names and folders that lead to it, innermost first. -/
  | folder (trail : List (String × Folder))
  /-- A file in a folder. -/
  | file (trail : List (String × Folder)) (name : String) (content : ByteArray)

namespace Place

/-- The names that lead to a place. -/
def names : Place → List String
  | folder trail => (trail.map Prod.fst).reverse
  | file trail name _ => (trail.map Prod.fst).reverse ++ [name]

end Place

namespace Folder

/-- The greatest number of bytes of a name. -/
def maxName : Nat := 255

/-- The greatest number of bytes of a path. -/
def maxPath : Nat := 4095

/-- Follows one segment of a path. -/
def step (root : Folder) (place : Place) (segment : String) : Except FileError Place :=
  match place with
  | .file _ _ _ => .error .notFolder
  | .folder trail =>
    if Path.isIdle segment then .ok place
    else if segment = ".." then .ok (.folder trail.tail)
    else if maxName < byteSize segment.toList then .error .nameTooLong
    else
      match (trail.head?.elim root Prod.snd).child? segment with
      | none => .error .notFound
      | some (.file content) => .ok (.file trail segment content)
      | some (.folder inside) => .ok (.folder ((segment, inside) :: trail))

/-- The place that an absolute path leads to. -/
def locate (root : Folder) (path : String) : Except FileError Place :=
  let cs := path.toList
  if cs.contains '\x00' then .error .zeroInName
  else if maxPath < byteSize cs then .error .nameTooLong
  else (Path.segments cs).foldlM root.step (.folder [])

/-- Whether a path leads to a file. -/
def isFile (root : Folder) (path : String) : Bool :=
  match root.locate path with
  | .ok (.file _ _ _) => true
  | _ => false

/-- The folder that a path leads to. -/
def folder? (root : Folder) (path : String) : Option Folder :=
  match root.locate path with
  | .ok (.folder trail) => some (trail.head?.elim root Prod.snd)
  | _ => none

/-- The text of the file that a path leads to. -/
def read (root : Folder) (path : String) : Except FileError String :=
  match root.locate path with
  | .error cause => .error cause
  | .ok (.folder _) => .error .isFolder
  | .ok (.file _ _ content) =>
    match String.fromUTF8? content with
    | some text => .ok text
    | none => .error .notText

end Folder
end SheetLint
