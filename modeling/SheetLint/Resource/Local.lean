import SheetLint.Folder
import SheetLint.Probe

/-! # Local resources

A stylesheet names its resources the way a web page does: relative to the folder
of the stylesheet, or, with a slash in front, relative to the root of the site.
-/
namespace SheetLint

/-- The path of a resource that the stylesheet at `stylesheet` names, in the site
at `root`.  A stylesheet without a folder counts as lying in the root. -/
def resourcePath (stylesheet root resource : String) : String :=
  match resource.toList with
  | '/' :: rest => Path.join root (String.ofList (rest.dropWhile (· == '/')))
  | _ => Path.join ((Path.parent? stylesheet).getD root) resource

/-- Looks for the resources of a stylesheet among the files. -/
def Folder.probe (files : Folder) (stylesheet root : String) : Probe :=
  fun resource => files.isFile (resourcePath stylesheet root resource)

end SheetLint
