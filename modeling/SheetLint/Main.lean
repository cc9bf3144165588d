import SheetLint.Program

/-! # The command line

The files that a run may look at are read first.  The program answers for them;
then the resources it has asked for are looked up, and it answers again.  Which
resources are asked for does not depend on what is found, so twice is enough.
-/
namespace SheetLint.CommandLine

/-- What a path leads to, if it leads anywhere. -/
def kind? (path : String) (followLinks : Bool) : IO (Option IO.FS.FileType) := do
  let place := (← IO.currentDir) / path
  try
    let data ← if followLinks then place.metadata else place.symlinkMetadata
    return some data.type
  catch _ =>
    return none

/-- The bytes of a file.  A file that cannot be read counts as one that is not
UTF-8. -/
def contentOf (path : String) : IO ByteArray := do
  try
    IO.FS.readBinFile path
  catch _ =>
    return ByteArray.mk #[0xFF]

/-- Adds the folder at a path with all that is below it.  Only stylesheets are
read. -/
partial def addTree (names : List String) (path : String) (files : Folder) : IO Folder := do
  let mut files := files.addFolder names
  for child in ← ((← IO.currentDir) / path).readDir do
    let name := child.fileName
    let below := Path.join path name
    match ← kind? below false with
    | some .dir => files ← addTree (names ++ [name]) below files
    | some .file =>
      let content ← if Path.isStylesheet name then contentOf below else pure .empty
      files := files.addFile content (names ++ [name])
    | _ => pure ()
  return files

/-- Adds what stands along an absolute path.  What it leads to is read as a whole
on demand. -/
def addPath (whole : Bool) (files : Folder) (path : String) : IO Folder := do
  let names := Path.names path
  let mut files := files
  for length in List.range names.length do
    let upTo := names.take (length + 1)
    let place := "/" ++ Path.ofSegments upTo
    let trail := Path.withoutParents upTo
    match ← kind? place true with
    | some .dir =>
      if whole && upTo.length == names.length then files ← addTree trail place files
      else files := files.addFolder trail
    | some .file =>
      let content ← if whole then contentOf place else pure .empty
      files := files.addFile content trail
    | _ => return files
  return files

/-- Reads what a command line refers to. -/
def readInputs (directory : String) (args : Arguments) : IO Folder := do
  let files ← addPath false .empty (Path.absolute directory args.workspace)
  (args.inputs directory).foldlM (addPath true) files

/-- The surroundings of a run, with the given files. -/
def surroundings (directory : String) (files : Folder) : IO Surroundings := do
  return { files, directory, failOnWarnings := ← IO.getEnv "CSSLINT_FAIL_ON_WARNINGS" }

/-- Lets a run look at the given files, and at the resources it asks for. -/
def withResources (directory : String) (files : Folder) (run : Surroundings → Run) : IO Run := do
  let asked := (run (← surroundings directory files)).asked
  let files ← asked.foldlM (addPath false) files
  return run (← surroundings directory files)

/-- Looks every second for changes, and checks again after one. -/
partial def watch (plan : Plan) (args : Arguments) (directory : String)
    (seen : List (String × Option String)) : IO Unit := do
  IO.sleep 1000
  let files ← readInputs directory args
  let sheets := plan.sheets files
  if sheets != seen then
    let run ← withResources directory files fun around => Run.again plan around args
    IO.print run.output
    (← IO.getStdout).flush
  watch plan args directory sheets

/-- Makes the run for a command line. -/
def answer (args : Arguments) : IO UInt32 := do
  let directory := (← IO.currentDir).toString
  let files ← readInputs directory args
  let run ← withResources directory files fun around => Run.start around args
  let response := Program.conclude run
  IO.print response.output
  (← IO.getStdout).flush
  if let some complaint := response.complaint then
    IO.eprintln complaint
  if let .watching plan := run.ending then
    watch plan args directory (plan.sheets files)
  return response.exit.toUInt32

end SheetLint.CommandLine

/-- Runs the program on the words of a command line. -/
def main (words : List String) : IO UInt32 := do
  match SheetLint.Program.task words with
  | .run args => SheetLint.CommandLine.answer args
  | .say response =>
    IO.print response.output
    return response.exit.toUInt32
