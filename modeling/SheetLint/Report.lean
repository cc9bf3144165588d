import SheetLint.Arguments
import SheetLint.Diagnostic
import SheetLint.Json.Writer

/-! # Reports

A report shows the diagnostics of one stylesheet in one of four formats.

* `human`: place, message and an empty line;
* `human-verbose`: the same, with the line of the source and a caret below it;
* `machine`: one line each;
* `json`: a list of objects.
-/
namespace SheetLint
open Text

namespace Severity

/-- The word for a severity. -/
def label : Severity → String
  | warning => "Warning"
  | error => "Error"

/-- The word for a severity, in capitals. -/
def mark : Severity → String
  | warning => "WARNING"
  | error => "ERROR"

end Severity

namespace Report

/-! ### Snippets -/

/-- A line without the carriage return at its end. -/
def withoutReturn (line : List Char) : List Char :=
  if line.getLast? = some '\r' then line.dropLast else line

/-- The lines of a source.  A line ends at a line feed, and a carriage return
right before it is no part of the line.  Behind the last line feed stands a line
only if there is text. -/
def sourceLines (source : String) : List String :=
  let parts := pieces (· == '\n') source.toList
  let last := (parts.getLast?.filter fun line => !line.isEmpty).toList
  (parts.dropLast.map withoutReturn ++ last).map String.ofList

/-- A line of the source with a caret below it. -/
structure Snippet where
  /-- The number of the line. -/
  number : Nat
  text : String
  /-- The number of characters to the left of the caret. -/
  indent : Nat
  deriving DecidableEq, Repr

/-- The given number of spaces. -/
def spaces (n : Nat) : String := String.ofList (List.replicate n ' ')

/-- The line that a position is on, if there is one. -/
def snippet? (lines : List String) (position : Position) : Option Snippet :=
  if position.line = 0 then none
  else lines[position.line - 1]?.map fun text => ⟨position.line, text, position.column - 1⟩

/-- A snippet as it is shown. -/
def Snippet.render (snippet : Snippet) : String :=
  let number := toString snippet.number
  "  " ++ number ++ " | " ++ snippet.text ++ "\n" ++
    "  " ++ spaces number.length ++ " | " ++ spaces snippet.indent ++ "^\n"

/-! ### One diagnostic -/

/-- The place of a diagnostic. -/
def place (path : String) (d : Diagnostic) : String := path ++ ":" ++ d.position.render

/-- The message of a diagnostic and the rule it comes from. -/
def remark (d : Diagnostic) : String := d.message ++ " (" ++ d.rule ++ ")"

/-- The two lines for a reader. -/
def heading (path : String) (d : Diagnostic) : String :=
  place path d ++ "\n" ++ d.severity.label ++ ": " ++ remark d ++ "\n"

/-- A diagnostic for a reader. -/
def human (path : String) (d : Diagnostic) : String := heading path d ++ "\n"

/-- A diagnostic for a reader, with its line. -/
def humanVerbose (path : String) (lines : List String) (d : Diagnostic) : String :=
  heading path d ++ ((snippet? lines d.position).map Snippet.render).getD "" ++ "\n"

/-- A diagnostic as one line. -/
def machine (path : String) (d : Diagnostic) : String :=
  d.severity.mark ++ " " ++ place path d ++ " " ++ remark d ++ "\n"

/-! ### Objects -/

/-- A diagnostic of a file, as an object shows it. -/
structure Entry where
  label : String
  filename : String
  line : Nat
  column : Nat
  message : String
  rule : String
  deriving DecidableEq, Repr

/-- The entry for a diagnostic. -/
def entry (path : String) (d : Diagnostic) : Entry :=
  ⟨d.severity.label, path, d.position.line, d.position.column, d.message, d.rule⟩

/-- The object for an entry. -/
def Entry.render (e : Entry) : String :=
  Json.writeObject "  "
    [("type", Json.quote e.label), ("filename", Json.quote e.filename),
     ("line", toString e.line), ("column", toString e.column),
     ("message", Json.quote e.message), ("rule", Json.quote e.rule)]

/-- The list of entries. -/
def renderEntries (entries : List Entry) : String :=
  Json.writeList "" (entries.map Entry.render)

/-! ### Whole reports -/

/-- The report on the diagnostics of a file. -/
def render (format : OutputFormat) (diagnostics : List Diagnostic) (path source : String) :
    String :=
  match format with
  | .human => String.join (diagnostics.map (human path))
  | .humanVerbose => String.join (diagnostics.map (humanVerbose path (sourceLines source)))
  | .json => renderEntries (diagnostics.map (entry path))
  | .machine => String.join (diagnostics.map (machine path))

end Report
end SheetLint
