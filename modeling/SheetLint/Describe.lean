import SheetLint.Resource
import SheetLint.Text.Extender
import SheetLint.Text.Printable

/-! # Descriptions

Rules, tests and contexts can be described in one line, for logs: a name and, in
braces, the fields.
-/
namespace SheetLint.Describe
open Text

/-- The spelling of a character between double quotes.  Characters that show nothing,
or only together with another, are written by their number unless they have a letter
of their own. -/
def escapeChar (c : Char) : List Char :=
  if c = doubleQuote ∨ c = backslash then [backslash, c]
  else if c = '\n' then [backslash, 'n']
  else if c = '\t' then [backslash, 't']
  else if c = '\r' then [backslash, 'r']
  else if c = '\x00' then [backslash, '0']
  else if isExtender c || !isPrintable c then
    [backslash, 'u', '\x7b'] ++ Nat.toDigits 16 c.toNat ++ ['\x7d']
  else [c]

/-- A text between double quotes. -/
def quoted (s : String) : String :=
  String.ofList ([doubleQuote] ++ s.toList.flatMap escapeChar ++ [doubleQuote])

/-- A truth value. -/
def flag (b : Bool) : String := if b then "true" else "false"

/-- A record with some fields; `more` says that it has others that are not
shown. -/
def record (name : String) (fields : List (String × String)) (more : Bool) : String :=
  let shown := fields.map (fun f => f.1 ++ ": " ++ f.2) ++ (if more then [".."] else [])
  name ++ " \x7b " ++ ", ".intercalate shown ++ " \x7d"

/-- A context: whether it has a probe. -/
def context (c : Context) : String :=
  record "RuleContext" [("file_probe", flag c.isSome)] false

/-- A rule, without its machine. -/
def rule (r : Rule) : String :=
  record "RuleInfo"
    [("id", quoted r.id), ("name", quoted r.name), ("browsers", quoted r.browsers)] true

/-- A path test, without its question. -/
def pathTest (t : PathTest) : String :=
  record "PathTest"
    [("id", quoted t.id), ("template", quoted t.template),
     ("requires_file_probe", flag t.needsProbe)] true

/-- The tests of a registry and whether there is a probe for them. -/
def evaluator (registry : Registry) (c : Context) : String :=
  let tests := "[" ++ ", ".intercalate (registry.tests.map pathTest) ++ "]"
  record "MatchEvaluator"
    [("registry", record "PathTestRegistry" [("tests", tests)] false),
     ("file_probe", flag c.isSome)] false

end SheetLint.Describe
