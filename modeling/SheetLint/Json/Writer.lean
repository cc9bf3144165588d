/-! # Writing JSON

Strings are written in double quotes.  A quote, a backslash and the control
characters are escaped, and every other character stands for itself.  Lists and
objects are written over several lines, each level indented by two spaces.
-/
namespace SheetLint.Json

/-- The hexadecimal digit for a number below 16. -/
def hexDigit (n : Nat) : Char := Nat.digitChar (n % 16)

/-- A character as it stands between quotes. -/
def escape (c : Char) : List Char :=
  match c with
  | '\x22' => ['\\', '\x22']
  | '\\' => ['\\', '\\']
  | '\x08' => ['\\', 'b']
  | '\t' => ['\\', 't']
  | '\n' => ['\\', 'n']
  | '\x0c' => ['\\', 'f']
  | '\r' => ['\\', 'r']
  | c =>
    if c.toNat < 0x20 then
      ['\\', 'u', '0', '0', hexDigit (c.toNat / 16), hexDigit c.toNat]
    else
      [c]

/-- A text in quotes. -/
def quote (s : String) : String :=
  String.ofList ('\x22' :: (s.toList.flatMap escape ++ ['\x22']))

/-- A key with its value. -/
def writeField (field : String × String) : String :=
  quote field.1 ++ ": " ++ field.2

/-- A list between two brackets, one item a line, `indent` in front of them and of
the closing bracket. -/
def writeBlock (opening closing indent : String) (items : List String) : String :=
  if items.isEmpty then
    opening ++ closing
  else
    opening ++ "\n" ++ String.intercalate ",\n" (items.map fun item => indent ++ "  " ++ item) ++
      "\n" ++ indent ++ closing

/-- A list of values. -/
def writeList (indent : String) (items : List String) : String :=
  writeBlock "[" "]" indent items

/-- An object with the given keys and values. -/
def writeObject (indent : String) (fields : List (String × String)) : String :=
  writeBlock "\x7b" "\x7d" indent (fields.map writeField)

example : quote "a\"b\\\n\x01é" = "\"a\\\"b\\\\\\n\\u0001é\"" := by decide

end SheetLint.Json
