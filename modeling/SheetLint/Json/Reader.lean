import SheetLint.Json.Number
import SheetLint.Text.Utf8
import SheetLint.Token.Grammar

/-! # Reading JSON

Readers work on a text from left to right and stop at the first flaw.  A flaw
is of one of three kinds: the text ends too early, it is not JSON, or it is JSON
of another shape than the reader wants.

A reader takes the text that is left and yields what it has read and the rest.
-/
namespace SheetLint.Json
open Text

/-- Why a text cannot be read. -/
inductive Flaw where
  /-- It ends too early. -/
  | incomplete
  /-- It is not JSON. -/
  | malformed
  /-- It is JSON of another shape. -/
  | wrongShape
  deriving DecidableEq, Repr

/-- What a reader yields: a value, and the text that is left. -/
abbrev Reading (α : Type) := α × List Char

/-- White space between the parts of a text. -/
def isBlank (c : Char) : Bool := c == ' ' || c == '\t' || c == '\n' || c == '\r'

/-- The text behind the white space at its start. -/
def skipBlank (cs : List Char) : List Char := cs.dropWhile isBlank

/-! ### Strings -/

/-- The value of four hexadecimal digits at the start of a text. -/
def readHex (cs : List Char) : Except Flaw (Reading Nat) :=
  if byteSize cs < 4 then .error .incomplete
  else
    match cs with
    | a :: b :: c :: d :: rest =>
      let digit (x : Char) : Option Nat :=
        if x.isDigit then some (x.toNat - '0'.toNat)
        else if 'a' ≤ x ∧ x ≤ 'f' then some (x.toNat - 'a'.toNat + 10)
        else if 'A' ≤ x ∧ x ≤ 'F' then some (x.toNat - 'A'.toNat + 10)
        else none
      match digit a, digit b, digit c, digit d with
      | some a, some b, some c, some d => .ok (((a * 16 + b) * 16 + c) * 16 + d, rest)
      | _, _, _, _ => .error .malformed
    | _ => .error .malformed

/-- Reads one given character. -/
def readChar (expected : Char) : List Char → Except Flaw (Reading Unit)
  | [] => .error .incomplete
  | c :: cs => if c = expected then .ok ((), cs) else .error .malformed

/-- Reads the digits of a `\u` escape: one unit, or two that make a pair. -/
def readUnicode (cs : List Char) : Except Flaw (Reading Char) := do
  let (high, rest) ← readHex cs
  if 0xDC00 ≤ high ∧ high ≤ 0xDFFF then .error .malformed
  else if 0xD800 ≤ high ∧ high ≤ 0xDBFF then
    let ((), rest) ← readChar backslash rest
    let ((), rest) ← readChar 'u' rest
    let (low, rest) ← readHex rest
    if 0xDC00 ≤ low ∧ low ≤ 0xDFFF then
      return (Char.ofNat ((high - 0xD800) * 0x400 + (low - 0xDC00) + 0x10000), rest)
    else
      .error .malformed
  else
    return (Char.ofNat high, rest)

/-- Reads an escape behind its backslash. -/
def readEscape : List Char → Except Flaw (Reading Char)
  | [] => .error .incomplete
  | c :: cs =>
    if c = doubleQuote ∨ c = backslash ∨ c = '/' then .ok (c, cs)
    else if c = 'b' then .ok ('\x08', cs)
    else if c = 'f' then .ok ('\x0c', cs)
    else if c = 'n' then .ok ('\n', cs)
    else if c = 'r' then .ok ('\r', cs)
    else if c = 't' then .ok ('\t', cs)
    else if c = 'u' then readUnicode cs
    else .error .malformed

/-- Reads a string behind its opening quote; `fuel` bounds the number of
characters. -/
def readStringFrom (read : List Char) : Nat → List Char → Except Flaw (Reading String)
  | 0, _ => .error .incomplete
  | _ + 1, [] => .error .incomplete
  | fuel + 1, c :: cs =>
    if c = doubleQuote then .ok (String.ofList read.reverse, cs)
    else if c = backslash then do
      let (d, rest) ← readEscape cs
      readStringFrom (d :: read) fuel rest
    else if c.toNat < 0x20 then .error .malformed
    else readStringFrom (c :: read) fuel cs

/-- Reads a string behind its opening quote. -/
def readStringBody (cs : List Char) : Except Flaw (Reading String) :=
  readStringFrom [] (cs.length + 1) cs

/-! ### Numbers -/

/-- The significand and exponent of a number that is being read. -/
structure Scaled where
  significand : Nat
  exponent : Int
  /-- Whether later digits no longer fit the significand. -/
  full : Bool := false

namespace Scaled

/-- The greatest significand: 64 bits. -/
def limit : Nat := Nat.pow 2 64 - 1

/-- One more digit before the decimal point.  Digits that no longer fit count in
the exponent. -/
def addWhole (s : Scaled) (digit : Nat) : Scaled :=
  let next := s.significand * 10 + digit
  if s.full ∨ limit < next then { s with exponent := s.exponent + 1, full := true }
  else { s with significand := next }

/-- One more digit behind the decimal point.  Digits that no longer fit are
dropped. -/
def addFraction (s : Scaled) (digit : Nat) : Scaled :=
  let next := s.significand * 10 + digit
  if s.full ∨ limit < next then { s with full := true }
  else { s with significand := next, exponent := s.exponent - 1 }

end Scaled

/-- The value of a digit. -/
def digitValue (c : Char) : Nat := c.toNat - '0'.toNat

/-- Reads at least one digit. -/
def readDigits : List Char → Except Flaw (Reading (List Nat))
  | [] => .error .incomplete
  | c :: cs =>
    if c.isDigit then
      .ok (((c :: cs).takeWhile Char.isDigit).map digitValue, cs.dropWhile Char.isDigit)
    else
      .error .malformed

/-- Checks the size of a number. -/
def checkSize (s : Scaled) (rest : List Char) : Except Flaw (Reading Unit) :=
  if isTooBig s.significand s.exponent then .error .malformed else .ok ((), rest)

/-- The greatest exponent that is not taken for infinite. -/
def maxExponent : Nat := Nat.pow 2 31 - 1

/-- Reads what stands behind the `e` of a number. -/
def readExponent (s : Scaled) (cs : List Char) : Except Flaw (Reading Unit) := do
  let (negative, cs) :=
    match cs with
    | '-' :: rest => (true, rest)
    | '+' :: rest => (false, rest)
    | _ => (false, cs)
  let (digits, rest) ← readDigits cs
  let exponent := digits.foldl (fun n d => n * 10 + d) 0
  if maxExponent < exponent then
    if s.significand ≠ 0 ∧ !negative then .error .malformed else return ((), rest)
  else
    let exponent : Int := if negative then s.exponent - exponent else s.exponent + exponent
    checkSize { s with exponent } rest

/-- Reads the exponent of a number, if it has one. -/
def readScale (s : Scaled) (cs : List Char) : Except Flaw (Reading Unit) :=
  match cs with
  | c :: rest => if c = 'e' ∨ c = 'E' then readExponent s rest else checkSize s cs
  | [] => checkSize s []

/-- Reads a number without its sign.  The result is its value, if it is a natural
number of at most 64 bits written with digits only. -/
def readMagnitude (cs : List Char) : Except Flaw (Reading (Option Nat)) := do
  let (digits, rest) ← readDigits cs
  if 1 < digits.length ∧ digits.head? = some 0 then .error .malformed
  else
    let whole := digits.foldl Scaled.addWhole ⟨0, 0, false⟩
    match rest with
    | '.' :: rest =>
      let (fraction, rest) ← readDigits rest
      let scaled := fraction.foldl Scaled.addFraction { whole with full := false }
      let ((), rest) ← readScale scaled rest
      return (none, rest)
    | c :: _ =>
      if c = 'e' ∨ c = 'E' ∨ whole.full then
        let ((), rest) ← readScale whole rest
        return (none, rest)
      else
        return (some whole.significand, rest)
    | [] =>
      let ((), rest) ← checkSize whole []
      return (if whole.full then none else some whole.significand, rest)

/-! ### Values -/

/-- A value as far as it matters here: lists and objects only count as such. -/
inductive Value where
  | null
  | flag (value : Bool)
  /-- A natural number of at most 64 bits. -/
  | natural (value : Nat)
  /-- Any other number. -/
  | number
  | text (value : String)
  | list
  | object
  deriving DecidableEq, Repr

/-- Reads the rest of a word. -/
def readWord (letters : List Char) (cs : List Char) : Except Flaw (Reading Unit) :=
  letters.foldlM (fun (((), cs) : Unit × List Char) letter => readChar letter cs) ((), cs)

/-- Reads a value that is neither list nor object, starting with `c`. -/
def readScalar (c : Char) (cs : List Char) : Except Flaw (Reading Value) :=
  if c = 'n' then (readWord "ull".toList cs).map fun r => (.null, r.2)
  else if c = 't' then (readWord "rue".toList cs).map fun r => (.flag true, r.2)
  else if c = 'f' then (readWord "alse".toList cs).map fun r => (.flag false, r.2)
  else if c = '-' then (readMagnitude cs).map fun r => (.number, r.2)
  else if c.isDigit then
    (readMagnitude (c :: cs)).map fun r => ((r.1.map Value.natural).getD .number, r.2)
  else if c = doubleQuote then (readStringBody cs).map fun r => (.text r.1, r.2)
  else .error .malformed

/-- The flaw of finding a value of the wrong kind, starting with `c`: a scalar
is read first, and its own flaw counts. -/
def unwanted {α : Type} (c : Char) (cs : List Char) : Except Flaw (Reading α) :=
  if c = '[' ∨ c = '{' then .error .wrongShape
  else
    match readScalar c cs with
    | .ok _ => .error .wrongShape
    | .error flaw => .error flaw

/-- Looks for the next item of a list: the text at its start, or nothing when the
list ends.  The bracket that ends the list is not read. -/
def nextItem (first : Bool) (cs : List Char) : Except Flaw (Option (List Char)) :=
  match skipBlank cs with
  | [] => .error .incomplete
  | c :: rest =>
    if c = ']' then .ok none
    else if first then .ok (some (c :: rest))
    else if c = ',' then
      match skipBlank rest with
      | [] => .error .incomplete
      | ']' :: _ => .error .malformed
      | next => .ok (some next)
    else .error .malformed

/-- Looks for the next key of an object: the key and the text behind it, or
nothing when the object ends.  The brace that ends it is not read. -/
def nextKey (first : Bool) (cs : List Char) : Except Flaw (Option (String × List Char)) :=
  let key (cs : List Char) : Except Flaw (Option (String × List Char)) :=
    match cs with
    | [] => .error .incomplete
    | c :: rest => if c = doubleQuote then (readStringBody rest).map some else .error .malformed
  match skipBlank cs with
  | [] => .error .incomplete
  | c :: rest =>
    if c = '}' then .ok none
    else if first then key (c :: rest)
    else if c = ',' then key (skipBlank rest)
    else .error .malformed

/-- Reads the colon behind a key. -/
def readColon (cs : List Char) : Except Flaw (Reading Unit) := readChar ':' (skipBlank cs)

/-- Reads the items of a list behind its bracket, up to the bracket that ends
it. -/
def foldItems {α : Type} (step : α → List Char → Except Flaw (Reading α)) (acc : α)
    (first : Bool) : Nat → List Char → Except Flaw (Reading α)
  | 0, _ => .error .incomplete
  | fuel + 1, cs => do
    match ← nextItem first cs with
    | none => return (acc, (skipBlank cs).tail)
    | some item =>
      let (acc, rest) ← step acc item
      foldItems step acc false fuel rest

/-- Reads the entries of an object behind its brace, up to the brace that ends
it.  A step is given the key and the text behind it, from the colon on. -/
def foldEntries {α : Type} (step : α → String → List Char → Except Flaw (Reading α)) (acc : α)
    (first : Bool) : Nat → List Char → Except Flaw (Reading α)
  | 0, _ => .error .incomplete
  | fuel + 1, cs => do
    match ← nextKey first cs with
    | none => return (acc, (skipBlank cs).tail)
    | some (key, rest) =>
      let (acc, rest) ← step acc key rest
      foldEntries step acc false fuel rest

/-- Reads a list. -/
def readList {α : Type} (step : α → List Char → Except Flaw (Reading α)) (init : α)
    (cs : List Char) : Except Flaw (Reading α) :=
  match skipBlank cs with
  | [] => .error .incomplete
  | '[' :: rest => foldItems step init true (rest.length + 1) rest
  | c :: rest => unwanted c rest

/-- Reads an object. -/
def readObject {α : Type} (step : α → String → List Char → Except Flaw (Reading α)) (init : α)
    (cs : List Char) : Except Flaw (Reading α) :=
  match skipBlank cs with
  | [] => .error .incomplete
  | '{' :: rest => foldEntries step init true (rest.length + 1) rest
  | c :: rest => unwanted c rest

/-- Reads a string. -/
def readString (cs : List Char) : Except Flaw (Reading String) :=
  match skipBlank cs with
  | [] => .error .incomplete
  | c :: rest => if c = doubleQuote then readStringBody rest else unwanted c rest

/-- Reads a truth value. -/
def readFlag (cs : List Char) : Except Flaw (Reading Bool) :=
  match skipBlank cs with
  | [] => .error .incomplete
  | c :: rest =>
    if c = 't' then (readWord "rue".toList rest).map fun r => (true, r.2)
    else if c = 'f' then (readWord "alse".toList rest).map fun r => (false, r.2)
    else unwanted c rest

/-- Reads a truth value, or `null` for none. -/
def readFlag? (cs : List Char) : Except Flaw (Reading (Option Bool)) :=
  match skipBlank cs with
  | 'n' :: rest => (readWord "ull".toList rest).map fun r => (none, r.2)
  | rest => (readFlag rest).map fun r => (some r.1, r.2)

/-- Reads any value in which lists and objects are nested at most `depth` deep. -/
def readValue : Nat → List Char → Except Flaw (Reading Value)
  | depth, cs =>
    match skipBlank cs with
    | [] => .error .incomplete
    | c :: rest =>
      if c = '[' then
        match depth with
        | 0 => .error .malformed
        | depth + 1 => do
          let ((), rest) ← readList
            (fun _ cs => do let (_, rest) ← readValue depth cs; return ((), rest)) () (c :: rest)
          return (.list, rest)
      else if c = '{' then
        match depth with
        | 0 => .error .malformed
        | depth + 1 => do
          let ((), rest) ← readObject
            (fun _ _ cs => do
              let ((), cs) ← readColon cs
              let (_, rest) ← readValue depth cs
              return ((), rest)) () (c :: rest)
          return (.object, rest)
      else
        readScalar c rest

/-- Checks that nothing but white space is left. -/
def readEnd (cs : List Char) : Except Flaw Unit :=
  if (skipBlank cs).isEmpty then .ok () else .error .malformed

end SheetLint.Json
