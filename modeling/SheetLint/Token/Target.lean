import SheetLint.Text.Blank
import SheetLint.Text.Utf8
import SheetLint.Token.Grammar

/-! # The targets of strings and URLs

`unquote` is what a quoted string stands for, and `urlTarget` what a `url(…)`
points at: quotes are taken off and a backslash gives way to the character
behind it.
-/
namespace SheetLint
open Text

/-- The text with each backslash dropped and the character behind it kept; a
backslash at the end is dropped too. -/
def unescape : List Char → List Char
  | [] => []
  | [c] => if c = backslash then [] else [c]
  | c :: d :: cs => if c = backslash then d :: unescape cs else c :: unescape (d :: cs)

/-- The text inside the quotes, if it stands between two quotes of one sort. -/
def stripQuotes (cs : List Char) : List Char :=
  match cs with
  | c :: d :: ds =>
    if (c = doubleQuote ∨ c = singleQuote) ∧ (d :: ds).getLast? = some c then (d :: ds).dropLast
    else cs
  | _ => cs

/-- What the text of a string stands for. -/
def unquote (text : String) : String :=
  String.ofList (unescape (stripQuotes text.toList))

theorem unescape_sublist (cs : List Char) : (unescape cs).Sublist cs := by
  fun_induction unescape cs with
  | case1 => exact .refl _
  | case2 => exact List.nil_sublist _
  | case3 => exact .refl _
  | case4 d cs ih => exact (ih.cons_cons d).cons _
  | case5 c d cs _ ih => exact ih.cons_cons c

theorem stripQuotes_sublist (cs : List Char) : (stripQuotes cs).Sublist cs := by
  unfold stripQuotes
  split
  · split
    · exact (List.dropLast_sublist _).cons _
    · exact .refl _
  · exact .refl _

/-- A string stands for characters of its text. -/
theorem mem_of_mem_unquote {text : String} {c : Char} (h : c ∈ (unquote text).toList) :
    c ∈ text.toList := by
  rw [unquote, String.toList_ofList] at h
  exact ((unescape_sublist _).trans (stripQuotes_sublist _)).subset h

/-- The text without its first four bytes and its last one, empty if that would
cut a character. -/
def insideUrl (cs : List Char) : List Char :=
  let inner := do
    let rest ← dropBytes? 4 cs
    let size ← if byteSize rest = 0 then none else some (byteSize rest - 1)
    let count ← charsIn? size rest
    return rest.take count
  inner.getD []

/-- What the text of a `url(…)` points at. -/
def urlTarget (text : String) : String :=
  unquote (String.ofList (trimBy isSheetBlank (insideUrl text.toList)))

end SheetLint
