/-! # Letter case

Keywords, property names, levels and URL schemes are compared without regard to
the case of the letters `A` to `Z`.  No other character has a case here:
`Char.toLower` changes the ASCII capitals and nothing else.
-/
namespace SheetLint.Text

/-- The text with its ASCII capitals made small. -/
def lower (s : String) : String :=
  String.ofList (s.toList.map Char.toLower)

/-- Whether two texts differ at most in the case of ASCII letters. -/
def sameWord (a b : String) : Bool :=
  lower a == lower b

@[simp] theorem toList_lower (s : String) : (lower s).toList = s.toList.map Char.toLower :=
  String.toList_ofList

theorem sameWord_iff {a b : String} :
    sameWord a b = true ↔ a.toList.map Char.toLower = b.toList.map Char.toLower := by
  rw [sameWord, beq_iff_eq, ← String.toList_inj, toList_lower, toList_lower]

example : lower "URL(Ünder)" = "url(Ünder)" := by decide

end SheetLint.Text
