import SheetLint.Text.Cut
import SheetLint.Text.Runs

/-! # White space

Two sets of blank characters are in use.  Stylesheets know five of them
(`isSheetBlank`); levels, lists of rule ids and URLs go by the Unicode property
`White_Space` (`isBlank`).  `trimBy` removes such characters from both ends of a
text.
-/
namespace SheetLint.Text

/-- The runs of code points with the Unicode property `White_Space`. -/
def blankRuns : List (Nat × Nat) :=
  [(0x09, 0x0D), (0x20, 0x20), (0x85, 0x85), (0xA0, 0xA0), (0x1680, 0x1680),
   (0x2000, 0x200A), (0x2028, 0x2029), (0x202F, 0x202F), (0x205F, 0x205F),
   (0x3000, 0x3000)]

/-- Whether a character is white space in the Unicode sense. -/
def isBlank (c : Char) : Bool := inRuns blankRuns c.toNat

/-- Whether a character is white space between the tokens of a stylesheet. -/
def isSheetBlank (c : Char) : Bool :=
  c == ' ' || c == '\t' || c == '\r' || c == '\n' || c == '\x0c'

/-- The text without the characters satisfying `p` at its start and its end. -/
def trimBy (p : Char → Bool) (cs : List Char) : List Char :=
  ((cs.dropWhile p).reverse.dropWhile p).reverse

/-- Trimming takes off what surrounds a text with other characters at both of its ends. -/
theorem trimBy_append {p : Char → Bool} {front mid back : List Char}
    (hfront : ∀ c ∈ front, p c = true) (hback : ∀ c ∈ back, p c = true)
    (hfirst : ∀ c ∈ (mid ++ back).head?, p c = false)
    (hlast : ∀ c ∈ mid.reverse.head?, p c = false) :
    trimBy p (front ++ (mid ++ back)) = mid := by
  have hback' : ∀ c ∈ back.reverse, p c = true := by simpa using hback
  rw [trimBy, (takeWhile_dropWhile_append hfront hfirst).2, List.reverse_append,
    (takeWhile_dropWhile_append hback' hlast).2, List.reverse_reverse]

/-- Trimming takes off nothing else. -/
theorem exists_trimBy (p : Char → Bool) (cs : List Char) :
    ∃ front back, cs = front ++ (trimBy p cs ++ back) ∧
      (∀ c ∈ front, p c = true) ∧ ∀ c ∈ back, p c = true := by
  refine ⟨cs.takeWhile p, ((cs.dropWhile p).reverse.takeWhile p).reverse, ?_,
    of_mem_takeWhile, fun c hc => of_mem_takeWhile c (List.mem_reverse.mp hc)⟩
  rw [trimBy, ← List.reverse_append, List.takeWhile_append_dropWhile, List.reverse_reverse,
    List.takeWhile_append_dropWhile]

theorem mem_of_mem_trimBy {p : Char → Bool} {cs : List Char} {c : Char} (h : c ∈ trimBy p cs) :
    c ∈ cs := by
  obtain ⟨front, back, hcs, -⟩ := exists_trimBy p cs
  rw [hcs]
  exact List.mem_append_right _ (List.mem_append_left _ h)

/-- What would be taken off makes no difference where it surrounds a text. -/
theorem trimBy_surrounded {p : Char → Bool} {front back : List Char} (cs : List Char)
    (hfront : ∀ c ∈ front, p c = true) (hback : ∀ c ∈ back, p c = true) :
    trimBy p (front ++ (cs ++ back)) = trimBy p cs := by
  rw [trimBy, trimBy, List.dropWhile_append_of_pos hfront, List.dropWhile_append]
  split
  · rename_i hnone
    have hnone' : back.dropWhile p = [] := by
      rw [← List.append_nil back, List.dropWhile_append_of_pos hback]
      rfl
    rw [List.isEmpty_iff.mp hnone, hnone']
  · have hback' : ∀ c ∈ back.reverse, p c = true := by simpa using hback
    rw [List.reverse_append, List.dropWhile_append_of_pos hback']

/-- What is left begins and ends with other characters. -/
theorem ends_trimBy (p : Char → Bool) (cs : List Char) :
    (∀ c ∈ (trimBy p cs).head?, p c = false) ∧ ∀ c ∈ (trimBy p cs).getLast?, p c = false := by
  have hend (as : List Char) : ∀ c ∈ (as.dropWhile p).head?, p c = false := by
    intro c hc
    simpa [Option.mem_def.mp hc] using List.head?_dropWhile_not p as
  constructor
  · intro c hc
    have hstart : trimBy p cs <+: cs.dropWhile p := by
      rw [trimBy, ← List.reverse_suffix, List.reverse_reverse]
      exact List.dropWhile_suffix p
    obtain ⟨rest, hrest⟩ := hstart
    refine hend cs c ?_
    rw [← hrest, List.head?_append, Option.mem_def.mp hc]
    rfl
  · intro c hc
    rw [trimBy, List.getLast?_reverse] at hc
    exact hend _ c hc

/-- The text without white space at its start and its end. -/
def trim (s : String) : String :=
  String.ofList (trimBy isBlank s.toList)

/-- White space of stylesheets is white space. -/
theorem isBlank_of_isSheetBlank {c : Char} (h : isSheetBlank c = true) : isBlank c = true := by
  simp only [isSheetBlank, Bool.or_eq_true, beq_iff_eq] at h
  rcases h with (((rfl | rfl) | rfl) | rfl) | rfl <;> decide

example : areOrdered blankRuns = true := by decide
example : sizeOfRuns blankRuns = 25 := by decide

end SheetLint.Text
