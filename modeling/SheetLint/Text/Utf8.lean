/-! # Byte offsets in a text

Places in a source are counted in bytes of its UTF-8 form.  A text stays a list
of characters; this module says how many bytes it has (`byteSize`), what is left
behind a number of bytes (`dropBytes?`) and how many characters a number of
bytes holds (`charsIn?`).  The last two refuse an offset past the end or inside
a character.
-/
namespace SheetLint.Text

/-- The length of a text in UTF-8. -/
def byteSize (cs : List Char) : Nat :=
  cs.foldr (fun c n => c.utf8Size + n) 0

/-- The rest of a text behind its first `n` bytes. -/
def dropBytes? : Nat → List Char → Option (List Char)
  | 0, cs => some cs
  | _ + 1, [] => none
  | n + 1, c :: cs =>
    if c.utf8Size ≤ n + 1 then dropBytes? (n + 1 - c.utf8Size) cs else none

/-- The number of characters in the first `n` bytes of a text, added to `count`. -/
def countIn? (count : Nat) : Nat → List Char → Option Nat
  | 0, _ => some count
  | _ + 1, [] => none
  | n + 1, c :: cs =>
    if c.utf8Size ≤ n + 1 then countIn? (count + 1) (n + 1 - c.utf8Size) cs else none

/-- The number of characters in the first `n` bytes of a text. -/
def charsIn? (n : Nat) (cs : List Char) : Option Nat :=
  countIn? 0 n cs

/-- The bytes of a text in UTF-8. -/
def utf8 (s : String) : List UInt8 :=
  s.toUTF8.toList

@[simp] theorem byteSize_nil : byteSize [] = 0 := rfl

@[simp] theorem byteSize_cons (c : Char) (cs : List Char) :
    byteSize (c :: cs) = c.utf8Size + byteSize cs := by
  simp [byteSize]

@[simp] theorem byteSize_append (cs ds : List Char) :
    byteSize (cs ++ ds) = byteSize cs + byteSize ds := by
  induction cs with
  | nil => simp
  | cons c cs ih => rw [List.cons_append, byteSize_cons, byteSize_cons, ih, Nat.add_assoc]

theorem byteSize_pos {cs : List Char} (h : cs ≠ []) : 0 < byteSize cs := by
  cases cs with
  | nil => exact absurd rfl h
  | cons c cs =>
    rw [byteSize_cons]
    exact Nat.add_pos_left (Char.utf8Size_pos c) _

/-- Behind the bytes of a first part stands the second part. -/
theorem dropBytes?_append (cs ds : List Char) :
    dropBytes? (byteSize cs) (cs ++ ds) = some ds := by
  induction cs with
  | nil => simp [dropBytes?]
  | cons c cs ih =>
    have hc : 0 < c.utf8Size := Char.utf8Size_pos c
    obtain ⟨n, hn⟩ : ∃ n, byteSize (c :: cs) = n + 1 :=
      ⟨byteSize (c :: cs) - 1, by rw [byteSize_cons]; omega⟩
    rw [hn, List.cons_append, dropBytes?, ← hn, byteSize_cons, if_pos (by omega)]
    rw [show c.utf8Size + byteSize cs - c.utf8Size = byteSize cs by omega, ih]

/-- The bytes of a first part hold its characters. -/
theorem charsIn?_append (cs ds : List Char) :
    charsIn? (byteSize cs) (cs ++ ds) = some cs.length := by
  suffices h : ∀ k, countIn? k (byteSize cs) (cs ++ ds) = some (k + cs.length) by
    simpa [charsIn?] using h 0
  induction cs with
  | nil => intro k; simp [countIn?]
  | cons c cs ih =>
    intro k
    have hc : 0 < c.utf8Size := Char.utf8Size_pos c
    obtain ⟨n, hn⟩ : ∃ n, byteSize (c :: cs) = n + 1 :=
      ⟨byteSize (c :: cs) - 1, by rw [byteSize_cons]; omega⟩
    rw [hn, List.cons_append, countIn?, ← hn, byteSize_cons, if_pos (by omega)]
    rw [show c.utf8Size + byteSize cs - c.utf8Size = byteSize cs by omega, ih]
    simp only [List.length_cons, Option.some.injEq]
    omega

end SheetLint.Text
