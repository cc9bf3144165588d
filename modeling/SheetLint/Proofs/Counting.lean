import Mathlib.Data.List.DropRight
import SheetLint.Proofs.Gaps

/-! # Positions by counting

`Source.position` searches a table of lines.  What it finds can be said without the table: the
line is one more than the number of line feeds in front of the offset, and the column is one
more than the number of characters that stand between the last of these line feeds and the
offset.  An offset inside a character gets the number of bytes in place of the characters.

In UTF-8 the byte of a line feed belongs to a line feed and to no other character
(`lineFeed_not_mem`), so lines may be counted in bytes or in characters (`count_bytesOf`,
`rtakeWhile_bytesOf`).  The main statement puts the table and the counts side by side, for
every offset (`position_eq_counts`).
-/
namespace SheetLint
open Text

/-! ### Characters since the last line feed -/

/-- The end of a text behind its last line feed. -/
def lastLineOf (cs : List Char) : List Char := cs.rtakeWhile (· != '\n')

theorem lastLineOf_concat (cs : List Char) (c : Char) :
    lastLineOf (cs ++ [c]) = if c = '\n' then [] else lastLineOf cs ++ [c] := by
  rw [lastLineOf, List.rtakeWhile_concat, lastLineOf]
  by_cases hc : c = '\n' <;> simp [hc]

/-- The position behind a text is told by its line feeds. -/
theorem posAfter_eq_counts (cs : List Char) :
    posAfter cs = ⟨cs.count '\n' + 1, (lastLineOf cs).length + 1⟩ := by
  induction cs using List.reverseRecOn with
  | nil => rfl
  | append_singleton cs c ih =>
    rw [posAfter_concat, ih, Position.behind, lastLineOf_concat, List.count_append]
    by_cases hc : c = '\n' <;> simp [hc]

/-! ### Bytes -/

/-- The byte of a line feed. -/
def lineFeed : UInt8 := 10

/-- The bytes of some characters in UTF-8. -/
def bytesOf (cs : List Char) : List UInt8 := cs.flatMap String.utf8EncodeChar

theorem bytesOf_append (cs ds : List Char) : bytesOf (cs ++ ds) = bytesOf cs ++ bytesOf ds :=
  List.flatMap_append

theorem bytesOf_cons (c : Char) (cs : List Char) :
    bytesOf (c :: cs) = String.utf8EncodeChar c ++ bytesOf cs :=
  List.flatMap_cons

theorem length_bytesOf (cs : List Char) : (bytesOf cs).length = byteSize cs := by
  induction cs with
  | nil => rfl
  | cons c cs ih =>
    rw [bytesOf_cons, List.length_append, String.length_utf8EncodeChar, ih, byteSize_cons]

/-- The byte of a line feed occurs in no other character. -/
theorem lineFeed_not_mem {c : Char} (hc : c ≠ '\n') : lineFeed ∉ String.utf8EncodeChar c := by
  have hval : c.val.toNat ≠ 10 := fun h => hc (Char.ext (UInt32.toNat_inj.mp h))
  have hne (n : Nat) (h : n % 256 ≠ 10) : lineFeed ≠ UInt8.ofNat n := by
    intro heq
    have hbyte := congrArg UInt8.toNat heq
    rw [UInt8.toNat_ofNat'] at hbyte
    exact h hbyte.symm
  rw [String.utf8EncodeChar]
  split
  · rw [List.mem_singleton]
    exact hne _ (by omega)
  -- a character of several bytes has only bytes from 128 on
  · split
    · simp only [List.mem_cons, List.not_mem_nil, or_false, not_or]
      exact ⟨hne _ (by omega), hne _ (by omega)⟩
    · split
      · simp only [List.mem_cons, List.not_mem_nil, or_false, not_or]
        exact ⟨hne _ (by omega), hne _ (by omega), hne _ (by omega)⟩
      · simp only [List.mem_cons, List.not_mem_nil, or_false, not_or]
        exact ⟨hne _ (by omega), hne _ (by omega), hne _ (by omega), hne _ (by omega)⟩

theorem count_bytesOf (cs : List Char) : (bytesOf cs).count lineFeed = cs.count '\n' := by
  induction cs with
  | nil => rfl
  | cons c cs ih =>
    rw [bytesOf_cons, List.count_append, ih]
    by_cases hc : c = '\n'
    · subst hc
      rw [List.count_cons_self, Nat.add_comm]
      rfl
    · rw [List.count_eq_zero_of_not_mem (lineFeed_not_mem hc), List.count_cons_of_ne hc,
        Nat.zero_add]

/-- Behind a list all of whose elements are taken, taking goes on in what stands in front. -/
theorem rtakeWhile_append_of_pos {α : Type} {p : α → Bool} (as : List α) {bs : List α}
    (h : ∀ b ∈ bs, p b = true) : (as ++ bs).rtakeWhile p = as.rtakeWhile p ++ bs := by
  have hall : ∀ b ∈ bs.reverse, p b = true := fun b hb => h b (List.mem_reverse.mp hb)
  rw [List.rtakeWhile, List.reverse_append, List.takeWhile_append_of_pos hall,
    List.reverse_append, List.reverse_reverse, List.rtakeWhile]

theorem rtakeWhile_bytesOf (cs : List Char) :
    (bytesOf cs).rtakeWhile (· != lineFeed) = bytesOf (lastLineOf cs) := by
  induction cs using List.reverseRecOn with
  | nil => rfl
  | append_singleton cs c ih =>
    have hlast : bytesOf [c] = String.utf8EncodeChar c := List.flatMap_singleton _ c
    rw [bytesOf_append, hlast, lastLineOf_concat]
    by_cases hc : c = '\n'
    · subst hc
      exact List.rtakeWhile_concat_neg _ _ _ (by decide)
    · have hall : ∀ b ∈ String.utf8EncodeChar c, (b != lineFeed) = true := by
        intro b hb
        rw [bne_iff_ne]
        rintro rfl
        exact lineFeed_not_mem hc hb
      rw [rtakeWhile_append_of_pos _ hall, ih, if_neg hc, bytesOf_append, hlast]

/-! ### Offsets -/

/-- The characters in front of an offset in a text: the next one ends behind it. -/
theorem exists_front (cs : List Char) {offset : Nat} (h : offset ≤ byteSize cs) :
    ∃ front back, cs = front ++ back ∧ byteSize front ≤ offset ∧
      ∀ c ∈ back.head?, offset < byteSize front + c.utf8Size := by
  induction cs generalizing offset with
  | nil => exact ⟨[], [], rfl, Nat.zero_le _, nofun⟩
  | cons c cs ih =>
    rw [byteSize_cons] at h
    by_cases hc : offset < c.utf8Size
    · refine ⟨[], c :: cs, rfl, Nat.zero_le _, ?_⟩
      rintro _ ⟨⟩
      simpa using hc
    · have hrest : offset - c.utf8Size ≤ byteSize cs := by omega
      obtain ⟨front, back, rfl, hle, hnext⟩ := ih hrest
      refine ⟨c :: front, back, rfl, by rw [byteSize_cons]; omega, fun d hd => ?_⟩
      have := hnext d hd
      rw [byteSize_cons]
      omega

/-- An offset inside a character does not count characters. -/
theorem charsIn?_inside (cs : List Char) {c : Char} (ds : List Char) {more : Nat}
    (hpos : 0 < more) (hlt : more < c.utf8Size) :
    charsIn? (byteSize cs + more) (cs ++ c :: ds) = none := by
  suffices h : ∀ count, countIn? count (byteSize cs + more) (cs ++ c :: ds) = none from h 0
  induction cs with
  | nil =>
    intro count
    obtain ⟨n, rfl⟩ := Nat.exists_eq_add_of_lt hpos
    rw [byteSize_nil, List.nil_append, Nat.zero_add, Nat.zero_add, countIn?, if_neg (by omega)]
  | cons b cs ih =>
    intro count
    have hb : 0 < b.utf8Size := Char.utf8Size_pos b
    obtain ⟨n, hn⟩ : ∃ n, byteSize (b :: cs) + more = n + 1 :=
      ⟨byteSize (b :: cs) + more - 1, by omega⟩
    rw [hn, List.cons_append, countIn?, ← hn, byteSize_cons, if_pos (by omega),
      show b.utf8Size + byteSize cs + more - b.utf8Size = byteSize cs + more by omega]
    exact ih (count + 1)

theorem onward_suffix_of_mem_allLines {cs : List Char} {line : Line} (h : line ∈ allLines cs) :
    line.onward <:+ cs := by
  have hlater : ∀ offset, line ∈ laterLines offset cs → line.onward <:+ cs := by
    clear h
    induction cs with
    | nil => exact fun offset h => absurd h List.not_mem_nil
    | cons c cs ih =>
      intro offset h
      rcases mem_laterLines_cons.mp h with ⟨-, rfl⟩ | h
      · exact List.suffix_cons c cs
      · exact (ih _ h).trans (List.suffix_cons c cs)
  rcases List.mem_cons.mp h with rfl | h
  · exact List.suffix_rfl
  · exact hlater 0 h

/-- The last line of a text stands behind its last line feed. -/
theorem LastLine.eq_counts {cs : List Char} {earlier : List Line} {last : Line}
    (h : LastLine cs earlier last) :
    earlier.length = cs.count '\n' ∧ last.onward = lastLineOf cs := by
  obtain ⟨hlines, hcolumns⟩ := Position.mk.inj (h.posAfter_eq.symm.trans (posAfter_eq_counts cs))
  refine ⟨Nat.succ.inj hlines, ?_⟩
  have honward : last.onward <:+ cs := by
    refine onward_suffix_of_mem_allLines ?_
    rw [h.lines_eq]
    exact List.mem_append_right _ List.mem_cons_self
  have hlength : last.onward.length = (lastLineOf cs).length := Nat.succ.inj hcolumns
  have hsuffix : lastLineOf cs <:+ cs := List.rtakeWhile_suffix ..
  exact (List.suffix_of_suffix_length_le honward hsuffix (Nat.le_of_eq hlength)).eq_of_length
    hlength

namespace Source
variable {src : Source} {offset : Nat} {front back : List Char}

/-- The position of an offset behind a text: that of the text, if the offset stands at its end;
inside a character, the bytes since the last line feed stand in for the column. -/
theorem StandsBehind.position_eq (h : src.StandsBehind offset front back)
    (hsize : offset ≤ src.size) :
    src.position offset = ⟨front.count '\n' + 1,
      (if offset = byteSize front then (lastLineOf front).length
        else byteSize (lastLineOf front) + (offset - byteSize front)) + 1⟩ := by
  obtain ⟨earlier, last, hlast, hindex, hline⟩ := h.getElem?_lineIndex
  obtain ⟨hcount, honward⟩ := hlast.eq_counts
  have hsum := hlast.size_eq
  have hle := h.size_le
  rw [honward] at hsum
  have hwidth : offset - last.start =
      byteSize (lastLineOf front) + (offset - byteSize front) := by omega
  rw [position, Nat.min_eq_left hsize, hindex, lineAt, hline]
  simp only [Option.getD_some, Line.extend, hwidth, honward, hcount]
  by_cases hend : offset = byteSize front
  · simp only [hend, Nat.sub_self, Nat.add_zero, charsIn?_append, Option.getD_some, if_true]
  · rw [if_neg hend]
    cases back with
    | nil =>
      have htotal := src.size_eq
      rw [h.chars_eq, List.append_nil] at htotal
      omega
    | cons c back =>
      have hnext := h.lt_next c rfl
      rw [charsIn?_inside _ back (by omega) (by omega), Option.getD_none]

/-- The bytes in front of an offset are those of the text it stands behind, and some of a
character that is no line feed. -/
theorem StandsBehind.take_bytesOf (h : src.StandsBehind offset front back)
    (hsize : offset ≤ src.size) :
    ∃ inside, (bytesOf src.chars).take offset = bytesOf front ++ inside ∧
      inside.length = offset - byteSize front ∧ lineFeed ∉ inside := by
  have hle := h.size_le
  have htotal := src.size_eq
  rw [h.chars_eq, byteSize_append] at htotal
  refine ⟨(bytesOf back).take (offset - byteSize front), ?_, ?_, ?_⟩
  · rw [h.chars_eq, bytesOf_append, List.take_append, length_bytesOf,
      List.take_of_length_le (by rw [length_bytesOf]; exact hle)]
  · rw [List.length_take, length_bytesOf]
    omega
  · cases back with
    | nil => simp [bytesOf]
    | cons c back =>
      have hnext := h.lt_next c rfl
      have hlength : (String.utf8EncodeChar c).length = c.utf8Size := String.length_utf8EncodeChar c
      rw [bytesOf_cons, List.take_append_of_le_length (by omega)]
      intro hmem
      by_cases hc : c = '\n'
      · -- a line feed has one byte, so that there is no offset inside it
        subst hc
        have hnone : offset - byteSize front = 0 := by
          have hone : ('\n').utf8Size = 1 := rfl
          omega
        rw [hnone] at hmem
        cases hmem
      · exact lineFeed_not_mem hc (List.mem_of_mem_take hmem)

/-- The number of lines, told by the line feeds. -/
theorem lineCount_eq_count (src : Source) : src.lineCount = src.chars.count '\n' + 1 := by
  obtain ⟨earlier, last, hlast⟩ := exists_lastLine src.chars
  rw [lineCount, src.lines_eq, lineTable_eq, hlast.lines_eq, ← hlast.eq_counts.1]
  simp

theorem IsBoundary.position_before {a b : Nat} (ha : src.IsBoundary a) (hb : src.IsBoundary b)
    (hlt : a < b) : (src.position a).Before (src.position b) := by
  obtain ⟨front, back, hchars, rfl⟩ := ha
  obtain ⟨front', back', hchars', rfl⟩ := hb
  exact position_before_position hchars hchars' hlt

theorem IsBoundary.eq_of_position_eq {a b : Nat} (ha : src.IsBoundary a) (hb : src.IsBoundary b)
    (h : src.position a = src.position b) : a = b := by
  have hirrefl : ∀ p : Position, ¬ p.Before p := fun p hp => by
    rw [Position.before_iff] at hp
    omega
  rcases Nat.lt_trichotomy a b with hlt | heq | hlt
  · exact absurd (h ▸ ha.position_before hb hlt) (hirrefl _)
  · exact heq
  · exact absurd (h ▸ hb.position_before ha hlt) (hirrefl _)

end Source

/-- **Positions are counts.**  For every offset, with one past the end taken as the end: the line
is told by the line feeds among the bytes in front of it, and the column by the characters behind
the last of these line feeds, or by the bytes if the offset stands inside a character.  The line
that is looked up is in the table and does not start behind the offset.  There is one line more
than there are line feeds, and of two offsets between characters the greater one has the greater
position, so that no two of them share one. -/
theorem position_eq_counts (text : String) :
    let src := Source.ofString text
    (∀ offset,
      let reached := min offset src.size
      let front := (bytesOf text.toList).take reached
      (src.position offset).line = front.count lineFeed + 1 ∧
        (∀ cs ds, text.toList = cs ++ ds → byteSize cs = reached →
          (src.position offset).column = (cs.rtakeWhile (· != '\n')).length + 1) ∧
        (¬ src.IsBoundary reached →
          (src.position offset).column = (front.rtakeWhile (· != lineFeed)).length + 1) ∧
        ∃ line, src.lines[src.lineIndex reached]? = some line ∧ line.start ≤ reached) ∧
      src.lineCount = text.toList.count '\n' + 1 ∧
      (∀ a b, src.IsBoundary a → src.IsBoundary b → a < b →
        (src.position a).Before (src.position b)) ∧
      ∀ a b, src.IsBoundary a → src.IsBoundary b → src.position a = src.position b → a = b := by
  intro src
  refine ⟨fun offset => ?_, src.lineCount_eq_count, fun a b => Source.IsBoundary.position_before,
    fun a b => Source.IsBoundary.eq_of_position_eq⟩
  intro reached bytes
  have hsize : reached ≤ src.size := Nat.min_le_right _ _
  have hclamp : src.position offset = src.position reached := by
    rw [Source.position, Source.position, Nat.min_eq_left hsize]
  obtain ⟨front, back, hchars, hle, hnext⟩ := exists_front src.chars (src.size_eq ▸ hsize)
  have hbehind : src.StandsBehind reached front back := ⟨hchars, hle, hnext⟩
  have hposition := hbehind.position_eq hsize
  obtain ⟨inside, hbytes, hlength, hinside⟩ := hbehind.take_bytesOf hsize
  have hfront : bytes = bytesOf front ++ inside := hbytes
  rw [hclamp, hfront]
  refine ⟨?_, ?_, ?_, ?_⟩
  · rw [hposition, List.count_append, count_bytesOf, List.count_eq_zero_of_not_mem hinside,
      Nat.add_zero]
  · rintro cs ds htext hboundary
    have hchars' : src.chars = cs ++ ds := htext
    rw [← hboundary, Source.position_eq_posAfter hchars', posAfter_eq_counts]
    rfl
  · intro hboundary
    have hne : reached ≠ byteSize front := fun h => hboundary ⟨front, back, hchars, h.symm⟩
    have hall : ∀ b ∈ inside, (b != lineFeed) = true := by
      intro b hb
      rw [bne_iff_ne]
      rintro rfl
      exact hinside hb
    rw [hposition, if_neg hne, rtakeWhile_append_of_pos _ hall, rtakeWhile_bytesOf,
      List.length_append, length_bytesOf, hlength]
  · obtain ⟨earlier, last, hlast, hindex, hline⟩ := hbehind.getElem?_lineIndex
    refine ⟨last.extend back, by rw [hindex, hline], Nat.le_trans ?_ hle⟩
    exact Nat.le.intro hlast.size_eq

/-- An offset inside a character of two bytes, and the offsets around it. -/
theorem position_eq_counts_insideCharacter :
    let src := Source.ofString "a\né"
    ¬ src.IsBoundary 3 ∧ (src.position 3).line = 2 ∧ (src.position 3).column = 2 ∧
      src.IsBoundary 2 ∧ src.IsBoundary 4 ∧ (src.position 2).Before (src.position 4) := by
  intro src
  obtain ⟨hoffsets, -, hbefore, -⟩ := position_eq_counts "a\né"
  obtain ⟨hline, -, hcolumn, -⟩ := hoffsets 3
  have hinside : ¬ src.IsBoundary 3 := by
    rintro ⟨front, back, hchars, hsize⟩
    have hcount := charsIn?_append front back
    rw [← hchars, hsize] at hcount
    have hnone : charsIn? 3 src.chars = none := by decide
    rw [hnone] at hcount
    cases hcount
  have hstart : src.IsBoundary 2 := ⟨['a', '\n'], ['é'], by decide, by decide⟩
  have hend : src.IsBoundary 4 := ⟨['a', '\n', 'é'], [], by decide, by decide⟩
  refine ⟨hinside, hline.trans (by decide), (hcolumn hinside).trans (by decide), hstart, hend, ?_⟩
  exact hbefore 2 4 hstart hend (by decide)

end SheetLint
