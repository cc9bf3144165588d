import SheetLint.Source
import Mathlib.Data.List.Induction

/-! # Positions along a text

`Source.position` looks an offset up in the table of lines.  Here is what it finds.  Reading
a text character by character moves a position along: behind a line feed it stands at the
start of the next line, behind any other character one column further.  At an offset between
two characters the table gives the position that is reached by reading what stands in front
(`position_eq_posAfter`).

Each character moves the position strictly forward in the order `Position.le`.  So of two
places in a source, the one further behind has the greater position
(`posAfter_before_append`).
-/
namespace SheetLint
open Text

namespace Position

/-- The first position stands strictly in front of the second. -/
def Before (p q : Position) : Prop := q.le p = false

theorem before_iff {p q : Position} :
    p.Before q ↔ p.line < q.line ∨ p.line = q.line ∧ p.column < q.column := by
  simp only [Before, le, Bool.or_eq_false_iff, Bool.and_eq_false_iff, decide_eq_false_iff_not,
    beq_eq_false_iff_ne]
  omega

theorem le_iff {p q : Position} :
    p.le q = true ↔ p.line < q.line ∨ p.line = q.line ∧ p.column ≤ q.column := by
  simp [le]

theorem Before.trans {p q r : Position} (h : p.Before q) (h' : q.Before r) : p.Before r := by
  rw [before_iff] at *
  omega

theorem Before.le {p q : Position} (h : p.Before q) : p.le q = true := by
  rw [before_iff] at h
  rw [le_iff]
  omega

theorem le_refl (p : Position) : p.le p = true := by
  simp [le]

/-- The position behind a character that stands at `p`. -/
def behind (p : Position) (c : Char) : Position :=
  if c = '\n' then ⟨p.line + 1, 1⟩ else ⟨p.line, p.column + 1⟩

theorem before_behind (p : Position) (c : Char) : p.Before (p.behind c) := by
  rw [before_iff, behind]
  split
  · exact .inl (Nat.lt_succ_self _)
  · exact .inr ⟨rfl, Nat.lt_succ_self _⟩

end Position

/-- The position reached by reading a text from the start of a source. -/
def posAfter (cs : List Char) : Position := cs.foldl Position.behind ⟨1, 1⟩

theorem posAfter_concat (cs : List Char) (c : Char) :
    posAfter (cs ++ [c]) = (posAfter cs).behind c := by
  simp [posAfter]

/-- **Reading moves forward.**  Behind more characters stands a greater position. -/
theorem posAfter_before_append (cs : List Char) {ds : List Char} (h : ds ≠ []) :
    (posAfter cs).Before (posAfter (cs ++ ds)) := by
  induction ds using List.reverseRecOn with
  | nil => exact absurd rfl h
  | append_singleton ds d ih =>
    have hlast : (posAfter (cs ++ ds)).Before (posAfter (cs ++ (ds ++ [d]))) := by
      rw [← List.append_assoc, posAfter_concat]
      exact Position.before_behind _ d
    by_cases hds : ds = []
    · subst hds
      simpa using hlast
    · exact (ih hds).trans hlast

/-! ### The table of lines -/

/-- The lines that start behind the line feeds of a text standing at `offset`. -/
def laterLines (offset : Nat) : List Char → List Line
  | [] => []
  | c :: cs =>
    (if c = '\n' then [⟨offset + c.utf8Size, cs⟩] else []) ++ laterLines (offset + c.utf8Size) cs

theorem linesFrom_eq (offset : Nat) (found : Array Line) (cs : List Char) :
    linesFrom offset found cs = found ++ (laterLines offset cs).toArray := by
  induction cs generalizing offset found with
  | nil => simp [linesFrom, laterLines]
  | cons c cs ih =>
    rw [linesFrom, ih, laterLines]
    split <;> simp

/-- The line with more text behind it. -/
def Line.extend (more : List Char) (line : Line) : Line := ⟨line.start, line.onward ++ more⟩

theorem laterLines_append (offset : Nat) (cs ds : List Char) :
    laterLines offset (cs ++ ds) =
      (laterLines offset cs).map (Line.extend ds) ++ laterLines (offset + byteSize cs) ds := by
  induction cs generalizing offset with
  | nil => simp [laterLines]
  | cons c cs ih =>
    rw [List.cons_append, laterLines, laterLines, ih, byteSize_cons, ← Nat.add_assoc]
    split <;> simp [Line.extend]

theorem mem_laterLines_cons {offset : Nat} {c : Char} {cs : List Char} {line : Line} :
    line ∈ laterLines offset (c :: cs) ↔
      (c = '\n' ∧ line = ⟨offset + c.utf8Size, cs⟩) ∨
        line ∈ laterLines (offset + c.utf8Size) cs := by
  rw [laterLines, List.mem_append]
  refine or_congr ?_ Iff.rfl
  split <;> simp_all

/-- Every later line starts behind the place where the text stands. -/
theorem lt_start_of_mem_laterLines {offset : Nat} {cs : List Char} {line : Line}
    (h : line ∈ laterLines offset cs) : offset < line.start := by
  induction cs generalizing offset with
  | nil => cases h
  | cons c cs ih =>
    have hc : 0 < c.utf8Size := Char.utf8Size_pos c
    rcases mem_laterLines_cons.mp h with ⟨-, rfl⟩ | h
    · exact Nat.lt_add_of_pos_right hc
    · have := ih h
      omega

theorem le_start_of_mem_laterLines {offset : Nat} {c : Char} {cs : List Char} {line : Line}
    (h : line ∈ laterLines offset (c :: cs)) : offset + c.utf8Size ≤ line.start := by
  rcases mem_laterLines_cons.mp h with ⟨-, rfl⟩ | h
  · exact Nat.le_refl _
  · exact Nat.le_of_lt (lt_start_of_mem_laterLines h)

/-- All lines of a text, the first one included. -/
def allLines (cs : List Char) : List Line := ⟨0, cs⟩ :: laterLines 0 cs

theorem lineTable_eq (cs : List Char) : lineTable cs = (allLines cs).toArray := by
  simp [lineTable, linesFrom_eq, allLines]

theorem allLines_append (cs ds : List Char) :
    allLines (cs ++ ds) = (allLines cs).map (Line.extend ds) ++ laterLines (byteSize cs) ds := by
  simp [allLines, laterLines_append, Line.extend]

/-- What the last line of a text has to do with the position behind it. -/
structure LastLine (cs : List Char) (earlier : List Line) (last : Line) : Prop where
  lines_eq : allLines cs = earlier ++ [last]
  size_eq : last.start + byteSize last.onward = byteSize cs
  start_le : ∀ line ∈ earlier, line.start ≤ byteSize cs
  posAfter_eq : posAfter cs = ⟨earlier.length + 1, last.onward.length + 1⟩

theorem LastLine.width_eq {cs : List Char} {earlier : List Line} {last : Line}
    (h : LastLine cs earlier last) : byteSize cs - last.start = byteSize last.onward := by
  have := h.size_eq
  omega

theorem exists_lastLine (cs : List Char) : ∃ earlier last, LastLine cs earlier last := by
  induction cs using List.reverseRecOn with
  | nil => exact ⟨[], ⟨0, []⟩, by simp [allLines, laterLines], rfl, by simp, rfl⟩
  | append_singleton cs c ih =>
    obtain ⟨earlier, last, h⟩ := ih
    have hearlier : ∀ line ∈ earlier.map (Line.extend [c]), line.start ≤ byteSize (cs ++ [c]) := by
      intro line hline
      obtain ⟨line, hmem, rfl⟩ := List.mem_map.mp hline
      have := h.start_le line hmem
      simp only [Line.extend, byteSize_append]
      omega
    by_cases hc : c = '\n'
    · -- the line feed ends the last line, and an empty one starts
      refine ⟨(earlier ++ [last]).map (Line.extend [c]), ⟨byteSize (cs ++ [c]), []⟩, ?_, ?_, ?_, ?_⟩
      · rw [allLines_append, h.lines_eq]
        simp [laterLines, hc]
      · simp
      · intro line hline
        rw [List.map_append, List.mem_append] at hline
        rcases hline with hline | hline
        · exact hearlier line hline
        · have := h.size_eq
          simp only [List.map_cons, List.map_nil, List.mem_singleton] at hline
          simp only [hline, Line.extend, byteSize_append]
          omega
      · rw [posAfter_concat, h.posAfter_eq]
        simp [Position.behind, hc]
    · refine ⟨earlier.map (Line.extend [c]), last.extend [c], ?_, ?_, hearlier, ?_⟩
      · rw [allLines_append, h.lines_eq]
        simp [laterLines, hc]
      · simp [Line.extend, ← h.size_eq, Nat.add_assoc]
      · rw [posAfter_concat, h.posAfter_eq]
        simp [Position.behind, hc, Line.extend]

/-! ### The search -/

namespace Source

/-- The search finds the last of the lines that start at or before the offset, if these
are the first `k` of the table. -/
theorem searchLine_eq {table : Array Line} {offset k : Nat}
    (hsplit : ∀ j < table.size,
      (table[j]?.any fun line => line.start ≤ offset) = decide (j < k))
    (lo hi : Nat) (hlo : lo < k) (hhi : k ≤ hi) (hsize : hi ≤ table.size) :
    searchLine table offset lo hi = k - 1 := by
  -- the last line that starts in time stays between the two ends of the range
  fun_induction searchLine table offset lo hi with
  | case1 lo hi hlt mid hmid ih =>
    rw [hsplit mid (by omega), decide_eq_true_eq] at hmid
    exact ih hmid hhi hsize
  | case2 lo hi hlt mid hmid ih =>
    rw [hsplit mid (by omega), decide_eq_true_eq] at hmid
    exact ih hlo (by omega) (by omega)
  | case3 lo hi hlt => omega

theorem any_getElem?_append {p : Line → Bool} {as bs : List Line} (has : ∀ a ∈ as, p a = true)
    (hbs : ∀ b ∈ bs, p b = false) (j : Nat) (hj : j < (as ++ bs).length) :
    (as ++ bs)[j]?.any p = decide (j < as.length) := by
  rw [List.getElem?_eq_getElem hj, Option.any_some]
  by_cases hlt : j < as.length
  · rw [List.getElem_append_left hlt, has _ (List.getElem_mem hlt), decide_eq_true hlt]
  · rw [List.getElem_append_right (Nat.le_of_not_lt hlt), hbs _ (List.getElem_mem _),
      decide_eq_false hlt]

variable {src : Source} {front back : List Char}

/-- The offset stands behind `front`, at its end or inside the first character of `back`. -/
structure StandsBehind (src : Source) (offset : Nat) (front back : List Char) : Prop where
  chars_eq : src.chars = front ++ back
  size_le : byteSize front ≤ offset
  lt_next : ∀ c ∈ back.head?, offset < byteSize front + c.utf8Size

theorem standsBehind_boundary (h : src.chars = front ++ back) :
    src.StandsBehind (byteSize front) front back :=
  ⟨h, Nat.le_refl _, fun c _ => Nat.lt_add_of_pos_right (Char.utf8Size_pos c)⟩

/-- The search finds the last line of what stands in front of an offset. -/
theorem StandsBehind.getElem?_lineIndex {offset : Nat} (h : src.StandsBehind offset front back) :
    ∃ earlier last, LastLine front earlier last ∧ src.lineIndex offset = earlier.length ∧
      src.lines[earlier.length]? = some (last.extend back) := by
  obtain ⟨earlier, last, hlast⟩ := exists_lastLine front
  -- the lines of the front start in time, those of the back start too late
  have hlines : src.lines = ((earlier.map (Line.extend back) ++ [last.extend back]) ++
      laterLines (byteSize front) back).toArray := by
    rw [src.lines_eq, lineTable_eq, h.chars_eq, allLines_append, hlast.lines_eq, List.map_append]
    rfl
  have hindex : src.lineIndex offset = earlier.length := by
    refine searchLine_eq (k := earlier.length + 1) ?_ 0 _ (Nat.succ_pos _) (by simp [hlines])
      (Nat.le_refl _)
    intro j hj
    have hfront : ∀ line ∈ earlier.map (Line.extend back) ++ [last.extend back],
        decide (line.start ≤ offset) = true := by
      intro line hline
      refine decide_eq_true (Nat.le_trans ?_ h.size_le)
      rcases List.mem_append.mp hline with hline | hline
      · obtain ⟨line, hmem, rfl⟩ := List.mem_map.mp hline
        exact hlast.start_le line hmem
      · rw [List.mem_singleton.mp hline]
        exact Nat.le.intro hlast.size_eq
    have hback : ∀ line ∈ laterLines (byteSize front) back,
        decide (line.start ≤ offset) = false := by
      intro line hline
      cases back with
      | nil => cases hline
      | cons c back =>
        have hnext := h.lt_next c rfl
        have hstart := le_start_of_mem_laterLines hline
        exact decide_eq_false (by omega)
    rw [hlines] at hj ⊢
    rw [List.getElem?_toArray, any_getElem?_append hfront hback j hj]
    simp
  exact ⟨earlier, last, hlast, hindex, by simp [hlines]⟩

/-- At an offset between two characters the search finds the last line of what stands in
front of it. -/
theorem lineAt_lineIndex (h : src.chars = front ++ back) :
    ∃ earlier last, LastLine front earlier last ∧
      src.lineIndex (byteSize front) = earlier.length ∧
      src.lineAt earlier.length = last.extend back := by
  obtain ⟨earlier, last, hlast, hindex, hline⟩ := (standsBehind_boundary h).getElem?_lineIndex
  exact ⟨earlier, last, hlast, hindex, by rw [lineAt, hline]; rfl⟩

/-- The position that the table gives to an offset between two characters is reached by
reading what stands in front of it. -/
theorem position_eq_posAfter (h : src.chars = front ++ back) :
    src.position (byteSize front) = posAfter front := by
  obtain ⟨earlier, last, hlast, hindex, hline⟩ := lineAt_lineIndex h
  have hsize : min (byteSize front) src.size = byteSize front := by
    rw [src.size_eq, h, byteSize_append]
    omega
  rw [position, hsize, hindex, hline, hlast.posAfter_eq]
  simp only [Line.extend, hlast.width_eq, charsIn?_append, Option.getD_some]

/-- The text of a span between characters is what stands there. -/
theorem text_eq_ofList {mid : List Char} (h : src.chars = front ++ (mid ++ back)) :
    src.text ⟨byteSize front, byteSize front + byteSize mid⟩ = String.ofList mid := by
  obtain ⟨earlier, last, hlast, hindex, hline⟩ := lineAt_lineIndex h
  have hordered : ¬ byteSize front + byteSize mid < byteSize front := by omega
  rw [text, slice?, if_neg hordered, hindex, hline]
  simp [Line.extend, hlast.width_eq, dropBytes?_append, charsIn?_append]

/-- **Positions follow offsets.**  Of two offsets between characters, the greater one has
the greater position. -/
theorem position_before_position {front' back' : List Char} (h : src.chars = front ++ back)
    (h' : src.chars = front' ++ back') (hlt : byteSize front < byteSize front') :
    (src.position (byteSize front)).Before (src.position (byteSize front')) := by
  rw [position_eq_posAfter h, position_eq_posAfter h']
  have hboth : front ++ back = front' ++ back' := by rw [← h, h']
  -- of two fronts of one text, one is a front of the other
  rcases List.append_eq_append_iff.mp hboth with ⟨mid, rfl, -⟩ | ⟨mid, rfl, -⟩
  · refine posAfter_before_append front ?_
    rintro rfl
    simp at hlt
  · rw [byteSize_append] at hlt
    omega

end Source
end SheetLint
