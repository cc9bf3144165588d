import SheetLint.Proofs.Braces
import SheetLint.Proofs.TokenOrder

/-! # Reading forward

The tokens that are left tell where a reading has come to.  Readers go forward only: what they
leave lies ahead of what they were given, with none but ordinary tokens in between (`Ahead`).

A list of tokens whose end is marked once (`EndsOnce`), as that of every source is
(`Source.tokens_endsOnce`), therefore never runs out: whatever is left of it still has the mark
(`EndsOnce.ahead`).
-/
namespace SheetLint

/-- A reader that has been given some tokens has gone on to `rest`, and has not read the end of
the source in between. -/
def Ahead (ts rest : List Token) : Prop := ∃ used, ts = used ++ rest ∧ Endless used

/-- The last token, and no other, is the end of the source. -/
def EndsOnce (ts : List Token) : Prop :=
  ∃ body stop, ts = body ++ [stop] ∧ Endless body ∧ stop.kind = .eof

/-- Of the tokens, only the end of the source is left. -/
def OnlyEndLeft (ts rest : List Token) : Prop :=
  ∃ stop, stop.kind = .eof ∧ ts.getLast? = some stop ∧ rest = [stop]

section Ahead
variable {t : Token} {ts us rest : List Token}

theorem Ahead.refl (ts : List Token) : Ahead ts ts := ⟨[], rfl, endless_nil⟩

theorem Ahead.trans (h : Ahead ts us) (h' : Ahead us rest) : Ahead ts rest := by
  obtain ⟨used, rfl, hused⟩ := h
  obtain ⟨more, rfl, hmore⟩ := h'
  exact ⟨used ++ more, (List.append_assoc ..).symm, endless_append.mpr ⟨hused, hmore⟩⟩

theorem Ahead.cons (ht : t.kind ≠ .eof) (h : Ahead ts rest) : Ahead (t :: ts) rest := by
  obtain ⟨used, rfl, hused⟩ := h
  exact ⟨t :: used, rfl, endless_cons.mpr ⟨ht, hused⟩⟩

/-- A token that is not the end of the source may be passed. -/
theorem ahead_tail (ht : t.kind ≠ .eof) : Ahead (t :: ts) ts := (Ahead.refl ts).cons ht

theorem Ahead.suffix (h : Ahead ts rest) : rest <:+ ts := by
  obtain ⟨used, rfl, -⟩ := h
  exact List.suffix_append used rest

theorem EndsOnce.ne_nil (h : EndsOnce ts) : ts ≠ [] := by
  obtain ⟨body, stop, rfl, -, -⟩ := h
  exact List.append_ne_nil_of_right_ne_nil body (List.cons_ne_nil stop [])

/-- What is left of such a list is not empty exactly if it ends as the list does. -/
theorem EndsOnce.suffix (h : EndsOnce ts) (hrest : rest <:+ ts) (hne : rest ≠ []) :
    EndsOnce rest ∧ rest.getLast? = ts.getLast? := by
  obtain ⟨body, stop, rfl, hbody, hstop⟩ := h
  rcases List.suffix_concat_iff.mp hrest with rfl | ⟨more, rfl, hmore⟩
  · exact absurd rfl hne
  · refine ⟨⟨more, stop, rfl, fun t ht => hbody t (hmore.subset ht), hstop⟩, ?_⟩
    rw [List.getLast?_concat, List.getLast?_concat]

/-- **The end is not passed.** -/
theorem EndsOnce.ahead (h : EndsOnce ts) (hrest : Ahead ts rest) : rest ≠ [] := by
  obtain ⟨body, stop, hts, -, hstop⟩ := h
  obtain ⟨used, rfl, hused⟩ := hrest
  rintro rfl
  rw [List.append_nil] at hts
  rw [hts, endless_append, endless_cons] at hused
  exact hused.2.1 hstop

/-- Where nothing else can be read, the end is left. -/
theorem EndsOnce.onlyEndLeft (h : EndsOnce ts) (hrest : rest <:+ ts) (hne : rest ≠ [])
    (hend : AtEnd rest) : OnlyEndLeft ts rest := by
  obtain ⟨⟨body, stop, hrest', hbody, hstop⟩, hlast⟩ := h.suffix hrest hne
  subst hrest'
  rw [List.getLast?_concat] at hlast
  cases body with
  | nil => exact ⟨stop, hstop, hlast.symm, rfl⟩
  | cons t body => exact absurd (hend t rfl) (hbody t List.mem_cons_self)

end Ahead

theorem Source.tokens_endsOnce (src : Source) : EndsOnce src.tokens :=
  ⟨_, _, src.dropLast_tokens_append.symm, fun _ ht => src.ne_eof_of_mem_dropLast_tokens ht, rfl⟩

/-! ### Readers go forward -/

section Readers
variable (src : Source)

theorem skipBlock_ahead (depth : Nat) (ts : List Token) : Ahead ts (skipBlock depth ts) := by
  fun_induction skipBlock depth ts with
  | case1 => exact .refl _
  | case2 => exact .refl _
  | case3 depth t ts ht ih => exact ih.cons (by simp [ht])
  | case4 depth t ts ht _ => exact ahead_tail (by simp [ht])
  | case5 depth t ts ht _ ih => exact ih.cons (by simp [ht])
  | case6 depth t ts he _ _ ih => exact ih.cons he

theorem skipDeclaration_ahead (ts : List Token) : Ahead ts (skipDeclaration ts) := by
  fun_induction skipDeclaration ts with
  | case1 | case2 | case3 => exact .refl _
  | case4 t ts ht => exact ahead_tail (by simp [ht])
  | case5 t ts _ => exact skipBlock_ahead 0 (t :: ts)
  | case6 t ts he _ _ _ ih => exact ih.cons he

theorem eatSemicolon_ahead (ts : List Token) : Ahead ts (eatSemicolon ts) := by
  unfold eatSemicolon
  split
  · exact .refl _
  · split
    · rename_i ht
      exact ahead_tail (by simp [ht])
    · exact .refl _

theorem afterHeader_ahead (ts : List Token) : Ahead ts (afterHeader ts) :=
  ⟨headerTokens ts, (headerTokens_append_afterHeader ts).symm, (plain_headerTokens ts).endless⟩

/-- What is left behind a header starts with the token that ends it. -/
theorem endsHeader_of_afterHeader {t : Token} {ts rest : List Token}
    (h : afterHeader ts = t :: rest) : t.kind.endsHeader = true := by
  have hhead := List.head?_dropWhile_not (fun t : Token => !t.kind.endsHeader) ts
  rw [← afterHeader, h] at hhead
  simpa using hhead

theorem splitGroup_endless (depth : Nat) (ts : List Token) : Endless (splitGroup depth ts).1 := by
  fun_induction splitGroup depth ts with
  | case1 | case2 | case3 | case4 => exact endless_nil
  | case5 depth t ts ht _ => exact endless_cons.mpr ⟨by simp [ht], endless_nil⟩
  | case6 depth t ts ht _ ih | case7 depth t ts ht ih | case8 depth t ts ht ih =>
    exact endless_cons.mpr ⟨by simp [ht], ih⟩
  | case9 depth t ts _ _ he _ _ _ ih => exact endless_cons.mpr ⟨he, ih⟩

theorem splitGroup_ahead (depth : Nat) (ts : List Token) : Ahead ts (splitGroup depth ts).2 :=
  ⟨_, (splitGroup_append depth ts).symm, splitGroup_endless depth ts⟩

/-- The first token may be passed where something else is read than the end of the source. -/
theorem ahead_tail_of_peek {ts : List Token} (h : (src.peek ts).kind ≠ .eof) :
    Ahead ts ts.tail := by
  cases ts with
  | nil => exact .refl []
  | cons t ts => exact ahead_tail h

theorem readParts_ahead (scan : ValueScan) (ts : List Token) :
    Ahead ts (readParts src scan ts).2 := by
  refine readParts_rec (P := fun _ ts out => Ahead ts out.2)
    ?nil ?stop ?important ?bang ?group ?single scan ts
  case nil => exact fun _ => .refl []
  case stop => exact fun _ t ts _ => .refl (t :: ts)
  case important =>
    intro _ t ts out ht hword ih
    have htail : Ahead ts ts.tail := by
      obtain ⟨word, more, rfl, hident, -⟩ := exists_of_atImportant hword
      exact ahead_tail (by simp [hident])
    exact (htail.trans ih).cons (by simp [ht])
  case bang =>
    intro _ t ts out ht _ ih
    exact ih.cons (by simp [ht])
  case group =>
    intro _ t ts out ht ih
    refine ((splitGroup_ahead 1 ts).trans ih).cons ?_
    rintro he
    rw [he] at ht
    cases ht
  case single =>
    intro _ t ts out ht _ _ ih
    exact ih.cons (ne_of_plain ht rfl)

theorem openBlock_ahead (kind : BlockKind) (header : String) (position : Position)
    (ts : List Token) : Ahead ts (openBlock src kind header position ts).rest := by
  unfold openBlock
  split
  · rename_i hbrace
    exact ahead_tail_of_peek src (by simp [hbrace])
  · exact eatSemicolon_ahead ts

theorem readBlock_ahead (kind : BlockKind) (position : Position) (ts : List Token) :
    Ahead ts (readBlock src kind position ts).rest :=
  (afterHeader_ahead ts).trans (openBlock_ahead src kind _ position _)

theorem readImport_ahead (position : Position) (ts : List Token) :
    Ahead ts (readImport src position ts).rest := by
  cases htarget : src.importTarget? (src.peek ts) with
  | none =>
    rw [readImport_noTarget position htarget]
    exact skipDeclaration_ahead ts
  | some uri =>
    have hplain := endsHeader_of_importTarget? htarget
    have htail := ahead_tail_of_peek src (ne_of_plain hplain rfl)
    simp only [readImport, htarget]
    exact (htail.trans (afterHeader_ahead ts.tail)).trans (eatSemicolon_ahead _)

theorem readAtRule_ahead (t : Token) (ts : List Token) : Ahead ts (readAtRule src t ts).rest := by
  unfold readAtRule
  dsimp only
  split
  · exact readImport_ahead src _ ts
  · exact skipDeclaration_ahead ts
  · exact readBlock_ahead src _ _ ts
  · exact skipDeclaration_ahead ts

theorem readNamed_ahead (starred : Bool) (position : Position) (t : Token) (ts : List Token) :
    Ahead ts (readNamed src starred position t ts).rest := by
  unfold readNamed
  dsimp only
  split
  · exact skipDeclaration_ahead ts
  · rename_i hcolon
    have htail : Ahead ts ts.tail :=
      ahead_tail_of_peek src (by rw [Decidable.not_not.mp hcolon]; exact nofun)
    have hvalue := htail.trans (readParts_ahead src {} ts.tail)
    split
    · exact hvalue.trans (skipBlock_ahead 0 _)
    · split
      all_goals exact hvalue.trans (eatSemicolon_ahead _)

theorem readStarred_ahead (position : Position) (ts : List Token) :
    Ahead ts (readStarred src position ts).rest := by
  unfold readStarred
  split
  · split
    · rename_i ht
      exact (readNamed_ahead src true position _ _).cons (by simp [ht])
    · exact skipDeclaration_ahead _
  · exact .refl []

theorem readDeclaration_ahead (margins : Bool) {t : Token} (ts : List Token)
    (ht : t.kind ≠ .eof) : Ahead (t :: ts) (readDeclaration src margins t ts).rest := by
  unfold readDeclaration
  dsimp only
  split
  · exact ahead_tail ht
  · split
    · exact (openBlock_ahead src _ _ _ ts).cons ht
    · exact (skipDeclaration_ahead ts).cons ht
  · exact (readNamed_ahead src false _ t ts).cons ht
  · exact (readStarred_ahead src _ ts).cons ht
  · exact skipDeclaration_ahead (t :: ts)

/-- An item is read forward. -/
theorem readItem_ahead (body : Body) {t : Token} (ts : List Token) (ht : t.kind ≠ .eof) :
    Ahead (t :: ts) (readItem src body t ts).rest := by
  unfold readItem
  split
  case h_1 | h_2 =>
    split
    · exact ahead_tail ht
    · exact (readAtRule_ahead src t ts).cons ht
    · exact readBlock_ahead src _ _ (t :: ts)
  case h_3 =>
    split
    · exact ahead_tail ht
    · exact readBlock_ahead src _ _ (t :: ts)
  case h_4 => exact readDeclaration_ahead src true ts ht
  case h_5 => exact readDeclaration_ahead src false ts ht

/-- **Bodies are read forward.** -/
theorem readFrom_ahead (base : Body) (trail : Trail) (nest : List BlockKind) (ts : List Token) :
    Ahead ts (readFrom src base trail nest ts).2 := by
  induction trail, nest, ts using readFrom.induct src base with
  | case1 trail nest =>
    rw [readFrom_nil]
    exact .refl []
  | case2 trail nest t ts he =>
    rw [readFrom_end _ _ _ _ _ he]
    exact .refl _
  | case3 trail t ts he hb kind outer _ ih =>
    rw [readFrom_close _ _ _ _ _ _ hb]
    exact ih.cons he
  | case4 trail t ts he hb hbase ih =>
    subst hbase
    rw [readFrom_stray _ _ _ hb]
    exact ih.cons he
  | case5 trail t ts he hb hbase =>
    rw [readFrom_leave _ _ _ _ hb hbase]
    exact .refl _
  | case6 trail nest t ts he hb item ih =>
    rw [readFrom_item _ _ _ _ _ he hb]
    exact (readItem_ahead src _ ts he).trans ih

end Readers
end SheetLint
