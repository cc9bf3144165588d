/-! # Cutting a text apart

A text is cut at the first occurrence of a separator (`cutAt?`), and a list at
every element that separates (`pieces`).
-/
namespace SheetLint.Text

/-- What stands before and behind the first occurrence of `sep`. -/
def cutAt? (sep : List Char) : List Char → Option (List Char × List Char)
  | [] => if sep.isEmpty then some ([], []) else none
  | c :: cs =>
    if sep.isPrefixOf (c :: cs) then
      some ([], (c :: cs).drop sep.length)
    else
      (cutAt? sep cs).map fun cut => (c :: cut.1, cut.2)

/-- Nothing is lost by a cut but the separator. -/
theorem cutAt?_eq_some {sep cs before behind : List Char}
    (h : cutAt? sep cs = some (before, behind)) : cs = before ++ sep ++ behind := by
  induction cs generalizing before behind with
  | nil =>
    simp only [cutAt?] at h
    split at h
    · simp_all
    · cases h
  | cons c cs ih =>
    simp only [cutAt?] at h
    split at h
    · rename_i hp
      obtain ⟨t, ht⟩ := List.isPrefixOf_iff_prefix.mp hp
      simp only [Option.some.injEq, Prod.mk.injEq] at h
      obtain ⟨rfl, rfl⟩ := h
      rw [← ht]
      simp
    · obtain ⟨⟨b, r⟩, hcut, he⟩ := Option.map_eq_some_iff.mp h
      simp only [Prod.mk.injEq] at he
      obtain ⟨rfl, rfl⟩ := he
      simp [ih hcut]

/-- A separator is found behind a text that does not hold its first character. -/
theorem cutAt?_append {c : Char} {before : List Char} (h : c ∉ before) (sep behind : List Char) :
    cutAt? (c :: sep) (before ++ (c :: sep ++ behind)) = some (before, behind) := by
  induction before with
  | nil => simp [cutAt?]
  | cons b bs ih =>
    rw [List.mem_cons, not_or] at h
    obtain ⟨hb, hbs⟩ := h
    have hstart : ¬ (c :: sep).isPrefixOf (b :: (bs ++ (c :: sep ++ behind))) = true := by
      simp [hb]
    rw [List.cons_append, cutAt?, if_neg hstart, ih hbs]
    rfl

theorem cutAt?_singleton_eq_none_iff {c : Char} {cs : List Char} :
    cutAt? [c] cs = none ↔ c ∉ cs := by
  induction cs with
  | nil => simp [cutAt?]
  | cons d ds ih =>
    by_cases hd : c = d
    · simp [cutAt?, hd]
    · simp [cutAt?, hd, ih]

/-- A single character is cut at where it first occurs. -/
theorem cutAt?_singleton_eq_some_iff {c : Char} {cs before behind : List Char} :
    cutAt? [c] cs = some (before, behind) ↔ cs = before ++ c :: behind ∧ c ∉ before := by
  constructor
  · intro h
    refine ⟨by simpa using cutAt?_eq_some h, ?_⟩
    induction cs generalizing before with
    | nil => simp [cutAt?] at h
    | cons d ds ih =>
      rw [cutAt?] at h
      split at h
      · obtain ⟨rfl, -⟩ := Prod.mk.inj (Option.some.inj h)
        exact List.not_mem_nil
      · rename_i hd
        obtain ⟨cut, hcut, heq⟩ := Option.map_eq_some_iff.mp h
        obtain ⟨rfl, rfl⟩ := Prod.mk.inj heq
        rw [List.mem_cons, not_or]
        exact ⟨by simpa using hd, ih hcut⟩
  · rintro ⟨rfl, h⟩
    exact cutAt?_append h [] behind

/-- A run of elements satisfying `p` ends in front of the first one that does not. -/
theorem takeWhile_dropWhile_append {α : Type} {p : α → Bool} {as rest : List α}
    (has : ∀ a ∈ as, p a = true) (hrest : ∀ a ∈ rest.head?, p a = false) :
    (as ++ rest).takeWhile p = as ∧ (as ++ rest).dropWhile p = rest := by
  rw [List.takeWhile_append_of_pos has, List.dropWhile_append_of_pos has]
  cases rest with
  | nil => simp
  | cons a rest =>
    have ha : p a = false := hrest a rfl
    simp [ha]

theorem of_mem_takeWhile {α : Type} {p : α → Bool} {as : List α} :
    ∀ a ∈ as.takeWhile p, p a = true :=
  List.all_eq_true.mp List.all_takeWhile

/-- The parts of a list between the elements satisfying `sep`: one more than
there are such elements. -/
def pieces {α : Type} (sep : α → Bool) : List α → List (List α)
  | [] => [[]]
  | a :: as =>
    if sep a then
      [] :: pieces sep as
    else
      match pieces sep as with
      | [] => [[a]]
      | p :: ps => (a :: p) :: ps

theorem pieces_cons_of_sep {α : Type} {sep : α → Bool} {a : α} (ha : sep a = true) (as : List α) :
    pieces sep (a :: as) = [] :: pieces sep as := by
  rw [pieces, if_pos ha]

/-- The first piece starts with the first element, if that does not separate. -/
theorem pieces_cons_of_not {α : Type} {sep : α → Bool} {a : α} {as p : List α} {ps : List (List α)}
    (ha : sep a = false) (has : pieces sep as = p :: ps) :
    pieces sep (a :: as) = (a :: p) :: ps := by
  simp [pieces, ha, has]

theorem exists_pieces_eq_cons {α : Type} (sep : α → Bool) (as : List α) :
    ∃ p ps, pieces sep as = p :: ps := by
  induction as with
  | nil => exact ⟨[], [], rfl⟩
  | cons a as ih =>
    obtain ⟨p, ps, hps⟩ := ih
    cases ha : sep a with
    | true => exact ⟨[], pieces sep as, pieces_cons_of_sep ha as⟩
    | false => exact ⟨a :: p, ps, pieces_cons_of_not ha hps⟩

theorem pieces_ne_nil {α : Type} (sep : α → Bool) (as : List α) : pieces sep as ≠ [] := by
  obtain ⟨p, ps, hps⟩ := exists_pieces_eq_cons sep as
  rw [hps]
  exact List.cons_ne_nil p ps

/-- No piece holds an element that separates. -/
theorem not_sep_of_mem_pieces {α : Type} {sep : α → Bool} {as p : List α}
    (hp : p ∈ pieces sep as) : ∀ a ∈ p, sep a = false := by
  induction as generalizing p with
  | nil =>
    rw [List.mem_singleton.mp hp]
    simp
  | cons b as ih =>
    cases hb : sep b with
    | true =>
      rw [pieces_cons_of_sep hb, List.mem_cons] at hp
      rcases hp with rfl | hp
      · simp
      · exact ih hp
    | false =>
      obtain ⟨q, qs, hq⟩ := exists_pieces_eq_cons sep as
      rw [pieces_cons_of_not hb hq, List.mem_cons] at hp
      rcases hp with rfl | hp
      · rw [List.forall_mem_cons]
        exact ⟨hb, ih (hq ▸ List.mem_cons_self)⟩
      · exact ih (hq ▸ List.mem_cons_of_mem q hp)

/-- Cutting depends only on which elements separate. -/
theorem pieces_congr {α : Type} {sep sep' : α → Bool} {as : List α}
    (h : ∀ a ∈ as, sep a = sep' a) : pieces sep as = pieces sep' as := by
  induction as with
  | nil => rfl
  | cons a as ih =>
    rw [List.forall_mem_cons] at h
    obtain ⟨ha, has⟩ := h
    cases hsep : sep' a with
    | true => rw [pieces_cons_of_sep (ha.trans hsep), pieces_cons_of_sep hsep, ih has]
    | false =>
      obtain ⟨p, ps, hps⟩ := exists_pieces_eq_cons sep' as
      rw [pieces_cons_of_not (ha.trans hsep) ((ih has).trans hps), pieces_cons_of_not hsep hps]

theorem pieces_map {α β : Type} (f : α → β) (sep : β → Bool) (as : List α) :
    pieces sep (as.map f) = (pieces (fun a => sep (f a)) as).map (List.map f) := by
  induction as with
  | nil => rfl
  | cons a as ih =>
    have hcons := exists_pieces_eq_cons (fun a => sep (f a)) as
    generalize hsep : (fun a => sep (f a)) = sep' at ih hcons ⊢
    have ha : sep (f a) = sep' a := congrFun hsep a
    cases ha' : sep' a with
    | true =>
      rw [List.map_cons, pieces_cons_of_sep (ha.trans ha'), pieces_cons_of_sep ha', ih]
      rfl
    | false =>
      obtain ⟨p, ps, hps⟩ := hcons
      rw [hps] at ih
      rw [List.map_cons, pieces_cons_of_not (ha.trans ha') ih, pieces_cons_of_not ha' hps]
      rfl

/-- A list in which nothing separates is a single piece. -/
theorem pieces_eq_singleton {α : Type} {sep : α → Bool} {as : List α}
    (h : ∀ a ∈ as, sep a = false) : pieces sep as = [as] := by
  induction as with
  | nil => rfl
  | cons a as ih =>
    rw [List.forall_mem_cons] at h
    exact pieces_cons_of_not h.1 (ih h.2)

theorem pieces_of_not_mem {c : Char} {cs : List Char} (h : c ∉ cs) : pieces (· == c) cs = [cs] :=
  pieces_eq_singleton fun d hd => by
    rw [beq_eq_false_iff_ne]
    rintro rfl
    exact h hd

/-- The pieces on the two sides of an element that separates have nothing to do with each
other. -/
theorem pieces_append_cons {α : Type} {sep : α → Bool} {s : α} (hs : sep s = true)
    (before behind : List α) :
    pieces sep (before ++ s :: behind) = pieces sep before ++ pieces sep behind := by
  induction before with
  | nil => exact pieces_cons_of_sep hs behind
  | cons a before ih =>
    cases ha : sep a with
    | true =>
      rw [List.cons_append, pieces_cons_of_sep ha, pieces_cons_of_sep ha, ih, List.cons_append]
    | false =>
      obtain ⟨p, ps, hps⟩ := exists_pieces_eq_cons sep before
      rw [hps, List.cons_append] at ih
      rw [List.cons_append, pieces_cons_of_not ha ih, pieces_cons_of_not ha hps, List.cons_append]

theorem length_pieces {α : Type} (sep : α → Bool) (as : List α) :
    (pieces sep as).length = as.countP sep + 1 := by
  induction as with
  | nil => rfl
  | cons a as ih =>
    cases ha : sep a with
    | true =>
      rw [pieces_cons_of_sep ha, List.length_cons, ih, List.countP_cons_of_pos ha]
    | false =>
      obtain ⟨p, ps, hps⟩ := exists_pieces_eq_cons sep as
      rw [pieces_cons_of_not ha hps, List.countP_cons_of_neg (by simp [ha]), ← ih, hps,
        List.length_cons, List.length_cons]

/-- A piece stands between two elements that separate, or between one of them and an end. -/
theorem mem_pieces_iff {α : Type} {sep : α → Bool} {as p : List α} :
    p ∈ pieces sep as ↔
      (∀ a ∈ p, sep a = false) ∧
        ∃ before behind, as = before ++ (p ++ behind) ∧
          (∀ a ∈ before.getLast?, sep a = true) ∧ ∀ a ∈ behind.head?, sep a = true := by
  constructor
  · intro hp
    refine ⟨not_sep_of_mem_pieces hp, ?_⟩
    -- on the length: the first element that separates leaves a shorter list behind it
    induction hn : as.length using Nat.strongRecOn generalizing as with
    | _ n ih =>
      cases hfind : as.find? sep with
      | none =>
        have hnone : ∀ a ∈ as, sep a = false := by simpa using List.find?_eq_none.mp hfind
        rw [pieces_eq_singleton hnone, List.mem_singleton] at hp
        exact ⟨[], [], by simp [hp], by simp, by simp⟩
      | some s =>
        obtain ⟨hs, front, rest, rfl, hfront⟩ := List.find?_eq_some_iff_append.mp hfind
        have hfront' : ∀ a ∈ front, sep a = false := by simpa using hfront
        rw [pieces_append_cons hs, pieces_eq_singleton hfront', List.singleton_append,
          List.mem_cons] at hp
        rcases hp with rfl | hp
        · exact ⟨[], s :: rest, rfl, by simp, by simpa using hs⟩
        · have hlt : rest.length < n := by
            rw [← hn, List.length_append, List.length_cons]
            omega
          obtain ⟨before, behind, rfl, hbefore, hbehind⟩ := ih rest.length hlt hp rfl
          refine ⟨front ++ s :: before, behind, by simp, ?_, hbehind⟩
          cases before with
          | nil => simpa using hs
          | cons b before => simpa using hbefore
  · rintro ⟨hp, before, behind, rfl, hbefore, hbehind⟩
    have hmem : p ∈ pieces sep (p ++ behind) := by
      cases behind with
      | nil => simp [pieces_eq_singleton hp]
      | cons s behind =>
        rw [pieces_append_cons (hbehind s rfl), pieces_eq_singleton hp]
        exact List.mem_cons_self
    cases hlast : before.getLast? with
    | none =>
      rw [List.getLast?_eq_none_iff] at hlast
      rwa [hlast, List.nil_append]
    | some s =>
      obtain ⟨front, rfl⟩ := List.getLast?_eq_some_iff.mp hlast
      rw [List.append_assoc, List.singleton_append, pieces_append_cons (hbefore s hlast)]
      exact List.mem_append_right _ hmem

theorem sublist_of_mem_pieces {α : Type} {sep : α → Bool} {as p : List α}
    (hp : p ∈ pieces sep as) : p.Sublist as := by
  obtain ⟨-, before, behind, rfl, -, -⟩ := mem_pieces_iff.mp hp
  exact (List.sublist_append_left p behind).trans (List.sublist_append_right before _)

/-- The text with the first occurrence of `old` replaced by `new`. -/
def replaceFirst (old new : List Char) (cs : List Char) : List Char :=
  match cutAt? old cs with
  | none => cs
  | some (before, behind) => before ++ new ++ behind

example : pieces (· == ',') "a,,b".toList = ["a".toList, [], "b".toList] := by decide

end SheetLint.Text
