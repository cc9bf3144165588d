import SheetLint.Pattern

/-! # What patterns match

The functions on patterns answer what `Matches` asks.  A derivative describes what may follow
a symbol (`matches_deriv_iff`), whatever simplifications are made on the way.  So reading a
text symbol by symbol finds the longest prefix that a pattern describes (`furthest_spec`) and
the longest one that can be completed to a word of it (`reach_spec`).

For the second answer it matters that a pattern which is not plainly void does have words.  It
has some if each of its symbol sets has members, and `populatedBy` tests this for a list of
symbols to choose from.
-/
namespace SheetLint.Pattern

variable {σ : Type} [LE σ] [DecidableLE σ] {p q : Pattern σ} {w : List σ}

/-! ### Words of a pattern -/

theorem not_matches_never : ¬ Matches (never : Pattern σ) w := nofun

theorem matches_empty_iff : Matches (empty : Pattern σ) w ↔ w = [] := by
  constructor
  · rintro ⟨⟩
    rfl
  · rintro rfl
    exact .empty

theorem matches_oneOf_iff {s : SymbolSet σ} :
    Matches (oneOf s) w ↔ ∃ a, s.contains a = true ∧ w = [a] := by
  constructor
  · rintro ⟨⟩
    exact ⟨_, ‹_›, rfl⟩
  · rintro ⟨a, ha, rfl⟩
    exact .oneOf ha

theorem matches_seq_iff :
    Matches (seq p q) w ↔ ∃ u v, Matches p u ∧ Matches q v ∧ w = u ++ v := by
  constructor
  · rintro ⟨⟩
    exact ⟨_, _, ‹_›, ‹_›, rfl⟩
  · rintro ⟨u, v, hu, hv, rfl⟩
    exact .seq hu hv

theorem matches_alt_iff : Matches (alt p q) w ↔ Matches p w ∨ Matches q w := by
  constructor
  · rintro ⟨⟩
    · exact .inl ‹_›
    · exact .inr ‹_›
  · rintro (h | h)
    · exact .left h
    · exact .right h

/-- **Induction over a repetition.**  A property of texts holds of all words of a repetition if
it holds of the empty one and is handed back by each word that is put in front. -/
theorem matches_many_rec {P : List σ → Prop} (done : P [])
    (more : ∀ u v, Matches p u → Matches (many p) v → P v → P (u ++ v))
    (h : Matches (many p) w) : P w := by
  generalize hpattern : many p = r at h
  induction h with
  | done => exact done
  | more hu hv _ ih =>
    obtain rfl := Pattern.many.inj hpattern
    exact more _ _ hu hv (ih hpattern)
  | empty | oneOf | seq | left | right => cases hpattern

/-- The first word of a repetition may be taken not to be empty. -/
theorem matches_many_cons_iff {a : σ} :
    Matches (many p) (a :: w) ↔
      ∃ u v, Matches p (a :: u) ∧ Matches (many p) v ∧ w = u ++ v := by
  constructor
  · intro h
    refine matches_many_rec (P := fun word => a :: w = word →
      ∃ u v, Matches p (a :: u) ∧ Matches (many p) v ∧ w = u ++ v) nofun ?_ h rfl
    intro front behind hu hv ih hword
    cases front with
    | nil => exact ih hword
    | cons b front =>
      obtain ⟨rfl, rfl⟩ := List.cons.inj hword
      exact ⟨front, behind, hu, hv, rfl⟩
  · rintro ⟨u, v, hu, hv, rfl⟩
    exact .more hu hv

theorem nullable_iff : nullable p = true ↔ Matches p [] := by
  induction p with
  | never => simp [nullable, not_matches_never]
  | empty => simp [nullable, matches_empty_iff]
  | oneOf s => simp [nullable, matches_oneOf_iff]
  | seq p q hp hq =>
    rw [nullable, Bool.and_eq_true, hp, hq, matches_seq_iff]
    constructor
    · rintro ⟨h, h'⟩
      exact ⟨[], [], h, h', rfl⟩
    · rintro ⟨u, v, hu, hv, heq⟩
      obtain ⟨rfl, rfl⟩ := List.append_eq_nil_iff.mp heq.symm
      exact ⟨hu, hv⟩
  | alt p q hp hq => rw [nullable, Bool.or_eq_true, hp, hq, matches_alt_iff]
  | many p => exact iff_of_true rfl .done

/-- What is plainly void has no words. -/
theorem not_matches_of_isVoid (h : isVoid p = true) : ¬ Matches p w := by
  induction p generalizing w with
  | never => exact not_matches_never
  | empty => cases h
  | oneOf s => cases h
  | seq p q hp hq =>
    rw [isVoid, Bool.or_eq_true] at h
    rw [matches_seq_iff]
    rintro ⟨u, v, hu, hv, -⟩
    rcases h with h | h
    · exact hp h hu
    · exact hq h hv
  | alt p q hp hq =>
    rw [isVoid, Bool.and_eq_true] at h
    rw [matches_alt_iff]
    rintro (hw | hw)
    · exact hp h.1 hw
    · exact hq h.2 hw
  | many p => cases h

/-! ### Simplified patterns -/

theorem matches_andThen_iff : Matches (andThen p q) w ↔ Matches (seq p q) w := by
  unfold andThen
  split
  · simp [matches_seq_iff, not_matches_never]
  · simp [matches_seq_iff, matches_empty_iff]
  · simp [matches_seq_iff, not_matches_never]
  · rfl

variable [DecidableEq σ]

/-- A pattern has the words of its alternatives. -/
theorem matches_of_offers (h : offers q p = true) (hw : Matches q w) : Matches p w := by
  induction p with
  | alt l r hl hr =>
    rw [offers, Bool.or_eq_true] at h
    rcases h with h | h
    · exact .left (hl h)
    · exact .right (hr h)
  | never | empty | oneOf | seq | many =>
    rw [offers, decide_eq_true_eq] at h
    · exact h ▸ hw
    · exact nofun

theorem matches_orElse_iff : Matches (orElse p q) w ↔ Matches p w ∨ Matches q w := by
  fun_induction orElse p q with
  | case1 p => simp [not_matches_never]
  | case2 p l r hl hr => rw [hr, hl, matches_alt_iff, or_assoc]
  | case3 q => simp [not_matches_never]
  | case4 p q _ _ hoffers =>
    rw [if_pos hoffers]
    exact ⟨.inl, fun h => h.elim id (matches_of_offers hoffers)⟩
  | case5 p q _ _ hoffers =>
    rw [if_neg hoffers]
    exact matches_alt_iff

/-- **The derivative of a pattern** describes what may follow a symbol in its words. -/
theorem matches_deriv_iff {a : σ} : Matches (deriv a p) w ↔ Matches p (a :: w) := by
  induction p generalizing w with
  | never => simp [deriv, not_matches_never]
  | empty => simp [deriv, not_matches_never, matches_empty_iff]
  | oneOf s =>
    have hword : Matches (oneOf s) (a :: w) ↔ s.contains a = true ∧ w = [] := by
      rw [matches_oneOf_iff]
      constructor
      · rintro ⟨b, hb, heq⟩
        obtain ⟨rfl, rfl⟩ := List.cons.inj heq
        exact ⟨hb, rfl⟩
      · rintro ⟨ha, rfl⟩
        exact ⟨a, ha, rfl⟩
    rw [hword, deriv]
    split
    · rename_i ha
      simp [matches_empty_iff, ha]
    · rename_i ha
      simp [not_matches_never, ha]
  | alt p q hp hq => rw [deriv, matches_orElse_iff, hp, hq, matches_alt_iff]
  | many p hp =>
    rw [deriv, matches_andThen_iff, matches_seq_iff, matches_many_cons_iff]
    simp only [hp]
  | seq p q hp hq =>
    -- the symbol begins the word of `p`, or that word is empty and the symbol begins the other
    have hsplit : Matches (seq p q) (a :: w) ↔
        Matches (andThen (deriv a p) q) w ∨ (nullable p = true ∧ Matches (deriv a q) w) := by
      rw [matches_andThen_iff, matches_seq_iff, matches_seq_iff, nullable_iff, hq]
      constructor
      · rintro ⟨u, v, hu, hv, heq⟩
        cases u with
        | nil => exact .inr ⟨hu, heq ▸ hv⟩
        | cons b u =>
          obtain ⟨rfl, rfl⟩ := List.cons.inj heq
          exact .inl ⟨u, v, hp.mpr hu, hv, rfl⟩
      · rintro (⟨u, v, hu, hv, rfl⟩ | ⟨hu, hv⟩)
        · exact ⟨a :: u, v, hp.mp hu, hv, rfl⟩
        · exact ⟨[], a :: w, hu, hv, rfl⟩
    rw [hsplit, deriv]
    split
    · rename_i hnullable
      simp [matches_orElse_iff, hnullable]
    · rename_i hnullable
      simp [hnullable]

/-! ### The longest match -/

omit [LE σ] [DecidableLE σ] [DecidableEq σ] in
/-- A prefix that is not empty begins with the first symbol of the text. -/
theorem exists_cons_of_isPrefix {a : σ} {v : List σ} (hne : v ≠ []) (h : v <+: a :: w) :
    ∃ more, v = a :: more ∧ more <+: w := by
  rcases List.prefix_cons_iff.mp h with rfl | hmore
  · exact absurd rfl hne
  · exact hmore

theorem furthestFrom_spec {n best : Nat} (hbest : best ≤ n) :
    (∀ v, v ≠ [] → v <+: w → Matches p v → n + v.length ≤ furthestFrom n best p w) ∧
      (furthestFrom n best p w = best ∨
        ∃ v, v ≠ [] ∧ v <+: w ∧ Matches p v ∧ furthestFrom n best p w = n + v.length) := by
  induction w generalizing n best p with
  | nil =>
    refine ⟨fun v hne hfront => absurd (List.prefix_nil.mp hfront) hne, .inl rfl⟩
  | cons a w ih =>
    rw [furthestFrom]
    split
    · rename_i hvoid
      refine ⟨fun v hne hfront hmatches => ?_, .inl rfl⟩
      obtain ⟨more, rfl, -⟩ := exists_cons_of_isPrefix hne hfront
      exact absurd (matches_deriv_iff.mpr hmatches) (not_matches_of_isVoid hvoid)
    · -- what the symbol adds: it makes a word itself if nothing need follow it
      have hsingle : nullable (deriv a p) = true ↔ Matches p [a] := by
        rw [nullable_iff, matches_deriv_iff]
      obtain ⟨next, hnext⟩ : ∃ next, next = if nullable (deriv a p) = true then n + 1 else best :=
        ⟨_, rfl⟩
      rw [← hnext]
      have hle : next ≤ n + 1 := by
        rw [hnext]
        split <;> omega
      obtain ⟨hlongest, hreached⟩ := ih (p := deriv a p) hle
      constructor
      · intro v hne hfront hmatches
        obtain ⟨more, rfl, hmore⟩ := exists_cons_of_isPrefix hne hfront
        by_cases hnil : more = []
        · subst hnil
          rw [hsingle.mpr hmatches, if_pos rfl] at hnext
          simp only [List.length_singleton]
          rcases hreached with h | ⟨v, -, -, -, h⟩ <;> omega
        · have := hlongest more hnil hmore (matches_deriv_iff.mpr hmatches)
          rw [List.length_cons]
          omega
      · rcases hreached with h | ⟨v, -, hfront, hmatches, h⟩
        · rw [h, hnext]
          split
          · rename_i hnullable
            exact .inr ⟨[a], by simp, by simp, hsingle.mp hnullable, rfl⟩
          · exact .inl rfl
        · refine .inr ⟨a :: v, by simp, by simpa using hfront, matches_deriv_iff.mp hmatches, ?_⟩
          rw [h, List.length_cons]
          omega

/-- **The longest match.**  `furthest` is at least the length of every prefix that the pattern
describes, and unless it is 0 it is the length of such a prefix. -/
theorem furthest_spec (p : Pattern σ) (text : List σ) :
    (∀ v, v <+: text → Matches p v → v.length ≤ furthest p text) ∧
      (furthest p text = 0 ∨ ∃ v, v <+: text ∧ Matches p v ∧ furthest p text = v.length) := by
  obtain ⟨hlongest, hreached⟩ := furthestFrom_spec (p := p) (w := text) (Nat.le_refl 0)
  simp only [Nat.zero_add] at hlongest hreached
  constructor
  · intro v hfront hmatches
    by_cases hnil : v = []
    · simp [hnil]
    · exact hlongest v hnil hfront hmatches
  · rcases hreached with h | ⟨v, -, hfront, hmatches, h⟩
    · exact .inl h
    · exact .inr ⟨v, hfront, hmatches, h⟩

/-! ### The longest start -/

/-- Whether each symbol set of the pattern has one of the given symbols. -/
def populatedBy (samples : List σ) : Pattern σ → Bool
  | never => true
  | empty => true
  | oneOf s => samples.any fun a => s.contains a
  | seq p q => populatedBy samples p && populatedBy samples q
  | alt p q => populatedBy samples p && populatedBy samples q
  | many p => populatedBy samples p

section Populated
variable {samples : List σ}

omit [DecidableEq σ] in
theorem populatedBy_seq_iff : populatedBy samples (seq p q) = true ↔
    populatedBy samples p = true ∧ populatedBy samples q = true := Bool.and_eq_true_iff

omit [DecidableEq σ] in
theorem populatedBy_alt_iff : populatedBy samples (alt p q) = true ↔
    populatedBy samples p = true ∧ populatedBy samples q = true := Bool.and_eq_true_iff

omit [DecidableEq σ] in
/-- A pattern whose symbol sets have members has words unless it is plainly void. -/
theorem exists_matches (hp : populatedBy samples p = true) (h : isVoid p = false) :
    ∃ w, Matches p w := by
  induction p with
  | never => cases h
  | empty => exact ⟨[], .empty⟩
  | oneOf s =>
    obtain ⟨a, -, ha⟩ := List.any_eq_true.mp hp
    exact ⟨[a], .oneOf ha⟩
  | seq p q ihp ihq =>
    rw [populatedBy_seq_iff] at hp
    rw [isVoid, Bool.or_eq_false_iff] at h
    obtain ⟨u, hu⟩ := ihp hp.1 h.1
    obtain ⟨v, hv⟩ := ihq hp.2 h.2
    exact ⟨u ++ v, .seq hu hv⟩
  | alt p q ihp ihq =>
    rw [populatedBy_alt_iff] at hp
    rw [isVoid, Bool.and_eq_false_iff] at h
    rcases h with h | h
    · obtain ⟨w, hw⟩ := ihp hp.1 h
      exact ⟨w, .left hw⟩
    · obtain ⟨w, hw⟩ := ihq hp.2 h
      exact ⟨w, .right hw⟩
  | many p => exact ⟨[], .done⟩

omit [DecidableEq σ] in
theorem populatedBy_andThen (hp : populatedBy samples p = true)
    (hq : populatedBy samples q = true) : populatedBy samples (andThen p q) = true := by
  unfold andThen
  split
  · rfl
  · exact hq
  · rfl
  · exact populatedBy_seq_iff.mpr ⟨hp, hq⟩

theorem populatedBy_orElse (hp : populatedBy samples p = true)
    (hq : populatedBy samples q = true) : populatedBy samples (orElse p q) = true := by
  fun_induction orElse p q with
  | case1 p => exact hp
  | case2 p l r hl hr =>
    rw [populatedBy_alt_iff] at hq
    exact hr (hl hp hq.1) hq.2
  | case3 q => exact hq
  | case4 p q _ _ hoffers => rwa [if_pos hoffers]
  | case5 p q _ _ hoffers =>
    rw [if_neg hoffers]
    exact populatedBy_alt_iff.mpr ⟨hp, hq⟩

theorem populatedBy_deriv {a : σ} (hp : populatedBy samples p = true) :
    populatedBy samples (deriv a p) = true := by
  induction p with
  | never | empty => rfl
  | oneOf s =>
    rw [deriv]
    split <;> rfl
  | seq p q ihp ihq =>
    rw [populatedBy_seq_iff] at hp
    rw [deriv]
    split
    · exact populatedBy_orElse (populatedBy_andThen (ihp hp.1) hp.2) (ihq hp.2)
    · exact populatedBy_andThen (ihp hp.1) hp.2
  | alt p q ihp ihq =>
    rw [populatedBy_alt_iff] at hp
    exact populatedBy_orElse (ihp hp.1) (ihq hp.2)
  | many p ihp => exact populatedBy_andThen (ihp hp) hp

theorem reachFrom_spec {n : Nat} (hp : populatedBy samples p = true) :
    (∀ v u, v <+: w → Matches p (v ++ u) → n + v.length ≤ reachFrom n p w) ∧
      (reachFrom n p w = n ∨
        ∃ v u, v <+: w ∧ Matches p (v ++ u) ∧ reachFrom n p w = n + v.length) := by
  induction w generalizing n p with
  | nil =>
    refine ⟨fun v u hfront _ => ?_, .inl rfl⟩
    simp [List.prefix_nil.mp hfront, reachFrom]
  | cons a w ih =>
    rw [reachFrom]
    split
    · rename_i hvoid
      refine ⟨fun v u hfront hmatches => ?_, .inl rfl⟩
      by_cases hnil : v = []
      · simp [hnil]
      · obtain ⟨more, rfl, -⟩ := exists_cons_of_isPrefix hnil hfront
        exact absurd (matches_deriv_iff.mpr hmatches) (not_matches_of_isVoid hvoid)
    · rename_i hvoid
      have hpopulated : populatedBy samples (deriv a p) = true := populatedBy_deriv hp
      obtain ⟨hlongest, hreached⟩ := ih (n := n + 1) hpopulated
      constructor
      · intro v u hfront hmatches
        by_cases hnil : v = []
        · rw [hnil, List.length_nil]
          rcases hreached with h | ⟨v, u, -, -, h⟩ <;> omega
        · obtain ⟨more, rfl, hmore⟩ := exists_cons_of_isPrefix hnil hfront
          have := hlongest more u hmore (matches_deriv_iff.mpr hmatches)
          rw [List.length_cons]
          omega
      · rcases hreached with h | ⟨v, u, hfront, hmatches, h⟩
        · obtain ⟨u, hu⟩ := exists_matches hpopulated (by simpa using hvoid)
          exact .inr ⟨[a], u, by simp, matches_deriv_iff.mp hu, h⟩
        · refine .inr ⟨a :: v, u, by simpa using hfront, matches_deriv_iff.mp hmatches, ?_⟩
          rw [h, List.length_cons]
          omega

/-- **The longest start.**  `reach` is at least the length of every prefix that can be completed
to a word of the pattern, and unless it is 0 it is the length of such a prefix. -/
theorem reach_spec (hp : populatedBy samples p = true) (text : List σ) :
    (∀ v u, v <+: text → Matches p (v ++ u) → v.length ≤ reach p text) ∧
      (reach p text = 0 ∨
        ∃ v u, v <+: text ∧ Matches p (v ++ u) ∧ reach p text = v.length) := by
  simpa only [reach, Nat.zero_add] using reachFrom_spec (n := 0) (w := text) hp

end Populated
end SheetLint.Pattern
