import Mathlib.Data.List.Basic
import SheetLint.Json.Reader

/-! # White space between the parts of a JSON text

A reader asks for a part where it wants one and passes over the white space in front of it.  So
its answer depends on the white space in two ways only: none may stand in a word, that is, in a
number or in `null`, `true` and `false`; and some would be needed between two words, but no JSON
text has one word behind another.

`Mode` says where a place of a text lies.  `Spaced` relates two texts with the same parts and
other spaces between them, and `Passes` leads through a text in which no word stands right behind
another.  A reader that yields the same on two such texts, and takes such a text away, keeps to
the parts (`Keeps`); so does a reader made of such readers.
-/
namespace SheetLint.Json

/-! ### Places of a text -/

/-- The characters of numbers and of `null`, `true` and `false`. -/
def isScalarChar (c : Char) : Bool := c.isAlphanum || c == '+' || c == '-' || c == '.'

/-- Where a place of a text lies. -/
inductive Mode where
  /-- Outside strings and behind no word. -/
  | idle
  /-- Right behind a character of a word. -/
  | word
  /-- Behind a word, with white space in between. -/
  | gap
  | inString
  /-- In a string, behind the backslash of an escape. -/
  | escaped
  deriving DecidableEq, Repr

namespace Mode

/-- The place behind one more character. -/
def next (m : Mode) (c : Char) : Mode :=
  match m with
  | inString => if c = doubleQuote then idle else if c = backslash then escaped else inString
  | escaped => inString
  | m =>
    if c = doubleQuote then inString
    else if isScalarChar c then word
    else if isBlank c ∧ m ≠ idle then gap
    else idle

/-- Outside strings. -/
def Outside (m : Mode) : Prop := m ≠ inString ∧ m ≠ escaped

/-- Inside a string or a word that goes on with `c`: a space in front of `c` makes a
difference. -/
def Tight (m : Mode) (c : Char) : Prop := ¬ m.Outside ∨ m = word ∧ isScalarChar c = true

end Mode

/-- The way through a text: from the place `m` at the start of `cs` to the place `m'` at the start
of `rest`, on which no word begins behind another. -/
inductive Passes : Mode → List Char → Mode → List Char → Prop where
  | refl {m : Mode} {cs : List Char} : Passes m cs m cs
  | step {m m' : Mode} {c : Char} {cs rest : List Char}
      (hword : m = .gap → isScalarChar c = false) (h : Passes (m.next c) cs m' rest) :
      Passes m (c :: cs) m' rest

/-- From a place `m` on, two texts differ in nothing but spaces between their parts: a space that
only one of them has stands outside strings and in no word. -/
inductive Spaced : Mode → List Char → List Char → Prop where
  | nil {m : Mode} : Spaced m [] []
  | keep {m : Mode} {cs ds : List Char} (c : Char) (h : Spaced (m.next c) cs ds) :
      Spaced m (c :: cs) (c :: ds)
  | left {m : Mode} {cs ds : List Char} (hm : m.Outside)
      (hword : m = .word → ∀ c ∈ ds.head?, isScalarChar c = false) (h : Spaced m cs ds) :
      Spaced m (' ' :: cs) ds
  | right {m : Mode} {cs ds : List Char} (hm : m.Outside)
      (hword : m = .word → ∀ c ∈ cs.head?, isScalarChar c = false) (h : Spaced m cs ds) :
      Spaced m cs (' ' :: ds)

/-! ### Following a text -/

section Places
variable {m m' : Mode} {c : Char} {cs ds rest : List Char}

theorem isScalarChar_eq_false_of_isBlank (h : isBlank c = true) : isScalarChar c = false := by
  simp only [isBlank, Bool.or_eq_true, beq_iff_eq] at h
  rcases h with ((rfl | rfl) | rfl) | rfl <;> decide

theorem ne_quote_of_isScalarChar (h : isScalarChar c = true) : c ≠ doubleQuote := by
  rintro rfl
  exact absurd h (by decide)

theorem ne_quote_of_isBlank (h : isBlank c = true) : c ≠ doubleQuote := by
  rintro rfl
  exact absurd h (by decide)

theorem Mode.next_word (h : isScalarChar c = true) : Mode.word.next c = .word := by
  simp [Mode.next, ne_quote_of_isScalarChar h, h]

theorem Mode.next_idle (h : isScalarChar c = true) : Mode.idle.next c = .word := by
  simp [Mode.next, ne_quote_of_isScalarChar h, h]

theorem Mode.outside_idle : Mode.idle.Outside := by simp [Mode.Outside]

theorem Mode.outside_word : Mode.word.Outside := by simp [Mode.Outside]

/-- What a part starts with counts, and not what stands in front of it. -/
theorem Mode.Outside.next_eq (hm : m.Outside) (hc : isBlank c = false) :
    m.next c = Mode.idle.next c := by
  cases m with
  | idle | word | gap => simp [Mode.next, hc]
  | inString => exact absurd rfl hm.1
  | escaped => exact absurd rfl hm.2

theorem Mode.Outside.next_blank (hm : m.Outside) (hc : isBlank c = true) :
    m.next c = if m = .idle then .idle else .gap := by
  cases m with
  | idle | word | gap =>
    simp [Mode.next, hc, isScalarChar_eq_false_of_isBlank hc, ne_quote_of_isBlank hc]
  | inString => exact absurd rfl hm.1
  | escaped => exact absurd rfl hm.2

theorem Mode.Outside.next_blank_outside (hm : m.Outside) (hc : isBlank c = true) :
    (m.next c).Outside := by
  rw [hm.next_blank hc]
  split <;> simp [Mode.Outside]

theorem Mode.Outside.next_scalar (hm : m.Outside) (hc : isScalarChar c = true) :
    m.next c = .word := by
  cases hblank : isBlank c with
  | true => simp [isScalarChar_eq_false_of_isBlank hblank] at hc
  | false => rw [hm.next_eq hblank, Mode.next_idle hc]

theorem Mode.Outside.next_quote (hm : m.Outside) : m.next doubleQuote = .inString :=
  hm.next_eq rfl

/-- Outside strings, only a quote leads into one, and only a character of a word behind it. -/
theorem Mode.Outside.next_plain (hm : m.Outside) (hquote : c ≠ doubleQuote) :
    (m.next c).Outside ∧ (m.next c = .word → isScalarChar c = true) := by
  cases hblank : isBlank c with
  | true =>
    refine ⟨hm.next_blank_outside hblank, ?_⟩
    rw [hm.next_blank hblank]
    split <;> exact nofun
  | false =>
    rw [hm.next_eq hblank]
    cases hc : isScalarChar c <;> simp [Mode.next, hquote, hc, Mode.Outside]

theorem Passes.trans {m'' : Mode} (h : Passes m cs m' ds) (h' : Passes m' ds m'' rest) :
    Passes m cs m'' rest := by
  induction h with
  | refl => exact h'
  | step hword _ ih => exact .step hword (ih h')

theorem Passes.uncons (h : Passes m (c :: cs) m' []) :
    (m = .gap → isScalarChar c = false) ∧ Passes (m.next c) cs m' [] := by
  cases h with
  | step hword h => exact ⟨hword, h⟩

theorem Spaced.refl (m : Mode) (cs : List Char) : Spaced m cs cs := by
  induction cs generalizing m with
  | nil => exact .nil
  | cons c cs ih => exact .keep c (ih (m.next c))

theorem Spaced.symm (h : Spaced m cs ds) : Spaced m ds cs := by
  induction h with
  | nil => exact .nil
  | keep c _ ih => exact .keep c ih
  | left hm hword _ ih => exact .right hm hword ih
  | right hm hword _ ih => exact .left hm hword ih

theorem skipBlank_cons (hc : isBlank c = true) : skipBlank (c :: cs) = skipBlank cs := by
  simp [skipBlank, hc]

theorem skipBlank_of_not_blank (hc : isBlank c = false) : skipBlank (c :: cs) = c :: cs := by
  simp [skipBlank, hc]

/-- The next parts of two such texts start alike. -/
theorem Spaced.token (h : Spaced m cs ds) (hm : m.Outside) (hcs : skipBlank cs = c :: rest) :
    ∃ rest', skipBlank ds = c :: rest' ∧ Spaced (Mode.idle.next c) rest rest' := by
  induction h with
  | nil => cases hcs
  | @keep m cs ds d h ih =>
    cases hd : isBlank d with
    | true =>
      rw [skipBlank_cons hd] at hcs ⊢
      exact ih (hm.next_blank_outside hd) hcs
    | false =>
      rw [skipBlank_of_not_blank hd] at hcs ⊢
      obtain ⟨rfl, rfl⟩ := List.cons.inj hcs
      exact ⟨ds, rfl, hm.next_eq hd ▸ h⟩
  | left _ _ _ ih => exact ih hm (by rwa [skipBlank_cons rfl] at hcs)
  | right _ _ _ ih =>
    rw [skipBlank_cons rfl]
    exact ih hm hcs

theorem Spaced.skipBlank_eq_nil (h : Spaced m cs ds) (hm : m.Outside) (hcs : skipBlank cs = []) :
    skipBlank ds = [] := by
  cases hds : skipBlank ds with
  | nil => rfl
  | cons c rest =>
    obtain ⟨rest', hcs', -⟩ := h.symm.token hm hds
    rw [hcs] at hcs'
    cases hcs'

/-- In a string and in a word, two such texts have the same next character. -/
theorem Spaced.uncons (h : Spaced m (c :: cs) ds) (hm : m.Tight c) :
    ∃ rest, ds = c :: rest ∧ Spaced (m.next c) cs rest := by
  generalize hall : c :: cs = all at h
  cases h with
  | nil => cases hall
  | keep d h =>
    obtain ⟨rfl, rfl⟩ := List.cons.inj hall
    exact ⟨_, rfl, h⟩
  | left hout =>
    rcases hm with hm | ⟨-, hc⟩
    · exact absurd hout hm
    · obtain ⟨rfl, -⟩ := List.cons.inj hall
      exact absurd hc (by decide)
  | right hout hword =>
    rcases hm with hm | ⟨rfl, hc⟩
    · exact absurd hout hm
    · rw [hword rfl c (by rw [← hall]; rfl)] at hc
      cases hc

theorem Mode.Tight.ne_gap (h : m.Tight c) : m ≠ .gap := by
  rintro rfl
  rcases h with hout | ⟨hword, -⟩
  · exact hout (by simp [Mode.Outside])
  · cases hword

/-- Passing over the white space in front of a part. -/
theorem passes_skipBlank (hm : m.Outside) (cs : List Char) :
    ∃ m', m'.Outside ∧ (m = .idle → m' = .idle) ∧ Passes m cs m' (skipBlank cs) := by
  induction cs generalizing m with
  | nil => exact ⟨m, hm, id, .refl⟩
  | cons c cs ih =>
    cases hc : isBlank c with
    | true =>
      obtain ⟨m', hm', hidle, h⟩ := ih (hm.next_blank_outside hc)
      rw [skipBlank_cons hc]
      have hstart : m = .idle → m.next c = .idle := fun heq => by
        rw [hm.next_blank hc, if_pos heq]
      exact ⟨m', hm', fun heq => hidle (hstart heq),
        .step (fun _ => isScalarChar_eq_false_of_isBlank hc) h⟩
    | false =>
      rw [skipBlank_of_not_blank hc]
      exact ⟨m, hm, id, .refl⟩

theorem length_skipBlank_le (cs : List Char) : (skipBlank cs).length ≤ cs.length :=
  (List.dropWhile_sublist _).length_le

theorem not_isBlank_of_skipBlank (h : skipBlank cs = c :: rest) : isBlank c = false := by
  have hstop := List.head?_dropWhile_not isBlank cs
  rw [show List.dropWhile isBlank cs = c :: rest from h] at hstop
  simpa using hstop

end Places

/-! ### Readers that keep to the parts -/

theorem bind_eq_ok_iff {α β : Type} {x : Except Flaw α} {f : α → Except Flaw β} {v : β} :
    x >>= f = .ok v ↔ ∃ a, x = .ok a ∧ f a = .ok v := by
  cases x with
  | error flaw => exact ⟨nofun, fun ⟨_, h, _⟩ => nomatch h⟩
  | ok a => exact ⟨fun h => ⟨a, rfl, h⟩, fun ⟨_, ha, h⟩ => Except.ok.inj ha ▸ h⟩

/-- A reader that starts at a place as `P` says takes away at least `n` characters, in which no
word begins behind another, and stops at a place as `Q` says.  It reads the same where the
spaces between the parts are others. -/
def Keeps {α : Type} (n : Nat) (P Q : Mode → Prop)
    (read : List Char → Except Flaw (Reading α)) : Prop :=
  ∀ ⦃m : Mode⦄, P m → ∀ ⦃cs rest : List Char⦄ ⦃v : α⦄, read cs = .ok (v, rest) →
    rest.length + n ≤ cs.length ∧ ∃ m', Q m' ∧ Passes m cs m' rest ∧
      ∀ ds, Spaced m cs ds → ∃ rest', read ds = .ok (v, rest') ∧ Spaced m' rest rest'

namespace Keeps
variable {α β : Type} {n l : Nat} {P Q R : Mode → Prop} {m : Mode}
  {f : List Char → Except Flaw (Reading α)}

theorem pure (v : α) : Keeps 0 P P fun cs => .ok (v, cs) := by
  intro m hm cs rest v h
  obtain ⟨rfl, rfl⟩ := Prod.mk.inj (Except.ok.inj h)
  exact ⟨Nat.le_refl _, m, hm, .refl, fun ds hds => ⟨ds, rfl, hds⟩⟩

theorem fail (h : ∀ cs v, f cs ≠ .ok v) : Keeps n P Q f :=
  fun _ _ cs _ _ hcs => absurd hcs (h cs _)

theorem error (flaw : Flaw) : Keeps (α := α) n P Q fun _ => .error flaw :=
  fail fun _ _ => nofun

theorem bind {g : Reading α → Except Flaw (Reading β)} (hf : Keeps n P Q f)
    (hg : ∀ v, Keeps 0 Q R fun cs => g (v, cs)) (hl : l ≤ n) :
    Keeps l P R fun cs => f cs >>= g := by
  intro m hm cs rest v h
  obtain ⟨⟨u, mid⟩, hcs, hmid⟩ := bind_eq_ok_iff.mp h
  obtain ⟨hlength, m', hm', hpasses, hspaced⟩ := hf hm hcs
  obtain ⟨hlength', m'', hm'', hpasses', hspaced'⟩ := hg u hm' hmid
  refine ⟨by omega, m'', hm'', hpasses.trans hpasses', fun ds hds => ?_⟩
  obtain ⟨mid', hmid', hds'⟩ := hspaced ds hds
  obtain ⟨rest', hrest', hds''⟩ := hspaced' mid' hds'
  exact ⟨rest', bind_eq_ok_iff.mpr ⟨_, hmid', hrest'⟩, hds''⟩

theorem map (g : α → β) (hf : Keeps n P Q f) :
    Keeps n P Q fun cs => (f cs).map fun r => (g r.1, r.2) := by
  have heq : (fun cs => (f cs).map fun r => (g r.1, r.2)) =
      fun cs => f cs >>= fun r => .ok (g r.1, r.2) := by
    funext cs
    cases f cs <;> rfl
  rw [heq]
  exact hf.bind (fun v => pure (g v)) (Nat.le_refl n)

theorem mono {P' Q' : Mode → Prop} (hf : Keeps n P Q f) (hl : l ≤ n)
    (hP : ∀ m, P' m → P m) (hQ : ∀ m, Q m → Q' m) : Keeps l P' Q' f := by
  intro m hm cs rest v h
  obtain ⟨hlength, m', hm', hrest⟩ := hf (hP m hm) h
  exact ⟨by omega, m', hQ m' hm', hrest⟩

theorem relax (hf : Keeps n P Q f) : Keeps 0 P Q f :=
  hf.mono (Nat.zero_le n) (fun _ => id) fun _ => id

theorem outside (hf : Keeps n P (· = .idle) f) : Keeps n P Mode.Outside f :=
  hf.mono (Nat.le_refl n) (fun _ => id) fun _ hm => hm ▸ Mode.outside_idle

theorem congr {g : List Char → Except Flaw (Reading α)} (hf : Keeps n P Q f)
    (h : ∀ cs v, g cs = .ok v ↔ f cs = .ok v) : Keeps n P Q g := by
  intro m hm cs rest v hcs
  obtain ⟨hlength, m', hm', hpasses, hspaced⟩ := hf hm ((h cs _).mp hcs)
  refine ⟨hlength, m', hm', hpasses, fun ds hds => ?_⟩
  obtain ⟨rest', hrest', hds'⟩ := hspaced ds hds
  exact ⟨rest', (h ds _).mpr hrest', hds'⟩

theorem ite {p : Prop} [Decidable p] {g : List Char → Except Flaw (Reading α)}
    (hf : p → Keeps n P Q f) (hg : ¬ p → Keeps n P Q g) :
    Keeps n P Q fun cs => if p then f cs else g cs := by
  by_cases hp : p
  · simpa only [if_pos hp] using hf hp
  · simpa only [if_neg hp] using hg hp

/-- Looking at the start of the next part.  Where a word may stand in front, the next part is
no word. -/
theorem token {flaw : Flaw} {g : Char → List Char → Except Flaw (Reading α)}
    (hP : ∀ m, P m → m.Outside)
    (hg : ∀ c, Keeps n (· = Mode.idle.next c) Q (g c))
    (hword : ∀ c, isScalarChar c = true → (∀ m, P m → m = .idle) ∨ ∀ rest v, g c rest ≠ .ok v) :
    Keeps (n + 1) P Q fun cs =>
      match skipBlank cs with
      | [] => .error flaw
      | c :: rest => g c rest := by
  intro m hm cs rest v h
  dsimp only at h
  split at h
  · cases h
  · rename_i c behind hskip
    have hc := not_isBlank_of_skipBlank hskip
    obtain ⟨hlength, m', hm', hpasses, hspaced⟩ := hg c rfl h
    obtain ⟨m₁, hm₁, hidle, hblank⟩ := passes_skipBlank (hP m hm) cs
    have hstart : m₁ = .gap → isScalarChar c = false := by
      rintro rfl
      cases hscalar : isScalarChar c with
      | false => rfl
      | true =>
        rcases hword c hscalar with hm' | hnone
        · cases hidle (hm' m hm)
        · exact absurd h (hnone behind _)
    have hshorter := length_skipBlank_le cs
    rw [hskip] at hblank hshorter
    refine ⟨?_, m', hm', hblank.trans (.step hstart (hm₁.next_eq hc ▸ hpasses)), fun ds hds => ?_⟩
    · rw [List.length_cons] at hshorter
      omega
    · obtain ⟨behind', hskip', hbehind⟩ := hds.token (hP m hm) hskip
      obtain ⟨rest', hrest', hds'⟩ := hspaced behind' hbehind
      refine ⟨rest', ?_, hds'⟩
      simp only [hskip']
      exact hrest'

/-- Taking one character in a string or a word. -/
theorem uncons (flaw : Flaw) {g : Char → List Char → Except Flaw (Reading α)}
    (hg : ∀ c, Keeps n (· = m.next c) Q (g c))
    (htight : ∀ c, m.Tight c ∨ ∀ rest v, g c rest ≠ .ok v) :
    Keeps (n + 1) (· = m) Q fun
      | [] => .error flaw
      | c :: rest => g c rest := by
  rintro _ rfl cs rest v h
  cases cs with
  | nil => cases h
  | cons c cs =>
    have hc : _ := (htight c).resolve_right fun hnone => absurd h (hnone cs _)
    obtain ⟨hlength, m', hm', hpasses, hspaced⟩ := hg c rfl h
    refine ⟨by rw [List.length_cons]; omega, m', hm',
      .step (fun hgap => absurd hgap hc.ne_gap) hpasses, fun ds hds => ?_⟩
    obtain ⟨ds', rfl, hds'⟩ := hds.uncons hc
    exact hspaced ds' hds'

/-- Taking a run of characters that do not lead out of a string or a word. -/
theorem steady (h : ∀ cs rest v, f cs = .ok (v, rest) → ∃ used, cs = used ++ rest ∧
      n ≤ used.length ∧ (∀ c ∈ used, m.Tight c ∧ m.next c = m) ∧
      ∀ rest', Spaced m rest rest' → f (used ++ rest') = .ok (v, rest')) :
    Keeps n (· = m) (· = m) f := by
  rintro _ rfl cs rest v hcs
  obtain ⟨used, rfl, hlength, hused, hagain⟩ := h cs rest v hcs
  refine ⟨by rw [List.length_append]; omega, _, rfl, ?_, fun ds hds => ?_⟩
  · clear hagain hcs hlength
    induction used with
    | nil => exact .refl
    | cons c used ih =>
      obtain ⟨⟨htight, hnext⟩, hused⟩ := List.forall_mem_cons.mp hused
      exact .step (fun hgap => absurd hgap htight.ne_gap) (hnext.symm ▸ ih hused)
  · suffices hsplit : ∃ rest', ds = used ++ rest' ∧ Spaced _ rest rest' by
      obtain ⟨rest', rfl, hrest'⟩ := hsplit
      exact ⟨rest', hagain rest' hrest', hrest'⟩
    clear hagain hcs hlength
    induction used generalizing ds with
    | nil => exact ⟨ds, rfl, hds⟩
    | cons c used ih =>
      obtain ⟨⟨htight, hnext⟩, hused⟩ := List.forall_mem_cons.mp hused
      obtain ⟨ds', rfl, hds'⟩ := hds.uncons htight
      obtain ⟨rest', rfl, hrest'⟩ := ih hused ds' (hnext ▸ hds')
      exact ⟨rest', rfl, hrest'⟩

/-- Looking in a word whether it goes on with `x`. -/
theorem peek {x : Char} {g : List Char → Except Flaw (Reading α)} (hx : isScalarChar x = true)
    (hcons : Keeps n (· = .word) Q fun cs => f (x :: cs)) (hg : Keeps n (· = .word) Q g)
    (hother : ∀ cs, cs.head? ≠ some x → f cs = g cs) : Keeps n (· = .word) Q f := by
  have htight : Mode.word.Tight x := .inr ⟨rfl, hx⟩
  rintro _ rfl cs rest v h
  by_cases hhead : cs.head? = some x
  · obtain ⟨cs', rfl⟩ := List.head?_eq_some_iff.mp hhead
    obtain ⟨hlength, m', hm', hpasses, hspaced⟩ := hcons rfl h
    refine ⟨by rw [List.length_cons]; omega, m', hm', ?_, fun ds hds => ?_⟩
    · exact .step nofun (by rwa [Mode.next_word hx])
    · obtain ⟨ds', rfl, hds'⟩ := hds.uncons htight
      exact hspaced ds' (Mode.next_word hx ▸ hds')
  · rw [hother cs hhead] at h
    obtain ⟨hlength, m', hm', hpasses, hspaced⟩ := hg rfl h
    refine ⟨hlength, m', hm', hpasses, fun ds hds => ?_⟩
    rw [hother ds]
    · exact hspaced ds hds
    · rintro hhead'
      obtain ⟨ds', rfl⟩ := List.head?_eq_some_iff.mp hhead'
      obtain ⟨cs', rfl, -⟩ := hds.symm.uncons htight
      exact hhead rfl

end Keeps

/-- A reader that stops for want of fuel, but not as long as it has more fuel than there are
characters. -/
def KeepsFueled {α : Type} (n : Nat) (P Q : Mode → Prop)
    (read : Nat → List Char → Except Flaw (Reading α)) : Prop :=
  ∀ ⦃fuel : Nat⦄ ⦃m : Mode⦄, P m → ∀ ⦃cs rest : List Char⦄ ⦃v : α⦄,
    read fuel cs = .ok (v, rest) →
    rest.length + n ≤ cs.length ∧ ∃ m', Q m' ∧ Passes m cs m' rest ∧
      ∀ ds more, Spaced m cs ds → ds.length < more →
        ∃ rest', read more ds = .ok (v, rest') ∧ Spaced m' rest rest'

theorem KeepsFueled.keeps {α : Type} {n : Nat} {P Q : Mode → Prop}
    {read : Nat → List Char → Except Flaw (Reading α)} (h : KeepsFueled n P Q read) :
    Keeps n P Q fun cs => read (cs.length + 1) cs := by
  intro m hm cs rest v hcs
  obtain ⟨hlength, m', hm', hpasses, hspaced⟩ := h hm hcs
  exact ⟨hlength, m', hm', hpasses, fun ds hds => hspaced ds _ hds (Nat.lt_succ_self _)⟩

end SheetLint.Json
