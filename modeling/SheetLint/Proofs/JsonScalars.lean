import SheetLint.Proofs.Spacing
import SheetLint.Text.Cut

/-! # Strings, numbers and words keep together

The readers of what stands without white space inside: strings, numbers, and `null`, `true` and
`false`.  In a string every character counts.  A number goes on as far as it can, so it matters
that no space comes in between and that none goes away behind it.
-/
namespace SheetLint.Json

/-! ### Strings -/

theorem readChar_keeps {m : Mode} {l : Char} (h : m.Tight l) :
    Keeps 1 (· = m) (· = m.next l) (readChar l) := by
  unfold readChar
  refine .uncons (n := 0) _ (fun c => .ite ?_ fun _ => .error _) fun c => ?_
  · rintro rfl
    exact .pure ()
  · by_cases hc : c = l
    · exact .inl (hc ▸ h)
    · exact .inr fun rest v => by simp [hc]

/-- The value of a hexadecimal digit. -/
def hexValue? (x : Char) : Option Nat :=
  if x.isDigit then some (x.toNat - '0'.toNat)
  else if 'a' ≤ x ∧ x ≤ 'f' then some (x.toNat - 'a'.toNat + 10)
  else if 'A' ≤ x ∧ x ≤ 'F' then some (x.toNat - 'A'.toNat + 10)
  else none

theorem hexValue?_quote : hexValue? doubleQuote = none := by decide

theorem hexValue?_backslash : hexValue? backslash = none := by decide

theorem readHex_cons (a b c d : Char) (rest : List Char) :
    readHex (a :: b :: c :: d :: rest) =
      match hexValue? a, hexValue? b, hexValue? c, hexValue? d with
      | some a, some b, some c, some d => .ok (((a * 16 + b) * 16 + c) * 16 + d, rest)
      | _, _, _, _ => .error .malformed := by
  have ha := a.utf8Size_pos
  have hb := b.utf8Size_pos
  have hc := c.utf8Size_pos
  have hd := d.utf8Size_pos
  have hsize : ¬ Text.byteSize (a :: b :: c :: d :: rest) < 4 := by
    simp only [Text.byteSize_cons]
    omega
  rw [readHex, if_neg hsize]
  rfl

/-- Four hexadecimal digits stay in the string, and what follows them does not matter. -/
theorem readHex_keeps : Keeps 4 (· = .inString) (· = .inString) readHex := by
  refine .steady fun cs rest v h => ?_
  match cs with
  | a :: b :: c :: d :: behind =>
    rw [readHex_cons] at h
    split at h
    · rename_i ha hb hc hd
      obtain ⟨rfl, rfl⟩ := Prod.mk.inj (Except.ok.inj h)
      refine ⟨[a, b, c, d], rfl, Nat.le_refl 4, fun x hx => ⟨.inl (by simp [Mode.Outside]), ?_⟩,
        fun rest' _ => ?_⟩
      · have hvalue : hexValue? x ≠ none := by
          simp only [List.mem_cons, List.not_mem_nil, or_false] at hx
          rcases hx with rfl | rfl | rfl | rfl <;> simp [*]
        have hquote : x ≠ doubleQuote := fun heq => hvalue (heq ▸ hexValue?_quote)
        have hback : x ≠ backslash := fun heq => hvalue (heq ▸ hexValue?_backslash)
        simp [Mode.next, hquote, hback]
      · simp only [List.cons_append, List.nil_append, readHex_cons, ha, hb, hc, hd]
    · cases h
  | [] | [_] | [_, _] | [_, _, _] =>
    unfold readHex at h
    split at h <;> cases h

theorem readUnicode_keeps : Keeps 4 (· = .inString) (· = .inString) readUnicode := by
  unfold readUnicode
  refine .bind readHex_keeps (fun high => .ite (fun _ => .error _) fun _ =>
    .ite (fun _ => ?_) fun _ => .pure _) (Nat.le_refl 4)
  have hescape : Mode.inString.next backslash = .escaped := by decide
  refine .bind (readChar_keeps (.inl (by simp [Mode.Outside]))) (fun _ => ?_) (Nat.zero_le _)
  rw [hescape]
  refine .bind (readChar_keeps (.inl (by simp [Mode.Outside]))) (fun _ => ?_) (Nat.zero_le _)
  refine .bind readHex_keeps (fun low => ?_) (Nat.zero_le _)
  exact .ite (fun _ => .pure _) fun _ => .error _

theorem readEscape_keeps : Keeps 1 (· = .escaped) (· = .inString) readEscape := by
  unfold readEscape
  refine .uncons (n := 0) _ (fun c => ?_) fun c => .inl (.inl (by simp [Mode.Outside]))
  iterate 6 refine .ite (fun _ => .pure _) fun _ => ?_
  exact .ite (fun _ => readUnicode_keeps.relax) fun _ => .error _

theorem readStringFrom_keeps (read : List Char) :
    KeepsFueled 1 (· = .inString) (· = .idle) (readStringFrom read) := by
  have htight (c : Char) : Mode.inString.Tight c := .inl (by simp [Mode.Outside])
  rintro fuel _ rfl cs rest v h
  induction fuel generalizing cs read with
  | zero => cases h
  | succ fuel ih =>
    cases cs with
    | nil => cases h
    | cons c cs =>
      -- the string goes on behind `c` in the same way in both texts
      suffices hrest : rest.length ≤ cs.length ∧ Passes (Mode.inString.next c) cs .idle rest ∧
          ∀ ds more, Spaced (Mode.inString.next c) cs ds → ds.length < more →
            ∃ rest', readStringFrom read (more + 1) (c :: ds) = .ok (v, rest') ∧
              Spaced .idle rest rest' by
        obtain ⟨hlength, hpasses, hspaced⟩ := hrest
        refine ⟨Nat.succ_le_succ hlength, .idle, rfl,
          .step (fun hgap => absurd hgap (htight c).ne_gap) hpasses, ?_⟩
        intro ds more hds hmore
        obtain ⟨ds', rfl, hds'⟩ := hds.uncons (htight c)
        obtain ⟨more, rfl⟩ := Nat.exists_eq_add_one_of_ne_zero (Nat.ne_zero_of_lt hmore)
        exact hspaced ds' more hds' (Nat.lt_of_succ_lt_succ hmore)
      simp only [readStringFrom] at h ⊢
      by_cases hquote : c = doubleQuote
      · simp only [if_pos hquote] at h ⊢
        obtain ⟨rfl, rfl⟩ := Prod.mk.inj (Except.ok.inj h)
        have hnext : Mode.inString.next c = .idle := by simp [Mode.next, hquote]
        rw [hnext]
        exact ⟨Nat.le_refl _, .refl, fun ds more hds _ => ⟨ds, rfl, hds⟩⟩
      simp only [if_neg hquote] at h ⊢
      by_cases hback : c = backslash
      · simp only [if_pos hback] at h ⊢
        have hnext : Mode.inString.next c = .escaped := by
          rw [hback]
          decide
        rw [hnext]
        obtain ⟨⟨d, mid⟩, hcs, hmid⟩ := bind_eq_ok_iff.mp h
        obtain ⟨hlength, _, rfl, hpasses, hspaced⟩ := readEscape_keeps rfl hcs
        obtain ⟨hlength', _, rfl, hpasses', hspaced'⟩ := ih (d :: read) hmid
        dsimp only at hlength'
        refine ⟨by omega, hpasses.trans hpasses', fun ds more hds hmore => ?_⟩
        obtain ⟨mid', hmid', hds'⟩ := hspaced ds hds
        have hshorter := (readEscape_keeps rfl hmid').1
        obtain ⟨rest', hrest', hds''⟩ := hspaced' mid' more hds' (by omega)
        exact ⟨rest', bind_eq_ok_iff.mpr ⟨_, hmid', hrest'⟩, hds''⟩
      simp only [if_neg hback] at h ⊢
      by_cases hcontrol : c.toNat < 0x20
      · simp only [if_pos hcontrol] at h
        cases h
      · simp only [if_neg hcontrol] at h ⊢
        have hnext : Mode.inString.next c = .inString := by simp [Mode.next, hquote, hback]
        rw [hnext]
        obtain ⟨hlength, _, rfl, hpasses, hspaced⟩ := ih (c :: read) h
        exact ⟨Nat.le_of_succ_le hlength, hpasses, hspaced⟩

theorem readStringBody_keeps : Keeps 1 (· = .inString) (· = .idle) readStringBody :=
  (readStringFrom_keeps []).keeps

/-! ### Numbers and words -/

theorem isScalarChar_of_isDigit {c : Char} (h : c.isDigit = true) : isScalarChar c = true := by
  simp [isScalarChar, Char.isAlphanum, h]

/-- Digits go on as far as they can, in a word. -/
theorem Spaced.not_isDigit {cs ds : List Char} (h : Spaced .word cs ds)
    (hcs : ∀ c ∈ cs.head?, c.isDigit = false) : ∀ c ∈ ds.head?, c.isDigit = false := by
  intro c hc
  cases hdigit : c.isDigit with
  | false => rfl
  | true =>
    obtain ⟨ds', rfl⟩ := List.head?_eq_some_iff.mp hc
    obtain ⟨cs', rfl, -⟩ := h.symm.uncons (.inr ⟨rfl, isScalarChar_of_isDigit hdigit⟩)
    rw [hcs c rfl] at hdigit
    cases hdigit

theorem readDigits_cons {c : Char} (hc : c.isDigit = true) (cs : List Char) :
    readDigits (c :: cs) =
      .ok (digitValue c :: (cs.takeWhile Char.isDigit).map digitValue,
        cs.dropWhile Char.isDigit) := by
  simp [readDigits, hc]

/-- The digits of a number whose first one has been read. -/
theorem moreDigits_keeps {c : Char} (hc : c.isDigit = true) :
    Keeps 0 (· = .word) (· = .word) fun cs => readDigits (c :: cs) := by
  refine .steady fun cs rest v h => ?_
  rw [readDigits_cons hc] at h
  obtain ⟨rfl, rfl⟩ := Prod.mk.inj (Except.ok.inj h)
  have hdigits : ∀ d ∈ cs.takeWhile Char.isDigit, d.isDigit = true := Text.of_mem_takeWhile
  refine ⟨cs.takeWhile Char.isDigit, List.takeWhile_append_dropWhile.symm, Nat.zero_le _,
    fun d hd => ?_, fun rest' hrest' => ?_⟩
  · have hd := isScalarChar_of_isDigit (hdigits d hd)
    exact ⟨.inr ⟨rfl, hd⟩, Mode.next_word hd⟩
  · have hstop := hrest'.not_isDigit fun c hc => by
      have hfirst := List.head?_dropWhile_not Char.isDigit cs
      rw [hc] at hfirst
      simpa using hfirst
    obtain ⟨htake, hdrop⟩ := Text.takeWhile_dropWhile_append hdigits hstop
    rw [readDigits_cons hc, htake, hdrop]

theorem readDigits_keeps : Keeps 1 (· = .word) (· = .word) readDigits := by
  refine (Keeps.uncons (n := 0) (m := .word) .incomplete (g := fun c cs =>
    if c.isDigit then readDigits (c :: cs) else .error .malformed)
    (fun c => .ite (fun hc => ?_) fun _ => .error _) fun c => ?_).congr fun cs v => ?_
  · rw [Mode.next_word (isScalarChar_of_isDigit hc)]
    exact moreDigits_keeps hc
  · by_cases hc : c.isDigit = true
    · exact .inl (.inr ⟨rfl, isScalarChar_of_isDigit hc⟩)
    · exact .inr fun rest v => by simp [hc]
  · cases cs with
    | nil => rfl
    | cons c cs => by_cases hc : c.isDigit = true <;> simp [readDigits, hc]

theorem readWord_keeps {letters : List Char} (h : ∀ l ∈ letters, isScalarChar l = true) :
    Keeps 0 (· = .word) (· = .word) (readWord letters) := by
  induction letters with
  | nil => exact .pure ()
  | cons l letters ih =>
    obtain ⟨hl, hletters⟩ := List.forall_mem_cons.mp h
    have hchar := readChar_keeps (m := .word) (.inr ⟨rfl, hl⟩)
    rw [Mode.next_word hl] at hchar
    exact hchar.bind (fun _ => ih hletters) (Nat.zero_le _)

theorem checkSize_keeps (s : Scaled) : Keeps 0 (· = .word) (· = .word) (checkSize s) := by
  unfold checkSize
  exact .ite (fun _ => .error _) fun _ => .pure ()

/-- Reads the digits of an exponent whose sign is known. -/
def readUnsigned (s : Scaled) (negative : Bool) (cs : List Char) : Except Flaw (Reading Unit) := do
  let (digits, rest) ← readDigits cs
  let exponent := digits.foldl (fun n d => n * 10 + d) 0
  if maxExponent < exponent then
    if s.significand ≠ 0 ∧ !negative then .error .malformed else return ((), rest)
  else
    let exponent : Int := if negative then s.exponent - exponent else s.exponent + exponent
    checkSize { s with exponent } rest

theorem readExponent_eq (s : Scaled) (cs : List Char) :
    readExponent s cs =
      if cs.head? = some '-' then readUnsigned s true cs.tail
      else if cs.head? = some '+' then readUnsigned s false cs.tail
      else readUnsigned s false cs := by
  unfold readExponent
  dsimp only
  split
  · rfl
  · rfl
  · rename_i hminus hplus
    rw [if_neg, if_neg]
    · rfl
    · intro h
      obtain ⟨rest, rfl⟩ := List.head?_eq_some_iff.mp h
      exact hplus rest rfl
    · intro h
      obtain ⟨rest, rfl⟩ := List.head?_eq_some_iff.mp h
      exact hminus rest rfl

theorem readUnsigned_keeps (s : Scaled) (negative : Bool) :
    Keeps 0 (· = .word) (· = .word) (readUnsigned s negative) := by
  unfold readUnsigned
  refine .bind readDigits_keeps (fun digits => ?_) (Nat.zero_le _)
  exact .ite (fun _ => .ite (fun _ => .error _) fun _ => .pure ()) fun _ => checkSize_keeps _

theorem readExponent_keeps (s : Scaled) : Keeps 0 (· = .word) (· = .word) (readExponent s) := by
  simp only [funext (readExponent_eq s)]
  refine .peek (x := '-') (by decide) (readUnsigned_keeps s true) ?_ fun cs hcs => if_neg hcs
  exact .peek (x := '+') (by decide) (readUnsigned_keeps s false) (readUnsigned_keeps s false)
    fun cs hcs => if_neg hcs

theorem readScale_eq (s : Scaled) (cs : List Char) :
    readScale s cs =
      if cs.head? = some 'e' then readExponent s cs.tail
      else if cs.head? = some 'E' then readExponent s cs.tail
      else checkSize s cs := by
  cases cs with
  | nil => rfl
  | cons c cs =>
    by_cases he : c = 'e'
    · simp [readScale, he]
    · simp [readScale, he]

theorem readScale_keeps (s : Scaled) : Keeps 0 (· = .word) (· = .word) (readScale s) := by
  simp only [funext (readScale_eq s)]
  refine .peek (x := 'e') (by decide) (readExponent_keeps s) ?_ fun cs hcs => if_neg hcs
  exact .peek (x := 'E') (by decide) (readExponent_keeps s) (checkSize_keeps s)
    fun cs hcs => if_neg hcs

/-- Digits that all fit the significand leave the exponent alone. -/
theorem foldl_addWhole (digits : List Nat) (s : Scaled)
    (hs : s.full = false → s.exponent = 0 ∧ s.significand ≤ Scaled.limit)
    (h : (digits.foldl Scaled.addWhole s).full = false) :
    (digits.foldl Scaled.addWhole s).exponent = 0 ∧
      (digits.foldl Scaled.addWhole s).significand ≤ Scaled.limit := by
  induction digits generalizing s with
  | nil => exact hs h
  | cons digit digits ih =>
    refine ih _ (fun hfull => ?_) h
    by_cases hcond : s.full = true ∨ Scaled.limit < s.significand * 10 + digit
    · simp [Scaled.addWhole, hcond] at hfull
    · have hstep : s.addWhole digit = { s with significand := s.significand * 10 + digit } :=
        if_neg hcond
      rw [not_or, Bool.not_eq_true, Nat.not_lt] at hcond
      rw [hstep]
      exact ⟨(hs hcond.1).1, hcond.2⟩

theorem nearestDouble_lt {n : Nat} (h : n ≤ Scaled.limit) : nearestDouble n < doubleLimit := by
  have hlog : n.log2 < 64 ∨ n = 0 := by
    rcases Nat.eq_zero_or_pos n with hn | hn
    · exact .inr hn
    · refine .inl ((Nat.log2_lt (Nat.ne_of_gt hn)).mpr (Nat.lt_of_le_of_lt h ?_))
      decide
  have hunit : Nat.pow 2 (n.log2 + 1 - 53) ≤ Nat.pow 2 11 := by
    refine Nat.pow_le_pow_right (by decide) ?_
    rcases hlog with hlog | rfl
    · omega
    · decide
  have hfloor : n / Nat.pow 2 (n.log2 + 1 - 53) * Nat.pow 2 (n.log2 + 1 - 53) ≤ n :=
    Nat.div_mul_le_self _ _
  have hsum : Scaled.limit + Nat.pow 2 11 < doubleLimit := by decide +kernel
  unfold nearestDouble
  dsimp only
  split
  · rw [Nat.succ_mul]
    omega
  · omega

theorem isTooBig_whole {n : Nat} (h : n ≤ Scaled.limit) : isTooBig n 0 = false := by
  have hone : nearestDouble (Nat.pow 10 0) = 1 := by decide
  have hlt := nearestDouble_lt h
  rw [show (0 : Int) = .ofNat 0 from rfl, isTooBig, if_neg (by decide), hone, Nat.mul_one,
    decide_eq_false_iff_not]
  omega

theorem checkSize_whole (digits : List Nat)
    (h : (digits.foldl Scaled.addWhole ⟨0, 0, false⟩).full = false) (rest : List Char) :
    checkSize (digits.foldl Scaled.addWhole ⟨0, 0, false⟩) rest = .ok ((), rest) := by
  obtain ⟨hexponent, hsignificand⟩ :=
    foldl_addWhole digits ⟨0, 0, false⟩ (fun _ => ⟨rfl, Nat.zero_le _⟩) h
  rw [checkSize, hexponent, isTooBig_whole hsignificand]
  rfl

/-- Reads what stands behind the digits of a number. -/
def readBehind (digits : List Nat) (cs : List Char) : Except Flaw (Reading (Option Nat)) :=
  let whole := digits.foldl Scaled.addWhole ⟨0, 0, false⟩
  if 1 < digits.length ∧ digits.head? = some 0 then .error .malformed
  else if cs.head? = some '.' then do
    let (fraction, rest) ← readDigits cs.tail
    let scaled := fraction.foldl Scaled.addFraction { whole with full := false }
    let ((), rest) ← readScale scaled rest
    return (none, rest)
  else if cs.head? = some 'e' ∨ cs.head? = some 'E' ∨ whole.full then do
    let ((), rest) ← readScale whole cs
    return (none, rest)
  else
    .ok (some whole.significand, cs)

theorem readMagnitude_eq (cs : List Char) :
    readMagnitude cs = readDigits cs >>= fun r => readBehind r.1 r.2 := by
  unfold readMagnitude
  refine congrArg (readDigits cs >>= ·) (funext fun r => ?_)
  obtain ⟨digits, rest⟩ := r
  unfold readBehind
  dsimp only
  refine ite_congr rfl (fun _ => rfl) fun _ => ?_
  cases rest with
  | nil =>
    cases hfull : (digits.foldl Scaled.addWhole ⟨0, 0, false⟩).full with
    | true => rfl
    | false =>
      rw [checkSize_whole digits hfull]
      rfl
  | cons c rest =>
    by_cases hpoint : c = '.'
    · subst hpoint
      rfl
    · split
      · rename_i heq
        exact absurd (List.cons.inj heq).1 hpoint
      · rename_i heq
        obtain ⟨rfl, rfl⟩ := List.cons.inj heq
        simp only [List.head?_cons, Option.some.injEq, if_neg hpoint]
        rfl
      · rename_i heq
        cases heq

theorem readBehind_keeps (digits : List Nat) :
    Keeps 0 (· = .word) (· = .word) (readBehind digits) := by
  have hscale (s : Scaled) : Keeps 0 (· = .word) (· = .word) fun cs => do
      let ((), rest) ← readScale s cs
      return ((none : Option Nat), rest) :=
    .bind (readScale_keeps s) (fun _ => .pure none) (Nat.zero_le _)
  unfold readBehind
  generalize digits.foldl Scaled.addWhole ⟨0, 0, false⟩ = whole
  refine .ite (fun _ => .error _) fun _ => ?_
  refine .peek (x := '.') (by decide) ?_ ?_ fun cs hcs => if_neg hcs
  · exact .bind readDigits_keeps (fun fraction => hscale _) (Nat.zero_le _)
  · by_cases hfull : whole.full = true
    · simpa only [hfull, or_true, if_true] using hscale whole
    · have hexponent : Keeps 0 (· = .word) (· = .word) fun cs => do
          let ((), rest) ← readExponent whole cs
          return ((none : Option Nat), rest) :=
        .bind (readExponent_keeps whole) (fun _ => .pure none) (Nat.zero_le _)
      have hcapital : Keeps 0 (· = .word) (· = .word) fun cs =>
          if cs.head? = some 'E' then do
            let ((), rest) ← readScale whole cs
            return (none, rest)
          else .ok (some whole.significand, cs) :=
        .peek (x := 'E') (by decide) hexponent (.pure _) fun cs hcs => if_neg hcs
      refine .peek (x := 'e') (by decide) hexponent hcapital fun cs hcs => ?_
      simp only [hcs, hfull, false_or, or_false, Bool.false_eq_true]

theorem readMagnitude_keeps {n : Nat} (first : List Char)
    (h : Keeps n (· = .word) (· = .word) fun cs => readDigits (first ++ cs)) :
    Keeps n (· = .word) (· = .word) fun cs => readMagnitude (first ++ cs) := by
  simp only [readMagnitude_eq]
  exact h.bind readBehind_keeps (Nat.le_refl n)

/-- What is read of a word behind its first character. -/
theorem Keeps.behindWord {α : Type} {read : List Char → Except Flaw (Reading α)} {c : Char}
    (hc : isScalarChar c = true) (h : Keeps 0 (· = .word) (· = .word) read) :
    Keeps 0 (· = Mode.idle.next c) Mode.Outside read :=
  h.mono (Nat.zero_le _) (fun _ hm => hm.trans (Mode.next_idle hc)) fun _ hm =>
    hm ▸ Mode.outside_word

/-- `null`, `true` and `false` behind their first character. -/
theorem word_keeps {α : Type} {c : Char} {letters : List Char} (v : α)
    (h : (c :: letters).all isScalarChar = true) :
    Keeps 0 (· = Mode.idle.next c) Mode.Outside fun cs =>
      (readWord letters cs).map fun r => (v, r.2) := by
  obtain ⟨hc, hletters⟩ := List.forall_mem_cons.mp (List.all_eq_true.mp h)
  exact .behindWord hc (.map (fun _ => v) (readWord_keeps hletters))

/-- A scalar behind its first character. -/
theorem readScalar_keeps (c : Char) :
    Keeps 0 (· = Mode.idle.next c) Mode.Outside (readScalar c) := by
  unfold readScalar
  refine .ite (fun hc => hc ▸ word_keeps _ rfl) fun _ => .ite (fun hc => hc ▸ word_keeps _ rfl)
    fun _ => .ite (fun hc => hc ▸ word_keeps _ rfl) fun _ => .ite (fun hc => ?_) fun _ =>
    .ite (fun hc => ?_) fun _ => .ite (fun hc => ?_) fun _ => .error _
  · refine .behindWord (by rw [hc]; decide) ?_
    exact (readMagnitude_keeps [] readDigits_keeps).relax.map fun _ => Value.number
  · refine .behindWord (isScalarChar_of_isDigit hc) ?_
    exact (readMagnitude_keeps [c] (moreDigits_keeps hc)).map
      fun v => (v.map Value.natural).getD .number
  · have hquote : Mode.idle.next c = .inString := by
      rw [hc]
      decide
    exact (readStringBody_keeps.map Value.text).mono (Nat.zero_le _) (fun m hm => hm.trans hquote)
      fun m hm => hm ▸ Mode.outside_idle

theorem unwanted_ne_ok {α : Type} (c : Char) (cs : List Char) (v : Reading α) :
    unwanted c cs ≠ .ok v := by
  unfold unwanted
  split
  · exact nofun
  · split <;> exact nofun

end SheetLint.Json
