import SheetLint.Proofs.JsonScalars

/-! # Values keep to their parts

Lists and objects are read part by part, with white space allowed around every mark.  Both are
one fold over parts (`foldParts`), which differ in how the next part is looked for; what holds of
the step holds of the fold.  From there `readValue_keeps` goes by the depth of nesting.
-/
namespace SheetLint.Json

/-! ### Lists and objects -/

/-- Where the next item or key is looked for: nothing stands in front of the first one. -/
def StartsPart (first : Bool) (m : Mode) : Prop := m.Outside ∧ (first = true → m = .idle)

section Parts
variable {α κ : Type} (next : Bool → List Char → Except Flaw (Option (Reading κ)))

/-- Goes on to the next item or key. -/
def openPart (first : Bool) (cs : List Char) : Except Flaw (Reading κ) := do
  match ← next first cs with
  | some part => .ok part
  | none => .error .malformed

/-- Reads the end of a list or object. -/
def closeParts (first : Bool) (cs : List Char) : Except Flaw (Reading Unit) := do
  match ← next first cs with
  | some _ => .error .malformed
  | none => .ok ((), (skipBlank cs).tail)

/-- Reads items or entries up to the end. -/
def foldParts (step : α → κ → List Char → Except Flaw (Reading α)) (acc : α) (first : Bool) :
    Nat → List Char → Except Flaw (Reading α)
  | 0, _ => .error .incomplete
  | fuel + 1, cs => do
    match ← next first cs with
    | none => return (acc, (skipBlank cs).tail)
    | some (key, rest) =>
      let (acc, rest) ← step acc key rest
      foldParts step acc false fuel rest

variable {next}

theorem openPart_eq_ok_iff {first : Bool} {cs : List Char} {part : Reading κ} :
    openPart next first cs = .ok part ↔ next first cs = .ok (some part) := by
  rw [openPart, bind_eq_ok_iff]
  constructor
  · rintro ⟨found, hfound, h⟩
    cases found with
    | none => cases h
    | some part => rw [hfound, Except.ok.inj h]
  · exact fun h => ⟨_, h, rfl⟩

theorem closeParts_eq_ok_iff {first : Bool} {cs rest : List Char} :
    closeParts next first cs = .ok ((), rest) ↔
      next first cs = .ok none ∧ rest = (skipBlank cs).tail := by
  rw [closeParts, bind_eq_ok_iff]
  constructor
  · rintro ⟨found, hfound, h⟩
    cases found with
    | none => exact ⟨hfound, (Prod.mk.inj (Except.ok.inj h)).2.symm⟩
    | some part => cases h
  · rintro ⟨h, rfl⟩
    exact ⟨none, h, rfl⟩

/-- A list is read to its end or up to a next item. -/
theorem foldParts_eq_ok_iff {step : α → κ → List Char → Except Flaw (Reading α)} {acc v : α}
    {first : Bool} {fuel : Nat} {cs rest : List Char} :
    foldParts next step acc first (fuel + 1) cs = .ok (v, rest) ↔
      v = acc ∧ closeParts next first cs = .ok ((), rest) ∨
      ∃ key item acc' behind, openPart next first cs = .ok (key, item) ∧
        step acc key item = .ok (acc', behind) ∧
        foldParts next step acc' false fuel behind = .ok (v, rest) := by
  rw [foldParts, bind_eq_ok_iff, closeParts_eq_ok_iff]
  simp only [openPart_eq_ok_iff]
  constructor
  · rintro ⟨found, hfound, h⟩
    cases found with
    | none =>
      obtain ⟨rfl, rfl⟩ := Prod.mk.inj (Except.ok.inj h)
      exact .inl ⟨rfl, hfound, rfl⟩
    | some part =>
      obtain ⟨⟨acc', behind⟩, hstep, hrest⟩ := bind_eq_ok_iff.mp h
      exact .inr ⟨part.1, part.2, acc', behind, hfound, hstep, hrest⟩
  · rintro (⟨rfl, hnone, rfl⟩ | ⟨key, item, acc', behind, hsome, hstep, hrest⟩)
    · exact ⟨none, hnone, rfl⟩
    · exact ⟨_, hsome, bind_eq_ok_iff.mpr ⟨_, hstep, hrest⟩⟩

/-- The items or entries of a list or object, one after the other. -/
theorem foldParts_keeps {step : α → κ → List Char → Except Flaw (Reading α)}
    (hopen : ∀ first, Keeps 0 (StartsPart first) (· = .idle) (openPart next first))
    (hclose : ∀ first, Keeps 1 (StartsPart first) (· = .idle) (closeParts next first))
    (hstep : ∀ acc key, Keeps 1 (· = .idle) Mode.Outside (step acc key)) (acc : α) (first : Bool) :
    KeepsFueled 1 (StartsPart first) (· = .idle) (foldParts next step acc first) := by
  intro fuel m hm cs rest v h
  induction fuel generalizing acc first m cs with
  | zero => cases h
  | succ fuel ih =>
    rcases foldParts_eq_ok_iff.mp h with ⟨rfl, hcs⟩ | ⟨key, item, acc', behind, hcs, hitem, hrest⟩
    · obtain ⟨hlength, m', hm', hpasses, hspaced⟩ := hclose first hm hcs
      refine ⟨hlength, m', hm', hpasses, fun ds more hds hmore => ?_⟩
      obtain ⟨more, rfl⟩ := Nat.exists_eq_add_one_of_ne_zero (Nat.ne_zero_of_lt hmore)
      obtain ⟨rest', hrest', hds'⟩ := hspaced ds hds
      exact ⟨rest', foldParts_eq_ok_iff.mpr (.inl ⟨rfl, hrest'⟩), hds'⟩
    · obtain ⟨hlength₁, _, rfl, hpasses₁, hspaced₁⟩ := hopen first hm hcs
      obtain ⟨hlength₂, m₂, hm₂, hpasses₂, hspaced₂⟩ := hstep acc key rfl hitem
      obtain ⟨hlength₃, m₃, hm₃, hpasses₃, hspaced₃⟩ := ih acc' false ⟨hm₂, nofun⟩ hrest
      refine ⟨by omega, m₃, hm₃, hpasses₁.trans (hpasses₂.trans hpasses₃),
        fun ds more hds hmore => ?_⟩
      obtain ⟨more, rfl⟩ := Nat.exists_eq_add_one_of_ne_zero (Nat.ne_zero_of_lt hmore)
      obtain ⟨item', hitem', hds₁⟩ := hspaced₁ ds hds
      obtain ⟨behind', hbehind', hds₂⟩ := hspaced₂ item' hds₁
      -- an item takes away a character, so the fuel is enough for the rest of the other text
      have hshorter₁ := (hopen first hm hitem').1
      have hshorter₂ := (hstep acc key rfl hbehind').1
      obtain ⟨rest', hrest', hds₃⟩ := hspaced₃ behind' more hds₂ (by omega)
      exact ⟨rest', foldParts_eq_ok_iff.mpr (.inr ⟨_, _, _, _, hitem', hbehind', hrest'⟩), hds₃⟩

end Parts

/-- Reading one mark: it ends the part in front of it. -/
theorem mark_keeps {P : Mode → Prop} (hP : ∀ m, P m → m.Outside) {x : Char}
    (hx : Mode.idle.next x = .idle) (flaw flaw' : Flaw) :
    Keeps 1 P (· = .idle) fun cs =>
      match skipBlank cs with
      | [] => .error flaw
      | c :: rest => if c = x then .ok ((), rest) else .error flaw' := by
  refine .token (n := 0) hP (fun c => .ite (fun hc => ?_) fun _ => .error _) fun c hc => .inr ?_
  · rw [hc, hx]
    exact .pure ()
  · intro rest v
    rw [if_neg]
    · exact nofun
    · rintro rfl
      rw [Mode.next_idle hc] at hx
      cases hx

theorem readMark_keeps {x : Char} (hx : Mode.idle.next x = .idle) :
    Keeps 1 Mode.Outside (· = .idle) fun cs => readChar x (skipBlank cs) := by
  refine (mark_keeps (fun _ hm => hm) hx .incomplete .malformed).congr fun cs v => ?_
  cases skipBlank cs <;> rfl

theorem readColon_keeps : Keeps 1 Mode.Outside (· = .idle) readColon := readMark_keeps (by decide)

/-- What stands behind the colon of an entry. -/
theorem colon_keeps {α : Type} {n : Nat} {Q : Mode → Prop}
    {g : List Char → Except Flaw (Reading α)} (hg : Keeps n (· = .idle) Q g) :
    Keeps 1 (· = .idle) Q fun cs => readColon cs >>= fun r => g r.2 := by
  have hcolon : Keeps 1 (· = .idle) (· = .idle) readColon :=
    readColon_keeps.mono (Nat.le_refl 1) (fun _ hm => hm ▸ Mode.outside_idle) fun _ => id
  exact hcolon.bind (fun _ => hg.relax) (Nat.le_refl 1)

/-- The text from the start of the next item of a list. -/
theorem item_keeps (flaw flaw' : Flaw) : Keeps 0 (· = .idle) (· = .idle) fun cs =>
    match skipBlank cs with
    | [] => .error flaw
    | c :: rest => if c = ']' then .error flaw' else .ok ((), c :: rest) := by
  rintro _ rfl cs rest v h
  dsimp only at h
  split at h
  · cases h
  · rename_i c behind hskip
    split at h
    · cases h
    · rename_i hend
      obtain ⟨-, rfl⟩ := Prod.mk.inj (Except.ok.inj h)
      obtain ⟨m', -, hidle, hpasses⟩ := passes_skipBlank Mode.outside_idle cs
      obtain rfl := hidle rfl
      rw [hskip] at hpasses
      refine ⟨hskip ▸ length_skipBlank_le cs, .idle, rfl, hpasses, fun ds hds => ?_⟩
      obtain ⟨behind', hskip', hbehind⟩ := hds.token Mode.outside_idle hskip
      refine ⟨c :: behind', ?_, .keep c hbehind⟩
      simp only [hskip', if_neg hend]

theorem nextItem_eq_none_iff {first : Bool} {cs : List Char} :
    nextItem first cs = .ok none ↔ (skipBlank cs).head? = some ']' := by
  unfold nextItem
  cases skipBlank cs with
  | nil => simp
  | cons c rest =>
    by_cases hc : c = ']'
    · simp [hc]
    · simp only [hc, if_false, List.head?_cons, Option.some.injEq, iff_false]
      split
      · exact nofun
      · split
        · split <;> exact nofun
        · exact nofun

/-- Reads a key where one has to stand. -/
def readKey (cs : List Char) : Except Flaw (Reading String) :=
  match cs with
  | [] => .error .incomplete
  | c :: rest => if c = doubleQuote then readStringBody rest else .error .malformed

theorem nextKey_eq (first : Bool) (cs : List Char) :
    nextKey first cs =
      match skipBlank cs with
      | [] => .error .incomplete
      | c :: rest =>
        if c = '}' then .ok none
        else if first then (readKey (c :: rest)).map some
        else if c = ',' then (readKey (skipBlank rest)).map some
        else .error .malformed := by
  have hkey (cs : List Char) : (readKey cs).map some =
      match cs with
      | [] => .error .incomplete
      | c :: rest =>
        if c = doubleQuote then (readStringBody rest).map some else .error .malformed := by
    cases cs with
    | nil => rfl
    | cons c rest => by_cases hc : c = doubleQuote <;> simp [readKey, hc, Except.map]
  simp only [hkey]
  rfl

theorem nextKey_eq_none_iff {first : Bool} {cs : List Char} :
    nextKey first cs = .ok none ↔ (skipBlank cs).head? = some '}' := by
  have hkey (cs : List Char) : (readKey cs).map some ≠ .ok none := by
    cases readKey cs <;> simp [Except.map]
  rw [nextKey_eq]
  cases skipBlank cs with
  | nil => simp
  | cons c rest =>
    by_cases hc : c = '}'
    · simp [hc]
    · simp only [hc, if_false, List.head?_cons, Option.some.injEq, iff_false]
      split
      · exact hkey _
      · split
        · exact hkey _
        · exact nofun

theorem foldItems_eq {α : Type} (step : α → List Char → Except Flaw (Reading α)) (acc : α)
    (first : Bool) (fuel : Nat) (cs : List Char) :
    foldItems step acc first fuel cs =
      foldParts (fun first cs => (nextItem first cs).map (Option.map ((), ·)))
        (fun acc _ => step acc) acc first fuel cs := by
  induction fuel generalizing acc first cs with
  | zero => rfl
  | succ fuel ih =>
    simp only [foldItems, foldParts, ih]
    cases nextItem first cs with
    | error flaw => rfl
    | ok item => cases item <;> rfl

theorem foldEntries_eq {α : Type} (step : α → String → List Char → Except Flaw (Reading α))
    (acc : α) (first : Bool) (fuel : Nat) (cs : List Char) :
    foldEntries step acc first fuel cs = foldParts nextKey step acc first fuel cs := by
  induction fuel generalizing acc first cs with
  | zero => rfl
  | succ fuel ih =>
    simp only [foldEntries, foldParts, ih]
    cases nextKey first cs with
    | error flaw => rfl
    | ok entry => cases entry <;> rfl

/-- The mark that ends a list or object, if it is looked for as `hnone` says. -/
theorem closeParts_keeps {κ : Type} {next : Bool → List Char → Except Flaw (Option (Reading κ))}
    {x : Char} (hx : Mode.idle.next x = .idle)
    (hnone : ∀ first cs, next first cs = .ok none ↔ (skipBlank cs).head? = some x) (first : Bool) :
    Keeps 1 (StartsPart first) (· = .idle) (closeParts next first) := by
  refine (mark_keeps (fun m (hm : StartsPart first m) => hm.1) hx .incomplete .malformed).congr
    fun cs v => ?_
  rw [closeParts_eq_ok_iff, hnone]
  cases skipBlank cs with
  | nil => simp
  | cons c rest =>
    by_cases hc : c = x
    · simp [hc, Prod.ext_iff, eq_comm]
    · simp [hc]

/-- The comma in front of all items and keys but the first. -/
theorem comma_keeps {α : Type} {f : List Char → Except Flaw (Reading α)} {Q : Mode → Prop}
    (hf : Keeps 0 (· = .idle) Q f) :
    Keeps 1 Mode.Outside Q fun cs =>
      match skipBlank cs with
      | [] => .error .incomplete
      | c :: rest => if c = ',' then f rest else .error .malformed := by
  refine .token (n := 0) (fun _ hm => hm) (fun c => .ite (fun hc => ?_) fun _ => .error _)
    fun c hc => .inr fun rest v => ?_
  · rw [hc]
    exact hf
  · rw [if_neg]
    · exact nofun
    · rintro rfl
      exact absurd hc (by decide)

theorem key_keeps : Keeps 1 (· = .idle) (· = .idle) fun cs => readKey (skipBlank cs) := by
  refine .token (n := 0) (fun m hm => hm ▸ Mode.outside_idle)
    (fun c => .ite (fun hc => ?_) fun _ => .error _) fun _ _ => .inl fun _ hm => hm
  rw [hc]
  exact readStringBody_keeps.relax

theorem openKey_keeps (first : Bool) :
    Keeps 0 (StartsPart first) (· = .idle) (openPart nextKey first) := by
  have hsome (x : Except Flaw (Reading String)) (v : Reading String) :
      x.map some = .ok (some v) ↔ x = .ok v := by
    cases x <;> simp [Except.map]
  have hquote : '}' ≠ doubleQuote := by decide
  cases first with
  | true =>
    refine (key_keeps.mono (Nat.zero_le 1) (fun m hm => hm.2 rfl) fun _ hm => hm).congr
      fun cs v => ?_
    rw [openPart_eq_ok_iff, nextKey_eq]
    cases skipBlank cs with
    | nil => simp [readKey]
    | cons c rest =>
      by_cases hc : c = '}'
      · simp [hc, readKey, hquote]
      · simp [hc, hsome]
  | false =>
    refine ((comma_keeps key_keeps.relax).mono (Nat.zero_le 1) (fun m hm => hm.1)
      fun _ hm => hm).congr fun cs v => ?_
    rw [openPart_eq_ok_iff, nextKey_eq]
    cases skipBlank cs with
    | nil => simp
    | cons c rest =>
      by_cases hc : c = ','
      · simp [hc, hsome]
      · by_cases hend : c = '}' <;> simp [hc, hend]

/-- Goes on to the next item. -/
def openItem (first : Bool) (cs : List Char) : Except Flaw (Reading Unit) :=
  openPart (fun first cs => (nextItem first cs).map (Option.map ((), ·))) first cs

theorem openItem_eq_ok_iff {first : Bool} {cs : List Char} {part : Reading Unit} :
    openItem first cs = .ok part ↔ nextItem first cs = .ok (some part.2) := by
  rw [openItem, openPart_eq_ok_iff]
  rcases nextItem first cs with _ | _ | _ <;> simp [Except.map, Prod.ext_iff]

theorem openItem_keeps (first : Bool) :
    Keeps 0 (StartsPart first) (· = .idle) (openItem first) := by
  cases first with
  | true =>
    refine ((item_keeps .incomplete .malformed).mono (Nat.zero_le 0) (fun m hm => hm.2 rfl)
      fun _ hm => hm).congr fun cs v => ?_
    rw [openItem_eq_ok_iff, nextItem]
    cases skipBlank cs with
    | nil => simp
    | cons c rest => by_cases hc : c = ']' <;> simp [hc, Prod.ext_iff]
  | false =>
    refine ((comma_keeps (item_keeps .incomplete .malformed)).mono (Nat.zero_le 1)
      (fun m hm => hm.1) fun _ hm => hm).congr fun cs v => ?_
    rw [openItem_eq_ok_iff, nextItem]
    cases skipBlank cs with
    | nil => simp
    | cons c rest =>
      by_cases hc : c = ','
      · subst hc
        dsimp only
        rw [if_neg (by decide), if_neg (by decide), if_pos rfl, if_pos rfl]
        generalize skipBlank rest = item
        cases item with
        | nil => simp
        | cons d behind =>
          by_cases hd : d = ']' <;> simp [hd, Prod.ext_iff]
      · by_cases hend : c = ']' <;> simp [hc, hend]

/-- Reads the next item with `f`, and goes on with `g` at the end of the list. -/
def itemOr {α : Type} (first : Bool) (f g : List Char → Except Flaw (Reading α))
    (cs : List Char) : Except Flaw (Reading α) := do
  match ← nextItem first cs with
  | some item => f item
  | none => g cs

theorem itemOr_bind {α β : Type} (first : Bool) (f g : List Char → Except Flaw (Reading α))
    (k : Reading α → Except Flaw (Reading β)) (cs : List Char) :
    itemOr first f g cs >>= k =
      itemOr first (fun item => f item >>= k) (fun cs => g cs >>= k) cs := by
  unfold itemOr
  rcases nextItem first cs with _ | _ | _ <;> rfl

theorem itemOr_keeps {α : Type} {first : Bool} {Q : Mode → Prop}
    {f g : List Char → Except Flaw (Reading α)} (hf : Keeps 0 (· = .idle) Q f)
    (hg : Keeps 0 (StartsPart first) Q g) :
    Keeps 0 (StartsPart first) Q (itemOr first f g) := by
  intro m hm cs rest v h
  obtain ⟨found, hfound, h⟩ := bind_eq_ok_iff.mp h
  cases found with
  | none =>
    obtain ⟨hlength, m', hm', hpasses, hspaced⟩ := hg hm h
    refine ⟨hlength, m', hm', hpasses, fun ds hds => ?_⟩
    obtain ⟨behind, hskip⟩ := List.head?_eq_some_iff.mp (nextItem_eq_none_iff.mp hfound)
    obtain ⟨behind', hskip', -⟩ := hds.token hm.1 hskip
    have hnone : nextItem first ds = .ok none := nextItem_eq_none_iff.mpr (by rw [hskip']; rfl)
    obtain ⟨rest', hrest', hds'⟩ := hspaced ds hds
    exact ⟨rest', bind_eq_ok_iff.mpr ⟨none, hnone, hrest'⟩, hds'⟩
  | some item =>
    have hopen : openItem first cs = .ok ((), item) := openItem_eq_ok_iff.mpr hfound
    obtain ⟨hlength, m', hm', hpasses, hspaced⟩ := (openItem_keeps first).bind
      (g := fun r => f r.2) (fun _ => hf) (Nat.le_refl 0) hm (bind_eq_ok_iff.mpr ⟨_, hopen, h⟩)
    refine ⟨hlength, m', hm', hpasses, fun ds hds => ?_⟩
    obtain ⟨rest', hrest', hds'⟩ := hspaced ds hds
    obtain ⟨part, hpart, hbehind⟩ := bind_eq_ok_iff.mp hrest'
    exact ⟨rest', bind_eq_ok_iff.mpr ⟨_, openItem_eq_ok_iff.mp hpart, hbehind⟩, hds'⟩

section Values
variable {α : Type} {acc : α}

theorem foldItems_keeps {step : α → List Char → Except Flaw (Reading α)}
    (h : ∀ acc, Keeps 1 (· = .idle) Mode.Outside (step acc)) :
    Keeps 1 (· = .idle) (· = .idle) fun cs => foldItems step acc true (cs.length + 1) cs := by
  simp only [foldItems_eq]
  refine (foldParts_keeps openItem_keeps (closeParts_keeps (x := ']') (by decide) ?_)
    (fun acc _ => h acc) acc true).keeps.mono (Nat.le_refl 1) ?_ fun _ hm => hm
  · intro first cs
    rw [← nextItem_eq_none_iff]
    rcases nextItem first cs with _ | _ | _ <;> simp [Except.map]
  · rintro _ rfl
    exact ⟨Mode.outside_idle, fun _ => rfl⟩

theorem foldEntries_keeps {step : α → String → List Char → Except Flaw (Reading α)}
    (h : ∀ acc key, Keeps 1 (· = .idle) Mode.Outside (step acc key)) :
    Keeps 1 (· = .idle) (· = .idle) fun cs => foldEntries step acc true (cs.length + 1) cs := by
  simp only [foldEntries_eq]
  refine (foldParts_keeps openKey_keeps (closeParts_keeps (x := '}') (by decide) ?_)
    h acc true).keeps.mono (Nat.le_refl 1) ?_ fun _ hm => hm
  · exact fun first cs => nextKey_eq_none_iff
  · rintro _ rfl
    exact ⟨Mode.outside_idle, fun _ => rfl⟩

theorem openedList_keeps {step : α → List Char → Except Flaw (Reading α)}
    (h : ∀ acc, Keeps 1 (· = .idle) Mode.Outside (step acc)) :
    Keeps 0 (· = Mode.idle.next '[') (· = .idle) fun cs => readList step acc ('[' :: cs) :=
  (foldItems_keeps h).relax

theorem openedObject_keeps {step : α → String → List Char → Except Flaw (Reading α)}
    (h : ∀ acc key, Keeps 1 (· = .idle) Mode.Outside (step acc key)) :
    Keeps 0 (· = Mode.idle.next '{') (· = .idle) fun cs => readObject step acc ('{' :: cs) :=
  (foldEntries_keeps h).relax

/-- Looking at the first character of a value, which stands behind no word. -/
theorem value_keeps {flaw : Flaw} {Q : Mode → Prop}
    {g : Char → List Char → Except Flaw (Reading α)}
    (hg : ∀ c, Keeps 0 (· = Mode.idle.next c) Q (g c)) :
    Keeps 1 (· = .idle) Q fun cs =>
      match skipBlank cs with
      | [] => .error flaw
      | c :: rest => g c rest :=
  .token (fun _ hm => hm ▸ Mode.outside_idle) hg fun _ _ => .inl fun _ hm => hm

theorem unwanted_keeps {n : Nat} {P Q : Mode → Prop} (c : Char) :
    Keeps (α := α) n P Q (unwanted c) :=
  .fail fun cs v => unwanted_ne_ok c cs v

theorem readList_keeps {step : α → List Char → Except Flaw (Reading α)}
    (h : ∀ acc, Keeps 1 (· = .idle) Mode.Outside (step acc)) :
    Keeps 1 (· = .idle) (· = .idle) (readList step acc) := by
  have hread : Keeps 1 (· = .idle) (· = .idle) fun cs =>
      match skipBlank cs with
      | [] => .error .incomplete
      | c :: rest =>
        if c = '[' then foldItems step acc true (rest.length + 1) rest else unwanted c rest := by
    refine value_keeps fun c => .ite (fun hc => ?_) fun _ => unwanted_keeps c
    rw [hc]
    exact (foldItems_keeps h).relax
  refine hread.congr fun cs v => ?_
  unfold readList
  split <;> simp_all

theorem readObject_keeps {step : α → String → List Char → Except Flaw (Reading α)}
    (h : ∀ acc key, Keeps 1 (· = .idle) Mode.Outside (step acc key)) :
    Keeps 1 (· = .idle) (· = .idle) (readObject step acc) := by
  have hread : Keeps 1 (· = .idle) (· = .idle) fun cs =>
      match skipBlank cs with
      | [] => .error .incomplete
      | c :: rest =>
        if c = '{' then foldEntries step acc true (rest.length + 1) rest else unwanted c rest := by
    refine value_keeps fun c => .ite (fun hc => ?_) fun _ => unwanted_keeps c
    rw [hc]
    exact (foldEntries_keeps h).relax
  refine hread.congr fun cs v => ?_
  unfold readObject
  split <;> simp_all

theorem readString_keeps : Keeps 1 (· = .idle) (· = .idle) readString := by
  refine value_keeps fun c => .ite (fun hc => ?_) fun _ => unwanted_keeps c
  rw [hc]
  exact readStringBody_keeps.relax

/-- Reads a truth value behind its first character. -/
def readFlagAt (c : Char) (cs : List Char) : Except Flaw (Reading Bool) :=
  if c = 't' then (readWord "rue".toList cs).map fun r => (true, r.2)
  else if c = 'f' then (readWord "alse".toList cs).map fun r => (false, r.2)
  else unwanted c cs

theorem readFlagAt_keeps (c : Char) :
    Keeps 0 (· = Mode.idle.next c) Mode.Outside (readFlagAt c) :=
  .ite (fun hc => hc ▸ word_keeps true rfl) fun _ =>
    .ite (fun hc => hc ▸ word_keeps false rfl) fun _ => unwanted_keeps c

theorem readFlag?_keeps : Keeps 1 (· = .idle) Mode.Outside readFlag? := by
  have hread : Keeps 1 (· = .idle) Mode.Outside fun cs =>
      match skipBlank cs with
      | [] => .error .incomplete
      | c :: rest =>
        if c = 'n' then (readWord "ull".toList rest).map fun r => (none, r.2)
        else (readFlagAt c rest).map fun r => (some r.1, r.2) :=
    value_keeps fun c => .ite (fun hc => hc ▸ word_keeps none rfl) fun _ =>
      (readFlagAt_keeps c).map some
  refine hread.congr fun cs v => ?_
  unfold readFlag?
  cases hskip : skipBlank cs with
  | nil => rfl
  | cons c rest =>
    by_cases hc : c = 'n'
    · rw [hc]
      rfl
    · have hflag : readFlag (c :: rest) = readFlagAt c rest := by
        rw [readFlag, skipBlank_of_not_blank (not_isBlank_of_skipBlank hskip)]
        rfl
      simp [hc, hflag]

/-- A list or object is read with the readers of its parts; `depth` counts how deep the parts may
nest. -/
theorem readValue_keeps (depth : Nat) : Keeps 1 (· = .idle) Mode.Outside (readValue depth) := by
  induction depth with
  | zero =>
    simp only [funext (readValue.eq_def 0)]
    exact value_keeps fun c => .ite (fun _ => .error _) fun _ => .ite (fun _ => .error _) fun _ =>
      readScalar_keeps c
  | succ depth ih =>
    simp only [funext (readValue.eq_def (depth + 1))]
    refine value_keeps fun c => .ite (fun hc => ?_) fun _ => .ite (fun hc => ?_) fun _ =>
      readScalar_keeps c
    · rw [hc]
      refine .outside (.bind (openedList_keeps fun _ => ?_) (fun _ => .pure _) (Nat.zero_le 0))
      exact ih.bind (fun _ => .pure ()) (Nat.le_refl 1)
    · rw [hc]
      refine .outside (.bind (openedObject_keeps fun _ _ => ?_) (fun _ => .pure _) (Nat.zero_le 0))
      exact colon_keeps (ih.bind (fun _ => .pure ()) (Nat.le_refl 1))

end Values

theorem readEnd_eq_ok_iff {cs : List Char} : readEnd cs = .ok () ↔ skipBlank cs = [] := by
  simp [readEnd]

end SheetLint.Json
