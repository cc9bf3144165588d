import SheetLint.Config
import SheetLint.Proofs.Comments
import SheetLint.Proofs.JsonLayout

/-! # Configurations with comments

Comments are taken out of a configuration before it is read, so what stands in front of a comment
and what stands behind it come together.  If comments were spaces instead, a word with a comment
in it would be two words, and no configuration has two words in a row.  That is the only
difference (`parse_iff_read_blanked`).
-/
namespace SheetLint.Config
open Json

/-! ### The parts of a configuration -/

theorem readLevel_keeps : Keeps 1 (· = .idle) Mode.Outside readLevel := by
  refine .bind (readValue_keeps _) (fun v => ?_) (Nat.le_refl 1)
  cases v with
  | natural n => exact .pure (LevelValue.number n)
  | flag b => exact .pure (LevelValue.flag b)
  | text s => exact .pure (LevelValue.text s)
  | null | number | list | object => exact .error _

theorem readRules_keeps : Keeps 1 (· = .idle) (· = .idle) readRules :=
  readObject_keeps fun rules key =>
    colon_keeps (readLevel_keeps.bind (fun level => .pure (Keyed.put Prod.fst (key, level) rules))
      (Nat.le_refl 1))

theorem readExclude_keeps : Keeps 1 (· = .idle) (· = .idle) readExclude :=
  readList_keeps fun patterns =>
    (readString_keeps.bind (fun pattern => .pure (patterns ++ [pattern])) (Nat.le_refl 1)).outside

theorem readEntry_keeps (draft : Draft) (key : String) :
    Keeps 1 (· = .idle) Mode.Outside (readEntry draft key) := by
  unfold readEntry
  refine .ite (fun _ => ?_) fun _ => .ite (fun _ => ?_) fun _ => .ite (fun _ => ?_) fun _ =>
    .error _
  · exact .outside (colon_keeps (readRules_keeps.bind
      (fun rules => .pure { draft with rules := some rules }) (Nat.le_refl 1)))
  · exact .outside (colon_keeps (readExclude_keeps.bind
      (fun exclude => .pure { draft with exclude := some exclude }) (Nat.le_refl 1)))
  · exact colon_keeps (readFlag?_keeps.bind
      (fun filesystem => .pure { draft with filesystem := some filesystem }) (Nat.le_refl 1))

theorem readPositional_eq (cs : List Char) :
    readPositional cs =
      itemOr true readRules (fun cs => .ok ([], cs)) cs >>= fun r =>
        itemOr false readExclude (fun cs => .ok ([], cs)) r.2 >>= fun e =>
          itemOr false readFlag? (fun _ => .error .wrongShape) e.2 >>= fun f =>
            readChar ']' (skipBlank f.2) >>= fun last => .ok (⟨r.1, e.1, f.1⟩, last.2) := by
  simp only [itemOr_bind]
  rfl

/-- A list has its parts in their places; where one is missing, reading fails in the end. -/
theorem readPositional_keeps : Keeps 0 (· = .idle) (· = .idle) readPositional := by
  have hlater (m : Mode) (hm : m.Outside) : StartsPart false m := ⟨hm, nofun⟩
  have hrules : Keeps 0 (· = .idle) Mode.Outside
      (itemOr true readRules fun cs => .ok ([], cs)) := by
    refine (itemOr_keeps readRules_keeps.relax.outside ?_).mono (Nat.le_refl 0) ?_ fun _ => id
    · exact (Keeps.pure _).mono (Nat.le_refl 0) (fun _ hm => hm) fun _ (hm : StartsPart _ _) => hm.1
    · exact fun m hm => hm ▸ ⟨Mode.outside_idle, fun _ => rfl⟩
  have hexclude : Keeps 0 Mode.Outside Mode.Outside
      (itemOr false readExclude fun cs => .ok ([], cs)) := by
    refine (itemOr_keeps readExclude_keeps.relax.outside ?_).mono (Nat.le_refl 0) hlater fun _ => id
    exact (Keeps.pure _).mono (Nat.le_refl 0) (fun _ hm => hm) fun _ (hm : StartsPart _ _) => hm.1
  have hfilesystem : Keeps 0 Mode.Outside Mode.Outside
      (itemOr false readFlag? fun _ => .error .wrongShape) :=
    (itemOr_keeps readFlag?_keeps.relax (.error _)).mono (Nat.le_refl 0) hlater fun _ => id
  simp only [funext readPositional_eq]
  refine hrules.bind (fun rules => ?_) (Nat.le_refl 0)
  dsimp only
  refine hexclude.bind (fun exclude => ?_) (Nat.le_refl 0)
  dsimp only
  refine hfilesystem.bind (fun filesystem => ?_) (Nat.le_refl 0)
  dsimp only
  refine .bind (readMark_keeps (x := ']') (by decide)) (fun _ => ?_) (Nat.zero_le 1)
  exact .pure _

/-- Reads a configuration up to its last bracket. -/
def readWhole (cs : List Char) : Except Flaw (Reading Config) :=
  match skipBlank cs with
  | [] => .error .incomplete
  | c :: rest =>
    if c = '[' then readPositional rest
    else if c = '{' then (readObject readEntry {} ('{' :: rest)).map fun r => (r.1.finish, r.2)
    else .error .malformed

theorem readWhole_keeps : Keeps 1 (· = .idle) (· = .idle) readWhole := by
  refine value_keeps fun c => .ite (fun hc => ?_) fun _ => .ite (fun hc => ?_) fun _ => .error _
  · rw [hc]
    exact readPositional_keeps
  · rw [hc]
    exact (openedObject_keeps readEntry_keeps).map Draft.finish

theorem read_eq_ok_iff {cs : List Char} {config : Config} :
    read cs = .ok config ↔ ∃ rest, readWhole cs = .ok (config, rest) ∧ skipBlank rest = [] := by
  have hend (x : Except Flaw (Reading Config)) :
      (x >>= fun r => readEnd r.2 >>= fun _ => .ok r.1) = .ok config ↔
        ∃ rest, x = .ok (config, rest) ∧ skipBlank rest = [] := by
    rw [bind_eq_ok_iff]
    constructor
    · rintro ⟨⟨config', rest⟩, hx, h⟩
      obtain ⟨⟨⟩, hrest, h⟩ := bind_eq_ok_iff.mp h
      obtain rfl := Except.ok.inj h
      exact ⟨rest, hx, readEnd_eq_ok_iff.mp hrest⟩
    · rintro ⟨rest, hx, hrest⟩
      exact ⟨_, hx, bind_eq_ok_iff.mpr ⟨(), readEnd_eq_ok_iff.mpr hrest, rfl⟩⟩
  rw [← hend]
  unfold read readWhole
  cases hskip : skipBlank cs with
  | nil => rfl
  | cons c rest =>
    by_cases hlist : c = '['
    · rw [hlist]
      rfl
    · by_cases hobject : c = '{'
      · rw [hobject]
        rfl
      · have hnone : readObject readEntry {} (c :: rest) = unwanted c rest := by
          unfold readObject
          rw [skipBlank_of_not_blank (not_isBlank_of_skipBlank hskip)]
          split <;> simp_all
        split
        · rename_i heq
          exact absurd (List.cons.inj heq).1 hlist
        simp only [hnone, if_neg hlist, if_neg hobject]
        cases hshape : unwanted (α := Draft) c rest with
        | ok v => exact absurd hshape (unwanted_ne_ok c rest v)
        | error flaw => exact iff_of_false nofun nofun

theorem read_of_spaced {cs ds : List Char} {config : Config} (h : Spaced .idle cs ds)
    (hcs : read cs = .ok config) : read ds = .ok config := by
  obtain ⟨rest, hwhole, hrest⟩ := read_eq_ok_iff.mp hcs
  obtain ⟨-, _, rfl, -, hspaced⟩ := readWhole_keeps rfl hwhole
  obtain ⟨rest', hwhole', hrest'⟩ := hspaced ds h
  exact read_eq_ok_iff.mpr ⟨rest', hwhole', hrest'.skipBlank_eq_nil Mode.outside_idle hrest⟩

/-- A text that is read has no two words in a row. -/
theorem passes_of_read {cs : List Char} {config : Config} (h : read cs = .ok config) :
    ∃ m, Passes .idle cs m [] := by
  obtain ⟨rest, hwhole, hrest⟩ := read_eq_ok_iff.mp h
  obtain ⟨-, _, rfl, hpasses, -⟩ := readWhole_keeps rfl hwhole
  obtain ⟨m, -, -, hblank⟩ := passes_skipBlank Mode.outside_idle rest
  rw [hrest] at hblank
  exact ⟨m, hpasses.trans hblank⟩

/-! ### Comments as spaces -/

/-- A stretch with a space for a comment. -/
def Stretch.blanked : Stretch → List Char
  | comment _ => [' ']
  | stretch => stretch.text

/-- A character of a word stands behind comments. -/
def ResumesWord (stretches : List Stretch) : Prop :=
  ∃ comments d behind, stretches = comments ++ .plain d :: behind ∧ comments ≠ [] ∧
    (∀ stretch ∈ comments, stretch.isComment = true) ∧ isScalarChar d = true

/-- Somewhere two characters of words have comments between them and nothing else. -/
def SplitsWord (stretches : List Stretch) : Prop :=
  ∃ before c behind, stretches = before ++ .plain c :: behind ∧ isScalarChar c = true ∧
    ResumesWord behind

section Stretches
variable {m m' : Mode} {c : Char} {text cs ds : List Char} {stretch : Stretch}
  {stretches : List Stretch}

theorem not_resumesWord_nil : ¬ ResumesWord [] := by
  rintro ⟨comments, d, behind, heq, -⟩
  simp at heq

theorem ResumesWord.isComment (h : ResumesWord (stretch :: stretches)) :
    stretch.isComment = true := by
  obtain ⟨comments, d, behind, heq, hne, hcomments, -⟩ := h
  obtain ⟨first, comments, rfl⟩ := List.exists_cons_of_ne_nil hne
  obtain ⟨rfl, -⟩ := List.cons.inj heq
  exact hcomments _ List.mem_cons_self

theorem resumesWord_comment_iff :
    ResumesWord (.comment text :: stretches) ↔
      (∃ d behind, stretches = .plain d :: behind ∧ isScalarChar d = true) ∨
        ResumesWord stretches := by
  constructor
  · rintro ⟨comments, d, behind, heq, hne, hcomments, hd⟩
    obtain ⟨first, comments, rfl⟩ := List.exists_cons_of_ne_nil hne
    obtain ⟨-, rfl⟩ := List.cons.inj heq
    cases comments with
    | nil => exact .inl ⟨d, behind, rfl, hd⟩
    | cons second comments =>
      exact .inr ⟨_, d, behind, rfl, List.cons_ne_nil _ _,
        (List.forall_mem_cons.mp hcomments).2, hd⟩
  · rintro (⟨d, behind, rfl, hd⟩ | ⟨comments, d, behind, rfl, -, hcomments, hd⟩)
    · exact ⟨[.comment text], d, behind, rfl, List.cons_ne_nil _ _, by simp [Stretch.isComment],
        hd⟩
    · exact ⟨.comment text :: comments, d, behind, rfl, List.cons_ne_nil _ _,
        List.forall_mem_cons.mpr ⟨rfl, hcomments⟩, hd⟩

theorem splitsWord_cons_iff :
    SplitsWord (stretch :: stretches) ↔
      (∃ c, stretch = .plain c ∧ isScalarChar c = true ∧ ResumesWord stretches) ∨
        SplitsWord stretches := by
  constructor
  · rintro ⟨before, c, behind, heq, hc, hbehind⟩
    cases before with
    | nil =>
      obtain ⟨rfl, rfl⟩ := List.cons.inj heq
      exact .inl ⟨c, rfl, hc, hbehind⟩
    | cons first before =>
      obtain ⟨rfl, rfl⟩ := List.cons.inj heq
      exact .inr ⟨before, c, behind, rfl, hc, hbehind⟩
  · rintro (⟨c, rfl, hc, hbehind⟩ | ⟨before, c, behind, rfl, hc, hbehind⟩)
    · exact ⟨[], c, _, rfl, hc, hbehind⟩
    · exact ⟨stretch :: before, c, behind, rfl, hc, hbehind⟩

/-- What is kept behind a comment starts with a character of a word only if the word resumes. -/
theorem ReadsAs.resumesWord (h : ReadsAs cs stretches)
    (hhead : (stretches.flatMap Stretch.kept).head? = some c) (hc : isScalarChar c = true)
    (text : List Char) : ResumesWord (.comment text :: stretches) := by
  rw [resumesWord_comment_iff]
  induction h with
  | nil => cases hhead
  | plain =>
    obtain rfl := Option.some.inj hhead
    exact .inl ⟨_, _, rfl, hc⟩
  | literal htext =>
    obtain ⟨body, rfl⟩ := htext.exists_cons
    obtain rfl := Option.some.inj hhead
    exact absurd hc (by decide)
  | comment _ _ ih => exact .inr (resumesWord_comment_iff.mpr (ih hhead))

theorem IsQuotable.spaced {body : List Char} (h : IsQuotable body) (hcs : Spaced .inString cs ds) :
    Spaced .inString (body ++ cs) (body ++ ds) := by
  induction h with
  | nil => exact hcs
  | plain hquote hback _ ih => exact .keep _ (by simpa [Mode.next, hquote, hback] using ih)
  | escape _ ih => exact .keep _ (.keep _ ih)

theorem IsQuotable.passes {body : List Char} (h : IsQuotable body)
    (hcs : Passes .inString (body ++ cs) m []) : Passes .inString cs m [] := by
  induction h with
  | nil => exact hcs
  | plain hquote hback _ ih => exact ih (by simpa [Mode.next, hquote, hback] using hcs.uncons.2)
  | escape _ ih => exact ih hcs.uncons.2.uncons.2

/-- If no word is split, comments may as well be spaces.  The induction carries along that a word
in front does not resume. -/
theorem ReadsAs.spaced (h : ReadsAs cs stretches) (hsplits : ¬ SplitsWord stretches)
    (hm : m.Outside) (hword : m = .word → ¬ ResumesWord stretches) :
    Spaced m (stretches.flatMap Stretch.kept) (stretches.flatMap Stretch.blanked) := by
  induction h generalizing m with
  | nil => exact .nil
  | @plain c cs stretches hquote _ _ ih =>
    rw [splitsWord_cons_iff, not_or] at hsplits
    obtain ⟨hnext, hscalar⟩ := hm.next_plain hquote
    refine .keep c (ih hsplits.2 hnext fun heq hresumes => ?_)
    exact hsplits.1 ⟨c, rfl, hscalar heq, hresumes⟩
  | @literal text cs stretches htext hcs ih =>
    rw [splitsWord_cons_iff, not_or] at hsplits
    by_cases hnil : cs = []
    · subst hnil
      obtain rfl := ReadsAs.unique .nil hcs
      exact .refl m _
    · obtain ⟨body, hbody, rfl⟩ := htext.eq_closed hnil
      have hrest := ih hsplits.2 Mode.outside_idle nofun
      have hclosed := hbody.spaced (.keep doubleQuote hrest)
      rw [← hm.next_quote] at hclosed
      simpa [Stretch.kept, Stretch.blanked, Stretch.text] using Spaced.keep doubleQuote hclosed
  | @comment text cs stretches _ hcs ih =>
    rw [splitsWord_cons_iff, not_or] at hsplits
    refine .right hm (fun heq c hc => ?_) (ih hsplits.2 hm fun heq hresumes => ?_)
    · cases hscalar : isScalarChar c with
      | false => rfl
      | true => exact absurd (hcs.resumesWord hc hscalar text) (hword heq)
    · exact hword heq (resumesWord_comment_iff.mpr (.inr hresumes))

/-- Where comments are spaces, a word that is split is two words in a row. -/
theorem ReadsAs.not_splitsWord (h : ReadsAs cs stretches) (hm : m.Outside)
    (hpasses : Passes m (stretches.flatMap Stretch.blanked) m' []) :
    ¬ SplitsWord stretches ∧ (m ≠ .idle → ¬ ResumesWord stretches) := by
  induction h generalizing m with
  | nil =>
    refine ⟨?_, fun _ => not_resumesWord_nil⟩
    rintro ⟨before, c, behind, heq, -⟩
    simp at heq
  | @plain c cs stretches hquote _ _ ih =>
    obtain ⟨hsplits, hresumes⟩ := ih (hm.next_plain hquote).1 hpasses.uncons.2
    refine ⟨?_, fun _ h => Bool.false_ne_true h.isComment⟩
    rw [splitsWord_cons_iff]
    rintro (⟨d, heq, hd, hbehind⟩ | h)
    · obtain rfl := Stretch.plain.inj heq
      exact hresumes (by rw [hm.next_scalar hd]; decide) hbehind
    · exact hsplits h
  | @literal text cs stretches htext hcs ih =>
    refine ⟨?_, fun _ h => Bool.false_ne_true h.isComment⟩
    rw [splitsWord_cons_iff]
    rintro (⟨d, heq, -⟩ | h)
    · cases heq
    by_cases hnil : cs = []
    · subst hnil
      obtain rfl := ReadsAs.unique .nil hcs
      obtain ⟨before, c, behind, heq, -⟩ := h
      simp at heq
    · obtain ⟨body, hbody, rfl⟩ := htext.eq_closed hnil
      simp only [List.flatMap_cons, Stretch.blanked, Stretch.text, List.cons_append,
        List.append_assoc] at hpasses
      have hopened := hpasses.uncons.2
      rw [hm.next_quote] at hopened
      have hrest := (hbody.passes hopened).uncons.2
      exact (ih Mode.outside_idle hrest).1 h
  | @comment text cs stretches _ hcs ih =>
    have hblank := hm.next_blank_outside (c := ' ') rfl
    obtain ⟨hsplits, hresumes⟩ := ih hblank hpasses.uncons.2
    refine ⟨?_, fun hidle h => ?_⟩
    · rw [splitsWord_cons_iff]
      rintro (⟨d, heq, -⟩ | h)
      · cases heq
      · exact hsplits h
    · have hgap : m.next ' ' = .gap := by rw [hm.next_blank rfl, if_neg hidle]
      rcases resumesWord_comment_iff.mp h with ⟨d, behind, rfl, hd⟩ | h
      · -- the word behind the comment would stand right behind the one in front of it
        have hword := hpasses.uncons.2.uncons.1 hgap
        rw [hd] at hword
        cases hword
      · exact hresumes (by rw [hgap]; decide) h

end Stretches

/-- **Comments taken for spaces.**  With spaces in the place of its comments, a text is read exactly
if it is a configuration and none of its comments splits a word; and then it is the same
configuration. -/
theorem parse_iff_read_blanked (content : String) :
    ∃ stretches, (∀ other, ReadsAs content.toList other ↔ other = stretches) ∧
      ∀ config, read (stretches.flatMap Stretch.blanked) = .ok config ↔
        parse content = .ok config ∧ ¬ SplitsWord stretches := by
  obtain ⟨stretches, h⟩ := exists_readsAs content.toList
  refine ⟨stretches, fun other => ⟨fun h' => h'.unique h, fun h' => h' ▸ h⟩, fun config => ?_⟩
  have hkept : parse content = read (stretches.flatMap Stretch.kept) := by
    rw [parse, h.removeComments_eq]
  rw [hkept]
  constructor
  · intro hread
    obtain ⟨m, hpasses⟩ := passes_of_read hread
    have hsplits := (h.not_splitsWord Mode.outside_idle hpasses).1
    exact ⟨read_of_spaced (h.spaced hsplits Mode.outside_idle nofun).symm hread, hsplits⟩
  · rintro ⟨hread, hsplits⟩
    exact read_of_spaced (h.spaced hsplits Mode.outside_idle nofun) hread

/-- A comment in the middle of `true` is passed over, and with a space in its place the text is no
configuration. -/
theorem comment_inside_word :
    ∃ stretches, ReadsAs "\x7b\"filesystem\":tr/**/ue\x7d".toList stretches ∧
      parse "\x7b\"filesystem\":tr/**/ue\x7d" = .ok { filesystem := some true } ∧
      ∀ config, read (stretches.flatMap Stretch.blanked) ≠ .ok config := by
  have hname : IsQuotable "filesystem".toList := by
    repeat' first | exact .nil | refine .plain (by decide) (by decide) ?_
  have hcomment : IsComment ('/' :: '*' :: ([] ++ ['*', '/'])) "ue\x7d".toList :=
    .block (by decide)
  have hbehind : ReadsAs "ue\x7d".toList [.plain 'u', .plain 'e', .plain '}'] :=
    .plain (by decide) (by decide) (.plain (by decide) (by decide)
      (.plain (by decide) (by decide) .nil))
  have hvalue : ReadsAs ":tr/**/ue\x7d".toList _ :=
    .plain (by decide) (by decide) (.plain (by decide) (by decide)
      (.plain (by decide) (by decide) (.comment hcomment hbehind)))
  refine ⟨_, .plain (by decide) (by decide) (.literal (.closed hname) hvalue), by decide, ?_⟩
  have hread : read "\x7b\"filesystem\":tr ue\x7d".toList = .error .malformed := by decide
  exact fun config h => nomatch hread.symm.trans h

end SheetLint.Config
