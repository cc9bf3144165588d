import Mathlib.Data.List.Basic
import SheetLint.Config.Comment
import SheetLint.Proofs.Gaps
import SheetLint.Text.Cut

/-! # What is left of a configuration without its comments

A text falls apart into stretches in one way only (`ReadsAs`): string literals, comments, and
single characters that belong to neither.  A comment goes from its opener to the end of the
line or to the next `*/`, and an opener inside a literal opens nothing.

`removeComments` keeps the literals and the single characters, and nothing else
(`ReadsAs.removeComments_eq`).  What it keeps reads as the same stretches again, without the
comments (`ReadsAs.keep`): a slash that is kept has no comment behind it, so what comes to stand
behind it stood there before, and makes no opener of it.
-/
namespace SheetLint.Config

/-! ### Literals and comments -/

/-- What may stand between the quotes of a string literal: no quote and no backslash, but a
backslash with any character behind it. -/
inductive IsQuotable : List Char → Prop where
  | nil : IsQuotable []
  | plain {c : Char} {cs : List Char} (hquote : c ≠ doubleQuote) (hback : c ≠ backslash)
      (hcs : IsQuotable cs) : IsQuotable (c :: cs)
  | escape {c : Char} {cs : List Char} (hcs : IsQuotable cs) : IsQuotable (backslash :: c :: cs)

/-- `text` is the string literal at the start of `text ++ rest`.  One that is not closed goes to
the end of the text, and may end in the middle of an escape. -/
inductive IsLiteral : (text rest : List Char) → Prop where
  | closed {body rest : List Char} (hbody : IsQuotable body) :
      IsLiteral (doubleQuote :: (body ++ [doubleQuote])) rest
  | unclosed {body : List Char} (hbody : IsQuotable body) : IsLiteral (doubleQuote :: body) []
  | unescaped {body : List Char} (hbody : IsQuotable body) :
      IsLiteral (doubleQuote :: (body ++ [backslash])) []

/-- `text` is the comment at the start of `text ++ rest`: it ends in front of the line feed,
behind the first `*/`, or with the text. -/
inductive IsComment : (text rest : List Char) → Prop where
  | line {body rest : List Char} (hbody : '\n' ∉ body) (hrest : ∀ c ∈ rest.head?, c = '\n') :
      IsComment ('/' :: '/' :: body) rest
  | block {body rest : List Char} (hbody : ¬ ['*', '/'] <:+: body) :
      IsComment ('/' :: '*' :: (body ++ ['*', '/'])) rest
  | unclosed {body : List Char} (hbody : ¬ ['*', '/'] <:+: body) :
      IsComment ('/' :: '*' :: body) []

/-- A text starts with the two characters that open a comment. -/
def OpensComment (cs : List Char) : Prop := ['/', '/'] <+: cs ∨ ['/', '*'] <+: cs

instance (cs : List Char) : Decidable (OpensComment cs) :=
  inferInstanceAs (Decidable (_ ∨ _))

/-- A stretch of a text. -/
inductive Stretch where
  | plain (c : Char)
  | literal (text : List Char)
  | comment (text : List Char)
  deriving DecidableEq, Repr

namespace Stretch

/-- The characters of a stretch. -/
def text : Stretch → List Char
  | plain c => [c]
  | literal text => text
  | comment text => text

/-- Whether a stretch is a comment. -/
def isComment : Stretch → Bool
  | comment _ => true
  | _ => false

/-- What is kept of a stretch. -/
def kept : Stretch → List Char
  | comment _ => []
  | stretch => stretch.text

end Stretch

/-- The stretches of a text, one behind the other. -/
inductive ReadsAs : List Char → List Stretch → Prop where
  | nil : ReadsAs [] []
  | plain {c : Char} {cs : List Char} {stretches : List Stretch} (hquote : c ≠ doubleQuote)
      (hopens : ¬ OpensComment (c :: cs)) (hcs : ReadsAs cs stretches) :
      ReadsAs (c :: cs) (.plain c :: stretches)
  | literal {text cs : List Char} {stretches : List Stretch} (htext : IsLiteral text cs)
      (hcs : ReadsAs cs stretches) : ReadsAs (text ++ cs) (.literal text :: stretches)
  | comment {text cs : List Char} {stretches : List Stretch} (htext : IsComment text cs)
      (hcs : ReadsAs cs stretches) : ReadsAs (text ++ cs) (.comment text :: stretches)

/-- A text that ends outside string literals, whatever stands between them. -/
inductive LeavesLiterals : List Char → Prop where
  | nil : LeavesLiterals []
  | plain {c : Char} {cs : List Char} (hquote : c ≠ doubleQuote) (hcs : LeavesLiterals cs) :
      LeavesLiterals (c :: cs)
  | literal {body cs : List Char} (hbody : IsQuotable body) (hcs : LeavesLiterals cs) :
      LeavesLiterals (doubleQuote :: (body ++ doubleQuote :: cs))

/-- Somewhere outside string literals a comment is opened. -/
def HasOpener (cs : List Char) : Prop :=
  ∃ front back, cs = front ++ back ∧ LeavesLiterals front ∧ OpensComment back

/-! ### Where literals and comments end -/

section Ends
variable {body text text' rest rest' cs : List Char}

theorem opensComment_cons_iff {c : Char} :
    OpensComment (c :: cs) ↔ c = '/' ∧ (cs.head? = some '/' ∨ cs.head? = some '*') := by
  cases cs with
  | nil => simp [OpensComment]
  | cons d ds => simp [OpensComment, eq_comm, and_or_left]

theorem IsComment.exists_cons (h : IsComment text rest) :
    ∃ d body, text = '/' :: d :: body ∧ (d = '/' ∨ d = '*') := by
  cases h with
  | line => exact ⟨'/', _, rfl, .inl rfl⟩
  | block => exact ⟨'*', _, rfl, .inr rfl⟩
  | unclosed => exact ⟨'*', _, rfl, .inr rfl⟩

theorem IsComment.opensComment (h : IsComment text rest) : OpensComment (text ++ cs) := by
  obtain ⟨d, body, rfl, hd⟩ := h.exists_cons
  rw [List.cons_append, opensComment_cons_iff]
  simpa using hd

theorem IsLiteral.exists_cons (h : IsLiteral text rest) : ∃ body, text = doubleQuote :: body := by
  cases h with
  | closed => exact ⟨_, rfl⟩
  | unclosed => exact ⟨_, rfl⟩
  | unescaped => exact ⟨_, rfl⟩

/-- A literal that is not closed has nothing behind it. -/
theorem IsLiteral.eq_closed (h : IsLiteral text rest) (hrest : rest ≠ []) :
    ∃ body, IsQuotable body ∧ text = doubleQuote :: (body ++ [doubleQuote]) := by
  cases h with
  | closed hbody => exact ⟨_, hbody, rfl⟩
  | unclosed => exact absurd rfl hrest
  | unescaped => exact absurd rfl hrest

/-- Whether a literal ends somewhere depends on what follows only in that nothing may follow
one that is not closed. -/
theorem IsLiteral.of_nil_imp (h : IsLiteral text rest) (hnil : rest = [] → rest' = []) :
    IsLiteral text rest' := by
  cases h with
  | closed hbody => exact .closed hbody
  | unclosed hbody => exact hnil rfl ▸ .unclosed hbody
  | unescaped hbody => exact hnil rfl ▸ .unescaped hbody

/-- The literal that starts at a quote, and what follows it. -/
theorem exists_isLiteral (cs : List Char) :
    ∃ text rest, doubleQuote :: cs = text ++ rest ∧ IsLiteral text rest := by
  suffices h : ∃ body, IsQuotable body ∧
      (cs = body ∨ cs = body ++ [backslash] ∨ ∃ rest, cs = body ++ doubleQuote :: rest) by
    obtain ⟨body, hbody, rfl | rfl | ⟨rest, rfl⟩⟩ := h
    · exact ⟨_, [], by simp, .unclosed hbody⟩
    · exact ⟨_, [], by simp, .unescaped hbody⟩
    · exact ⟨doubleQuote :: (body ++ [doubleQuote]), rest, by simp, .closed hbody⟩
  -- on the length, as a backslash takes the character behind it along
  induction hn : cs.length using Nat.strongRecOn generalizing cs with
  | _ n ih =>
    cases cs with
    | nil => exact ⟨[], .nil, .inl rfl⟩
    | cons c cs =>
      rw [List.length_cons] at hn
      by_cases hquote : c = doubleQuote
      · exact ⟨[], .nil, .inr (.inr ⟨cs, by rw [hquote]; rfl⟩)⟩
      by_cases hback : c = backslash
      · subst hback
        cases cs with
        | nil => exact ⟨[], .nil, .inr (.inl rfl)⟩
        | cons d cs =>
          rw [List.length_cons] at hn
          obtain ⟨body, hbody, hcs⟩ := ih cs.length (by omega) cs rfl
          refine ⟨_, .escape (c := d) hbody, ?_⟩
          simpa using hcs
      · obtain ⟨body, hbody, hcs⟩ := ih cs.length (by omega) cs rfl
        refine ⟨_, .plain hquote hback hbody, ?_⟩
        simpa using hcs

/-- A text that holds a `*/` holds a first one. -/
theorem exists_first_commentEnd (h : ['*', '/'] <:+: cs) :
    ∃ body rest, cs = body ++ '*' :: '/' :: rest ∧ ¬ ['*', '/'] <:+: body := by
  induction cs with
  | nil => simp at h
  | cons c cs ih =>
    by_cases hhere : c = '*' ∧ cs.head? = some '/'
    · obtain ⟨rfl, hhead⟩ := hhere
      obtain ⟨rest, rfl⟩ := List.head?_eq_some_iff.mp hhead
      exact ⟨[], rest, rfl, by simp⟩
    · obtain ⟨body, rest, rfl, hbody⟩ :=
        ih ((commentEnd_infix_cons_iff.mp h).resolve_left hhere)
      refine ⟨c :: body, rest, rfl, fun hend => ?_⟩
      rcases commentEnd_infix_cons_iff.mp hend with ⟨rfl, hhead⟩ | hend
      · exact hhere ⟨rfl, by rw [List.head?_append, hhead]; rfl⟩
      · exact hbody hend

/-- The comment at the start of a text that opens one, and what follows it. -/
theorem exists_isComment (h : OpensComment cs) :
    ∃ text rest, cs = text ++ rest ∧ IsComment text rest := by
  rcases h with ⟨behind, rfl⟩ | ⟨behind, rfl⟩
  · refine ⟨'/' :: '/' :: behind.takeWhile (· != '\n'), behind.dropWhile (· != '\n'), ?_, ?_⟩
    · simp
    · refine .line (fun h => ?_) fun c hc => ?_
      · simpa using Text.of_mem_takeWhile _ h
      · have hstop := List.head?_dropWhile_not (· != '\n') behind
        rw [hc] at hstop
        simpa using hstop
  · by_cases hend : ['*', '/'] <:+: behind
    · obtain ⟨body, rest, rfl, hbody⟩ := exists_first_commentEnd hend
      exact ⟨'/' :: '*' :: (body ++ ['*', '/']), rest, by simp, .block hbody⟩
    · exact ⟨_, [], by simp, .unclosed hend⟩

/-- A closed literal ends where it ends, whatever follows. -/
theorem IsQuotable.append_inj {body' : List Char} (h : IsQuotable body) (h' : IsQuotable body')
    (heq : body ++ doubleQuote :: rest = body' ++ doubleQuote :: rest') :
    body = body' ∧ rest = rest' := by
  induction h generalizing body' with
  | nil =>
    cases h' with
    | nil => simpa using heq
    | plain hquote => simp [hquote.symm] at heq
    | escape => simp [doubleQuote, backslash] at heq
  | plain hquote hback _ ih =>
    cases h' with
    | nil => simp [hquote] at heq
    | plain _ _ hcs =>
      simp only [List.cons_append, List.cons.injEq] at heq
      obtain ⟨rfl, rfl⟩ := ih hcs heq.2
      exact ⟨by rw [heq.1], rfl⟩
    | escape => simp [hback] at heq
  | escape _ ih =>
    cases h' with
    | nil => simp [doubleQuote, backslash] at heq
    | plain _ hback => simp [hback.symm] at heq
    | escape hcs =>
      simp only [List.cons_append, List.cons.injEq, true_and] at heq
      obtain ⟨rfl, rfl⟩ := ih hcs heq.2
      exact ⟨by rw [heq.1], rfl⟩

theorem IsQuotable.append_escape (h : IsQuotable body) (c : Char) :
    IsQuotable (body ++ [backslash, c]) := by
  induction h with
  | nil => exact .escape .nil
  | plain hquote hback _ ih => exact .plain hquote hback ih
  | escape _ ih => exact .escape ih

/-- A literal closes at its first quote, also one that nothing follows. -/
theorem IsLiteral.closes_first (hbody : IsQuotable body)
    (h : IsLiteral (doubleQuote :: (body ++ doubleQuote :: rest)) []) : rest = [] := by
  suffices hclose : ∃ body' closing, IsQuotable body' ∧
      body ++ doubleQuote :: (rest ++ closing) = body' ++ doubleQuote :: [] by
    obtain ⟨body', closing, hbody', heq⟩ := hclose
    exact (List.append_eq_nil_iff.mp (hbody.append_inj hbody' heq).2).1
  generalize htext : doubleQuote :: (body ++ doubleQuote :: rest) = text at h
  -- a literal that is not closed is closed by one or two quotes more
  cases h with
  | closed hbody' => exact ⟨_, [], hbody', by simpa using htext⟩
  | unclosed hbody' =>
    refine ⟨_, [doubleQuote], hbody', ?_⟩
    rw [← (List.cons.inj htext).2]
    simp
  | @unescaped body' hbody' =>
    refine ⟨_, [doubleQuote, doubleQuote], hbody'.append_escape doubleQuote, ?_⟩
    have hlonger := congrArg (· ++ [doubleQuote, doubleQuote]) (List.cons.inj htext).2
    simpa using hlonger

/-- The literal at the start of a text is the only one. -/
theorem IsLiteral.unique (h : IsLiteral text rest) (h' : IsLiteral text' rest')
    (heq : text ++ rest = text' ++ rest') : text = text' := by
  by_cases hrest : rest = []
  · by_cases hrest' : rest' = []
    · simpa [hrest, hrest'] using heq
    · obtain ⟨body, hbody, rfl⟩ := h'.eq_closed hrest'
      obtain rfl : text = doubleQuote :: (body ++ doubleQuote :: rest') := by
        simpa [hrest] using heq
      exact absurd (IsLiteral.closes_first hbody (hrest ▸ h)) hrest'
  · obtain ⟨body, hbody, rfl⟩ := h.eq_closed hrest
    by_cases hrest' : rest' = []
    · obtain rfl : text' = doubleQuote :: (body ++ doubleQuote :: rest) := by
        simpa [hrest'] using heq.symm
      exact absurd (IsLiteral.closes_first hbody (hrest' ▸ h')) hrest
    · obtain ⟨body', hbody', rfl⟩ := h'.eq_closed hrest'
      rw [(hbody.append_inj hbody' (by simpa using heq)).1]

/-- A comment ends behind its first `*/`. -/
theorem commentEnd_append_inj {body' : List Char} (h : ¬ ['*', '/'] <:+: body)
    (h' : ¬ ['*', '/'] <:+: body')
    (heq : body ++ '*' :: '/' :: rest = body' ++ '*' :: '/' :: rest') : body = body' := by
  wlog hlonger : ∃ extra, body' = body ++ extra generalizing body body' rest rest'
  · rcases List.append_eq_append_iff.mp heq with ⟨extra, hbody', -⟩ | ⟨extra, hbody, -⟩
    · exact absurd ⟨extra, hbody'⟩ hlonger
    · exact (this h' h heq.symm ⟨extra, hbody⟩).symm
  obtain ⟨extra, rfl⟩ := hlonger
  match extra with
  | [] => simp
  | [c] => simp at heq
  | c :: d :: more =>
    simp only [List.append_assoc, List.append_cancel_left_eq, List.cons_append,
      List.cons.injEq] at heq
    obtain ⟨rfl, rfl, -⟩ := heq
    exact absurd ⟨body, more, by simp⟩ h'

theorem IsComment.unique (h : IsComment text rest) (h' : IsComment text' rest')
    (heq : text ++ rest = text' ++ rest') : text = text' := by
  have hends (body rest : List Char) : ['*', '/'] <:+: body ++ '*' :: '/' :: rest :=
    ⟨body, rest, by simp⟩
  cases h with
  | @line body _ hbody hrest =>
    cases h' with
    | @line body' _ hbody' hrest' =>
      have hspan {body rest : List Char} (hbody : '\n' ∉ body)
          (hrest : ∀ c ∈ rest.head?, c = '\n') : (body ++ rest).takeWhile (· != '\n') = body :=
        (Text.takeWhile_dropWhile_append (p := (· != '\n'))
          (fun c hc => by simpa using ne_of_mem_of_not_mem hc hbody)
          fun c hc => by simpa using hrest c hc).1
      have hboth : body ++ rest = body' ++ rest' := by simpa using heq
      rw [← hspan hbody hrest, ← hspan hbody' hrest', hboth]
    | block => simp at heq
    | unclosed => simp at heq
  | block hbody =>
    cases h' with
    | line => simp at heq
    | block hbody' =>
      rw [commentEnd_append_inj hbody hbody' (by simpa using heq)]
    | unclosed hbody' =>
      obtain rfl := by simpa using heq
      exact absurd (hends _ _) hbody'
  | unclosed hbody =>
    cases h' with
    | line => simp at heq
    | block hbody' =>
      obtain rfl := by simpa using heq
      exact absurd (hends _ _) hbody
    | unclosed => simpa using heq

end Ends

/-! ### Every text falls apart into stretches -/

theorem exists_readsAs (cs : List Char) : ∃ stretches, ReadsAs cs stretches := by
  induction hn : cs.length using Nat.strongRecOn generalizing cs with
  | _ n ih =>
    cases cs with
    | nil => exact ⟨[], .nil⟩
    | cons c cs =>
      by_cases hquote : c = doubleQuote
      · obtain ⟨text, rest, heq, htext⟩ := exists_isLiteral cs
        obtain ⟨body, rfl⟩ := htext.exists_cons
        rw [hquote, heq] at hn ⊢
        obtain ⟨stretches, hrest⟩ := ih rest.length (by simp at hn; omega) rest rfl
        exact ⟨_, .literal htext hrest⟩
      by_cases hopens : OpensComment (c :: cs)
      · obtain ⟨text, rest, heq, htext⟩ := exists_isComment hopens
        obtain ⟨d, body, rfl, -⟩ := htext.exists_cons
        rw [heq] at hn ⊢
        obtain ⟨stretches, hrest⟩ := ih rest.length (by simp at hn; omega) rest rfl
        exact ⟨_, .comment htext hrest⟩
      · obtain ⟨stretches, hrest⟩ := ih cs.length (by simp at hn; omega) cs rfl
        exact ⟨_, .plain hquote hopens hrest⟩

section Readings
variable {cs : List Char} {stretches : List Stretch}

theorem IsLiteral.not_opensComment {text rest more : List Char} (h : IsLiteral text rest) :
    ¬ OpensComment (text ++ more) := by
  obtain ⟨body, rfl⟩ := h.exists_cons
  rw [List.cons_append, opensComment_cons_iff]
  exact fun h => absurd h.1 (by decide)

/-- A text falls apart in one way only. -/
theorem ReadsAs.unique {other : List Stretch} (h : ReadsAs cs stretches) (h' : ReadsAs cs other) :
    stretches = other := by
  induction h generalizing other with
  | nil =>
    generalize hcs : ([] : List Char) = cs at h'
    cases h' with
    | nil => rfl
    | plain => simp at hcs
    | literal htext =>
      obtain ⟨body, rfl⟩ := htext.exists_cons
      simp at hcs
    | comment htext =>
      obtain ⟨d, body, rfl, -⟩ := htext.exists_cons
      simp at hcs
  | @plain c cs _ hquote hopens hcs ih =>
    generalize hall : c :: cs = all at h'
    cases h' with
    | nil => simp at hall
    | plain _ _ hrest =>
      obtain ⟨rfl, rfl⟩ := List.cons.inj hall
      rw [ih hrest]
    | literal htext =>
      obtain ⟨body, rfl⟩ := htext.exists_cons
      exact absurd (List.cons.inj hall).1 hquote
    | comment htext => exact absurd (hall ▸ htext.opensComment) hopens
  | @literal text cs _ htext hcs ih =>
    generalize hall : text ++ cs = all at h'
    cases h' with
    | nil =>
      obtain ⟨body, rfl⟩ := htext.exists_cons
      simp at hall
    | plain hquote =>
      obtain ⟨body, rfl⟩ := htext.exists_cons
      exact absurd (List.cons.inj hall).1.symm hquote
    | literal htext' hrest =>
      obtain rfl := htext.unique htext' hall
      rw [ih (List.append_cancel_left hall ▸ hrest)]
    | comment htext' =>
      exact absurd (hall ▸ htext'.opensComment) htext.not_opensComment
  | @comment text cs _ htext hcs ih =>
    generalize hall : text ++ cs = all at h'
    cases h' with
    | nil =>
      obtain ⟨d, body, rfl, -⟩ := htext.exists_cons
      simp at hall
    | plain _ hopens => exact absurd (hall ▸ htext.opensComment) hopens
    | literal htext' =>
      exact absurd (hall ▸ htext.opensComment) htext'.not_opensComment
    | comment htext' hrest =>
      obtain rfl := htext.unique htext' hall
      rw [ih (List.append_cancel_left hall ▸ hrest)]

theorem ReadsAs.flatMap_text (h : ReadsAs cs stretches) : stretches.flatMap Stretch.text = cs := by
  induction h with
  | nil => rfl
  | plain _ _ _ ih => simp [Stretch.text, ih]
  | literal _ _ ih => simp [Stretch.text, ih]
  | comment _ _ ih => simp [Stretch.text, ih]

/-- Somewhere outside literals a comment is opened exactly if there is a comment. -/
theorem ReadsAs.hasOpener_iff (h : ReadsAs cs stretches) :
    HasOpener cs ↔ ∃ stretch ∈ stretches, stretch.isComment = true := by
  induction h with
  | nil =>
    refine iff_of_false ?_ (by simp)
    rintro ⟨front, back, heq, -, hback⟩
    obtain ⟨rfl, rfl⟩ := List.append_eq_nil_iff.mp heq.symm
    exact absurd hback (by decide)
  | @plain c cs _ hquote hopens _ ih =>
    rw [List.exists_mem_cons_iff, ← ih]
    constructor
    · rintro ⟨front, back, heq, hfront, hback⟩
      cases hfront with
      | nil => exact absurd (heq ▸ hback) hopens
      | plain _ hfront => exact .inr ⟨_, back, (List.cons.inj heq).2, hfront, hback⟩
      | literal => exact absurd (List.cons.inj heq).1 hquote
    · rintro (hc | ⟨front, back, rfl, hfront, hback⟩)
      · cases hc
      · exact ⟨c :: front, back, rfl, .plain hquote hfront, hback⟩
  | @literal text cs _ htext _ ih =>
    rw [List.exists_mem_cons_iff, ← ih]
    constructor
    · rintro ⟨front, back, heq, hfront, hback⟩
      right
      cases hfront with
      | nil =>
        rw [show back = text ++ cs from heq.symm] at hback
        exact absurd hback htext.not_opensComment
      | plain hquote =>
        obtain ⟨body, rfl⟩ := htext.exists_cons
        exact absurd (List.cons.inj heq).1.symm hquote
      | @literal body front hbody hfront =>
        have hclosed : IsLiteral (doubleQuote :: (body ++ [doubleQuote])) (front ++ back) :=
          .closed hbody
        have heq : text ++ cs = doubleQuote :: (body ++ [doubleQuote]) ++ (front ++ back) := by
          simpa using heq
        obtain rfl := htext.unique hclosed heq
        exact ⟨front, back, List.append_cancel_left heq, hfront, hback⟩
    · rintro (hc | ⟨front, back, rfl, hfront, hback⟩)
      · cases hc
      · have hback' : back ≠ [] := by
          rintro rfl
          exact absurd hback (by decide)
        obtain ⟨body, hbody, rfl⟩ := htext.eq_closed (by simp [hback'])
        exact ⟨_, back, by simp, .literal hbody hfront, hback⟩
  | comment htext _ _ =>
    exact iff_of_true ⟨[], _, rfl, .nil, htext.opensComment⟩ ⟨_, List.mem_cons_self, rfl⟩

end Readings

/-! ### Removing comments -/

section Removal
variable {body rest cs : List Char} {stretches : List Stretch}

theorem removeFrom_nil (state : CommentState) : removeFrom state [] = [] := by
  cases state <;> rfl

theorem removeFrom_quote (cs : List Char) :
    removeFrom .outside (doubleQuote :: cs) = doubleQuote :: removeFrom .inString cs := by
  cases cs <;> rfl

theorem removeFrom_closingQuote (cs : List Char) :
    removeFrom .inString (doubleQuote :: cs) = doubleQuote :: removeFrom .outside cs := by
  cases cs <;> rfl

theorem removeFrom_escape (c : Char) (cs : List Char) :
    removeFrom .inString (backslash :: c :: cs) = backslash :: c :: removeFrom .inString cs := rfl

theorem removeFrom_lineOpener (cs : List Char) :
    removeFrom .outside ('/' :: '/' :: cs) = removeFrom .inLine cs := rfl

theorem removeFrom_blockOpener (cs : List Char) :
    removeFrom .outside ('/' :: '*' :: cs) = removeFrom .inBlock cs := rfl

theorem removeFrom_lineFeed (cs : List Char) :
    removeFrom .inLine ('\n' :: cs) = '\n' :: removeFrom .outside cs := by
  cases cs <;> rfl

theorem removeFrom_blockEnd (cs : List Char) :
    removeFrom .inBlock ('*' :: '/' :: cs) = removeFrom .outside cs := rfl

theorem removeFrom_plain {c : Char} (hquote : c ≠ doubleQuote)
    (hopens : ¬ OpensComment (c :: cs)) :
    removeFrom .outside (c :: cs) = c :: removeFrom .outside cs := by
  rw [opensComment_cons_iff] at hopens
  cases cs with
  | nil => rfl
  | cons d ds =>
    have hline : ¬ (c = '/' ∧ d = '/') := fun h => hopens ⟨h.1, .inl (congrArg some h.2)⟩
    have hblock : ¬ (c = '/' ∧ d = '*') := fun h => hopens ⟨h.1, .inr (congrArg some h.2)⟩
    rw [removeFrom, if_neg hquote, if_neg hline, if_neg hblock]

/-- In a literal everything is kept up to the quote that closes it. -/
theorem removeFrom_quotable (h : IsQuotable body) (rest : List Char) :
    removeFrom .inString (body ++ rest) = body ++ removeFrom .inString rest := by
  induction h with
  | nil => rfl
  | @plain c cs hquote hback _ ih =>
    rw [List.cons_append, List.cons_append, ← ih]
    cases cs ++ rest with
    | nil => rfl
    | cons d ds => rw [removeFrom, if_neg hquote, if_neg hback]
  | escape _ ih =>
    rw [List.cons_append, List.cons_append, removeFrom_escape, ih]
    rfl

theorem removeFrom_literal {text : List Char} (h : IsLiteral text rest) :
    removeFrom .outside (text ++ rest) = text ++ removeFrom .outside rest := by
  cases h with
  | closed hbody =>
    rw [List.cons_append, List.append_assoc, removeFrom_quote, removeFrom_quotable hbody,
      List.singleton_append, removeFrom_closingQuote]
    simp
  | unclosed hbody =>
    have hkept := removeFrom_quotable hbody []
    simp only [List.append_nil, removeFrom_nil] at hkept ⊢
    rw [removeFrom_quote, hkept]
  | unescaped hbody =>
    have hkept := removeFrom_quotable hbody [backslash]
    simp only [List.append_nil, removeFrom_nil] at hkept ⊢
    rw [removeFrom_quote, hkept]
    rfl

/-- A character of a line comment. -/
theorem removeFrom_inLine_cons {c : Char} (h : c ≠ '\n') (cs : List Char) :
    removeFrom .inLine (c :: cs) = removeFrom .inLine cs := by
  cases cs <;> exact if_neg h

theorem removeFrom_inLine (hbody : '\n' ∉ body) (hrest : ∀ c ∈ rest.head?, c = '\n') :
    removeFrom .inLine (body ++ rest) = removeFrom .outside rest := by
  induction body with
  | nil =>
    cases rest with
    | nil => rfl
    | cons c rest =>
      obtain rfl := hrest c rfl
      have hplain : ¬ OpensComment ('\n' :: rest) := by simp [opensComment_cons_iff]
      rw [List.nil_append, removeFrom_plain (by decide) hplain, removeFrom_lineFeed]
  | cons c body ih =>
    rw [List.mem_cons, not_or] at hbody
    rw [List.cons_append, removeFrom_inLine_cons (Ne.symm hbody.1), ih hbody.2]

/-- A character of a block comment, if it is not the star of its end. -/
theorem removeFrom_inBlock_cons {c : Char} (h : ¬ (c = '*' ∧ cs.head? = some '/')) :
    removeFrom .inBlock (c :: cs) = removeFrom .inBlock cs := by
  cases cs with
  | nil => rfl
  | cons d ds => exact if_neg (by simpa using h)

theorem removeFrom_inBlock (hbody : ¬ ['*', '/'] <:+: body) (hrest : rest.head? ≠ some '/') :
    removeFrom .inBlock (body ++ rest) = removeFrom .inBlock rest := by
  induction body with
  | nil => rfl
  | cons c body ih =>
    rw [commentEnd_infix_cons_iff, not_or] at hbody
    rw [List.cons_append, removeFrom_inBlock_cons, ih hbody.2]
    rintro ⟨rfl, hhead⟩
    cases body with
    | nil => exact hrest hhead
    | cons d body => exact hbody.1 ⟨rfl, hhead⟩

theorem removeFrom_comment {text : List Char} (h : IsComment text rest) :
    removeFrom .outside (text ++ rest) = removeFrom .outside rest := by
  cases h with
  | line hbody hrest =>
    rw [List.cons_append, List.cons_append, removeFrom_lineOpener, removeFrom_inLine hbody hrest]
  | block hbody =>
    rw [List.cons_append, List.cons_append, removeFrom_blockOpener, List.append_assoc,
      removeFrom_inBlock hbody (by simp), List.cons_append, List.singleton_append,
      removeFrom_blockEnd]
  | unclosed hbody =>
    rw [List.cons_append, List.cons_append, removeFrom_blockOpener,
      removeFrom_inBlock hbody (by simp), removeFrom_nil, removeFrom_nil]

/-- What is left of a text: its stretches but the comments. -/
theorem ReadsAs.removeComments_eq (h : ReadsAs cs stretches) :
    removeComments cs = stretches.flatMap Stretch.kept := by
  unfold removeComments
  induction h with
  | nil => rfl
  | plain hquote hopens _ ih =>
    rw [removeFrom_plain hquote hopens, ih]
    rfl
  | literal htext _ ih =>
    rw [removeFrom_literal htext, ih]
    rfl
  | comment htext _ ih =>
    rw [removeFrom_comment htext, ih]
    rfl

/-- What is kept of a text starts as the text does, if that is not with a slash. -/
theorem ReadsAs.head?_kept (h : ReadsAs cs stretches) (hslash : cs.head? ≠ some '/') :
    (stretches.flatMap Stretch.kept).head? = cs.head? := by
  cases h with
  | nil => rfl
  | plain => rfl
  | literal htext =>
    obtain ⟨body, rfl⟩ := htext.exists_cons
    rfl
  | comment htext =>
    obtain ⟨d, body, rfl, -⟩ := htext.exists_cons
    exact absurd rfl hslash

/-- What is kept of a text reads as what is kept of its stretches. -/
theorem ReadsAs.keep (h : ReadsAs cs stretches) :
    ReadsAs (stretches.flatMap Stretch.kept)
      (stretches.filter fun stretch => !stretch.isComment) := by
  induction h with
  | nil => exact .nil
  | @plain c cs stretches hquote hopens hcs ih =>
    have hopens' : ¬ OpensComment (c :: stretches.flatMap Stretch.kept) := by
      rw [opensComment_cons_iff] at hopens ⊢
      rintro ⟨rfl, hkept⟩
      -- behind a slash stands no slash, so what is kept next stands right behind it
      rw [hcs.head?_kept fun hslash => hopens ⟨rfl, .inl hslash⟩] at hkept
      exact hopens ⟨rfl, hkept⟩
    exact .plain hquote hopens' ih
  | literal htext hcs ih =>
    refine .literal (htext.of_nil_imp ?_) ih
    rintro rfl
    obtain rfl := ReadsAs.unique .nil hcs
    rfl
  | comment _ _ ih => exact ih

theorem flatMap_kept (stretches : List Stretch) :
    stretches.flatMap Stretch.kept =
      (stretches.filter fun stretch => !stretch.isComment).flatMap Stretch.text := by
  induction stretches with
  | nil => rfl
  | cons stretch stretches ih => cases stretch <;> simp [Stretch.kept, Stretch.isComment, ih]

theorem ReadsAs.length_kept_le (h : ReadsAs cs stretches) :
    (stretches.flatMap Stretch.kept).length ≤ cs.length := by
  induction h with
  | nil => exact Nat.le_refl 0
  | plain _ _ _ ih => simpa [Stretch.kept, Stretch.text] using ih
  | literal _ _ ih => simpa [Stretch.kept, Stretch.text] using ih
  | comment _ _ ih => exact Nat.le_trans ih (by simp)

/-- Only a text without comments is kept as a whole. -/
theorem ReadsAs.removeComments_eq_self_iff (h : ReadsAs cs stretches) :
    removeComments cs = cs ↔ ¬ ∃ stretch ∈ stretches, stretch.isComment = true := by
  rw [h.removeComments_eq]
  induction h with
  | nil => simp
  | plain _ _ _ ih => simpa [Stretch.kept, Stretch.text, Stretch.isComment] using ih
  | literal _ _ ih => simpa [Stretch.kept, Stretch.text, Stretch.isComment] using ih
  | comment htext hcs _ =>
    refine iff_of_false (fun heq => ?_) fun hnone => hnone ⟨_, List.mem_cons_self, rfl⟩
    obtain ⟨d, body, rfl, -⟩ := htext.exists_cons
    have hlength := congrArg List.length heq
    have hkept := hcs.length_kept_le
    simp only [List.flatMap_cons, Stretch.kept, List.nil_append, List.length_append,
      List.length_cons] at hlength
    omega

end Removal

/-- **Exactly the comments go.**  A text falls apart in one way into literals, comments and
characters that belong to neither, and what is left of it is that without the comments.  A text
stays as it is exactly if no comment is opened outside its literals; this holds of what is left,
so removing comments once more changes nothing. -/
theorem comments_removed (cs : List Char) :
    ∃ stretches, (∀ other, ReadsAs cs other ↔ other = stretches) ∧
      stretches.flatMap Stretch.text = cs ∧
      removeComments cs =
        (stretches.filter fun stretch => !stretch.isComment).flatMap Stretch.text ∧
      (removeComments cs = cs ↔ ¬ HasOpener cs) ∧
      ¬ HasOpener (removeComments cs) ∧
      removeComments (removeComments cs) = removeComments cs := by
  obtain ⟨stretches, h⟩ := exists_readsAs cs
  have hkept : ReadsAs (removeComments cs) _ := h.removeComments_eq ▸ h.keep
  have hnone : ¬ HasOpener (removeComments cs) := by
    rw [hkept.hasOpener_iff]
    simp
  refine ⟨stretches, fun other => ⟨fun h' => h'.unique h, fun h' => h' ▸ h⟩, h.flatMap_text, ?_,
    ?_, hnone, ?_⟩
  · rw [h.removeComments_eq, flatMap_kept]
  · rw [h.removeComments_eq_self_iff, h.hasOpener_iff]
  · rwa [hkept.removeComments_eq_self_iff, ← hkept.hasOpener_iff]

end SheetLint.Config
