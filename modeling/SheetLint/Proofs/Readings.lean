import Mathlib.Data.List.Nodup
import SheetLint.Proofs.Matching
import SheetLint.Token.Grammar

/-! # Every text has one reading

No text is described by two patterns of the token grammar (`rule_unique`).  What a text can be
is told by its first two characters and its last one: `reading` looks at nothing else, and
every word of a pattern of the grammar is read as what the pattern stands for (`reading_eq`).
-/
namespace SheetLint
open Pattern TokenGrammar

/-! ### Characters -/

section Characters
variable {c : Char}

/-- Whether a name may start with the character. -/
def startsName (c : Char) : Bool :=
  (SymbolSet.within [('a', 'z'), ('A', 'Z'), ('_', '_')]).contains c

/-- Whether the character is a digit. -/
def isNumeral (c : Char) : Bool := (SymbolSet.within [('0', '9')]).contains c

theorem isNumeral_iff : isNumeral c = true ↔ '0' ≤ c ∧ c ≤ '9' := by
  simp [isNumeral, SymbolSet.within, SymbolSet.contains]

theorem startsName_iff :
    startsName c = true ↔
      ('a' ≤ c ∧ c ≤ 'z') ∨ ('A' ≤ c ∧ c ≤ 'Z') ∨ ('_' ≤ c ∧ c ≤ '_') := by
  simp [startsName, SymbolSet.within, SymbolSet.contains]

theorem startsName_of_isNumeral (h : isNumeral c = true) : startsName c = false := by
  obtain ⟨-, hle⟩ := isNumeral_iff.mp h
  rw [Bool.eq_false_iff, ne_eq, startsName_iff]
  rintro (⟨h, -⟩ | ⟨h, -⟩ | ⟨h, -⟩)
  all_goals exact absurd (Char.le_trans h hle) (by decide)

theorem contains_among_iff {cs : List Char} :
    (SymbolSet.among cs).contains c = true ↔ c ∈ cs := by
  have hsame (a : Char) : a ≤ c ∧ c ≤ a ↔ a = c := by
    constructor
    · rintro ⟨h, h'⟩
      exact Char.le_antisymm h h'
    · rintro rfl
      exact ⟨Char.le_refl _, Char.le_refl _⟩
  simp [SymbolSet.among, SymbolSet.within, SymbolSet.contains, hsame]

theorem contains_except_iff {cs : List Char} :
    (SymbolSet.except cs).contains c = true ↔ c ∉ cs := by
  rw [← contains_among_iff]
  simp [SymbolSet.except, SymbolSet.outside, SymbolSet.among, SymbolSet.within,
    SymbolSet.contains]

end Characters

/-! ### The reading of a text -/

/-- The characters that are tokens by themselves. -/
def punctuation : List (Char × TokenKind) :=
  [('{', .leftBrace), ('}', .rightBrace), ('(', .leftParen), (')', .rightParen),
   ('[', .leftBracket), (']', .rightBracket), (':', .colon), (';', .semicolon), (',', .comma),
   ('!', .bang), ('/', .slash), ('>', .greater), ('+', .plus), ('~', .tilde), ('*', .star),
   ('.', .dot), ('=', .equals)]

/-- The characters that tell by themselves what a longer text can be. -/
def marks : List (Char × Option TokenKind) :=
  (blanks.map fun c => (c, none)) ++
    [('/', none), ('@', some .atKeyword), ('#', some .hash), (doubleQuote, some .string),
     (singleQuote, some .string)]

/-- What a text that starts like a name can be, told by its last character. -/
def nameReading (w : List Char) : TokenKind :=
  if w.getLast? = some '(' then .function
  else if w.getLast? = some ')' then .url
  else .ident

/-- What a text can be if some pattern describes it; `none` stands for what is skipped. -/
def reading : List Char → Option TokenKind
  | [] => none
  | [c] =>
    match punctuation.lookup c with
    | some kind => some kind
    | none =>
      if isNumeral c then some .number
      else if startsName c then some .ident
      else none
  | c :: d :: w =>
    match marks.lookup c with
    | some kind => kind
    | none =>
      if startsName c || (c == '-' && (d == '-' || startsName d)) then
        some (nameReading (c :: d :: w))
      else some .number

/-- A character is not found in a table if it has a property that no key has. -/
theorem lookup_eq_none {α : Type} {table : List (Char × α)} {p : Char → Bool}
    (htable : ∀ entry ∈ table, p entry.1 = false) {c : Char} (hc : p c = true) :
    table.lookup c = none := by
  rw [List.lookup_eq_none_iff]
  intro entry hentry
  rw [bne_iff_ne]
  rintro rfl
  rw [htable entry hentry] at hc
  cases hc

section Readings
variable {c d : Char} {w : List Char}

/-- What begins with a mark is read by it. -/
theorem reading_mark {kind : Option TokenKind} (hmark : marks.lookup c = some kind)
    (hw : w ≠ []) : reading (c :: w) = kind := by
  cases w with
  | nil => exact absurd rfl hw
  | cons d w => simp [reading, hmark]

theorem reading_numeral (h : isNumeral c = true) : reading (c :: w) = some .number := by
  cases w with
  | nil =>
    have hnone : punctuation.lookup c = none := lookup_eq_none (by decide) h
    simp [reading, hnone, h]
  | cons d w =>
    have hnone : marks.lookup c = none := lookup_eq_none (by decide) h
    have hhyphen : (c == '-') = false := by
      rw [beq_eq_false_iff_ne]
      rintro rfl
      cases h
    simp [reading, hnone, startsName_of_isNumeral h, hhyphen]

theorem reading_startsName (h : startsName c = true) :
    reading (c :: d :: w) = some (nameReading (c :: d :: w)) := by
  have hnone : marks.lookup c = none := lookup_eq_none (by decide) h
  simp [reading, hnone, h]

theorem reading_hyphen (h : d = '-' ∨ startsName d = true) :
    reading ('-' :: d :: w) = some (nameReading ('-' :: d :: w)) := by
  have hnone : marks.lookup '-' = none := by decide
  rcases h with h | h <;> simp [reading, hnone, h]

end Readings

/-! ### The words of the patterns -/

section Words
variable {w : List Char}

theorem matches_symbol_iff {a : Char} : Matches (symbol a) w ↔ w = [a] := by
  rw [symbol, matches_oneOf_iff]
  simp only [contains_among_iff, List.mem_singleton]
  constructor
  · rintro ⟨b, rfl, rfl⟩
    rfl
  · rintro rfl
    exact ⟨a, rfl, rfl⟩

/-- All words of the pattern end with the character. -/
def EndsWith (p : Pattern Char) (c : Char) : Prop := ∀ w, Matches p w → w.getLast? = some c

theorem endsWith_symbol (c : Char) : EndsWith (symbol c) c := by
  intro w h
  rw [matches_symbol_iff.mp h]
  rfl

theorem EndsWith.seq {q : Pattern Char} {c : Char} (h : EndsWith q c) (p : Pattern Char) :
    EndsWith (seq p q) c := by
  intro w hw
  obtain ⟨u, v, -, hv, rfl⟩ := matches_seq_iff.mp hw
  rw [List.getLast?_append, h v hv]
  rfl

theorem mem_of_matches_many {s : SymbolSet Char} (h : Matches (many (oneOf s)) w) :
    ∀ c ∈ w, s.contains c = true := by
  induction w with
  | nil => exact fun c hc => absurd hc List.not_mem_nil
  | cons a w ih =>
    obtain ⟨u, v, hu, hv, rfl⟩ := matches_many_cons_iff.mp h
    obtain ⟨b, hb, heq⟩ := matches_oneOf_iff.mp hu
    obtain ⟨rfl, rfl⟩ := List.cons.inj heq
    exact List.forall_mem_cons.mpr ⟨hb, ih hv⟩

theorem matches_many_of_forall {s : SymbolSet Char} (h : ∀ c ∈ w, s.contains c = true) :
    Matches (many (oneOf s)) w := by
  induction w with
  | nil => exact .done
  | cons c w ih =>
    obtain ⟨hc, hw⟩ := List.forall_mem_cons.mp h
    exact .more (.oneOf hc) (ih hw)

theorem matches_name (h : Matches TokenGrammar.name w) :
    ∃ c more, w = c :: more ∧ startsName c = true ∧ ∀ d ∈ more, nameRest.contains d = true := by
  obtain ⟨u, v, hu, hv, rfl⟩ := matches_seq_iff.mp h
  obtain ⟨c, hc, rfl⟩ := matches_oneOf_iff.mp hu
  exact ⟨c, v, rfl, hc, mem_of_matches_many hv⟩

theorem matches_hyphen (h : Matches hyphen w) : w = ['-'] ∨ w = [] := by
  rcases matches_alt_iff.mp h with h | h
  · exact .inl (matches_symbol_iff.mp h)
  · exact .inr (matches_empty_iff.mp h)

/-- How an identifier starts. -/
theorem matches_ident_start (h : Matches TokenGrammar.ident w) :
    ∃ c more, w = c :: more ∧ (startsName c = true ∨
      c = '-' ∧ ∃ d behind, more = d :: behind ∧ (d = '-' ∨ startsName d = true)) := by
  obtain ⟨u, rest, hu, hrest, rfl⟩ := matches_seq_iff.mp h
  obtain ⟨v, n, hv, hn, rfl⟩ := matches_seq_iff.mp hrest
  obtain ⟨c, more, rfl, hc, -⟩ := matches_name hn
  rcases matches_hyphen hu with rfl | rfl <;> rcases matches_hyphen hv with rfl | rfl
  · exact ⟨'-', _, rfl, .inr ⟨rfl, '-', _, rfl, .inl rfl⟩⟩
  · exact ⟨'-', _, rfl, .inr ⟨rfl, c, _, rfl, .inr hc⟩⟩
  · exact ⟨'-', _, rfl, .inr ⟨rfl, c, _, rfl, .inr hc⟩⟩
  · exact ⟨c, _, rfl, .inl hc⟩

/-- A name ends with no parenthesis. -/
theorem nameReading_name (h : Matches TokenGrammar.name w) (front : List Char) :
    nameReading (front ++ w) = .ident := by
  obtain ⟨c, more, rfl, hc, hmore⟩ := matches_name h
  obtain ⟨last, hlast⟩ : ∃ last, (c :: more).getLast? = some last :=
    ⟨_, List.getLast?_eq_some_getLast (List.cons_ne_nil c more)⟩
  have hinside : startsName last = true ∨ nameRest.contains last = true := by
    rcases List.mem_cons.mp (List.mem_of_getLast? hlast) with rfl | hmem
    · exact .inl hc
    · exact .inr (hmore last hmem)
  have hparens : last ≠ '(' ∧ last ≠ ')' := by
    constructor
    · rintro rfl
      revert hinside
      decide
    · rintro rfl
      revert hinside
      decide
  have hend : (front ++ c :: more).getLast? = some last := by
    rw [List.getLast?_append, hlast]
    rfl
  simp [nameReading, hend, hparens]

/-- What starts with an identifier is read by its last character, if it has more than one. -/
theorem reading_behind_ident {u v : List Char} (h : Matches TokenGrammar.ident u) {c d : Char}
    (hw : u ++ v = c :: d :: w) :
    reading (c :: d :: w) = some (nameReading (c :: d :: w)) := by
  obtain ⟨c', more, rfl, hc⟩ := matches_ident_start h
  obtain ⟨rfl, hmore⟩ := List.cons.inj hw
  rcases hc with hc | ⟨rfl, d', behind, rfl, hd⟩
  · exact reading_startsName hc
  · obtain ⟨rfl, -⟩ := List.cons.inj hmore
    exact reading_hyphen hd

theorem reading_ident (h : Matches TokenGrammar.ident w) :
    reading w = some .ident := by
  have hname : nameReading w = .ident := by
    obtain ⟨u, rest, -, hrest, rfl⟩ := matches_seq_iff.mp h
    obtain ⟨v, n, -, hn, rfl⟩ := matches_seq_iff.mp hrest
    rw [← List.append_assoc]
    exact nameReading_name hn (u ++ v)
  obtain ⟨c, more, rfl, hc⟩ := matches_ident_start h
  cases more with
  | nil =>
    rcases hc with hc | ⟨-, d, behind, hnil, -⟩
    · have hnone : punctuation.lookup c = none := lookup_eq_none (by decide) hc
      have hnumeral : isNumeral c = false := by
        by_contra hnumeral
        rw [startsName_of_isNumeral (by simpa using hnumeral)] at hc
        cases hc
      simp [reading, hnone, hnumeral, hc]
    · cases hnil
  | cons d more => rw [reading_behind_ident h (List.append_nil _), hname]

theorem reading_function (h : Matches (seq TokenGrammar.ident (symbol '(')) w) :
    reading w = some .function := by
  have hlast := (endsWith_symbol '(').seq TokenGrammar.ident w h
  obtain ⟨u, v, hu, hv, rfl⟩ := matches_seq_iff.mp h
  obtain rfl := matches_symbol_iff.mp hv
  obtain ⟨c, more, rfl, -⟩ := matches_ident_start hu
  obtain ⟨d, behind, hsplit⟩ : ∃ d behind, more ++ ['('] = d :: behind :=
    List.exists_cons_of_ne_nil (by simp)
  rw [List.cons_append, hsplit] at hlast ⊢
  rw [reading_behind_ident hu (v := ['(']) (by rw [List.cons_append, hsplit])]
  simp [nameReading, hlast]

theorem reading_url (h : Matches TokenGrammar.url w) :
    reading w = some .url := by
  have hlast : w.getLast? = some ')' :=
    (((((((endsWith_symbol ')').seq _).seq _).seq _).seq _).seq _).seq _).seq _ w h
  obtain ⟨u, rest, hu, hrest, rfl⟩ := matches_seq_iff.mp h
  obtain ⟨v, rest, hv, -, rfl⟩ := matches_seq_iff.mp hrest
  obtain ⟨c, hc, rfl⟩ := matches_oneOf_iff.mp hu
  obtain ⟨d, -, rfl⟩ := matches_oneOf_iff.mp hv
  have hstarts : startsName c = true := by
    rcases List.mem_pair.mp (contains_among_iff.mp hc) with rfl | rfl <;> decide
  rw [List.singleton_append, List.singleton_append] at hlast ⊢
  rw [reading_startsName hstarts]
  simp [nameReading, hlast]

theorem matches_digits (h : Matches digits w) :
    ∃ d more, w = d :: more ∧ isNumeral d = true := by
  obtain ⟨u, v, hu, -, rfl⟩ := matches_seq_iff.mp h
  obtain ⟨d, hd, rfl⟩ := matches_oneOf_iff.mp hu
  exact ⟨d, v, rfl, hd⟩

theorem reading_number (h : Matches TokenGrammar.number w) :
    reading w = some .number := by
  obtain ⟨sign, rest, hsign, hrest, rfl⟩ := matches_seq_iff.mp h
  obtain ⟨body, unit, hbody, -, rfl⟩ := matches_seq_iff.mp hrest
  -- behind its sign, a number starts with a digit, or with a dot and a digit
  have hstart : ∃ c more, body ++ unit = c :: more ∧
      (isNumeral c = true ∨ c = '.' ∧ ∃ d behind, more = d :: behind) := by
    rcases matches_alt_iff.mp hbody with hbody | hbody
    · obtain ⟨u, v, hu, -, rfl⟩ := matches_seq_iff.mp hbody
      obtain ⟨c, more, rfl, hc⟩ := matches_digits hu
      exact ⟨c, _, rfl, .inl hc⟩
    · obtain ⟨u, v, hu, hv, rfl⟩ := matches_seq_iff.mp hbody
      obtain rfl := matches_symbol_iff.mp hu
      obtain ⟨d, more, rfl, -⟩ := matches_digits hv
      exact ⟨'.', _, rfl, .inr ⟨rfl, d, _, rfl⟩⟩
  obtain ⟨c, more, heq, hc⟩ := hstart
  rw [heq]
  rcases matches_alt_iff.mp hsign with hsign | hsign
  · obtain ⟨s, hs, rfl⟩ := matches_oneOf_iff.mp hsign
    rw [contains_among_iff] at hs
    have hnot : startsName c = false ∧ c ≠ '-' := by
      rcases hc with hc | ⟨rfl, -⟩
      · refine ⟨startsName_of_isNumeral hc, ?_⟩
        rintro rfl
        cases hc
      · decide
    change reading (s :: c :: more) = _
    rcases List.mem_pair.mp hs with rfl | rfl
    · rfl
    · have hnone : marks.lookup '-' = none := by decide
      have hhyphen : startsName '-' = false := by decide
      simp [reading, hnone, hhyphen, hnot.1, hnot.2]
  · obtain rfl := matches_empty_iff.mp hsign
    rw [List.nil_append]
    rcases hc with hc | ⟨rfl, d, behind, rfl⟩
    · exact reading_numeral hc
    · rfl

theorem reading_skipped (h : Matches skipped w) : reading w = none := by
  rcases matches_alt_iff.mp h with h | h
  · obtain ⟨u, v, hu, -, rfl⟩ := matches_seq_iff.mp h
    obtain ⟨c, hc, rfl⟩ := matches_oneOf_iff.mp hu
    obtain ⟨hsingle, hmark⟩ : reading [c] = none ∧ marks.lookup c = some none := by
      have hblank := contains_among_iff.mp hc
      simp only [blanks, List.mem_cons, List.not_mem_nil, or_false] at hblank
      rcases hblank with rfl | rfl | rfl | rfl | rfl <;> decide
    cases v with
    | nil => exact hsingle
    | cons d v => exact reading_mark hmark (List.cons_ne_nil d v)
  · obtain ⟨u, v, hu, -, rfl⟩ := matches_seq_iff.mp h
    obtain ⟨slash, star, hslash, hstar, rfl⟩ := matches_seq_iff.mp hu
    obtain rfl := matches_symbol_iff.mp hslash
    obtain rfl := matches_symbol_iff.mp hstar
    rfl

theorem reading_atKeyword
    (h : Matches (seq (symbol '@') (seq hyphen TokenGrammar.name)) w) :
    reading w = some .atKeyword := by
  obtain ⟨u, rest, hu, hrest, rfl⟩ := matches_seq_iff.mp h
  obtain rfl := matches_symbol_iff.mp hu
  obtain ⟨v, n, -, hn, rfl⟩ := matches_seq_iff.mp hrest
  obtain ⟨c, more, rfl, -⟩ := matches_name hn
  exact reading_mark (by decide) (by simp)

theorem reading_hash
    (h : Matches (seq (symbol '#') (atLeastOne (oneOf nameRest))) w) :
    reading w = some .hash := by
  obtain ⟨u, rest, hu, hrest, rfl⟩ := matches_seq_iff.mp h
  obtain rfl := matches_symbol_iff.mp hu
  obtain ⟨v, more, hv, -, rfl⟩ := matches_seq_iff.mp hrest
  obtain ⟨c, -, rfl⟩ := matches_oneOf_iff.mp hv
  exact reading_mark (by decide) (by simp)

theorem reading_quoted {quote : Char} (hquote : marks.lookup quote = some (some .string))
    (h : Matches (quoted quote) w) : reading w = some .string := by
  obtain ⟨u, rest, hu, hrest, rfl⟩ := matches_seq_iff.mp h
  obtain rfl := matches_symbol_iff.mp hu
  obtain ⟨v, close, -, hclose, rfl⟩ := matches_seq_iff.mp hrest
  obtain rfl := matches_symbol_iff.mp hclose
  exact reading_mark hquote (by simp)

theorem reading_string
    (h : Matches (alt (quoted doubleQuote) (quoted singleQuote)) w) :
    reading w = some .string := by
  rcases matches_alt_iff.mp h with h | h
  · exact reading_quoted (by decide) h
  · exact reading_quoted (by decide) h

end Words

/-! ### The grammar -/

/-- The grammar has a rule for each punctuation mark, and eight more. -/
theorem tokenGrammar_eq :
    tokenGrammar = (none, skipped) ::
      ((punctuation.map fun mark => (some mark.2, symbol mark.1)) ++
        [(some .atKeyword, seq (symbol '@') (seq hyphen TokenGrammar.name)),
         (some .url, TokenGrammar.url),
         (some .function, seq TokenGrammar.ident (symbol '(')),
         (some .ident, TokenGrammar.ident),
         (some .hash, seq (symbol '#') (atLeastOne (oneOf nameRest))),
         (some .number, TokenGrammar.number),
         (some .string, alt (quoted doubleQuote) (quoted singleQuote))]) := rfl

/-- The words of a pattern of the grammar are read as what it stands for. -/
theorem reading_eq {rule : Option TokenKind × Pattern Char} (hrule : rule ∈ tokenGrammar)
    {w : List Char} (h : Matches rule.2 w) : reading w = rule.1 := by
  rw [tokenGrammar_eq, List.mem_cons, List.mem_append, List.mem_map] at hrule
  rcases hrule with rfl | ⟨mark, hmark, rfl⟩ | hrule
  · exact reading_skipped h
  · have hmarks : ∀ mark ∈ punctuation, reading [mark.1] = some mark.2 := by decide
    rw [matches_symbol_iff.mp h]
    exact hmarks mark hmark
  · simp only [List.mem_cons, List.not_mem_nil, or_false] at hrule
    rcases hrule with rfl | rfl | rfl | rfl | rfl | rfl | rfl
    · exact reading_atKeyword h
    · exact reading_url h
    · exact reading_function h
    · exact reading_ident h
    · exact reading_hash h
    · exact reading_number h
    · exact reading_string h

/-- The rules of the grammar stand for different things. -/
theorem rule_eq_of_kind {rule rule' : Option TokenKind × Pattern Char}
    (hrule : rule ∈ tokenGrammar) (hrule' : rule' ∈ tokenGrammar) (h : rule.1 = rule'.1) :
    rule = rule' := by
  have hkinds : (tokenGrammar.map Prod.fst).Nodup := by decide
  exact List.inj_on_of_nodup_map hkinds hrule hrule' h

/-- A text that some pattern describes is described by the one it is read as. -/
theorem matches_of_reading {rule rule' : Option TokenKind × Pattern Char}
    (hrule : rule ∈ tokenGrammar) (hrule' : rule' ∈ tokenGrammar) {w : List Char}
    (h : Matches rule.2 w) (hreading : reading w = rule'.1) : Matches rule'.2 w := by
  rw [← rule_eq_of_kind hrule hrule' ((reading_eq hrule h).symm.trans hreading)]
  exact h

/-- **No text has two readings.**  Two rules of the grammar whose patterns describe one text
are the same rule. -/
theorem rule_unique {rule rule' : Option TokenKind × Pattern Char} (hrule : rule ∈ tokenGrammar)
    (hrule' : rule' ∈ tokenGrammar) {w : List Char} (h : Matches rule.2 w)
    (h' : Matches rule'.2 w) : rule = rule' :=
  rule_eq_of_kind hrule hrule' ((reading_eq hrule h).symm.trans (reading_eq hrule' h'))

end SheetLint
