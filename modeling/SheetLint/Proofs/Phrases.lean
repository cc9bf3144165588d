import SheetLint.Proofs.SheetGrammar

/-! # Items without faults

A reader has no fault where it finds what the grammar asks for, and there it leaves what
stands behind that: this is said of each reader by one equivalence (`Item.Yields`).  Together
they say that the items without faults are the phrases of the grammar (`Phrase.yields`,
`phrase_of_yields`).
-/
namespace SheetLint
open Text

/-- The item has no faults, opens the given block, and leaves the given tokens. -/
structure Item.Yields (item : Item) (opened : Option BlockKind) (rest : List Token) : Prop where
  faults_eq : item.faults = []
  opened_eq : item.opened = opened
  rest_eq : item.rest = rest

section Readers
variable {src : Source}

/-! ### Values -/

/-- A group is read up to where the grammar ends it. -/
theorem splitGroup_groupTail (depth : Nat) (ts : List Token) :
    GroupTail depth (splitGroup (depth + 1) ts).1 (splitGroup (depth + 1) ts).2 := by
  induction ts generalizing depth with
  | nil => exact .stopped (fun t ht => absurd ht List.not_mem_nil) (closesOpened_nil depth) nofun
  | cons t ts ih =>
    by_cases hstop : t.kind.stopsGroup = true
    · rw [splitGroup_stop hstop]
      exact .stopped (fun u hu => absurd hu List.not_mem_nil) (closesOpened_nil depth)
        (by simpa using hstop)
    have hinside : t.kind.stopsGroup = false := by simpa using hstop
    by_cases hclose : t.kind = .rightParen
    · cases depth with
      | zero =>
        have hsplit : splitGroup 1 (t :: ts) = ([t], ts) := by simp [splitGroup, hclose]
        rw [hsplit]
        exact @GroupTail.closed 0 [] ts t (fun u hu => absurd hu List.not_mem_nil)
          (closesOpened_nil 0) rfl hclose
      | succ depth =>
        have hsplit : splitGroup (depth + 2) (t :: ts) =
            consFirst t (splitGroup (depth + 1) ts) := by simp [splitGroup, hclose]
        rw [hsplit]
        exact (ih depth).cons hinside (by simp [hclose, TokenKind.opensGroup])
    by_cases hopen : t.kind.opensGroup = true
    · have hsplit : splitGroup (depth + 1) (t :: ts) =
          consFirst t (splitGroup (depth + 2) ts) := by
        rw [splitGroup]
        split <;> simp_all [TokenKind.opensGroup]
      rw [hsplit]
      exact (ih (depth + 1)).cons hinside (by simp [hclose, hopen])
    · have hsplit : splitGroup (depth + 1) (t :: ts) =
          consFirst t (splitGroup (depth + 1) ts) := by
        rw [splitGroup]
        split <;> simp_all [TokenKind.opensGroup, TokenKind.stopsGroup]
      rw [hsplit]
      exact (ih depth).cons hinside (by simp [hclose, hopen])

theorem GroupTail.splitGroup_eq {tail follow : List Token} (h : GroupTail 0 tail follow) :
    splitGroup 1 (tail ++ follow) = (tail, follow) := by
  obtain ⟨htail, hfollow⟩ := (splitGroup_groupTail 0 (tail ++ follow)).unique h
    (splitGroup_append 1 _)
  exact Prod.ext htail hfollow

/-- What is read without faults behind a colon is a value. -/
theorem readParts_isValue (scan : ValueScan) (ts : List Token)
    (hfaults : (readParts src scan ts).1.faults = []) :
    scan.faults = [] ∧ ∃ n used, ts = used ++ (readParts src scan ts).2 ∧
      IsValue src n used (readParts src scan ts).2 ∧
      (readParts src scan ts).1.parts.length = scan.parts.length + n ∧
      ∀ t ∈ (readParts src scan ts).2.head?, t.kind.endsHeader = true := by
  revert hfaults
  refine readParts_rec (P := fun scan ts out => out.1.faults = [] →
    scan.faults = [] ∧ ∃ n used, ts = used ++ out.2 ∧ IsValue src n used out.2 ∧
      out.1.parts.length = scan.parts.length + n ∧
      ∀ t ∈ out.2.head?, t.kind.endsHeader = true)
    ?nil ?stop ?important ?bang ?group ?single scan ts
  case nil =>
    intro scan hfaults
    exact ⟨hfaults, 0, [], rfl, .nil, rfl, by simp⟩
  case stop =>
    intro scan t ts hstop hfaults
    exact ⟨hfaults, 0, [], rfl, .nil, rfl, by simpa using hstop⟩
  case important =>
    intro scan t ts out hbang hword ih hfaults
    obtain ⟨hscan, n, used, hts, hvalue, hcount, hstop⟩ := ih hfaults
    obtain ⟨word, more, rfl, hident, hsame⟩ := exists_of_atImportant hword
    exact ⟨hscan, n, t :: word :: used, by simpa using hts,
      .important hbang hident hsame hvalue, hcount, hstop⟩
  case bang =>
    intro scan t ts out _ _ ih hfaults
    simpa [ValueScan.blame] using (ih hfaults).1
  case group =>
    intro scan t ts out hopen ih hfaults
    obtain ⟨hscan, n, used, hts, hvalue, hcount, hstop⟩ := ih hfaults
    refine ⟨hscan, n + 1, t :: ((splitGroup 1 ts).1 ++ used), ?_, ?_, ?_, hstop⟩
    · rw [List.cons_append, List.append_assoc, ← hts, splitGroup_append]
    · exact .group (TokenKind.opensGroup_iff.mp hopen) (hts ▸ splitGroup_groupTail 0 ts) hvalue
    · simp only [ValueScan.add, List.length_append, List.length_singleton] at hcount
      omega
  case single =>
    intro scan t ts out hplain hbang hgroup ih hfaults
    obtain ⟨hscan, n, used, hts, hvalue, hcount, hstop⟩ := ih hfaults
    refine ⟨hscan, n + 1, t :: used, congrArg (t :: ·) hts, ?_, ?_, hstop⟩
    · have hopen : ¬ (t.kind = .function ∨ t.kind = .leftParen) := by
        rw [← TokenKind.opensGroup_iff, hgroup]
        decide
      rw [not_or] at hopen
      exact .single hplain hbang hopen.1 hopen.2 hvalue
    · simp only [ValueScan.add, List.length_append, List.length_singleton] at hcount
      omega

/-- A value in front of a token that stops it is read without faults. -/
theorem IsValue.readParts_eq {n : Nat} {ts follow : List Token} (h : IsValue src n ts follow)
    (hstop : ∀ t ∈ follow.head?, t.kind.endsHeader = true) (scan : ValueScan) :
    ∃ out, readParts src scan (ts ++ follow) = (out, follow) ∧ out.faults = scan.faults ∧
      out.parts.length = scan.parts.length + n := by
  induction h generalizing scan with
  | @nil follow =>
    cases follow with
    | nil => exact ⟨scan, readParts_nil src scan, rfl, rfl⟩
    | cons t ts => exact ⟨scan, readParts_stop src scan ts (hstop t rfl), rfl, rfl⟩
  | important hbang hword hsame _ ih =>
    rw [List.cons_append, List.cons_append,
      readParts_important src scan _ hbang (atImportant_cons.mpr ⟨hword, hsame⟩)]
    exact ih hstop _
  | @group n opener tail ts follow hopener htail _ ih =>
    rw [List.cons_append, List.append_assoc,
      readParts_group src scan _ (TokenKind.opensGroup_iff.mpr hopener), htail.splitGroup_eq]
    obtain ⟨out, hread, hfaults, hcount⟩ := ih hstop (scan.add src opener tail)
    refine ⟨out, hread, hfaults, ?_⟩
    simp only [ValueScan.add, List.length_append, List.length_singleton] at hcount
    omega
  | @single n t ts follow hplain hbang hfunction hparen _ ih =>
    have hgroup : t.kind.opensGroup = false := by
      rw [Bool.eq_false_iff, ne_eq, TokenKind.opensGroup_iff, not_or]
      exact ⟨hfunction, hparen⟩
    rw [List.cons_append, readParts_single src scan _ hplain hbang hgroup]
    obtain ⟨out, hread, hfaults, hcount⟩ := ih hstop (scan.add src t [])
    refine ⟨out, hread, hfaults, ?_⟩
    simp only [ValueScan.add, List.length_append, List.length_singleton] at hcount
    omega

/-! ### Blocks, statements and declarations -/

section Yields
variable {opened : Option BlockKind} {ts rest : List Token} (position : Position)

theorem openBlock_yields_iff (kind : BlockKind) (header : String) :
    (openBlock src kind header position ts).Yields opened rest ↔
      opened = some kind ∧ ∃ brace, brace.kind = .leftBrace ∧ ts = brace :: rest := by
  constructor
  · rintro ⟨hfaults, hopened, hrest⟩
    cases ts with
    | nil => simp [openBlock, Source.endToken] at hfaults
    | cons brace ts =>
      by_cases hbrace : brace.kind = .leftBrace
      · simp only [openBlock, Source.peek_cons, hbrace, reduceIte, List.tail_cons] at hopened hrest
        exact ⟨hopened.symm, brace, hbrace, by rw [hrest]⟩
      · simp [openBlock, hbrace] at hfaults
  · rintro ⟨rfl, brace, hbrace, rfl⟩
    constructor <;> simp [openBlock, hbrace]

theorem readBlock_yields_iff (kind : BlockKind) :
    (readBlock src kind position ts).Yields opened rest ↔
      opened = some kind ∧ ∃ header brace, Plain header ∧ brace.kind = .leftBrace ∧
        ts = header ++ brace :: rest := by
  rw [readBlock, openBlock_yields_iff]
  refine and_congr_right fun _ => ?_
  constructor
  · rintro ⟨brace, hbrace, hafter⟩
    refine ⟨headerTokens ts, brace, plain_headerTokens ts, hbrace, ?_⟩
    rw [← hafter, headerTokens_append_afterHeader]
  · rintro ⟨header, brace, hheader, hbrace, rfl⟩
    exact ⟨brace, hbrace, (header_plain hheader (by rw [hbrace]; rfl) rest).2⟩

theorem importTarget?_eq_none_iff {t : Token} :
    src.importTarget? t = none ↔ ¬ (t.kind = .url ∨ t.kind = .string) := by
  rw [Source.importTarget?]
  split <;> simp_all

theorem readImport_yields_iff :
    (readImport src position ts).Yields opened rest ↔
      opened = none ∧ ∃ target media semicolon, (target.kind = .url ∨ target.kind = .string) ∧
        Plain media ∧ semicolon.kind = .semicolon ∧
        ts = target :: (media ++ semicolon :: rest) := by
  cases htarget : src.importTarget? (src.peek ts) with
  | none =>
    have hnone := importTarget?_eq_none_iff.mp htarget
    rw [readImport_noTarget position htarget]
    constructor
    · rintro ⟨hfaults, -, -⟩
      cases hfaults
    · rintro ⟨-, target, media, semicolon, hkind, -, -, rfl⟩
      exact absurd hkind hnone
  | some uri =>
    cases ts with
    | nil => simp [Source.importTarget?, Source.endToken] at htarget
    | cons target ts =>
      rw [Source.peek_cons] at htarget
      have hkind : target.kind = .url ∨ target.kind = .string := by
        by_contra hnone
        rw [importTarget?_eq_none_iff.mpr hnone] at htarget
        cases htarget
      rw [readImport_target position htarget]
      constructor
      · rintro ⟨hfaults, hopened, hrest⟩
        cases hafter : afterHeader ts with
        | nil => simp [hafter, Source.endToken] at hfaults
        | cons semicolon behind =>
          have hsemicolon : semicolon.kind = .semicolon := by
            by_contra hne
            simp [hafter, hne] at hfaults
          simp only [hafter, eatSemicolon, hsemicolon, reduceIte] at hrest
          refine ⟨hopened.symm, target, headerTokens ts, semicolon, hkind, plain_headerTokens ts,
            hsemicolon, ?_⟩
          rw [← hrest, ← hafter, headerTokens_append_afterHeader]
      · rintro ⟨rfl, target', media, semicolon, -, hmedia, hsemicolon, heq⟩
        obtain ⟨-, rfl⟩ := List.cons.inj heq
        have hends : semicolon.kind.endsHeader = true := by rw [hsemicolon]; rfl
        have hafter := (header_plain hmedia hends rest).2
        constructor <;> simp [hafter, hsemicolon, eatSemicolon]

/-- A declaration without faults, from its name on.  The `;` behind it is read with it. -/
theorem readNamed_yields_iff (starred : Bool) (name : Token) :
    (readNamed src starred position name ts).Yields opened rest ↔
      opened = none ∧ ∃ n colon value follow, colon.kind = .colon ∧
        IsValue src (n + 1) value follow ∧ ts = colon :: (value ++ follow) ∧
        (∀ t ∈ follow.head?, t.kind.endsHeader = true ∧ t.kind ≠ .leftBrace) ∧
        rest = eatSemicolon follow := by
  by_cases hcolon : (src.peek ts).kind = .colon
  case neg =>
    rw [readNamed_noColon starred position name hcolon]
    constructor
    · rintro ⟨hfaults, -, -⟩
      cases hfaults
    · rintro ⟨-, n, colon, value, follow, hkind, -, rfl, -, -⟩
      exact absurd hkind hcolon
  cases ts with
  | nil => simp [Source.endToken] at hcolon
  | cons colon ts =>
    rw [Source.peek_cons] at hcolon
    constructor
    · rintro ⟨hfaults, hopened, hrest⟩
      obtain ⟨scan, follow, hparts⟩ : ∃ scan follow, readParts src {} ts = (scan, follow) :=
        ⟨_, _, rfl⟩
      have hpeek : (src.peek follow).kind ≠ .leftBrace := by
        intro hbrace
        rw [readNamed_block starred position name hcolon hparts hbrace] at hfaults
        simp at hfaults
      have hvalue : scan.parts ≠ [] := by
        intro hempty
        rw [readNamed_empty starred position name hcolon hparts hpeek hempty] at hfaults
        simp at hfaults
      rw [readNamed_value starred position name hcolon hparts hpeek hvalue]
        at hfaults hopened hrest
      obtain ⟨-, n, value, hts, hisValue, hcount, hstop⟩ :=
        readParts_isValue {} ts (by rw [hparts]; exact hfaults)
      rw [hparts] at hts hisValue hcount hstop
      obtain ⟨n, rfl⟩ : ∃ m, n = m + 1 := by
        have := List.length_pos_iff.mpr hvalue
        exact ⟨n - 1, by simp at hcount; omega⟩
      refine ⟨hopened.symm, n, colon, value, follow, hcolon, hisValue, by rw [hts], ?_,
        hrest.symm⟩
      intro t ht
      refine ⟨hstop t ht, ?_⟩
      obtain ⟨more, rfl⟩ := List.head?_eq_some_iff.mp ht
      exact hpeek
    · rintro ⟨rfl, n, colon', value, follow, -, hvalue, heq, hfollow, rfl⟩
      obtain ⟨-, rfl⟩ := List.cons.inj heq
      obtain ⟨out, hparts, hfaults, hcount⟩ :=
        hvalue.readParts_eq (fun t ht => (hfollow t ht).1) {}
      have hpeek : (src.peek follow).kind ≠ .leftBrace := by
        cases follow with
        | nil => simp [Source.endToken]
        | cons t ts => exact (hfollow t rfl).2
      have hne : out.parts ≠ [] := by
        rintro hempty
        simp [hempty] at hcount
      rw [readNamed_value starred position name hcolon hparts hpeek hne]
      exact ⟨hfaults, rfl, rfl⟩

end Yields
end Readers

/-! ### Items -/

/-- The keywords of a rule are in small letters and are read as that rule. -/
theorem keywords_spec (rule : AtRule) :
    ∀ keyword ∈ rule.keywords, lower keyword = keyword ∧ AtRule.ofKeyword keyword = rule := by
  rcases rule with _ | _ | kind | _
  case block => cases kind <;> decide
  all_goals decide

/-- What is read as a rule is one of its keywords. -/
theorem mem_keywords_ofKeyword {keyword : String} (h : AtRule.ofKeyword keyword ≠ .unknown) :
    keyword ∈ (AtRule.ofKeyword keyword).keywords := by
  revert h
  rw [AtRule.ofKeyword]
  repeat' split
  all_goals simp_all [AtRule.keywords]

theorem introduces_iff {src : Source} {rule : AtRule} {t : Token} (hrule : rule ≠ .unknown) :
    Introduces src rule t ↔
      t.kind = .atKeyword ∧ AtRule.ofKeyword (lower (src.tokenText t)) = rule := by
  constructor
  · rintro ⟨hkind, keyword, hmem, hsame⟩
    obtain ⟨hlower, hread⟩ := keywords_spec rule keyword hmem
    rw [sameWord, beq_iff_eq, hlower] at hsame
    exact ⟨hkind, by rw [hsame, hread]⟩
  · rintro ⟨hkind, rfl⟩
    have hmem := mem_keywords_ofKeyword hrule
    refine ⟨hkind, _, hmem, ?_⟩
    rw [sameWord, (keywords_spec _ _ hmem).1, beq_iff_eq]

/-- What an item without faults reads, the block it opens, and the tokens it leaves: a
statement, a declaration with the `;` behind it, or the header of a block with its brace. -/
inductive Phrase (src : Source) (body : Body) :
    List Token → Option BlockKind → List Token → Prop where
  | statement {ts rest : List Token} (h : IsStatement src body ts rest) :
      Phrase src body (ts ++ rest) none rest
  | declaration {ts follow : List Token} (hbody : body.holdsDeclarations = true)
      (h : IsDeclaration src ts follow) :
      Phrase src body (ts ++ follow) none (eatSemicolon follow)
  | block {kind : BlockKind} {header rest : List Token} {brace : Token}
      (h : IsHeader src body kind header) (hbrace : brace.kind = .leftBrace) :
      Phrase src body (header ++ brace :: rest) (some kind) rest

section Items
variable {src : Source} {body : Body} {t : Token} {ts : List Token}

theorem readItem_semicolon (ht : t.kind = .semicolon) :
    readItem src body t ts = { rest := ts } := by
  cases body <;> simp [readItem, readDeclaration, ht]

theorem readItem_atKeyword (hbody : body.holdsImports = true) (ht : t.kind = .atKeyword) :
    readItem src body t ts = readAtRule src t ts := by
  cases body <;> simp_all [Body.holdsImports, readItem]

theorem readItem_rule (hbody : body.holdsImports = true) (hsemicolon : t.kind ≠ .semicolon)
    (hkeyword : t.kind ≠ .atKeyword) :
    readItem src body t ts = readBlock src .rule (src.position t.span.start) (t :: ts) := by
  cases body <;> simp_all [Body.holdsImports, readItem]

theorem readItem_keyframeRule (hsemicolon : t.kind ≠ .semicolon) :
    readItem src .keyframes t ts =
      readBlock src .keyframeRule (src.position t.span.start) (t :: ts) := by
  simp [readItem]

theorem readItem_pageMargin (ht : t.kind = .atKeyword) :
    readItem src .page t ts =
      openBlock src .pageMargin (src.tokenText t) (src.position t.span.start) ts := by
  simp [readItem, readDeclaration, ht]

theorem readItem_named (hbody : body.holdsDeclarations = true) (ht : t.kind = .ident) :
    readItem src body t ts = readNamed src false (src.position t.span.start) t ts := by
  cases body <;> simp_all [Body.holdsDeclarations, readItem, readDeclaration]

theorem readItem_starred {name : Token} (hbody : body.holdsDeclarations = true)
    (ht : t.kind = .star) (hname : name.kind = .ident) :
    readItem src body t (name :: ts) =
      readNamed src true (src.position t.span.start) name ts := by
  cases body <;> simp_all [Body.holdsDeclarations, readItem, readDeclaration, readStarred]

/-- What a block begins with: its header if there is one, and its brace otherwise. -/
theorem mem_head_or_eq_brace {header rest : List Token} {brace : Token}
    (htokens : t :: ts = header ++ brace :: rest) : t ∈ header.head? ∨ t = brace := by
  cases header with
  | nil => exact .inr (List.cons.inj htokens).1
  | cons u header => exact .inl (congrArg some (List.cons.inj htokens).1.symm)

/-- A phrase is not empty, and it begins neither with the end of the source nor with a closing
brace. -/
theorem Phrase.head_ne {tokens rest : List Token} {opened : Option BlockKind}
    (h : Phrase src body tokens opened rest) :
    ∃ t ts, tokens = t :: ts ∧ t.kind ≠ .eof ∧ t.kind ≠ .rightBrace := by
  cases h with
  | statement h =>
    cases h with
    | semicolon ht => exact ⟨_, _, rfl, by simp [ht]⟩
    | importRule _ hkeyword => exact ⟨_, _, rfl, by simp [hkeyword.isKeyword]⟩
    | silent _ hkeyword => exact ⟨_, _, rfl, by simp [hkeyword.isKeyword]⟩
  | declaration _ h =>
    cases h with
    | named hname => exact ⟨_, _, rfl, by simp [hname]⟩
    | starred hstar => exact ⟨_, _, rfl, by simp [hstar]⟩
  | @block kind header rest brace h hbrace =>
    cases header with
    | nil => exact ⟨brace, rest, rfl, by simp [hbrace]⟩
    | cons t header =>
      have ht := h.plain t List.mem_cons_self
      exact ⟨t, _, rfl, ne_of_plain ht rfl, ne_of_plain ht rfl⟩

/-- A phrase is read as an item without faults. -/
theorem Phrase.yields {opened : Option BlockKind} {rest : List Token}
    (h : Phrase src body (t :: ts) opened rest) :
    (readItem src body t ts).Yields opened rest := by
  -- the tokens of a phrase are put together, so they must be free in the case split
  generalize htokens : t :: ts = tokens at h
  cases h with
  | statement h =>
    cases h with
    | semicolon ht =>
      obtain ⟨rfl, rfl⟩ := List.cons.inj htokens
      rw [readItem_semicolon ht]
      exact ⟨rfl, rfl, rfl⟩
    | @importRule _ target semicolon media _ hbody hkeyword htarget hmedia hsemicolon =>
      obtain ⟨rfl, rfl⟩ := List.cons.inj htokens
      obtain ⟨hkind, hrule⟩ := (introduces_iff (by decide)).mp hkeyword
      rw [readItem_atKeyword hbody hkind, readAtRule, hrule]
      exact (readImport_yields_iff _).mpr
        ⟨rfl, target, media, semicolon, htarget, hmedia, hsemicolon, by simp⟩
    | silent hbody hkeyword hts =>
      obtain ⟨rfl, rfl⟩ := List.cons.inj htokens
      obtain ⟨hkind, hrule⟩ := (introduces_iff (by decide)).mp hkeyword
      rw [readItem_atKeyword hbody hkind, readAtRule, hrule]
      exact ⟨rfl, rfl, hts.skipDeclaration_eq⟩
  | @declaration ts' follow hbody h =>
    have hstop (hfollow : ∃ t ∈ follow.head?, t.kind = .semicolon ∨ t.kind = .rightBrace) :
        ∀ t ∈ follow.head?, t.kind.endsHeader = true ∧ t.kind ≠ .leftBrace := by
      obtain ⟨u, hu, hkind⟩ := hfollow
      intro t ht
      obtain rfl := Option.mem_unique ht hu
      rcases hkind with h | h <;> simp [h, TokenKind.endsHeader]
    cases h with
    | @named n name colon value _ hname hcolon hvalue hfollow =>
      obtain ⟨rfl, rfl⟩ := List.cons.inj htokens
      rw [readItem_named hbody hname]
      exact (readNamed_yields_iff _ _ _).mpr
        ⟨rfl, n, colon, value, follow, hcolon, hvalue, by simp, hstop hfollow, rfl⟩
    | @starred n star name colon value _ hstar hname hcolon hvalue hfollow =>
      obtain ⟨rfl, rfl⟩ := List.cons.inj htokens
      change (readItem src body t (name :: (colon :: value ++ follow))).Yields _ _
      rw [readItem_starred hbody hstar hname]
      exact (readNamed_yields_iff _ _ _).mpr
        ⟨rfl, n, colon, value, follow, hcolon, hvalue, by simp, hstop hfollow, rfl⟩
  | @block kind header rest brace h hbrace =>
    cases h with
    | rule hbody hheader hfirst =>
      have ht : t.kind ≠ .semicolon ∧ t.kind ≠ .atKeyword := by
        rcases mem_head_or_eq_brace htokens with ht | rfl
        · exact ⟨ne_of_plain (hheader t (List.mem_of_mem_head? ht)) rfl, hfirst t ht⟩
        · simp [hbrace]
      rw [readItem_rule hbody ht.1 ht.2, htokens]
      exact (readBlock_yields_iff _ _).mpr ⟨rfl, header, brace, hheader, hbrace, rfl⟩
    | @atRule _ _ keyword header hbody hkeyword hheader =>
      obtain ⟨rfl, rfl⟩ := List.cons.inj htokens
      obtain ⟨hkind, hrule⟩ := (introduces_iff (by simp)).mp hkeyword
      rw [readItem_atKeyword hbody hkind, readAtRule, hrule]
      exact (readBlock_yields_iff _ _).mpr ⟨rfl, header, brace, hheader, hbrace, rfl⟩
    | keyframeRule hheader =>
      have ht : t.kind ≠ .semicolon := by
        rcases mem_head_or_eq_brace htokens with ht | rfl
        · exact ne_of_plain (hheader t (List.mem_of_mem_head? ht)) rfl
        · simp [hbrace]
      rw [readItem_keyframeRule ht, htokens]
      exact (readBlock_yields_iff _ _).mpr ⟨rfl, header, brace, hheader, hbrace, rfl⟩
    | pageMargin hkeyword =>
      obtain ⟨rfl, rfl⟩ := List.cons.inj htokens
      rw [readItem_pageMargin hkeyword]
      exact (openBlock_yields_iff _ _ _).mpr ⟨rfl, brace, hbrace, rfl⟩

/-- A declaration that does not run up to the end of the source stands in front of a `;` or
of a closing brace. -/
theorem stopped_of_not_atEnd {follow : List Token}
    (hstop : ∀ t ∈ follow.head?, t.kind.endsHeader = true ∧ t.kind ≠ .leftBrace)
    (hend : ¬ AtEnd (eatSemicolon follow)) :
    ∃ t ∈ follow.head?, t.kind = .semicolon ∨ t.kind = .rightBrace := by
  cases follow with
  | nil => simp [eatSemicolon, AtEnd] at hend
  | cons t ts =>
    obtain ⟨hends, hbrace⟩ := hstop t rfl
    refine ⟨t, rfl, ?_⟩
    by_contra hne
    rw [not_or] at hne
    have heof : t.kind = .eof := by
      by_contra heof
      rw [TokenKind.endsHeader_eq_false_iff.mpr ⟨hbrace, hne.2, hne.1, heof⟩] at hends
      cases hends
    simp [eatSemicolon, AtEnd, heof] at hend

variable {opened : Option BlockKind} {rest : List Token}

theorem phrase_of_atRule (hbody : body.holdsImports = true) (hkind : t.kind = .atKeyword)
    (h : (readAtRule src t ts).Yields opened rest) : Phrase src body (t :: ts) opened rest := by
  cases hrule : AtRule.ofKeyword (lower (src.tokenText t)) with
  | importRule =>
    rw [readAtRule, hrule] at h
    obtain ⟨rfl, target, media, semicolon, htarget, hmedia, hsemicolon, rfl⟩ :=
      (readImport_yields_iff _).mp h
    have hkeyword : Introduces src .importRule t := (introduces_iff (by decide)).mpr ⟨hkind, hrule⟩
    simpa using Phrase.statement (.importRule hbody hkeyword htarget hmedia hsemicolon)
  | silent =>
    rw [readAtRule, hrule] at h
    obtain ⟨-, rfl, rfl⟩ := h
    obtain ⟨used, hts, hused⟩ := skipDeclaration_skipped ts
    have hkeyword : Introduces src .silent t := (introduces_iff (by decide)).mpr ⟨hkind, hrule⟩
    have hphrase := Phrase.statement (.silent hbody hkeyword hused)
    rwa [List.cons_append, ← hts] at hphrase
  | block kind =>
    rw [readAtRule, hrule] at h
    obtain ⟨rfl, header, brace, hheader, hbrace, rfl⟩ := (readBlock_yields_iff _ _).mp h
    have hkeyword : Introduces src (.block kind) t :=
      (introduces_iff (by simp)).mpr ⟨hkind, hrule⟩
    exact Phrase.block (.atRule hbody hkeyword hheader) hbrace
  | unknown =>
    rw [readAtRule, hrule] at h
    cases h.faults_eq

theorem eq_of_mem_head {header more : List Token} {u : Token} (htokens : t :: ts = header ++ more)
    (hu : u ∈ header.head?) : u = t := by
  obtain ⟨behind, rfl⟩ := List.head?_eq_some_iff.mp hu
  exact (List.cons.inj htokens).1.symm

theorem phrase_of_rule (hbody : body.holdsImports = true)
    (h : (readItem src body t ts).Yields opened rest) : Phrase src body (t :: ts) opened rest := by
  by_cases hsemicolon : t.kind = .semicolon
  · rw [readItem_semicolon hsemicolon] at h
    obtain ⟨-, rfl, rfl⟩ := h
    exact Phrase.statement (.semicolon hsemicolon)
  by_cases hkeyword : t.kind = .atKeyword
  · rw [readItem_atKeyword hbody hkeyword] at h
    exact phrase_of_atRule hbody hkeyword h
  · rw [readItem_rule hbody hsemicolon hkeyword] at h
    obtain ⟨rfl, header, brace, hheader, hbrace, htokens⟩ := (readBlock_yields_iff _ _).mp h
    rw [htokens]
    refine .block (.rule hbody hheader fun u hu => ?_) hbrace
    rwa [eq_of_mem_head htokens hu]

theorem phrase_of_keyframeRule (h : (readItem src .keyframes t ts).Yields opened rest) :
    Phrase src .keyframes (t :: ts) opened rest := by
  by_cases hsemicolon : t.kind = .semicolon
  · rw [readItem_semicolon hsemicolon] at h
    obtain ⟨-, rfl, rfl⟩ := h
    exact Phrase.statement (.semicolon hsemicolon)
  · rw [readItem_keyframeRule hsemicolon] at h
    obtain ⟨rfl, header, brace, hheader, hbrace, htokens⟩ := (readBlock_yields_iff _ _).mp h
    rw [htokens]
    exact .block (.keyframeRule hheader) hbrace

theorem phrase_of_declaration {margins : Bool} (hbody : body.holdsDeclarations = true)
    (hmargins : margins = true → body = .page) (hend : ¬ AtEnd rest)
    (h : (readDeclaration src margins t ts).Yields opened rest) :
    Phrase src body (t :: ts) opened rest := by
  rw [readDeclaration] at h
  dsimp only at h
  split at h
  case h_1 ht =>
    obtain ⟨-, rfl, rfl⟩ := h
    exact Phrase.statement (.semicolon ht)
  case h_2 ht =>
    split at h
    · rename_i hmargin
      obtain rfl := hmargins hmargin
      obtain ⟨rfl, brace, hbrace, rfl⟩ := (openBlock_yields_iff _ _ _).mp h
      exact Phrase.block (.pageMargin ht) hbrace
    · cases h.faults_eq
  case h_3 ht =>
    obtain ⟨rfl, n, colon, value, follow, hcolon, hvalue, rfl, hstop, rfl⟩ :=
      (readNamed_yields_iff _ _ _).mp h
    exact Phrase.declaration hbody (.named ht hcolon hvalue (stopped_of_not_atEnd hstop hend))
  case h_4 ht =>
    unfold readStarred at h
    split at h
    · rename_i name ts
      split at h
      · rename_i hname
        obtain ⟨rfl, n, colon, value, follow, hcolon, hvalue, rfl, hstop, rfl⟩ :=
          (readNamed_yields_iff _ _ _).mp h
        exact Phrase.declaration hbody
          (.starred ht hname hcolon hvalue (stopped_of_not_atEnd hstop hend))
      · cases h.faults_eq
    · cases h.faults_eq
  case h_5 => cases h.faults_eq

/-- An item without faults is a phrase, unless it is a declaration that runs up to the end of
the source. -/
theorem phrase_of_yields (hend : AtEnd rest → body.holdsDeclarations = false)
    (h : (readItem src body t ts).Yields opened rest) : Phrase src body (t :: ts) opened rest := by
  cases body with
  | sheet => exact phrase_of_rule rfl h
  | rules => exact phrase_of_rule rfl h
  | keyframes => exact phrase_of_keyframeRule h
  | page => exact phrase_of_declaration rfl (fun _ => rfl) (fun hrest => nomatch hend hrest) h
  | declarations =>
    exact phrase_of_declaration rfl (fun hmargin => absurd hmargin Bool.false_ne_true)
      (fun hrest => nomatch hend hrest) h

end Items

end SheetLint
