import SheetLint.Proofs.Coverage
import SheetLint.Proofs.Probing
import SheetLint.Proofs.ValueParts

/-! # Where diagnostics come from

Every diagnostic goes back to a token of the source: a fault to the token that was to be read
when it was noted, and a finding to the `url(…)` it is about, or to the keyword of an import
(`Reports`).  There it stands, and from there comes what its message quotes: the text of a
token, or the target of a string or a `url(…)` (`CausedAt`, `MentionedAt`).

The faults are followed through the readers one by one; what is found about references has
its place in the source from the parts of values (`IsPart`) and from the imports.
-/
namespace SheetLint
open Text

/-! ### Faults -/

/-- What can be noted at the token `t`.  Only `noValue` speaks of another token, the name of the
declaration. -/
inductive CausedAt (src : Source) (t : Token) : FaultKind → Prop where
  | unexpected (expected : Expected) :
      CausedAt src t (.unexpectedToken expected
        (if t.kind = .eof then none else some (src.tokenText t)))
  | ended (expected : Expected) : CausedAt src t (.unexpectedEnd expected)
  | unknown {name : String} (hkind : t.kind = .atKeyword)
      (hname : name = src.tokenText t ∨ name = lower (src.tokenText t)) :
      CausedAt src t (.unknownAtRule name)
  | noTarget : CausedAt src t .missingImportTarget
  | noValue {word : Token} (hword : word ∈ src.tokens) (hkind : word.kind = .ident)
      (starred : Bool) : CausedAt src t (.emptyValue (propertyName starred (src.tokenText word)).1)

/-- The fault is noted when some of the tokens are still to be read. -/
def NotedIn (src : Source) (ts : List Token) (fault : Fault) : Prop :=
  ∃ us kind, us <:+ ts ∧ fault = src.fault us kind ∧ CausedAt src (src.peek us) kind

section Faults
variable {src : Source} {ts us : List Token} {fault : Fault}

theorem NotedIn.behind (h : NotedIn src us fault) (hus : us <:+ ts) : NotedIn src ts fault := by
  obtain ⟨vs, kind, hvs, hfault, hkind⟩ := h
  exact ⟨vs, kind, hvs.trans hus, hfault, hkind⟩

theorem unexpected_notedIn (hus : us <:+ ts) (expected : Expected) :
    NotedIn src ts (src.unexpected us expected) :=
  ⟨us, _, hus, rfl, .unexpected expected⟩

theorem openBlock_notedIn {kind : BlockKind} {header : String} {position : Position}
    (h : fault ∈ (openBlock src kind header position ts).faults) : NotedIn src ts fault := by
  unfold openBlock at h
  split at h
  · cases h
  · rw [List.mem_singleton.mp h]
    exact unexpected_notedIn List.suffix_rfl _

theorem readBlock_notedIn {kind : BlockKind} {position : Position}
    (h : fault ∈ (readBlock src kind position ts).faults) : NotedIn src ts fault :=
  (openBlock_notedIn h).behind (afterHeader_suffix ts)

theorem readImport_notedIn {position : Position}
    (h : fault ∈ (readImport src position ts).faults) : NotedIn src ts fault := by
  unfold readImport at h
  split at h
  · rw [List.mem_singleton.mp h]
    exact ⟨ts, _, List.suffix_rfl, rfl, .noTarget⟩
  · dsimp only at h
    split at h
    · cases h
    · rw [List.mem_singleton.mp h]
      exact unexpected_notedIn ((afterHeader_suffix _).trans (List.tail_suffix ts)) _

theorem readAtRule_notedIn {t : Token} (ht : t.kind = .atKeyword)
    (h : fault ∈ (readAtRule src t ts).faults) : NotedIn src (t :: ts) fault := by
  have hts : ts <:+ t :: ts := List.suffix_cons t ts
  unfold readAtRule at h
  dsimp only at h
  split at h
  · exact (readImport_notedIn h).behind hts
  · cases h
  · exact (readBlock_notedIn h).behind hts
  · rw [List.mem_singleton.mp h]
    exact ⟨t :: ts, _, List.suffix_rfl, rfl, .unknown ht (.inr rfl)⟩

theorem readParts_notedIn (src : Source) (scan : ValueScan) (ts : List Token) :
    ∀ fault ∈ (readParts src scan ts).1.faults, fault ∈ scan.faults ∨ NotedIn src ts fault := by
  refine readParts_rec (P := fun scan ts out => ∀ fault ∈ out.1.faults,
    fault ∈ scan.faults ∨ NotedIn src ts fault) ?nil ?stop ?important ?bang ?group ?single scan ts
  case nil =>
    intro scan fault h
    exact .inl h
  case stop =>
    intro scan t ts _ fault h
    exact .inl h
  case important =>
    intro scan t ts out _ _ ih fault h
    have hsuffix : ts.tail <:+ t :: ts := (List.tail_suffix ts).trans (List.suffix_cons t ts)
    exact (ih fault h).imp_right fun h => h.behind hsuffix
  case bang =>
    intro scan t ts out _ _ ih fault h
    have hsuffix : ts <:+ t :: ts := List.suffix_cons t ts
    rcases ih fault h with h | h
    · rcases List.mem_append.mp h with h | h
      · exact .inl h
      · rw [List.mem_singleton.mp h]
        exact .inr (unexpected_notedIn hsuffix _)
    · exact .inr (h.behind hsuffix)
  case group =>
    intro scan t ts out _ ih fault h
    have hsuffix := (splitGroup_suffix 1 ts).trans (List.suffix_cons t ts)
    exact (ih fault h).imp_right fun h => h.behind hsuffix
  case single =>
    intro scan t ts out _ _ _ ih fault h
    exact (ih fault h).imp_right fun h => h.behind (List.suffix_cons t ts)

theorem readNamed_notedIn {starred : Bool} {position : Position} {t : Token}
    (ht : t ∈ src.tokens) (hkind : t.kind = .ident)
    (h : fault ∈ (readNamed src starred position t ts).faults) : NotedIn src ts fault := by
  obtain ⟨more, -, hnoted⟩ := readParts_noted src {} ts.tail
  have hrest := hnoted.suffix.trans (List.tail_suffix ts)
  have hvalue (h : fault ∈ (readParts src {} ts.tail).1.faults) : NotedIn src ts fault :=
    ((readParts_notedIn src {} ts.tail fault h).resolve_left List.not_mem_nil).behind
      (List.tail_suffix ts)
  unfold readNamed at h
  dsimp only at h
  split at h
  · rw [List.mem_singleton.mp h]
    exact unexpected_notedIn List.suffix_rfl _
  · split at h
    · rcases List.mem_append.mp h with h | h
      · exact hvalue h
      · rw [List.mem_singleton.mp h]
        exact unexpected_notedIn hrest _
    · split at h
      · rcases List.mem_append.mp h with h | h
        · exact hvalue h
        · rw [List.mem_singleton.mp h]
          exact ⟨_, _, hrest, rfl, .noValue ht hkind starred⟩
      · exact hvalue h

theorem readStarred_notedIn {position : Position} (hts : ts <:+ src.tokens)
    (h : fault ∈ (readStarred src position ts).faults) : NotedIn src ts fault := by
  unfold readStarred at h
  split at h
  · rename_i t ts
    split at h
    · rename_i hkind
      exact (readNamed_notedIn (hts.subset List.mem_cons_self) hkind h).behind
        (List.suffix_cons t ts)
    · rw [List.mem_singleton.mp h]
      exact unexpected_notedIn List.suffix_rfl _
  · rw [List.mem_singleton.mp h]
    exact unexpected_notedIn List.suffix_rfl _

theorem readDeclaration_notedIn {margins : Bool} {t : Token} (hts : t :: ts <:+ src.tokens)
    (h : fault ∈ (readDeclaration src margins t ts).faults) : NotedIn src (t :: ts) fault := by
  have hsuffix : ts <:+ t :: ts := List.suffix_cons t ts
  unfold readDeclaration at h
  dsimp only at h
  split at h
  · cases h
  · rename_i hkind
    split at h
    · exact (openBlock_notedIn h).behind hsuffix
    · rw [List.mem_singleton.mp h]
      exact ⟨t :: ts, _, List.suffix_rfl, rfl, .unknown hkind (.inl rfl)⟩
  · rename_i hkind
    exact (readNamed_notedIn (hts.subset List.mem_cons_self) hkind h).behind hsuffix
  · exact (readStarred_notedIn (hsuffix.trans hts) h).behind hsuffix
  · rw [List.mem_singleton.mp h]
    exact unexpected_notedIn List.suffix_rfl _

theorem readItem_notedIn {body : Body} {t : Token} (hts : t :: ts <:+ src.tokens)
    (h : fault ∈ (readItem src body t ts).faults) : NotedIn src (t :: ts) fault := by
  unfold readItem at h
  split at h
  case h_1 | h_2 =>
    split at h
    · cases h
    · exact readAtRule_notedIn ‹_› h
    · exact readBlock_notedIn h
  case h_3 =>
    split at h
    · cases h
    · exact readBlock_notedIn h
  case h_4 => exact readDeclaration_notedIn hts h
  case h_5 => exact readDeclaration_notedIn hts h

theorem sheetFrom_notedIn (src : Source) (base : Body) (nest : List BlockKind) (ts : List Token)
    (hts : ts <:+ src.tokens) :
    ∀ fault ∈ (sheetFrom src base nest ts).faults, NotedIn src ts fault := by
  revert hts
  refine sheetFrom_rec (P := fun _ ts sheet => ts <:+ src.tokens →
    ∀ fault ∈ sheet.faults, NotedIn src ts fault) ?atEnd ?close ?stray ?leave ?item nest ts
  case atEnd =>
    intro nest ts _ _ fault h
    obtain ⟨_, -, rfl⟩ := List.mem_map.mp h
    exact ⟨ts, _, List.suffix_rfl, rfl, .ended _⟩
  case close =>
    intro kind outer t ts sheet _ ih hts fault h
    have hsuffix : ts <:+ t :: ts := List.suffix_cons t ts
    exact (ih (hsuffix.trans hts) fault (by simpa using h)).behind hsuffix
  case stray =>
    intro _ t ts sheet _ ih hts fault h
    have hsuffix : ts <:+ t :: ts := List.suffix_cons t ts
    rcases List.mem_append.mp h with h | h
    · rw [List.mem_singleton.mp h]
      exact unexpected_notedIn List.suffix_rfl _
    · exact (ih (hsuffix.trans hts) fault h).behind hsuffix
  case leave =>
    intro _ t ts _ _ fault h
    cases h
  case item =>
    intro nest t ts sheet he hb ih hts fault h
    rcases List.mem_append.mp h with h | h
    · exact readItem_notedIn hts h
    · have hsuffix : (readItem src (innermost base nest) t ts).rest <:+ t :: ts :=
        (readItem_rest_suffix src _ ts he hb).trans (List.suffix_cons t ts)
      exact (ih (hsuffix.trans hts) fault h).behind hsuffix

/-- A fault stands at the token it is noted at, and quotes what stands there. -/
theorem exists_causedAt (h : fault ∈ (Stylesheet.read src).faults) :
    ∃ t ∈ src.tokens, fault.span = t.span ∧ fault.position = src.place t ∧
      CausedAt src t fault.kind := by
  rw [read_eq_sheetFrom] at h
  obtain ⟨us, kind, hus, rfl, hkind⟩ :=
    sheetFrom_notedIn src .sheet [] src.tokens List.suffix_rfl fault h
  exact ⟨src.peek us, peek_mem_tokens hus, rfl, rfl, hkind⟩

end Faults

/-! ### References -/

/-- The token at which a reference is mentioned: a `url(…)` in a value, or the keyword of an
import. -/
inductive MentionedAt (src : Source) (t : Token) (ref : Reference) : Prop where
  | url (hkind : t.kind = .url) (hpath : ref.path = urlTarget (src.tokenText t))
  | importRule {target : Token} (hkind : t.kind = .atKeyword)
      (hkeyword : lower (src.tokenText t) = "@import") (htarget : target ∈ src.tokens)
      (hpath : src.importTarget? target = some ref.path)

section References
variable {src : Source} {ts : List Token} {statement : ImportRule}

theorem ofKeyword_eq_importRule {keyword : String} (h : AtRule.ofKeyword keyword = .importRule) :
    keyword = "@import" := by
  by_contra hne
  rw [AtRule.ofKeyword, if_neg hne] at h
  split_ifs at h

theorem readImport_importRule {position : Position}
    (h : .importRule statement ∈ (readImport src position ts).events) :
    statement.position = position ∧ src.importTarget? (src.peek ts) = some statement.uri := by
  unfold readImport at h
  split at h
  · cases h
  · rename_i uri htarget
    obtain rfl := Event.importRule.inj (List.mem_singleton.mp h)
    exact ⟨rfl, htarget⟩

/-- An item with an import has been read from its keyword on. -/
theorem readItem_eq_readImport {body : Body} {t : Token}
    (h : .importRule statement ∈ (readItem src body t ts).events) :
    t.kind = .atKeyword ∧ lower (src.tokenText t) = "@import" ∧
      readItem src body t ts = readImport src (src.place t) ts := by
  have hblock (kind : BlockKind) (header : String) (position : Position) (ts : List Token) :
      .importRule statement ∉ (openBlock src kind header position ts).events := by
    unfold openBlock
    split <;> simp
  have hat (ht : t.kind = .atKeyword) (h : .importRule statement ∈ (readAtRule src t ts).events) :
      t.kind = .atKeyword ∧ lower (src.tokenText t) = "@import" ∧
        readAtRule src t ts = readImport src (src.place t) ts := by
    unfold readAtRule at h ⊢
    dsimp only at h ⊢
    split at h
    · rename_i hkeyword
      exact ⟨ht, ofKeyword_eq_importRule hkeyword, rfl⟩
    · cases h
    · exact absurd h (hblock _ _ _ _)
    · cases h
  cases readItem_shape src body t ts with
  | silent hevents | declaration _ _ hevents | block _ _ _ _ hevents =>
    rw [hevents] at h
    simp at h
  | importRule statement' hbody hevents =>
    cases body with
    | keyframes | page | declarations => cases hbody
    | sheet | rules =>
      unfold readItem at h ⊢
      dsimp only at h ⊢
      split at h
      · cases h
      · rename_i ht
        exact hat ht h
      · exact absurd h (hblock _ _ _ _)

theorem readItem_importRule {body : Body} {t : Token}
    (h : .importRule statement ∈ (readItem src body t ts).events) :
    t.kind = .atKeyword ∧ lower (src.tokenText t) = "@import" ∧
      statement.position = src.place t ∧ src.importTarget? (src.peek ts) = some statement.uri := by
  obtain ⟨hkind, hkeyword, hitem⟩ := readItem_eq_readImport h
  rw [hitem] at h
  exact ⟨hkind, hkeyword, readImport_importRule h⟩

/-- An event is reported by an item, together with the faults of that item, unless it is the end
of a block. -/
theorem exists_readItem_of_mem (src : Source) (base : Body) (nest : List BlockKind)
    (ts : List Token) {event : Event}
    (hevent : ∀ kind header position, event ≠ .endBlock kind header position)
    (h : event ∈ (sheetFrom src base nest ts).events) :
    ∃ body t us, t :: us <:+ ts ∧ event ∈ (readItem src body t us).events ∧
      ∀ fault ∈ (readItem src body t us).faults, fault ∈ (sheetFrom src base nest ts).faults := by
  revert h
  refine sheetFrom_rec (P := fun _ ts sheet => event ∈ sheet.events →
    ∃ body t us, t :: us <:+ ts ∧ event ∈ (readItem src body t us).events ∧
      ∀ fault ∈ (readItem src body t us).faults, fault ∈ sheet.faults)
    ?atEnd ?close ?stray ?leave ?item nest ts
  case atEnd =>
    intro nest ts _ h
    obtain ⟨kind, -, rfl⟩ := List.mem_map.mp h
    exact absurd rfl (hevent _ _ _)
  case close =>
    intro kind outer t ts sheet _ ih h
    rcases List.mem_append.mp h with h | h
    · exact absurd (List.mem_singleton.mp h) (hevent _ _ _)
    · obtain ⟨body, u, us, hus, hmem, hfaults⟩ := ih h
      exact ⟨body, u, us, hus.trans (List.suffix_cons t ts), hmem,
        fun fault hfault => List.mem_append_right _ (hfaults fault hfault)⟩
  case stray =>
    intro _ t ts sheet _ ih h
    obtain ⟨body, u, us, hus, hmem, hfaults⟩ := ih h
    exact ⟨body, u, us, hus.trans (List.suffix_cons t ts), hmem,
      fun fault hfault => List.mem_append_right _ (hfaults fault hfault)⟩
  case leave =>
    intro _ t ts _ h
    cases h
  case item =>
    intro nest t ts sheet he hb ih h
    rcases List.mem_append.mp h with h | h
    · exact ⟨_, t, ts, List.suffix_rfl, h, fun fault => List.mem_append_left _⟩
    · obtain ⟨body, u, us, hus, hmem, hfaults⟩ := ih h
      have hrest := readItem_rest_suffix src (innermost base nest) ts he hb
      exact ⟨body, u, us, hus.trans (hrest.trans (List.suffix_cons t ts)), hmem,
        fun fault hfault => List.mem_append_right _ (hfaults fault hfault)⟩

theorem sheetFrom_importRule (src : Source) (base : Body) (nest : List BlockKind)
    (ts : List Token) (h : .importRule statement ∈ (sheetFrom src base nest ts).events) :
    ∃ t us, t :: us <:+ ts ∧ t.kind = .atKeyword ∧ lower (src.tokenText t) = "@import" ∧
      statement.position = src.place t ∧
      src.importTarget? (src.peek us) = some statement.uri := by
  obtain ⟨body, t, us, hus, hmem, -⟩ := exists_readItem_of_mem src base nest ts (by simp) h
  exact ⟨t, us, hus, readItem_importRule hmem⟩

/-- The text between two offsets is the one that stands there. -/
theorem Source.Spells.text_eq {start stop : Nat} {text : String}
    (h : src.Spells start stop text) : src.text ⟨start, stop⟩ = text := by
  obtain ⟨front, back, hchars, rfl, rfl⟩ := h
  rw [Source.text_eq_ofList hchars, String.ofList_toList]

/-- A reference in a declaration is a `url(…)` among the tokens of its value. -/
theorem mentionedAt_of_declaration {decl : Declaration} {ref : Reference}
    (h : .declaration decl ∈ (Stylesheet.read src).events) (href : ref ∈ decl.references) :
    ∃ t ∈ src.tokens, ref.position = src.place t ∧ MentionedAt src t ref := by
  obtain ⟨segments, hdeclared⟩ := exists_declaredBy h
  unfold Declaration.references at href
  split at href
  case isFalse => cases href
  obtain ⟨part, hpart, rfl⟩ := List.mem_map.mp href
  obtain ⟨hmem, hkind⟩ := List.mem_filter.mp hpart
  rw [beq_iff_eq] at hkind
  obtain ⟨tokens, htokens, hisPart⟩ : ∃ tokens ∈ partsOf segments, IsPart src tokens part := by
    obtain ⟨i, hi⟩ := List.mem_iff_getElem?.mp hmem
    have hforall := hdeclared.forall₂_isPart
    obtain ⟨hlt, rfl⟩ := List.getElem?_eq_some_iff.mp hi
    have hlt' : i < (partsOf segments).length := hforall.length_eq ▸ hlt
    exact ⟨_, List.getElem_mem hlt', hforall.get hlt' hlt⟩
  obtain ⟨t, rfl, ht⟩ := hisPart.isUri_iff.mp hkind
  have hmemTokens : t ∈ src.tokens :=
    hdeclared.sublist.subset ((flatten_partsOf_sublist segments).subset
      (List.mem_flatten_of_mem htokens List.mem_cons_self))
  obtain ⟨first, hfirst, last, hlast, hspells⟩ := hisPart.covers
  obtain rfl : t = first := Option.some.inj hfirst
  obtain rfl : t = last := Option.some.inj hlast
  refine ⟨t, hmemTokens, hisPart.position_eq t rfl, .url ht ?_⟩
  rw [hisPart.uri_eq, if_pos hkind, ← hspells.text_eq]
  rfl

/-- Every reference of a stylesheet is mentioned at one of its tokens, and stands there. -/
theorem exists_mentionedAt {ref : Reference} (h : ref ∈ referencesOf (Stylesheet.read src).events) :
    ∃ t ∈ src.tokens, ref.position = src.place t ∧ MentionedAt src t ref := by
  obtain ⟨event, hevent, href⟩ := List.mem_flatMap.mp h
  cases event with
  | importRule statement =>
    rw [List.mem_singleton.mp href]
    rw [read_eq_sheetFrom] at hevent
    obtain ⟨t, us, hus, hkind, hkeyword, hposition, htarget⟩ :=
      sheetFrom_importRule src .sheet [] src.tokens hevent
    exact ⟨t, hus.subset List.mem_cons_self, hposition,
      .importRule hkind hkeyword (peek_mem_tokens ((List.suffix_cons t us).trans hus)) htarget⟩
  | declaration decl => exact mentionedAt_of_declaration hevent href
  | startBlock kind header position => cases href
  | endBlock kind header position => cases href

end References

/-! ### Diagnostics -/

/-- A diagnostic reports the token `t` of the text: a fault at the token, or what one of the
tests finds about a reference that is mentioned there. -/
inductive Reports (ruleset : RuleSet) (src : Source) (d : Diagnostic) (t : Token) : Prop where
  | fault {fault : Fault} (hfault : fault ∈ (Stylesheet.read src).faults)
      (hspan : fault.span = t.span) (hcause : CausedAt src t fault.kind)
      (hd : d = Linter.faultDiagnostic fault)
  | reference {test : PathTest} {ref : Reference} (htest : test ∈ Registry.builtin.tests)
      (hmentioned : MentionedAt src t ref)
      (hd : d = Linter.diagnostic ruleset ⟨resourceId, test.message ref.path, ref.position⟩)

/-- Every diagnostic reports a token, and stands at its place. -/
theorem exists_reports {ruleset : RuleSet} {context : Context} {text : String} {d : Diagnostic}
    (hd : d ∈ (Linter.builtin.lint ruleset context text).messages) :
    ∃ t ∈ (Source.ofString text).tokens, Reports ruleset (.ofString text) d t ∧
      d.position = (Source.ofString text).place t := by
  rw [lint_builtin, Diagnostic.sort, List.mem_mergeSort, List.mem_append] at hd
  rcases hd with hd | hd
  · obtain ⟨finding, hfinding, rfl⟩ := List.mem_map.mp hd
    rw [Resource.evaluation] at hfinding
    split at hfinding
    case isFalse => cases hfinding
    have hword : WellNested .sheet (Stylesheet.ofString text).events :=
      completes_sheetFrom (.ofString text) .sheet [] (Source.ofString text).tokens
    rw [Resource.run_wellNested hword rfl [], findings_evaluate] at hfinding
    obtain ⟨ref, href, hfinding⟩ := List.mem_flatMap.mp hfinding
    obtain ⟨test, htest, rfl⟩ := eq_of_mem_evaluateOne _ _ hfinding
    obtain ⟨t, ht, hposition, hmentioned⟩ :=
      exists_mentionedAt ((testedFrom_sublist [] _).subset href)
    exact ⟨t, ht, .reference htest hmentioned rfl, hposition⟩
  · obtain ⟨fault, hfault, rfl⟩ := List.mem_map.mp hd
    obtain ⟨t, ht, hspan, hposition, hcause⟩ := exists_causedAt hfault
    exact ⟨t, ht, .fault hfault hspan hcause rfl, hposition⟩

end SheetLint
