import SheetLint.Proofs.SourceOrder
import Mathlib.Data.List.Forall2

/-! # Two sources with the same tokens

Two sources may have tokens of the same kinds and texts at different places.  Reading them
takes the same turns at every token, since it never looks at a place: each reader, given
tokens that are alike, yields results that are alike and leaves tokens that are alike.

What "the same place" means in two sources is left open: `Relayout` carries a relation
between the positions of the one and those of the other, and all that is asked of it is that
the ends of the sources are related.  Events are alike when they have the same `outline`, in
which positions and texts made of several tokens are left out, and when their references
stand at related positions.
-/
namespace SheetLint

/-! ### Lists related one by one -/

section Lists
variable {α β γ : Type} {R : α → β → Prop} {as : List α} {bs : List β} {a : α} {b : β}

theorem forall₂_concat (h : List.Forall₂ R as bs) (hab : R a b) :
    List.Forall₂ R (as ++ [a]) (bs ++ [b]) :=
  List.rel_append h (.cons hab .nil)

theorem isEmpty_eq_of_forall₂ (h : List.Forall₂ R as bs) : as.isEmpty = bs.isEmpty := by
  cases h <;> rfl

theorem map_eq_of_forall₂ {f : α → γ} {g : β → γ} (hfg : ∀ a b, R a b → f a = g b)
    (h : List.Forall₂ R as bs) : as.map f = bs.map g := by
  induction h with
  | nil => rfl
  | cons hab _ ih => rw [List.map_cons, List.map_cons, ih, hfg _ _ hab]

theorem forall₂_getLast? (h : List.Forall₂ R as bs) (ha : as.getLast? = some a)
    (hb : bs.getLast? = some b) : R a b := by
  obtain ⟨as, rfl⟩ := List.getLast?_eq_some_iff.mp ha
  obtain ⟨bs, rfl⟩ := List.getLast?_eq_some_iff.mp hb
  have hreverse := List.rel_reverse h
  simp only [List.reverse_append, List.reverse_singleton, List.singleton_append] at hreverse
  cases hreverse with
  | cons hab _ => exact hab

end Lists

/-! ### Tokens -/

/-- Two tokens of the same kind and text, at related positions of two sources. -/
structure TokenAlike (src src' : Source) (At : Position → Position → Prop) (t t' : Token) :
    Prop where
  kind_eq : t.kind = t'.kind
  text_eq : src.tokenText t = src'.tokenText t'
  place : At (src.place t) (src'.place t')

/-- Two sources, and a relation between their positions that relates their ends. -/
structure Relayout where
  src : Source
  src' : Source
  At : Position → Position → Prop
  ends : TokenAlike src src' At src.endToken src'.endToken

/-- The tokens of two lists are alike, one by one. -/
abbrev Relayout.Tokens (L : Relayout) (ts ts' : List Token) : Prop :=
  List.Forall₂ (TokenAlike L.src L.src' L.At) ts ts'

section Skipping
variable {L : Relayout} {ts ts' : List Token}

theorem peek_alike (h : L.Tokens ts ts') :
    TokenAlike L.src L.src' L.At (L.src.peek ts) (L.src'.peek ts') := by
  cases h with
  | nil => exact L.ends
  | cons ht _ => exact ht

theorem tail_alike (h : L.Tokens ts ts') : L.Tokens ts.tail ts'.tail := by
  cases h with
  | nil => exact .nil
  | cons _ hts => exact hts

/-! ### Skipping -/

theorem skipBlock_alike (h : L.Tokens ts ts') (depth : Nat) :
    L.Tokens (skipBlock depth ts) (skipBlock depth ts') := by
  induction h generalizing depth with
  | nil => exact .nil
  | cons ht hts ih =>
    simp only [skipBlock, ht.kind_eq]
    split
    · exact .cons ht hts
    · exact ih _
    · split
      · exact hts
      · exact ih _
    · exact ih _

theorem skipDeclaration_alike (h : L.Tokens ts ts') :
    L.Tokens (skipDeclaration ts) (skipDeclaration ts') := by
  induction h with
  | nil => exact .nil
  | cons ht hts ih =>
    simp only [skipDeclaration, ht.kind_eq]
    split
    · exact .cons ht hts
    · exact .cons ht hts
    · exact hts
    · exact skipBlock_alike (.cons ht hts) 0
    · exact ih

theorem eatSemicolon_alike (h : L.Tokens ts ts') :
    L.Tokens (eatSemicolon ts) (eatSemicolon ts') := by
  cases h with
  | nil => exact .nil
  | cons ht hts =>
    simp only [eatSemicolon, ht.kind_eq]
    split
    · exact hts
    · exact .cons ht hts

theorem afterHeader_alike (h : L.Tokens ts ts') :
    L.Tokens (afterHeader ts) (afterHeader ts') := by
  induction h with
  | nil => exact .nil
  | cons ht hts ih =>
    simp only [afterHeader, List.dropWhile_cons, ht.kind_eq]
    split
    · exact ih
    · exact .cons ht hts

/-- A group takes as many tokens from the one list as from the other. -/
theorem splitGroup_alike (h : L.Tokens ts ts') (parens : Nat) :
    L.Tokens (splitGroup parens ts).2 (splitGroup parens ts').2 := by
  induction h generalizing parens with
  | nil => exact .nil
  | cons ht hts ih =>
    simp only [splitGroup, ht.kind_eq]
    split
    · exact .cons ht hts
    · exact .cons ht hts
    · exact .cons ht hts
    · split
      · exact hts
      · exact ih _
    · exact ih _
    · exact ih _
    · exact ih _

end Skipping

/-! ### Faults -/

/-- Two faults of the same kind at related positions. -/
structure FaultAlike (At : Position → Position → Prop) (f f' : Fault) : Prop where
  kind_eq : f.kind = f'.kind
  position : At f.position f'.position

section Faults
variable {L : Relayout} {ts ts' : List Token}

theorem fault_alike (h : L.Tokens ts ts') (kind : FaultKind) :
    FaultAlike L.At (L.src.fault ts kind) (L.src'.fault ts' kind) :=
  ⟨rfl, (peek_alike h).place⟩

theorem unexpected_alike (h : L.Tokens ts ts') (expected : Expected) :
    FaultAlike L.At (L.src.unexpected ts expected) (L.src'.unexpected ts' expected) := by
  have hpeek := peek_alike h
  refine ⟨?_, hpeek.place⟩
  simp only [Source.unexpected, Source.fault, hpeek.kind_eq, hpeek.text_eq]

end Faults

/-! ### Values -/

/-- Two parts of the same kind and with the same target.  Only of URLs is it asked that
they stand at related positions. -/
structure PartAlike (At : Position → Position → Prop) (p p' : Part) : Prop where
  kind_eq : p.kind = p'.kind
  uri_eq : p.uri = p'.uri
  position : p.kind = .uri → At p.position p'.position

/-- Two values read so far that are alike. -/
structure ScanAlike (At : Position → Position → Prop) (scan scan' : ValueScan) : Prop where
  parts : List.Forall₂ (PartAlike At) scan.parts scan'.parts
  important_eq : scan.important = scan'.important
  faults : List.Forall₂ (FaultAlike At) scan.faults scan'.faults

section Values
variable {L : Relayout} {scan scan' : ValueScan} {t t' : Token} {ts ts' : List Token}

/-- A token that is a part of its own. -/
theorem add_single_alike (h : ScanAlike L.At scan scan')
    (ht : TokenAlike L.src L.src' L.At t t') :
    ScanAlike L.At (scan.add L.src t []) (scan'.add L.src' t' []) := by
  refine ⟨forall₂_concat h.parts ⟨?_, ?_, fun _ => ht.place⟩, h.important_eq, h.faults⟩
  · exact congrArg TokenKind.part ht.kind_eq
  · have htext : L.src.text t.span = L.src'.text t'.span := ht.text_eq
    simp only [List.map_nil, List.foldl_nil, ht.kind_eq, htext]

/-- A group is no URL, so that neither its text nor its place matters. -/
theorem add_group_alike (h : ScanAlike L.At scan scan')
    (ht : TokenAlike L.src L.src' L.At t t') (hgroup : t.kind.opensGroup = true)
    (more more' : List Token) :
    ScanAlike L.At (scan.add L.src t more) (scan'.add L.src' t' more') := by
  have hurl : t.kind ≠ .url := TokenKind.ne_url_of_opensGroup hgroup
  refine ⟨forall₂_concat h.parts ⟨?_, ?_, ?_⟩, h.important_eq, h.faults⟩
  · exact congrArg TokenKind.part ht.kind_eq
  · simp only [← ht.kind_eq, hurl, if_false]
  · intro hkind
    exact absurd hkind (TokenKind.part_ne_uri hurl)

theorem atImportant_alike (h : L.Tokens ts ts') :
    L.src.atImportant ts = L.src'.atImportant ts' := by
  have hpeek := peek_alike h
  simp only [Source.atImportant, hpeek.kind_eq, hpeek.text_eq]

theorem readParts_alike (h : ScanAlike L.At scan scan') (hts : L.Tokens ts ts') :
    ScanAlike L.At (readParts L.src scan ts).1 (readParts L.src' scan' ts').1 ∧
      L.Tokens (readParts L.src scan ts).2 (readParts L.src' scan' ts').2 := by
  -- the induction follows the first reading; the second one takes the same step each time
  refine readParts_rec
    (P := fun scan ts out => ∀ scan' ts', ScanAlike L.At scan scan' → L.Tokens ts ts' →
      ScanAlike L.At out.1 (readParts L.src' scan' ts').1 ∧
        L.Tokens out.2 (readParts L.src' scan' ts').2)
    ?nil ?stop ?important ?bang ?group ?single scan ts scan' ts' h hts
  case nil =>
    rintro scan scan' _ h ⟨⟩
    rw [readParts_nil]
    exact ⟨h, .nil⟩
  case stop =>
    rintro scan t ts hstop scan' _ h (_ | ⟨ht, hts⟩)
    rw [readParts_stop _ _ _ (ht.kind_eq ▸ hstop)]
    exact ⟨h, .cons ht hts⟩
  case important =>
    rintro scan t ts out hbang hword ih scan' _ h (_ | ⟨ht, hts⟩)
    rw [readParts_important _ _ _ (ht.kind_eq ▸ hbang) (atImportant_alike hts ▸ hword)]
    exact ih _ _ ⟨h.parts, rfl, h.faults⟩ (tail_alike hts)
  case bang =>
    rintro scan t ts out hbang hword ih scan' _ h (_ | ⟨ht, hts⟩)
    rw [readParts_bang _ _ _ (ht.kind_eq ▸ hbang) (atImportant_alike hts ▸ hword)]
    refine ih _ _ ⟨h.parts, h.important_eq, ?_⟩ hts
    exact forall₂_concat h.faults (unexpected_alike hts _)
  case group =>
    rintro scan t ts out hgroup ih scan' _ h (_ | ⟨ht, hts⟩)
    rw [readParts_group _ _ _ (ht.kind_eq ▸ hgroup)]
    exact ih _ _ (add_group_alike h ht hgroup _ _) (splitGroup_alike hts 1)
  case single =>
    rintro scan t ts out hstop hbang hgroup ih scan' _ h (_ | ⟨ht, hts⟩)
    rw [readParts_single _ _ _ (ht.kind_eq ▸ hstop) (ht.kind_eq ▸ hbang) (ht.kind_eq ▸ hgroup)]
    exact ih _ _ (add_single_alike h ht) hts

end Values

/-! ### Events -/

/-- An event without its positions and without the texts that are made of several tokens. -/
inductive Outline where
  | importRule (uri : String)
  | declaration (name : String) (hack : Option Hack) (important : Bool)
      (parts : List (PartKind × Option String))
  | startBlock (kind : BlockKind)
  | endBlock (kind : BlockKind)
  deriving DecidableEq, Repr

/-- The outline of an event. -/
def Event.outline : Event → Outline
  | importRule statement => .importRule statement.uri
  | declaration decl =>
    .declaration decl.name decl.hack decl.important
      (decl.value.parts.map fun part => (part.kind, part.uri))
  | startBlock kind _ _ => .startBlock kind
  | endBlock kind _ _ => .endBlock kind

/-- Two references to the same path at related positions. -/
structure ReferenceAlike (At : Position → Position → Prop) (r r' : Reference) : Prop where
  path_eq : r.path = r'.path
  position : At r.position r'.position

/-- Two events of the same outline whose references are alike. -/
structure EventAlike (At : Position → Position → Prop) (e e' : Event) : Prop where
  outline_eq : e.outline = e'.outline
  references : List.Forall₂ (ReferenceAlike At) e.references e'.references

section Events
variable {At : Position → Position → Prop}

/-- Values that are alike have references that are alike. -/
theorem references_alike {decl decl' : Declaration} (hname : decl.name = decl'.name)
    (h : List.Forall₂ (PartAlike At) decl.value.parts decl'.value.parts) :
    List.Forall₂ (ReferenceAlike At) decl.references decl'.references := by
  simp only [Declaration.references, hname]
  generalize decl.value.parts = parts at h
  generalize decl'.value.parts = parts' at h
  split
  · induction h with
    | nil => exact .nil
    | @cons p p' _ _ hp _ ih =>
      rw [List.filter_cons, List.filter_cons, hp.kind_eq]
      split
      · rename_i huri
        refine .cons ⟨?_, ?_⟩ ih
        · exact congrArg (fun uri => Option.getD uri "") hp.uri_eq
        · exact hp.position (hp.kind_eq.trans (beq_iff_eq.mp huri))
      · exact ih
  · exact .nil

end Events

/-! ### Items -/

/-- Two items that are alike in all they yield. -/
structure ItemAlike (L : Relayout) (item item' : Item) : Prop where
  events : List.Forall₂ (EventAlike L.At) item.events item'.events
  faults : List.Forall₂ (FaultAlike L.At) item.faults item'.faults
  opened_eq : item.opened = item'.opened
  rest : L.Tokens item.rest item'.rest

section Items
variable {L : Relayout} {t t' : Token} {ts ts' : List Token} {position position' : Position}

theorem skip_alike (hts : L.Tokens ts ts') : ItemAlike L { rest := ts } { rest := ts' } :=
  ⟨.nil, .nil, rfl, hts⟩

/-- Items that yield a fault and nothing else. -/
theorem blame_alike {f f' : Fault} (hf : FaultAlike L.At f f') (hts : L.Tokens ts ts') :
    ItemAlike L { faults := [f], rest := ts } { faults := [f'], rest := ts' } :=
  ⟨.nil, .cons hf .nil, rfl, hts⟩

theorem openBlock_alike (kind : BlockKind) (header header' : String) (hts : L.Tokens ts ts') :
    ItemAlike L (openBlock L.src kind header position ts)
      (openBlock L.src' kind header' position' ts') := by
  simp only [openBlock, (peek_alike hts).kind_eq]
  split
  · exact ⟨.cons ⟨rfl, .nil⟩ .nil, .nil, rfl, tail_alike hts⟩
  · exact blame_alike (unexpected_alike hts _) (eatSemicolon_alike hts)

theorem readBlock_alike (kind : BlockKind) (hts : L.Tokens ts ts') :
    ItemAlike L (readBlock L.src kind position ts) (readBlock L.src' kind position' ts') :=
  openBlock_alike kind _ _ (afterHeader_alike hts)

theorem importTarget?_alike (ht : TokenAlike L.src L.src' L.At t t') :
    L.src.importTarget? t = L.src'.importTarget? t' := by
  simp only [Source.importTarget?, ht.kind_eq, ht.text_eq]

theorem readImport_alike (hposition : L.At position position') (hts : L.Tokens ts ts') :
    ItemAlike L (readImport L.src position ts) (readImport L.src' position' ts') := by
  have hrest := afterHeader_alike (tail_alike hts)
  simp only [readImport, importTarget?_alike (peek_alike hts), (peek_alike hrest).kind_eq]
  split
  · exact blame_alike (fault_alike hts _) (skipDeclaration_alike hts)
  · refine ⟨.cons ⟨rfl, .cons ⟨rfl, hposition⟩ .nil⟩ .nil, ?_, rfl, eatSemicolon_alike hrest⟩
    split
    · exact .nil
    · exact .cons (unexpected_alike hrest _) .nil

theorem readAtRule_alike (ht : TokenAlike L.src L.src' L.At t t') (hts : L.Tokens ts ts') :
    ItemAlike L (readAtRule L.src t ts) (readAtRule L.src' t' ts') := by
  simp only [readAtRule, ht.text_eq]
  split
  · exact readImport_alike ht.place hts
  · exact skip_alike (skipDeclaration_alike hts)
  · exact readBlock_alike _ hts
  · exact blame_alike (fault_alike (.cons ht hts) _) (skipDeclaration_alike hts)

theorem readNamed_alike (starred : Bool) (ht : TokenAlike L.src L.src' L.At t t')
    (hts : L.Tokens ts ts') :
    ItemAlike L (readNamed L.src starred position t ts)
      (readNamed L.src' starred position' t' ts') := by
  have hempty : ScanAlike L.At {} {} := ⟨.nil, rfl, .nil⟩
  obtain ⟨hscan, hrest⟩ := readParts_alike hempty (tail_alike hts)
  simp only [readNamed, ht.text_eq, (peek_alike hts).kind_eq, (peek_alike hrest).kind_eq,
    isEmpty_eq_of_forall₂ hscan.parts]
  split
  · exact blame_alike (unexpected_alike hts _) (skipDeclaration_alike hts)
  · split
    · exact ⟨.nil, forall₂_concat hscan.faults (unexpected_alike hrest _), rfl,
        skipBlock_alike hrest 0⟩
    · split
      · exact ⟨.nil, forall₂_concat hscan.faults (fault_alike hrest _), rfl,
          eatSemicolon_alike hrest⟩
      · refine ⟨.cons ⟨?_, references_alike rfl hscan.parts⟩ .nil, hscan.faults, rfl,
          eatSemicolon_alike hrest⟩
        have hparts := map_eq_of_forall₂ (f := fun part : Part => (part.kind, part.uri))
          (g := fun part : Part => (part.kind, part.uri))
          (fun p p' hp => Prod.ext hp.kind_eq hp.uri_eq) hscan.parts
        simp only [Event.outline, ValueScan.value, hscan.important_eq, hparts]

theorem readStarred_alike (hts : L.Tokens ts ts') :
    ItemAlike L (readStarred L.src position ts) (readStarred L.src' position' ts') := by
  cases hts with
  | nil => exact blame_alike (unexpected_alike .nil _) .nil
  | cons ht hts =>
    simp only [readStarred, ht.kind_eq]
    split
    · exact readNamed_alike true ht hts
    · exact blame_alike (unexpected_alike (.cons ht hts) _) (skipDeclaration_alike (.cons ht hts))

theorem readDeclaration_alike (margins : Bool) (ht : TokenAlike L.src L.src' L.At t t')
    (hts : L.Tokens ts ts') :
    ItemAlike L (readDeclaration L.src margins t ts) (readDeclaration L.src' margins t' ts') := by
  simp only [readDeclaration, ht.kind_eq, ht.text_eq]
  split
  · exact skip_alike hts
  · split
    · exact openBlock_alike _ _ _ hts
    · exact blame_alike (fault_alike (.cons ht hts) _) (skipDeclaration_alike hts)
  · exact readNamed_alike false ht hts
  · exact readStarred_alike hts
  · exact blame_alike (unexpected_alike (.cons ht hts) _) (skipDeclaration_alike (.cons ht hts))

/-- From tokens that are alike, items that are alike are read. -/
theorem readItem_alike (body : Body) (ht : TokenAlike L.src L.src' L.At t t')
    (hts : L.Tokens ts ts') :
    ItemAlike L (readItem L.src body t ts) (readItem L.src' body t' ts') := by
  simp only [readItem, ht.kind_eq]
  split
  · split
    · exact skip_alike hts
    · exact readAtRule_alike ht hts
    · exact readBlock_alike _ (.cons ht hts)
  · split
    · exact skip_alike hts
    · exact readAtRule_alike ht hts
    · exact readBlock_alike _ (.cons ht hts)
  · split
    · exact skip_alike hts
    · exact readBlock_alike _ (.cons ht hts)
  · exact readDeclaration_alike true ht hts
  · exact readDeclaration_alike false ht hts

end Items

/-! ### Stylesheets -/

/-- Two stylesheets whose events and faults are alike. -/
structure SheetAlike (At : Position → Position → Prop) (sheet sheet' : Stylesheet) : Prop where
  events : List.Forall₂ (EventAlike At) sheet.events sheet'.events
  faults : List.Forall₂ (FaultAlike At) sheet.faults sheet'.faults

theorem SheetAlike.append {At : Position → Position → Prop} {a a' b b' : Stylesheet}
    (h : SheetAlike At a a') (h' : SheetAlike At b b') : SheetAlike At (a ++ b) (a' ++ b') :=
  ⟨List.rel_append h.events h'.events, List.rel_append h.faults h'.faults⟩

section Sheets
variable {L : Relayout} {ts ts' : List Token}

theorem atEnd_alike (hts : L.Tokens ts ts') (h : AtEnd ts) : AtEnd ts' := by
  cases hts with
  | nil => exact h
  | @cons t t' _ _ ht _ =>
    have heof : t.kind = .eof := h t rfl
    intro u hu
    obtain rfl := Option.mem_some.mp hu
    exact ht.kind_eq ▸ heof

theorem endSheet_alike (nest : List BlockKind) (hts : L.Tokens ts ts') :
    SheetAlike L.At (endSheet L.src nest ts) (endSheet L.src' nest ts') := by
  induction nest with
  | nil => exact ⟨.nil, .nil⟩
  | cons kind outer ih =>
    exact ⟨.cons ⟨rfl, .nil⟩ ih.events, .cons (fault_alike hts _) ih.faults⟩

/-- **Reading does not look at places.**  From tokens that are alike, stylesheets that are
alike are read. -/
theorem sheetFrom_alike (base : Body) (nest : List BlockKind) (hts : L.Tokens ts ts') :
    SheetAlike L.At (sheetFrom L.src base nest ts) (sheetFrom L.src' base nest ts') := by
  refine sheetFrom_rec
    (P := fun nest ts sheet => ∀ ts', L.Tokens ts ts' →
      SheetAlike L.At sheet (sheetFrom L.src' base nest ts'))
    ?atEnd ?close ?stray ?leave ?item nest ts ts' hts
  case atEnd =>
    intro nest ts hend ts' hts
    rw [sheetFrom_atEnd nest (atEnd_alike hts hend)]
    exact endSheet_alike nest hts
  case close =>
    rintro kind outer t ts sheet hb ih _ (_ | ⟨ht, hts⟩)
    rw [sheetFrom_close kind outer _ (ht.kind_eq ▸ hb)]
    exact SheetAlike.append ⟨.cons ⟨rfl, .nil⟩ .nil, .nil⟩ (ih _ hts)
  case stray =>
    rintro rfl t ts sheet hb ih _ (_ | ⟨ht, hts⟩)
    rw [sheetFrom_stray _ (ht.kind_eq ▸ hb)]
    exact SheetAlike.append ⟨.nil, .cons (unexpected_alike (.cons ht hts) .rule) .nil⟩ (ih _ hts)
  case leave =>
    rintro hbase t ts hb _ (_ | ⟨ht, hts⟩)
    rw [sheetFrom_leave _ (ht.kind_eq ▸ hb) hbase]
    exact ⟨.nil, .nil⟩
  case item =>
    rintro nest t ts sheet he hb ih _ (_ | ⟨ht, hts⟩)
    rw [sheetFrom_item nest _ (ht.kind_eq ▸ he) (ht.kind_eq ▸ hb)]
    -- both items open the same block, so both readings go on in the same nest
    have hitem := readItem_alike (innermost base nest) ht hts
    refine SheetAlike.append ⟨hitem.events, hitem.faults⟩ ?_
    rw [← hitem.opened_eq]
    exact ih _ hitem.rest

end Sheets
end SheetLint
