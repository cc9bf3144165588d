import SheetLint.Proofs.Cursor
import SheetLint.Resource.Reference

/-! # References come in the order of the source

Every reference stands at the start of a token.  An item takes tokens from the front of
those that are left, and the places it speaks of are, in their order, places of tokens it
has taken (`Item.Within`).  So the references of all events of a stylesheet stand, one
behind the other, at places of tokens of the source, and those are strictly increasing
(`references_ordered`).
-/
namespace SheetLint

/-! ### Skipping leaves a suffix -/

theorem skipBlock_suffix (depth : Nat) (ts : List Token) : skipBlock depth ts <:+ ts :=
  (skipBlock_ahead depth ts).suffix

theorem skipDeclaration_suffix (ts : List Token) : skipDeclaration ts <:+ ts :=
  (skipDeclaration_ahead ts).suffix

theorem eatSemicolon_suffix (ts : List Token) : eatSemicolon ts <:+ ts :=
  (eatSemicolon_ahead ts).suffix

theorem afterHeader_suffix (ts : List Token) : afterHeader ts <:+ ts :=
  (afterHeader_ahead ts).suffix

/-- Behind the token that ends a header stands a part of what follows the first token. -/
theorem tail_afterHeader_suffix (t : Token) (ts : List Token) :
    (afterHeader (t :: ts)).tail <:+ ts := by
  rw [afterHeader, List.dropWhile_cons]
  split
  · exact (List.tail_suffix _).trans (afterHeader_suffix ts)
  · exact List.suffix_rfl

theorem splitGroup_suffix (parens : Nat) (ts : List Token) : (splitGroup parens ts).2 <:+ ts :=
  (splitGroup_ahead parens ts).suffix

/-! ### The places of a value -/

/-- The places of the URLs among the parts that have been read. -/
def ValueScan.urlPlaces (scan : ValueScan) : List Position :=
  (scan.parts.filter fun part => part.kind == .uri).map Part.position

section Places
variable {src : Source}

theorem urlPlaces_add_url (scan : ValueScan) {t : Token} (h : t.kind = .url) :
    (scan.add src t []).urlPlaces = scan.urlPlaces ++ [src.place t] := by
  simp [ValueScan.urlPlaces, ValueScan.add, h, TokenKind.part, Source.place]

theorem urlPlaces_add_other (scan : ValueScan) {t : Token} (more : List Token)
    (h : t.kind ≠ .url) : (scan.add src t more).urlPlaces = scan.urlPlaces := by
  simp [ValueScan.urlPlaces, ValueScan.add, TokenKind.part_ne_uri h]

/-- The URLs that reading a value adds, and the tokens it leaves, stand in this order at
places of the tokens it is given. -/
theorem readParts_places (src : Source) (scan : ValueScan) (ts : List Token) :
    ∃ more, (readParts src scan ts).1.urlPlaces = scan.urlPlaces ++ more ∧
      (more ++ (readParts src scan ts).2.map src.place).Sublist (ts.map src.place) := by
  refine readParts_rec (P := fun scan ts out => ∃ more, out.1.urlPlaces = scan.urlPlaces ++ more ∧
    (more ++ out.2.map src.place).Sublist (ts.map src.place))
    ?nil ?stop ?important ?bang ?group ?single scan ts
  case nil =>
    intro scan
    exact ⟨[], by simp, .refl _⟩
  case stop =>
    intro scan t ts _
    exact ⟨[], by simp, .refl _⟩
  case important =>
    rintro scan t ts out - - ⟨more, hmore, hsub⟩
    have htail : (ts.tail.map src.place).Sublist (ts.map src.place) := (List.tail_sublist ts).map _
    exact ⟨more, hmore, (hsub.trans htail).cons _⟩
  case bang =>
    rintro scan t ts out - - ⟨more, hmore, hsub⟩
    exact ⟨more, hmore, hsub.cons _⟩
  case group =>
    rintro scan t ts out hgroup ⟨more, hmore, hsub⟩
    rw [urlPlaces_add_other scan _ (TokenKind.ne_url_of_opensGroup hgroup)] at hmore
    exact ⟨more, hmore, (hsub.trans ((splitGroup_suffix 1 ts).sublist.map _)).cons _⟩
  case single =>
    rintro scan t ts out - - - ⟨more, hmore, hsub⟩
    by_cases hurl : t.kind = .url
    · rw [urlPlaces_add_url scan hurl] at hmore
      exact ⟨src.place t :: more, by simpa using hmore, hsub.cons_cons _⟩
    · rw [urlPlaces_add_other scan _ hurl] at hmore
      exact ⟨more, hmore, hsub.cons _⟩

end Places

/-! ### The places of an item -/

namespace Event

/-- The references of an event: the target of an import, or those in a declaration. -/
def references : Event → List Reference
  | importRule statement => [statement.reference]
  | declaration decl => decl.references
  | startBlock _ _ _ | endBlock _ _ _ => []

/-- The places an event speaks of: its own, and for a declaration then those of its
references. -/
def places : Event → List Position
  | declaration decl => decl.position :: decl.references.map Reference.position
  | event => [event.position]

theorem references_places (event : Event) :
    (event.references.map Reference.position).Sublist event.places := by
  cases event with
  | importRule statement => exact .refl _
  | declaration decl => exact List.sublist_cons_self _ _
  | startBlock kind header position => exact List.nil_sublist _
  | endBlock kind header position => exact List.nil_sublist _

end Event

/-- The places an item speaks of, and those of the tokens it leaves, are in this order
among the given ones. -/
def Item.Within (src : Source) (item : Item) (places : List Position) : Prop :=
  (item.events.flatMap Event.places ++ item.rest.map src.place).Sublist places

section Within
variable {src : Source}

/-- An item without events leaves some of its tokens. -/
theorem within_of_silent {item : Item} {ts : List Token} (hevents : item.events = [])
    (hrest : item.rest <:+ ts) : item.Within src (ts.map src.place) := by
  rw [Item.Within, hevents]
  exact hrest.sublist.map _

theorem Item.Within.mono {item : Item} {places more : List Position}
    (h : item.Within src places) (hmore : places.Sublist more) : item.Within src more :=
  h.trans hmore

theorem openBlock_within (kind : BlockKind) (header : String) {t : Token} {ts us : List Token}
    (htail : us.tail <:+ ts) (hus : us <:+ t :: ts) :
    (openBlock src kind header (src.place t) us).Within src ((t :: ts).map src.place) := by
  unfold openBlock
  split
  · exact (htail.sublist.map _).cons_cons _
  · exact within_of_silent rfl ((eatSemicolon_suffix us).trans hus)

theorem readImport_within (t : Token) (ts : List Token) :
    (readImport src (src.place t) ts).Within src ((t :: ts).map src.place) := by
  unfold readImport
  split
  · exact within_of_silent rfl ((skipDeclaration_suffix ts).trans (List.suffix_cons t ts))
  · have hrest : eatSemicolon (afterHeader ts.tail) <:+ ts :=
      (eatSemicolon_suffix _).trans ((afterHeader_suffix _).trans (List.tail_suffix ts))
    exact (hrest.sublist.map _).cons_cons _

theorem readAtRule_within (t : Token) (ts : List Token) :
    (readAtRule src t ts).Within src ((t :: ts).map src.place) := by
  have hskip : skipDeclaration ts <:+ t :: ts :=
    (skipDeclaration_suffix ts).trans (List.suffix_cons t ts)
  unfold readAtRule
  dsimp only
  split
  · exact readImport_within t ts
  · exact within_of_silent rfl hskip
  · refine openBlock_within _ _ ?_ ?_
    · exact (List.tail_suffix _).trans (afterHeader_suffix ts)
    · exact (afterHeader_suffix ts).trans (List.suffix_cons t ts)
  · exact within_of_silent rfl hskip

/-- The references in a declaration stand at the places of the URLs in its value. -/
theorem references_urlPlaces (decl : Declaration) {scan : ValueScan}
    (h : decl.value.parts = scan.parts) :
    (decl.references.map Reference.position).Sublist scan.urlPlaces := by
  unfold Declaration.references
  split
  · rw [List.map_map, h]
    exact .refl _
  · exact List.nil_sublist _

theorem readNamed_within (starred : Bool) (first t : Token) (ts : List Token) :
    (readNamed src starred (src.place first) t ts).Within src
      (src.place first :: ts.map src.place) := by
  obtain ⟨more, hmore, hsub⟩ := readParts_places src {} ts.tail
  have hall : (more ++ (readParts src {} ts.tail).2.map src.place).Sublist (ts.map src.place) :=
    hsub.trans ((List.tail_sublist ts).map _)
  have hrest {rest : List Token} (h : rest <:+ (readParts src {} ts.tail).2) :
      (rest.map src.place).Sublist (ts.map src.place) :=
    (h.sublist.map _).trans ((List.sublist_append_right more _).trans hall)
  unfold readNamed
  dsimp only
  split
  · exact (within_of_silent rfl (skipDeclaration_suffix ts)).mono (List.sublist_cons_self _ _)
  · split
    · exact (hrest (skipBlock_suffix 0 _)).cons _
    · split
      · exact (hrest (eatSemicolon_suffix _)).cons _
      · -- the references stand between the name and what is left
        rw [Item.Within, List.flatMap_singleton, Event.places, List.cons_append]
        refine .cons_cons _ (List.Sublist.trans (.append ?_ ?_) hall)
        · refine (references_urlPlaces _ rfl).trans ?_
          rw [hmore]
          exact .refl _
        · exact (eatSemicolon_suffix _).sublist.map _

theorem readStarred_within (t : Token) (ts : List Token) :
    (readStarred src (src.place t) ts).Within src ((t :: ts).map src.place) := by
  unfold readStarred
  split
  · rename_i u us
    split
    · exact (readNamed_within true t u us).mono ((List.sublist_cons_self _ _).cons_cons _)
    · exact within_of_silent rfl ((skipDeclaration_suffix _).trans (List.suffix_cons t _))
  · exact within_of_silent rfl (List.nil_suffix)

theorem readDeclaration_within (margins : Bool) (t : Token) (ts : List Token) :
    (readDeclaration src margins t ts).Within src ((t :: ts).map src.place) := by
  have hts : ts <:+ t :: ts := List.suffix_cons t ts
  unfold readDeclaration
  dsimp only
  split
  · exact within_of_silent rfl hts
  · split
    · exact openBlock_within _ _ (List.tail_suffix ts) hts
    · exact within_of_silent rfl ((skipDeclaration_suffix ts).trans hts)
  · exact readNamed_within false t t ts
  · exact readStarred_within t ts
  · exact within_of_silent rfl (skipDeclaration_suffix _)

/-- The places of every item are places of the tokens it has taken. -/
theorem readItem_within (src : Source) (body : Body) (t : Token) (ts : List Token) :
    (readItem src body t ts).Within src ((t :: ts).map src.place) := by
  have hsemicolon : Item.Within src { rest := ts } ((t :: ts).map src.place) :=
    within_of_silent rfl (List.suffix_cons t ts)
  have hblock (kind : BlockKind) :
      (readBlock src kind (src.place t) (t :: ts)).Within src ((t :: ts).map src.place) :=
    openBlock_within kind _ (tail_afterHeader_suffix t ts) (afterHeader_suffix _)
  unfold readItem
  split
  · split
    · exact hsemicolon
    · exact readAtRule_within t ts
    · exact hblock _
  · split
    · exact hsemicolon
    · exact readAtRule_within t ts
    · exact hblock _
  · split
    · exact hsemicolon
    · exact hblock _
  · exact readDeclaration_within true t ts
  · exact readDeclaration_within false t ts

end Within

/-! ### The places of a stylesheet -/

/-- The references of some events, in their order. -/
def referencesOf (es : List Event) : List Reference := es.flatMap Event.references

theorem referencesOf_places (es : List Event) :
    ((referencesOf es).map Reference.position).Sublist (es.flatMap Event.places) := by
  rw [referencesOf, List.map_flatMap]
  induction es with
  | nil => exact .refl _
  | cons e es ih => exact (e.references_places).append ih

/-- The references that a reading finds stand, in their order, at places of the tokens it
is given. -/
theorem sheetFrom_places (src : Source) (base : Body) (nest : List BlockKind)
    (ts : List Token) :
    ((referencesOf (sheetFrom src base nest ts).events).map Reference.position).Sublist
      (ts.map src.place) := by
  refine sheetFrom_rec (P := fun _ ts sheet =>
    ((referencesOf sheet.events).map Reference.position).Sublist (ts.map src.place))
    ?atEnd ?close ?stray ?leave ?item nest ts
  case atEnd =>
    intro nest ts _
    have hnone : referencesOf (endSheet src nest ts).events = [] := by
      simp [referencesOf, endSheet, Event.references]
    rw [hnone]
    exact List.nil_sublist _
  case close =>
    intro kind outer t ts sheet _ ih
    exact ih.cons _
  case stray =>
    intro _ t ts sheet _ ih
    exact ih.cons _
  case leave =>
    intro _ t ts _
    exact List.nil_sublist _
  case item =>
    intro nest t ts sheet _ _ ih
    -- what follows the item is among the tokens it leaves
    have hitem := readItem_within src (innermost base nest) t ts
    refine List.Sublist.trans ?_ hitem
    rw [referencesOf, Stylesheet.events_append, List.flatMap_append, List.map_append]
    exact (referencesOf_places _).append ih

/-- **References come in order.**  Each reference of a stylesheet stands at a greater
position than the ones in front of it. -/
theorem references_ordered (src : Source) :
    (referencesOf (Stylesheet.read src).events).Pairwise fun a b =>
      a.position.Before b.position := by
  have hplaces : (src.tokens.map src.place).Pairwise Position.Before :=
    List.pairwise_map.mpr src.tokens_ordered
  rw [read_eq_sheetFrom]
  exact List.pairwise_map.mp (hplaces.sublist (sheetFrom_places src .sheet [] src.tokens))

end SheetLint
