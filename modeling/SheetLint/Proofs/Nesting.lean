import SheetLint.Proofs.Reading

/-! # Blocks are nested

The events of a stylesheet are a word of a grammar of nested blocks (`WellNested`): every
block that starts is ended by an event of its own kind at its own level, and what stands
between the two is what the kind of the block admits.  This holds of every source, also of
one that leaves blocks open or is broken in other ways.

While a stylesheet is read, the open blocks wait for their ends.  The events still to come
must complete them, innermost first (`Completes`), and every step of a reading keeps this
(`completes_sheetFrom`).  What a single item may add is said once, in `ItemShape`.
-/
namespace SheetLint

/-! ### The grammar -/

namespace Body

/-- Whether imports may stand in a body. -/
def holdsImports : Body → Bool
  | sheet | rules => true
  | keyframes | page | declarations => false

/-- Whether declarations may stand in a body. -/
def holdsDeclarations : Body → Bool
  | page | declarations => true
  | sheet | rules | keyframes => false

/-- The kinds of blocks that may stand in a body. -/
def blocks : Body → List BlockKind
  | sheet | rules =>
    [.rule, .fontFace, .page, .viewport, .keyframes, .media, .supports, .document]
  | keyframes => [.keyframeRule]
  | page => [.pageMargin]
  | declarations => []

end Body

/-- The words of a body: sequences of the imports, declarations and blocks it admits.  A
block is its start, a word of its own body, and its end. -/
inductive WellNested : Body → List Event → Prop where
  | nil {body : Body} : WellNested body []
  | importRule {body : Body} {es : List Event} (statement : ImportRule)
      (h : body.holdsImports = true) (hes : WellNested body es) :
      WellNested body (.importRule statement :: es)
  | declaration {body : Body} {es : List Event} (decl : Declaration)
      (h : body.holdsDeclarations = true) (hes : WellNested body es) :
      WellNested body (.declaration decl :: es)
  | block {body : Body} {kind : BlockKind} {inner es : List Event} (header : String)
      (start stop : Position) (h : kind ∈ body.blocks) (hinner : WellNested kind.body inner)
      (hes : WellNested body es) :
      WellNested body
        (.startBlock kind header start :: (inner ++ .endBlock kind "" stop :: es))

/-! ### What an item adds -/

/-- What an item of a body adds: nothing, an import, a declaration, or the start of a block
that is then open. -/
inductive ItemShape (body : Body) (item : Item) : Prop where
  | silent (hevents : item.events = []) (hopened : item.opened = none)
  | importRule (statement : ImportRule) (h : body.holdsImports = true)
      (hevents : item.events = [.importRule statement]) (hopened : item.opened = none)
  | declaration (decl : Declaration) (h : body.holdsDeclarations = true)
      (hevents : item.events = [.declaration decl]) (hopened : item.opened = none)
  | block (kind : BlockKind) (header : String) (start : Position) (h : kind ∈ body.blocks)
      (hevents : item.events = [.startBlock kind header start])
      (hopened : item.opened = some kind)

section Shapes
variable (src : Source) {body : Body}

theorem openBlock_shape {kind : BlockKind} (h : kind ∈ body.blocks) (header : String)
    (position : Position) (ts : List Token) :
    ItemShape body (openBlock src kind header position ts) := by
  unfold openBlock
  split
  · exact .block kind header position h rfl rfl
  · exact .silent rfl rfl

theorem readBlock_shape {kind : BlockKind} (h : kind ∈ body.blocks) (position : Position)
    (ts : List Token) : ItemShape body (readBlock src kind position ts) :=
  openBlock_shape src h _ position _

theorem readImport_shape (h : body.holdsImports = true) (position : Position)
    (ts : List Token) : ItemShape body (readImport src position ts) := by
  unfold readImport
  split
  · exact .silent rfl rfl
  · exact .importRule _ h rfl rfl

/-- An at-rule that opens no block, or one that may stand among rules. -/
def AtRule.FitsRules (rule : AtRule) : Prop :=
  ∀ kind, rule = .block kind → kind ∈ Body.rules.blocks

theorem AtRule.FitsRules.ite {c : Prop} [Decidable c] {a b : AtRule} (ha : a.FitsRules)
    (hb : b.FitsRules) : (if c then a else b).FitsRules := by
  split
  · exact ha
  · exact hb

/-- Whatever the keyword, the at-rule may stand among rules. -/
theorem ofKeyword_fitsRules (keyword : String) : (AtRule.ofKeyword keyword).FitsRules := by
  unfold AtRule.ofKeyword
  -- each answer is admitted, so it does not matter which keyword leads to it
  repeat' apply AtRule.FitsRules.ite
  all_goals rintro kind ⟨⟩
  all_goals decide

/-- The blocks that at-keywords introduce may stand wherever imports may. -/
theorem mem_blocks_of_ofKeyword (hbody : body.holdsImports = true) {keyword : String}
    {kind : BlockKind} (h : AtRule.ofKeyword keyword = .block kind) : kind ∈ body.blocks := by
  have hblocks : body.blocks = Body.rules.blocks := by
    cases body <;> first | rfl | cases hbody
  rw [hblocks]
  exact ofKeyword_fitsRules keyword kind h

theorem readAtRule_shape (h : body.holdsImports = true) (t : Token) (ts : List Token) :
    ItemShape body (readAtRule src t ts) := by
  unfold readAtRule
  dsimp only
  split
  · exact readImport_shape src h _ ts
  · exact .silent rfl rfl
  · rename_i kind hkind
    exact readBlock_shape src (mem_blocks_of_ofKeyword h hkind) _ ts
  · exact .silent rfl rfl

theorem readNamed_shape (h : body.holdsDeclarations = true) (starred : Bool)
    (position : Position) (t : Token) (ts : List Token) :
    ItemShape body (readNamed src starred position t ts) := by
  unfold readNamed
  dsimp only
  split
  · exact .silent rfl rfl
  · split
    · exact .silent rfl rfl
    · split
      · exact .silent rfl rfl
      · exact .declaration _ h rfl rfl

theorem readStarred_shape (h : body.holdsDeclarations = true) (position : Position)
    (ts : List Token) : ItemShape body (readStarred src position ts) := by
  unfold readStarred
  split
  · split
    · exact readNamed_shape src h true position _ _
    · exact .silent rfl rfl
  · exact .silent rfl rfl

theorem readDeclaration_shape (h : body.holdsDeclarations = true) {margins : Bool}
    (hmargins : margins = true → .pageMargin ∈ body.blocks) (t : Token) (ts : List Token) :
    ItemShape body (readDeclaration src margins t ts) := by
  unfold readDeclaration
  dsimp only
  split
  · exact .silent rfl rfl
  · split
    · rename_i hm
      exact openBlock_shape src (hmargins hm) _ _ ts
    · exact .silent rfl rfl
  · exact readNamed_shape src h false _ t ts
  · exact readStarred_shape src h _ ts
  · exact .silent rfl rfl

/-- Every item adds what its body admits. -/
theorem readItem_shape (body : Body) (t : Token) (ts : List Token) :
    ItemShape body (readItem src body t ts) := by
  unfold readItem
  split
  · split
    · exact .silent rfl rfl
    · exact readAtRule_shape src rfl t ts
    · exact readBlock_shape src (by decide) _ _
  · split
    · exact .silent rfl rfl
    · exact readAtRule_shape src rfl t ts
    · exact readBlock_shape src (by decide) _ _
  · split
    · exact .silent rfl rfl
    · exact readBlock_shape src (by decide) _ _
  · exact readDeclaration_shape src rfl (fun _ => by decide) t ts
  · exact readDeclaration_shape src rfl (fun h => by cases h) t ts

end Shapes

/-! ### Open blocks are completed -/

/-- The events complete the blocks of `nest`, innermost first, and what follows the last
of their ends is a word of `base`. -/
def Completes (base : Body) : List BlockKind → List Event → Prop
  | [], es => WellNested base es
  | kind :: outer, es =>
    ∃ inner stop rest, es = inner ++ .endBlock kind "" stop :: rest ∧
      WellNested kind.body inner ∧ Completes base outer rest

/-- What may stand in front of the words of the innermost body may stand in front of what
completes all of them. -/
theorem Completes.prepend {base : Body} {nest : List BlockKind} {es front : List Event}
    (h : Completes base nest es)
    (hfront : ∀ w, WellNested (innermost base nest) w →
      WellNested (innermost base nest) (front ++ w)) :
    Completes base nest (front ++ es) := by
  cases nest with
  | nil => exact hfront es h
  | cons kind outer =>
    obtain ⟨inner, stop, rest, rfl, hinner, hrest⟩ := h
    exact ⟨front ++ inner, stop, rest, by simp, hfront inner hinner, hrest⟩

theorem Completes.start {base : Body} {nest : List BlockKind} {kind : BlockKind}
    {es : List Event} (hkind : kind ∈ (innermost base nest).blocks) (header : String)
    (start : Position) (h : Completes base (kind :: nest) es) :
    Completes base nest (.startBlock kind header start :: es) := by
  obtain ⟨inner, stop, rest, rfl, hinner, hrest⟩ := h
  have hblock : Completes base nest
      ((.startBlock kind header start :: (inner ++ [.endBlock kind "" stop])) ++ rest) := by
    refine hrest.prepend fun w hw => ?_
    have hword := WellNested.block header start stop hkind hinner hw
    simpa using hword
  simpa using hblock

theorem completes_endSheet (src : Source) (base : Body) (nest : List BlockKind)
    (ts : List Token) : Completes base nest (endSheet src nest ts).events := by
  induction nest with
  | nil => exact .nil
  | cons kind outer ih => exact ⟨[], _, (endSheet src outer ts).events, rfl, .nil, ih⟩

/-- An item and what completes the blocks behind it complete the blocks in front of it. -/
theorem completes_item {base : Body} {nest : List BlockKind} {item : Item} {es : List Event}
    (hshape : ItemShape (innermost base nest) item)
    (h : Completes base (item.opened.toList ++ nest) es) :
    Completes base nest (item.events ++ es) := by
  cases hshape with
  | silent hevents hopened =>
    rw [hopened] at h
    rw [hevents]
    exact h
  | importRule statement himports hevents hopened =>
    rw [hopened] at h
    rw [hevents]
    exact Completes.prepend h fun w hw => .importRule statement himports hw
  | declaration decl hdecls hevents hopened =>
    rw [hopened] at h
    rw [hevents]
    exact Completes.prepend h fun w hw => .declaration decl hdecls hw
  | block kind header start hkind hevents hopened =>
    rw [hopened] at h
    rw [hevents]
    exact h.start hkind header start

/-- The events of a reading complete the blocks that were open when it began. -/
theorem completes_sheetFrom (src : Source) (base : Body) (nest : List BlockKind)
    (ts : List Token) : Completes base nest (sheetFrom src base nest ts).events := by
  refine sheetFrom_rec (P := fun nest _ sheet => Completes base nest sheet.events)
    ?atEnd ?close ?stray ?leave ?item nest ts
  case atEnd =>
    intro nest ts _
    exact completes_endSheet src base nest ts
  case close =>
    intro kind outer t ts sheet _ ih
    exact ⟨[], _, sheet.events, rfl, .nil, ih⟩
  case stray =>
    intro _ t ts sheet _ ih
    exact ih
  case leave =>
    intro _ t ts _
    exact .nil
  case item =>
    intro nest t ts sheet _ _ ih
    exact completes_item (readItem_shape src _ t ts) ih

/-! ### Every event stands where it may -/

namespace Event

/-- The blocks that are open behind an event, innermost first, when those of `nest` are
open in front of it. -/
def openBehind (nest : List BlockKind) : Event → List BlockKind
  | importRule _ | declaration _ => nest
  | startBlock kind _ _ => kind :: nest
  | endBlock _ _ _ => nest.tail

/-- Whether an event may happen while the blocks of `nest` are open, innermost first.  An
`@import` stands only inside blocks of rules, a declaration only directly inside a block
that holds some, a block only where its kind is admitted; an end is that of the innermost
block and has nothing in its header. -/
def Fits (nest : List BlockKind) : Event → Prop
  | importRule _ => ∀ kind ∈ nest, kind.body = .rules
  | declaration _ => ∃ kind ∈ nest.head?, kind.body.holdsDeclarations = true
  | startBlock kind _ _ => kind ∈ (innermost .sheet nest).blocks
  | endBlock kind header _ => nest.head? = some kind ∧ header = ""

end Event

/-- The blocks that are open behind some events. -/
def openBlocks (nest : List BlockKind) (es : List Event) : List BlockKind :=
  es.foldl Event.openBehind nest

/-- Each of the events may happen where it stands. -/
def Fitting (nest : List BlockKind) : List Event → Prop
  | [] => True
  | e :: es => e.Fits nest ∧ Fitting (e.openBehind nest) es

theorem fitting_append {nest : List BlockKind} {as bs : List Event} :
    Fitting nest (as ++ bs) ↔ Fitting nest as ∧ Fitting (openBlocks nest as) bs := by
  induction as generalizing nest with
  | nil => simp [Fitting, openBlocks]
  | cons a as ih => simp only [List.cons_append, Fitting, ih, and_assoc, openBlocks,
      List.foldl_cons]

theorem fits_of_fitting {nest : List BlockKind} {es : List Event} (h : Fitting nest es)
    (i : Fin es.length) : es[i].Fits (openBlocks nest (es.take i)) := by
  have hsplit : es = es.take i ++ es[i] :: es.drop (i + 1) := by simp
  rw [hsplit, fitting_append] at h
  exact h.2.1

/-- A word closes all blocks it starts. -/
theorem WellNested.openBlocks_eq {body : Body} {es : List Event} (h : WellNested body es)
    (nest : List BlockKind) : openBlocks nest es = nest := by
  induction h generalizing nest with
  | nil => rfl
  | importRule statement _ _ ih => exact ih nest
  | declaration decl _ _ ih => exact ih nest
  | @block _ kind inner es _ _ _ _ _ _ ihinner ihes =>
    have hinner : List.foldl Event.openBehind (kind :: nest) inner = kind :: nest :=
      ihinner (kind :: nest)
    simp only [openBlocks, List.foldl_cons, List.foldl_append, Event.openBehind, hinner]
    exact ihes nest

/-- The blocks of `nest` lead to a body: it is that of the innermost of them, and if imports
may stand in it, all of them are blocks of rules. -/
structure LeadsTo (nest : List BlockKind) (body : Body) : Prop where
  innermost_eq : innermost .sheet nest = body
  rules_of_imports : body.holdsImports = true → ∀ kind ∈ nest, kind.body = .rules

theorem LeadsTo.push {nest : List BlockKind} {body : Body} (h : LeadsTo nest body)
    {kind : BlockKind} (hkind : kind ∈ body.blocks) : LeadsTo (kind :: nest) kind.body where
  innermost_eq := rfl
  rules_of_imports := by
    intro himports k hk
    -- only a block of rules holds imports, and it stands only where imports may stand
    have hrules : kind.body = .rules ∧ body.holdsImports = true := by
      revert hkind himports
      cases body <;> cases kind <;> decide
    rcases List.mem_cons.mp hk with rfl | hk
    · exact hrules.1
    · exact h.rules_of_imports hrules.2 k hk

theorem LeadsTo.head {nest : List BlockKind} {body : Body} (h : LeadsTo nest body)
    (hdecls : body.holdsDeclarations = true) :
    ∃ kind ∈ nest.head?, kind.body.holdsDeclarations = true := by
  cases nest with
  | nil =>
    rw [← h.innermost_eq] at hdecls
    cases hdecls
  | cons kind outer =>
    have hbody : kind.body = body := h.innermost_eq
    exact ⟨kind, rfl, hbody ▸ hdecls⟩

/-- In a word of the body that the open blocks lead to, each event stands where it may. -/
theorem WellNested.fitting {body : Body} {es : List Event} (h : WellNested body es)
    {nest : List BlockKind} (hnest : LeadsTo nest body) : Fitting nest es := by
  induction h generalizing nest with
  | nil => trivial
  | importRule statement himports _ ih => exact ⟨hnest.rules_of_imports himports, ih hnest⟩
  | declaration decl hdecls _ ih => exact ⟨hnest.head hdecls, ih hnest⟩
  | block header start stop hkind hinner _ ihinner ihes =>
    refine ⟨?_, fitting_append.mpr ⟨ihinner (hnest.push hkind), ?_⟩⟩
    · rw [Event.Fits, hnest.innermost_eq]
      exact hkind
    · rw [Event.openBehind, hinner.openBlocks_eq]
      exact ⟨⟨rfl, rfl⟩, ihes hnest⟩

/-- **The events of every stylesheet are nested blocks.**  They are a word of the grammar
that starts from a sheet.  In particular each of them stands where it may: no declaration
outside a block, no import inside a block of declarations, and every end has an empty
header and is that of the innermost open block. -/
theorem events_wellNested (text : String) :
    WellNested .sheet (Stylesheet.ofString text).events ∧
      ∀ i : Fin (Stylesheet.ofString text).events.length,
        (Stylesheet.ofString text).events[i].Fits
          (openBlocks [] ((Stylesheet.ofString text).events.take i)) := by
  have hword : WellNested .sheet (Stylesheet.ofString text).events :=
    completes_sheetFrom (.ofString text) .sheet [] (Source.ofString text).tokens
  have hroot : LeadsTo [] .sheet := ⟨rfl, fun _ kind hkind => by cases hkind⟩
  exact ⟨hword, fits_of_fitting (hword.fitting hroot)⟩

end SheetLint
