import Mathlib.Data.List.DropRight
import SheetLint.Proofs.EventOrder

/-! # Blocks that are never closed

The end of a source ends all blocks that are open, each with an event and a fault.  Nothing is
read behind it, so these events and these faults come last.  No item, however broken, notes
such a fault of its own (`readItem_noneUnclosed`), and in front of the end a block ends only
at a `}`.

A reading therefore falls into two parts (`SplitsAtEnd`): what is found in front of the end of
the source, and what the end adds for the blocks that are open then.  Whoever reads the body of
a block stops in front of a `}` or at the end (`readFrom_stops`).
-/
namespace SheetLint

/-- Whether a fault has this cause: the source ends inside a block. -/
@[simp] def FaultKind.isUnclosed : FaultKind → Bool
  | unexpectedEnd _ => true
  | unexpectedToken _ _ | unknownAtRule _ | missingImportTarget | emptyValue _ => false

/-- Whether a fault says that the source ends inside a block. -/
def Fault.isUnclosed (fault : Fault) : Bool := fault.kind.isUnclosed

/-- Whether an event ends a block. -/
def Event.isEnd : Event → Bool
  | endBlock _ _ _ => true
  | importRule _ | declaration _ | startBlock _ _ _ => false

/-! ### The faults of items -/

/-- None of the faults says that the source ends inside a block. -/
def NoneUnclosed (faults : List Fault) : Prop := ∀ fault ∈ faults, fault.isUnclosed = false

section Faults
variable {src : Source}

@[simp] theorem noneUnclosed_nil : NoneUnclosed [] := fun _ h => absurd h List.not_mem_nil

@[simp] theorem noneUnclosed_cons {fault : Fault} {faults : List Fault} :
    NoneUnclosed (fault :: faults) ↔ fault.isUnclosed = false ∧ NoneUnclosed faults :=
  List.forall_mem_cons

@[simp] theorem noneUnclosed_append {as bs : List Fault} :
    NoneUnclosed (as ++ bs) ↔ NoneUnclosed as ∧ NoneUnclosed bs :=
  List.forall_mem_append

@[simp] theorem isUnclosed_fault (ts : List Token) (kind : FaultKind) :
    (src.fault ts kind).isUnclosed = kind.isUnclosed := rfl

@[simp] theorem isUnclosed_unexpected (ts : List Token) (expected : Expected) :
    (src.unexpected ts expected).isUnclosed = false := rfl

theorem openBlock_noneUnclosed (kind : BlockKind) (header : String) (position : Position)
    (ts : List Token) : NoneUnclosed (openBlock src kind header position ts).faults := by
  unfold openBlock
  split <;> simp

theorem readImport_noneUnclosed (position : Position) (ts : List Token) :
    NoneUnclosed (readImport src position ts).faults := by
  unfold readImport
  split
  · simp
  · dsimp only
    split <;> simp

theorem readAtRule_noneUnclosed (t : Token) (ts : List Token) :
    NoneUnclosed (readAtRule src t ts).faults := by
  unfold readAtRule
  dsimp only
  split
  · exact readImport_noneUnclosed _ ts
  · simp
  · exact openBlock_noneUnclosed _ _ _ _
  · simp

theorem readParts_noneUnclosed (scan : ValueScan) (ts : List Token)
    (h : NoneUnclosed scan.faults) : NoneUnclosed (readParts src scan ts).1.faults := by
  revert h
  refine readParts_rec (P := fun scan _ out => NoneUnclosed scan.faults →
    NoneUnclosed out.1.faults) ?nil ?stop ?important ?bang ?group ?single scan ts
  case nil => exact fun _ h => h
  case stop => exact fun _ _ _ _ h => h
  case important => exact fun _ _ _ _ _ _ ih h => ih h
  case bang =>
    intro scan t ts out _ _ ih h
    exact ih (by simpa [ValueScan.blame] using h)
  case group => exact fun _ _ _ _ _ ih h => ih h
  case single => exact fun _ _ _ _ _ _ _ ih h => ih h

theorem readNamed_noneUnclosed (starred : Bool) (position : Position) (t : Token)
    (ts : List Token) : NoneUnclosed (readNamed src starred position t ts).faults := by
  have hvalue : NoneUnclosed (readParts src {} ts.tail).1.faults :=
    readParts_noneUnclosed {} ts.tail noneUnclosed_nil
  unfold readNamed
  dsimp only
  split
  · simp
  · split
    · simpa using hvalue
    · split
      · simpa using hvalue
      · exact hvalue

theorem readStarred_noneUnclosed (position : Position) (ts : List Token) :
    NoneUnclosed (readStarred src position ts).faults := by
  unfold readStarred
  split
  · split
    · exact readNamed_noneUnclosed true position _ _
    · simp
  · simp

theorem readDeclaration_noneUnclosed (margins : Bool) (t : Token) (ts : List Token) :
    NoneUnclosed (readDeclaration src margins t ts).faults := by
  unfold readDeclaration
  dsimp only
  split
  · simp
  · split
    · exact openBlock_noneUnclosed _ _ _ ts
    · simp
  · exact readNamed_noneUnclosed false _ t ts
  · exact readStarred_noneUnclosed _ ts
  · simp

/-- No item says that the source ends inside a block, not even the one that reaches its end. -/
theorem readItem_noneUnclosed (src : Source) (body : Body) (t : Token) (ts : List Token) :
    NoneUnclosed (readItem src body t ts).faults := by
  have hrules : NoneUnclosed (readItem src .rules t ts).faults := by
    unfold readItem
    dsimp only
    split
    · simp
    · exact readAtRule_noneUnclosed t ts
    · exact openBlock_noneUnclosed _ _ _ _
  cases body with
  | sheet | rules => exact hrules
  | keyframes =>
    unfold readItem
    dsimp only
    split
    · simp
    · exact openBlock_noneUnclosed _ _ _ _
  | page => exact readDeclaration_noneUnclosed true t ts
  | declarations => exact readDeclaration_noneUnclosed false t ts

end Faults

/-! ### What the end of the source adds -/

/-- The fault of a block that the source leaves open. -/
def Source.unclosedFault (src : Source) : Fault :=
  ⟨.unexpectedEnd .rightBrace, .point src.size, src.position src.size⟩

/-- The end that the source gives to a block it leaves open. -/
def Source.unclosedEnd (src : Source) (kind : BlockKind) : Event :=
  .endBlock kind "" (src.position src.size)

/-- A reading that starts with the blocks of `nest` open falls into what is found in front of
the end of the source and what the end adds for the blocks that are open then.  In front of it
no block is said to be left open, and the ends of blocks stand, one by one, at tokens
`braces`. -/
structure SplitsAtEnd (src : Source) (nest : List BlockKind) (ts : List Token)
    (sheet front : Stylesheet) (braces : List Token) : Prop where
  eq_append : sheet = front ++ ⟨(openBlocks nest front.events).map src.unclosedEnd,
    (openBlocks nest front.events).map fun _ => src.unclosedFault⟩
  faults : NoneUnclosed front.faults
  ends : (front.events.filter Event.isEnd).map Event.position = braces.map src.place
  sublist : braces.Sublist ts
  kind_eq : ∀ t ∈ braces, t.kind = .rightBrace

section Splits
variable {src : Source} {nest : List BlockKind} {ts us braces : List Token}
  {sheet front : Stylesheet}

theorem splitsAtEnd_endSheet (hts : ts <:+ src.tokens) (hend : AtEnd ts)
    (nest : List BlockKind) : SplitsAtEnd src nest ts (endSheet src nest ts) .nothing [] := by
  refine ⟨?_, noneUnclosed_nil, rfl, List.nil_sublist ts, nofun⟩
  simp only [endSheet, Source.fault, peek_of_atEnd hts hend]
  rfl

/-- A `}` ends the innermost block. -/
theorem SplitsAtEnd.close {outer : List BlockKind} (h : SplitsAtEnd src outer ts sheet front braces)
    (kind : BlockKind) {t : Token} (ht : t.kind = .rightBrace) :
    SplitsAtEnd src (kind :: outer) (t :: ts)
      (⟨[.endBlock kind "" (src.place t)], []⟩ ++ sheet)
      (⟨[.endBlock kind "" (src.place t)], []⟩ ++ front) (t :: braces) where
  eq_append := by
    rw [Stylesheet.append_assoc]
    exact congrArg _ h.eq_append
  faults := h.faults
  ends := congrArg (src.place t :: ·) h.ends
  sublist := h.sublist.cons_cons t
  kind_eq := List.forall_mem_cons.mpr ⟨ht, h.kind_eq⟩

/-- What an item opens is open behind its events, and none of them is an end. -/
theorem openBlocks_item {body : Body} {item : Item} (hshape : ItemShape body item)
    (nest : List BlockKind) (es : List Event) :
    openBlocks nest (item.events ++ es) = openBlocks (item.opened.toList ++ nest) es ∧
      item.events.filter Event.isEnd = [] := by
  cases hshape with
  | silent hevents hopened => rw [hevents, hopened]; exact ⟨rfl, rfl⟩
  | importRule statement _ hevents hopened => rw [hevents, hopened]; exact ⟨rfl, rfl⟩
  | declaration decl _ hevents hopened => rw [hevents, hopened]; exact ⟨rfl, rfl⟩
  | block kind header start _ hevents hopened => rw [hevents, hopened]; exact ⟨rfl, rfl⟩

/-- What is found in an item goes in front of what is found behind it. -/
theorem SplitsAtEnd.item {body : Body} {item : Item}
    (h : SplitsAtEnd src (item.opened.toList ++ nest) us sheet front braces)
    (hshape : ItemShape body item) (hfaults : NoneUnclosed item.faults) (hus : us <:+ ts) :
    SplitsAtEnd src nest ts (item.sheet ++ sheet) (item.sheet ++ front) braces where
  eq_append := by
    rw [Stylesheet.append_assoc, Stylesheet.events_append, Item.sheet,
      (openBlocks_item hshape nest front.events).1]
    exact congrArg _ h.eq_append
  faults := noneUnclosed_append.mpr ⟨hfaults, h.faults⟩
  ends := by
    rw [Stylesheet.events_append, Item.sheet, List.filter_append,
      (openBlocks_item hshape nest front.events).2, List.nil_append]
    exact h.ends
  sublist := h.sublist.trans hus.sublist
  kind_eq := h.kind_eq

/-- Every reading of a source falls into these two parts. -/
theorem exists_splitsAtEnd (nest : List BlockKind) (hts : ts <:+ src.tokens) :
    ∃ front braces, SplitsAtEnd src nest ts (sheetFrom src .sheet nest ts) front braces := by
  revert hts
  refine sheetFrom_rec (P := fun nest ts sheet => ts <:+ src.tokens →
    ∃ front braces, SplitsAtEnd src nest ts sheet front braces)
    ?atEnd ?close ?stray ?leave ?item nest ts
  case atEnd =>
    intro nest ts hend hts
    exact ⟨_, _, splitsAtEnd_endSheet hts hend nest⟩
  case close =>
    intro kind outer t ts sheet ht ih hts
    obtain ⟨front, braces, h⟩ := ih ((List.suffix_cons t ts).trans hts)
    exact ⟨_, _, h.close kind ht⟩
  case stray =>
    intro _ t ts sheet _ ih hts
    obtain ⟨front, braces, h⟩ := ih ((List.suffix_cons t ts).trans hts)
    -- a `}` that closes nothing is an item without events
    let item : Item := { faults := [src.unexpected (t :: ts) .rule], rest := ts }
    have hshape : ItemShape .sheet item := .silent rfl rfl
    have hitem : SplitsAtEnd src (item.opened.toList ++ []) ts sheet front braces := h
    exact ⟨_, _, hitem.item hshape (by simp [item]) (List.suffix_cons t ts)⟩
  case leave =>
    intro hbase
    exact absurd rfl hbase
  case item =>
    intro nest t ts sheet he hb ih hts
    have hrest := (readItem_rest_suffix src (innermost .sheet nest) ts he hb).trans
      (List.suffix_cons t ts)
    obtain ⟨front, braces, h⟩ := ih (hrest.trans hts)
    exact ⟨_, _, h.item (readItem_shape src _ t ts) (readItem_noneUnclosed src _ t ts) hrest⟩

/-- As many faults say that a block is left open as blocks are open at the end. -/
theorem SplitsAtEnd.countP_eq (h : SplitsAtEnd src nest ts sheet front braces) :
    sheet.faults.countP Fault.isUnclosed = (openBlocks nest front.events).length := by
  have hfront : front.faults.countP Fault.isUnclosed = 0 :=
    List.countP_eq_zero.mpr fun fault hfault => by simp [h.faults fault hfault]
  rw [h.eq_append, Stylesheet.faults_append, List.countP_append, hfront, Nat.zero_add,
    List.countP_map]
  exact List.countP_eq_length.mpr fun _ _ => rfl

end Splits

/-- The tokens of a source are different from each other. -/
theorem Source.nodup_tokens (src : Source) : src.tokens.Nodup :=
  src.tokens_ordered.imp fun {t u} hbefore heq => by
    rw [heq, Position.before_iff] at hbefore
    omega

/-- The last elements of a list, counted by the length of what stands at its end. -/
theorem rdrop_rtake_append {α : Type} (front back : List α) :
    (front ++ back).rdrop back.length = front ∧ (front ++ back).rtake back.length = back := by
  simp [List.rdrop, List.rtake]

/-- Reading a body stops in front of a `}` or at the end of the source. -/
theorem readFrom_stops (src : Source) (base : Body) (trail : Trail) (nest : List BlockKind)
    (ts : List Token) :
    (src.peek (readFrom src base trail nest ts).2).kind = .rightBrace ∨
      (src.peek (readFrom src base trail nest ts).2).kind = .eof := by
  induction trail, nest, ts using readFrom.induct src base with
  | case1 trail nest =>
    rw [readFrom_nil]
    exact .inr rfl
  | case2 trail nest t ts he =>
    rw [readFrom_end _ _ _ _ _ he]
    exact .inr he
  | case3 trail t ts he hb kind outer _ ih =>
    rw [readFrom_close _ _ _ _ _ _ hb]
    exact ih
  | case4 trail t ts he hb hbase ih =>
    subst hbase
    rw [readFrom_stray _ _ _ hb]
    exact ih
  | case5 trail t ts he hb hbase =>
    rw [readFrom_leave _ _ _ _ hb hbase]
    exact .inl hb
  | case6 trail nest t ts he hb item ih =>
    rw [readFrom_item _ _ _ _ _ he hb]
    exact ih

/-- **Unclosed blocks are reported once each.**  If `k` faults of a text say that it ends
inside a block, then they are the last `k` faults, each with the empty span at the end of the
text.  The last `k` events end, innermost first, the `k` blocks that the events in front of
them leave open, and stand at the end of the text.  The other ends of blocks stand at
different `}` of the text.  Reading a body never stops anywhere else than in front of a `}` or
at the end. -/
theorem unclosedBlocks_reported_once (text : String) :
    let src := Source.ofString text
    let sheet := Stylesheet.ofString text
    let k := sheet.faults.countP Fault.isUnclosed
    let closed := sheet.events.rdrop k
    sheet.faults.rtake k = List.replicate k src.unclosedFault ∧
      (∀ fault ∈ sheet.faults.rdrop k, fault.isUnclosed = false) ∧
      (openBlocks [] closed).length = k ∧
      sheet.events.rtake k = (openBlocks [] closed).map src.unclosedEnd ∧
      (∃ braces : List Token, braces.Sublist src.tokens ∧ braces.Nodup ∧
        (∀ t ∈ braces, t.kind = .rightBrace) ∧
        (closed.filter Event.isEnd).map Event.position =
          braces.map fun t => src.position t.span.start) ∧
      ∀ (body : Body) (ts : List Token),
        (src.peek (readBody src body ts).2).kind = .rightBrace ∨
          (src.peek (readBody src body ts).2).kind = .eof := by
  intro src sheet k closed
  obtain ⟨front, braces, h⟩ : ∃ front braces, SplitsAtEnd src [] src.tokens sheet front braces :=
    exists_splitsAtEnd [] List.suffix_rfl
  have hk : k = (openBlocks [] front.events).length := h.countP_eq
  have hfaults := rdrop_rtake_append front.faults
    ((openBlocks [] front.events).map fun _ => src.unclosedFault)
  have hevents := rdrop_rtake_append front.events
    ((openBlocks [] front.events).map src.unclosedEnd)
  rw [List.length_map, ← hk] at hfaults hevents
  have hsheet : sheet.faults = front.faults ++ _ ∧ sheet.events = front.events ++ _ :=
    ⟨congrArg Stylesheet.faults h.eq_append, congrArg Stylesheet.events h.eq_append⟩
  rw [← hsheet.1] at hfaults
  rw [← hsheet.2] at hevents
  have hclosed : closed = front.events := hevents.1
  rw [hclosed]
  refine ⟨?_, ?_, hk.symm, hevents.2,
    ⟨braces, h.sublist, src.nodup_tokens.sublist h.sublist, h.kind_eq, h.ends⟩, ?_⟩
  · rw [hfaults.2, hk, List.map_const']
  · rw [hfaults.1]
    exact h.faults
  · intro body ts
    exact readFrom_stops src body {} [] ts

example : ((Stylesheet.ofString "@media x\x7ba\x7b\x7db\x7bc:(").faults.map Fault.isUnclosed,
    (Stylesheet.ofString "@media x\x7ba\x7b\x7db\x7bc:(").events.map Event.isEnd) =
      ([true, true], [false, false, true, false, false, true, true]) := by decide +kernel

end SheetLint
