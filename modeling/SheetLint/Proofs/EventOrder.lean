import SheetLint.Proofs.BlockEnds
import SheetLint.Proofs.SourceOrder

/-! # Events and faults come in the order of the source

An event is made when its item has been read, but it stands where the item starts.  So it
stands in front of all that follows the item.  Only the ends of blocks that the source leaves
open share a place, the end of the source.

A fault stands at the token that is to be read when it is noted.  Several faults may be noted
at one token, but none at a token that has been passed (`NotedAlong`).

The two orders are put together in `events_and_faults_ordered`.
-/
namespace SheetLint

/-! ### Faults along the tokens -/

/-- The faults are noted on the way from some tokens to those that are left, each at the token
to be read next. -/
inductive NotedAlong (src : Source) : List Token → List Fault → List Token → Prop where
  | pass {ts rest : List Token} (h : rest <:+ ts) : NotedAlong src ts [] rest
  | note {ts us rest : List Token} {kind : FaultKind} {faults : List Fault} (h : us <:+ ts)
      (hfaults : NotedAlong src us faults rest) :
      NotedAlong src ts (src.fault us kind :: faults) rest

section Noted
variable {src : Source} {ts us rest : List Token} {faults more : List Fault}

theorem NotedAlong.suffix (h : NotedAlong src ts faults rest) : rest <:+ ts := by
  induction h with
  | pass h => exact h
  | note h _ ih => exact ih.trans h

/-- The way may start earlier. -/
theorem NotedAlong.behind (h : NotedAlong src us faults rest) (hus : us <:+ ts) :
    NotedAlong src ts faults rest := by
  cases h with
  | pass h => exact .pass (h.trans hus)
  | note h hfaults => exact .note (h.trans hus) hfaults

/-- One way behind another. -/
theorem NotedAlong.append (h : NotedAlong src ts faults us) (h' : NotedAlong src us more rest) :
    NotedAlong src ts (faults ++ more) rest := by
  induction h with
  | pass h => exact h'.behind h
  | note h _ ih => exact .note h (ih h')

/-- One fault on the way. -/
theorem notedAlong_singleton (hus : us <:+ ts) (kind : FaultKind) (hrest : rest <:+ us) :
    NotedAlong src ts [src.fault us kind] rest :=
  .note hus (.pass hrest)

end Noted

/-! ### Items -/

/-- An item read from some tokens has at most one event, which stands at `position`, and its
faults are noted on the way to the tokens it leaves. -/
structure Item.Tracks (src : Source) (position : Position) (ts : List Token) (item : Item) :
    Prop where
  events : item.events = [] ∨ ∃ event, item.events = [event] ∧ event.position = position
  faults : NotedAlong src ts item.faults item.rest

section Items
variable {src : Source} {position : Position} {ts us : List Token}

theorem Item.Tracks.behind {item : Item} (h : item.Tracks src position us) (hus : us <:+ ts) :
    item.Tracks src position ts :=
  ⟨h.events, h.faults.behind hus⟩

theorem openBlock_tracks (kind : BlockKind) (header : String) (position : Position)
    (ts : List Token) : (openBlock src kind header position ts).Tracks src position ts := by
  unfold openBlock
  split
  · exact ⟨.inr ⟨_, rfl, rfl⟩, .pass (List.tail_suffix ts)⟩
  · exact ⟨.inl rfl, notedAlong_singleton List.suffix_rfl _ (eatSemicolon_suffix ts)⟩

theorem readBlock_tracks (kind : BlockKind) (position : Position) (ts : List Token) :
    (readBlock src kind position ts).Tracks src position ts :=
  (openBlock_tracks kind _ position _).behind (afterHeader_suffix ts)

theorem skip_tracks (kind : FaultKind) (ts : List Token) :
    Item.Tracks src position ts
      { faults := [src.fault ts kind], rest := skipDeclaration ts } :=
  ⟨.inl rfl, notedAlong_singleton List.suffix_rfl kind (skipDeclaration_suffix ts)⟩

theorem readImport_tracks (position : Position) (ts : List Token) :
    (readImport src position ts).Tracks src position ts := by
  unfold readImport
  split
  · exact skip_tracks _ ts
  · have hafter : afterHeader ts.tail <:+ ts :=
      (afterHeader_suffix _).trans (List.tail_suffix ts)
    have hrest := eatSemicolon_suffix (afterHeader ts.tail)
    refine ⟨.inr ⟨_, rfl, rfl⟩, ?_⟩
    dsimp only
    split
    · exact .pass (hrest.trans hafter)
    · exact notedAlong_singleton hafter _ hrest

theorem readAtRule_tracks (t : Token) (ts : List Token) :
    (readAtRule src t ts).Tracks src (src.place t) (t :: ts) := by
  have hts : ts <:+ t :: ts := List.suffix_cons t ts
  unfold readAtRule
  dsimp only
  split
  · exact (readImport_tracks _ ts).behind hts
  · exact ⟨.inl rfl, .pass ((skipDeclaration_suffix ts).trans hts)⟩
  · exact (readBlock_tracks _ _ ts).behind hts
  · exact ⟨.inl rfl,
      notedAlong_singleton List.suffix_rfl _ ((skipDeclaration_suffix ts).trans hts)⟩

/-- The faults in a value are noted on the way to its end. -/
theorem readParts_noted (src : Source) (scan : ValueScan) (ts : List Token) :
    ∃ more, (readParts src scan ts).1.faults = scan.faults ++ more ∧
      NotedAlong src ts more (readParts src scan ts).2 := by
  refine readParts_rec (P := fun scan ts out => ∃ more, out.1.faults = scan.faults ++ more ∧
    NotedAlong src ts more out.2) ?nil ?stop ?important ?bang ?group ?single scan ts
  case nil =>
    intro scan
    exact ⟨[], by simp, .pass List.suffix_rfl⟩
  case stop =>
    intro scan t ts _
    exact ⟨[], by simp, .pass List.suffix_rfl⟩
  case important =>
    rintro scan t ts out - - ⟨more, hmore, hnoted⟩
    exact ⟨more, hmore, hnoted.behind ((List.tail_suffix ts).trans (List.suffix_cons t ts))⟩
  case bang =>
    rintro scan t ts out - - ⟨more, hmore, hnoted⟩
    refine ⟨src.unexpected ts .important :: more, ?_, .note (List.suffix_cons t ts) hnoted⟩
    rw [hmore, ValueScan.blame, List.append_assoc]
    rfl
  case group =>
    rintro scan t ts out - ⟨more, hmore, hnoted⟩
    exact ⟨more, hmore, hnoted.behind ((splitGroup_suffix 1 ts).trans (List.suffix_cons t ts))⟩
  case single =>
    rintro scan t ts out - - - ⟨more, hmore, hnoted⟩
    exact ⟨more, hmore, hnoted.behind (List.suffix_cons t ts)⟩

theorem readNamed_tracks (starred : Bool) (position : Position) (t : Token) (ts : List Token) :
    (readNamed src starred position t ts).Tracks src position ts := by
  obtain ⟨more, hmore, hnoted⟩ := readParts_noted src {} ts.tail
  rw [List.nil_append] at hmore
  have hvalue : NotedAlong src ts (readParts src {} ts.tail).1.faults
      (readParts src {} ts.tail).2 := by
    rw [hmore]
    exact hnoted.behind (List.tail_suffix ts)
  unfold readNamed
  dsimp only
  split
  · exact skip_tracks _ ts
  · split
    · exact ⟨.inl rfl, hvalue.append
        (notedAlong_singleton List.suffix_rfl _ (skipBlock_suffix 0 _))⟩
    · have hrest := eatSemicolon_suffix (readParts src {} ts.tail).2
      split
      · exact ⟨.inl rfl, hvalue.append (notedAlong_singleton List.suffix_rfl _ hrest)⟩
      · refine ⟨.inr ⟨_, rfl, rfl⟩, ?_⟩
        have hend := hvalue.append (.pass hrest)
        rwa [List.append_nil] at hend

theorem readStarred_tracks (position : Position) (ts : List Token) :
    (readStarred src position ts).Tracks src position ts := by
  unfold readStarred
  split
  · rename_i t ts
    split
    · exact (readNamed_tracks true position t ts).behind (List.suffix_cons t ts)
    · exact skip_tracks _ (t :: ts)
  · exact skip_tracks _ []

theorem readDeclaration_tracks (margins : Bool) (t : Token) (ts : List Token) :
    (readDeclaration src margins t ts).Tracks src (src.place t) (t :: ts) := by
  have hts : ts <:+ t :: ts := List.suffix_cons t ts
  unfold readDeclaration
  dsimp only
  split
  · exact ⟨.inl rfl, .pass hts⟩
  · split
    · exact (openBlock_tracks _ _ _ ts).behind hts
    · exact ⟨.inl rfl,
        notedAlong_singleton List.suffix_rfl _ ((skipDeclaration_suffix ts).trans hts)⟩
  · exact (readNamed_tracks false _ t ts).behind hts
  · exact (readStarred_tracks _ ts).behind hts
  · exact skip_tracks _ (t :: ts)

/-- The event of an item stands at its first token, and its faults are noted while it is read. -/
theorem readItem_tracks (src : Source) (body : Body) (t : Token) (ts : List Token) :
    (readItem src body t ts).Tracks src (src.place t) (t :: ts) := by
  have hsemicolon : Item.Tracks src (src.place t) (t :: ts) { rest := ts } :=
    ⟨.inl rfl, .pass (List.suffix_cons t ts)⟩
  unfold readItem
  split
  · split
    · exact hsemicolon
    · exact readAtRule_tracks t ts
    · exact readBlock_tracks _ _ (t :: ts)
  · split
    · exact hsemicolon
    · exact readAtRule_tracks t ts
    · exact readBlock_tracks _ _ (t :: ts)
  · split
    · exact hsemicolon
    · exact readBlock_tracks _ _ (t :: ts)
  · exact readDeclaration_tracks true t ts
  · exact readDeclaration_tracks false t ts

/-- An item leaves some of the tokens behind its first one. -/
theorem readItem_rest_suffix (src : Source) (body : Body) {t : Token} (ts : List Token)
    (he : t.kind ≠ .eof) (hb : t.kind ≠ .rightBrace) : (readItem src body t ts).rest <:+ ts := by
  have hlt := length_readItem_lt src body ts he hb
  rcases List.suffix_cons_iff.mp (readItem_tracks src body t ts).faults.suffix with h | h
  · rw [h] at hlt
    exact absurd hlt (Nat.lt_irrefl _)
  · exact h

end Items

/-! ### Faults of a stylesheet -/

/-- The faults of a reading are noted on the way through the tokens. -/
theorem sheetFrom_noted (src : Source) (base : Body) (nest : List BlockKind) (ts : List Token) :
    ∃ rest, NotedAlong src ts (sheetFrom src base nest ts).faults rest := by
  refine sheetFrom_rec (P := fun _ ts sheet => ∃ rest, NotedAlong src ts sheet.faults rest)
    ?atEnd ?close ?stray ?leave ?item nest ts
  case atEnd =>
    intro nest ts _
    -- all of them are noted at the same place
    refine ⟨ts, ?_⟩
    induction nest with
    | nil => exact .pass List.suffix_rfl
    | cons kind nest ih => exact .note List.suffix_rfl ih
  case close =>
    rintro kind outer t ts sheet - ⟨rest, hnoted⟩
    exact ⟨rest, hnoted.behind (List.suffix_cons t ts)⟩
  case stray =>
    rintro - t ts sheet - ⟨rest, hnoted⟩
    exact ⟨rest, .note List.suffix_rfl (hnoted.behind (List.suffix_cons t ts))⟩
  case leave =>
    intro _ t ts _
    exact ⟨t :: ts, .pass List.suffix_rfl⟩
  case item =>
    rintro nest t ts sheet - - ⟨rest, hnoted⟩
    exact ⟨rest, (readItem_tracks src (innermost base nest) t ts).faults.append hnoted⟩

section Places
variable {src : Source} {ts us : List Token} {t u : Token}

theorem Source.endToken_mem_tokens (src : Source) : src.endToken ∈ src.tokens :=
  List.mem_of_getLast? src.getLast?_tokens

/-- What is to be read next is a token of the source. -/
theorem peek_mem_tokens (hts : ts <:+ src.tokens) : src.peek ts ∈ src.tokens := by
  cases ts with
  | nil => exact src.endToken_mem_tokens
  | cons t ts => exact hts.subset List.mem_cons_self

theorem start_le_size (ht : t ∈ src.tokens) : t.span.start ≤ src.size := by
  obtain ⟨mid, post, hchars, hstart⟩ := (ordered_tokensIn [] src.chars).startsIn t ht
  rw [hstart, src.size_eq, hchars, List.nil_append, Text.byteSize_append]
  exact Nat.le_add_right _ _

/-- Further on in the tokens, no token starts earlier. -/
theorem start_peek_le (hts : ts <:+ src.tokens) (hus : us <:+ ts) :
    (src.peek ts).span.start ≤ (src.peek us).span.start := by
  have hincreasing := (ordered_tokensIn [] src.chars).increasing.sublist hts.sublist
  cases us with
  | nil => exact start_le_size (peek_mem_tokens hts)
  | cons u us =>
    have hu : u ∈ ts := hus.subset List.mem_cons_self
    cases ts with
    | nil => cases hu
    | cons t ts =>
      rcases List.mem_cons.mp hu with rfl | hu
      · exact Nat.le_refl _
      · exact Nat.le_of_lt ((List.pairwise_cons.mp hincreasing).1 u hu)

/-- A fault noted on the way stands at a token of the source, and not in front of the place
where the way starts. -/
theorem NotedAlong.forall_mem {faults : List Fault} {rest : List Token}
    (h : NotedAlong src ts faults rest) (hts : ts <:+ src.tokens) :
    ∀ fault ∈ faults, (∃ t ∈ src.tokens, fault.span = t.span) ∧
      fault.position = src.position fault.span.start ∧
      (src.peek ts).span.start ≤ fault.span.start := by
  induction h with
  | pass => exact nofun
  | note h _ ih =>
    refine List.forall_mem_cons.mpr ⟨⟨⟨_, peek_mem_tokens (h.trans hts), rfl⟩, rfl,
      start_peek_le hts h⟩, fun fault hfault => ?_⟩
    obtain ⟨hspan, hposition, hstart⟩ := ih (h.trans hts) fault hfault
    exact ⟨hspan, hposition, Nat.le_trans (start_peek_le hts h) hstart⟩

theorem NotedAlong.ordered {faults : List Fault} {rest : List Token}
    (h : NotedAlong src ts faults rest) (hts : ts <:+ src.tokens) :
    faults.Pairwise fun a b => a.span.start ≤ b.span.start := by
  induction h with
  | pass => exact .nil
  | note h hfaults ih =>
    refine List.pairwise_cons.mpr ⟨fun fault hfault => ?_, ih (h.trans hts)⟩
    exact (hfaults.forall_mem (h.trans hts) fault hfault).2.2

/-! ### Events of a stylesheet -/

/-- The event ends a block that the source leaves open. -/
def Source.EndsOpenBlock (src : Source) (event : Event) : Prop :=
  ∃ kind, event = .endBlock kind "" (src.place src.endToken)

/-- The event stands at one of the tokens in front of the end of the source, or it ends a block
that the source leaves open. -/
def StandsAmong (src : Source) (ts : List Token) (event : Event) : Prop :=
  (∃ t ∈ ts, t.kind ≠ .eof ∧ event.position = src.place t) ∨ src.EndsOpenBlock event

theorem StandsAmong.mono {event : Event} (h : StandsAmong src us event) (hus : us <:+ ts) :
    StandsAmong src ts event := by
  rcases h with ⟨t, ht, hkind, hposition⟩ | h
  · exact .inl ⟨t, hus.subset ht, hkind, hposition⟩
  · exact .inr h

theorem place_before_end (ht : t ∈ src.tokens) (hkind : t.kind ≠ .eof) :
    (src.place t).Before (src.place src.endToken) := by
  have hordered := src.tokens_ordered
  rw [← src.dropLast_tokens_append] at ht hordered
  rcases List.mem_append.mp ht with ht | ht
  · exact (List.pairwise_append.mp hordered).2.2 t ht _ List.mem_cons_self
  · rw [List.mem_singleton.mp ht] at hkind
    exact absurd rfl hkind

/-- A token stands in front of all events that stand behind it. -/
theorem place_before_event (hts : t :: ts <:+ src.tokens) (hkind : t.kind ≠ .eof) {event : Event}
    (h : StandsAmong src ts event) : (src.place t).Before event.position := by
  rcases h with ⟨u, hu, -, hposition⟩ | ⟨kind, rfl⟩
  · rw [hposition]
    exact (List.pairwise_cons.mp (src.tokens_ordered.sublist hts.sublist)).1 u hu
  · exact place_before_end (hts.subset List.mem_cons_self) hkind

/-- The events come in order: the first stands in front of the second, or both end blocks that
the source leaves open. -/
def InOrder (src : Source) (first second : Event) : Prop :=
  first.position.Before second.position ∨
    (src.EndsOpenBlock first ∧ src.EndsOpenBlock second)

/-- The events of a reading come in order and stand among the tokens. -/
def EventsOrdered (src : Source) (ts : List Token) (events : List Event) : Prop :=
  events.Pairwise (InOrder src) ∧ ∀ event ∈ events, StandsAmong src ts event

theorem EventsOrdered.mono {events : List Event} (h : EventsOrdered src us events)
    (hus : us <:+ ts) : EventsOrdered src ts events :=
  ⟨h.1, fun event hevent => (h.2 event hevent).mono hus⟩

/-- An event at a token comes in front of those that stand behind the token. -/
theorem EventsOrdered.cons {events : List Event} {event : Event}
    (h : EventsOrdered src ts events) (hts : t :: ts <:+ src.tokens) (hkind : t.kind ≠ .eof)
    (hposition : event.position = src.place t) :
    EventsOrdered src (t :: ts) (event :: events) := by
  refine ⟨List.pairwise_cons.mpr ⟨fun later hlater => ?_, h.1⟩, ?_⟩
  · refine .inl ?_
    rw [hposition]
    exact place_before_event hts hkind (h.2 later hlater)
  · refine List.forall_mem_cons.mpr ⟨.inl ⟨t, List.mem_cons_self, hkind, hposition⟩, ?_⟩
    exact (h.mono (List.suffix_cons t ts)).2

theorem eventsOrdered_endSheet (hts : ts <:+ src.tokens) (hend : AtEnd ts)
    (nest : List BlockKind) : EventsOrdered src ts (endSheet src nest ts).events := by
  have hall : ∀ event ∈ (endSheet src nest ts).events, src.EndsOpenBlock event := by
    intro event hevent
    obtain ⟨kind, -, rfl⟩ := List.mem_map.mp hevent
    exact ⟨kind, by rw [peek_of_atEnd hts hend]; rfl⟩
  refine ⟨List.pairwise_of_forall_mem_list fun a ha b hb => .inr ⟨hall a ha, hall b hb⟩, ?_⟩
  exact fun event hevent => .inr (hall event hevent)

/-- The events of a reading come in order. -/
theorem sheetFrom_eventsOrdered (nest : List BlockKind) (hts : ts <:+ src.tokens) :
    EventsOrdered src ts (sheetFrom src .sheet nest ts).events := by
  revert hts
  refine sheetFrom_rec (P := fun _ ts sheet => ts <:+ src.tokens →
    EventsOrdered src ts sheet.events) ?atEnd ?close ?stray ?leave ?item nest ts
  case atEnd =>
    intro nest ts hend hts
    exact eventsOrdered_endSheet hts hend nest
  case close =>
    intro kind outer t ts sheet ht ih hts
    exact (ih ((List.suffix_cons t ts).trans hts)).cons hts (by rw [ht]; exact nofun) rfl
  case stray =>
    intro _ t ts sheet _ ih hts
    exact (ih ((List.suffix_cons t ts).trans hts)).mono (List.suffix_cons t ts)
  case leave =>
    intro hbase
    exact absurd rfl hbase
  case item =>
    intro nest t ts sheet he hb ih hts
    have hrest := readItem_rest_suffix src (innermost .sheet nest) ts he hb
    have hbehind := (List.suffix_cons t ts).trans hts
    have hevents := (ih (hrest.trans hbehind)).mono hrest
    rw [Stylesheet.events_append, Item.sheet]
    rcases (readItem_tracks src (innermost .sheet nest) t ts).events with
      hnone | ⟨event, hone, hposition⟩
    · rw [hnone]
      exact hevents.mono (List.suffix_cons t ts)
    · rw [hone]
      exact hevents.cons hts he hposition

end Places

/-- **Events and faults come in the order of the source.**  Each event of a text stands at the
start of a token, in front of the events that follow it, unless both are ends of blocks that
the text leaves open and stand at its end.  Each fault has the span of a token and stands at
its start, and no fault starts in front of the ones noted before. -/
theorem events_and_faults_ordered (text : String) :
    let src := Source.ofString text
    let sheet := Stylesheet.ofString text
    (∀ event ∈ sheet.events, ∃ t ∈ src.tokens, event.position = src.position t.span.start) ∧
      (sheet.events.Pairwise fun a b => a.position.Before b.position ∨
        (src.EndsOpenBlock a ∧ src.EndsOpenBlock b)) ∧
      (∀ fault ∈ sheet.faults, (∃ t ∈ src.tokens, fault.span = t.span) ∧
        fault.position = src.position fault.span.start) ∧
      sheet.faults.Pairwise fun a b => a.span.start ≤ b.span.start := by
  intro src sheet
  obtain ⟨hordered, hstands⟩ : EventsOrdered src src.tokens sheet.events :=
    sheetFrom_eventsOrdered [] List.suffix_rfl
  obtain ⟨rest, hnoted⟩ : ∃ rest, NotedAlong src src.tokens sheet.faults rest :=
    sheetFrom_noted src .sheet [] src.tokens
  refine ⟨?_, hordered, ?_, hnoted.ordered List.suffix_rfl⟩
  · intro event hevent
    rcases hstands event hevent with ⟨t, ht, -, hposition⟩ | ⟨kind, rfl⟩
    · exact ⟨t, ht, hposition⟩
    · exact ⟨src.endToken, src.endToken_mem_tokens, rfl⟩
  · intro fault hfault
    obtain ⟨hspan, hposition, -⟩ := hnoted.forall_mem List.suffix_rfl fault hfault
    exact ⟨hspan, hposition⟩

end SheetLint
