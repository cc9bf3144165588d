import SheetLint.Stylesheet

/-! # What a reading adds

`readFrom` carries along the events and faults found so far.  Since it only ever adds to
them (`readFrom_trail`), what is read from some tokens is a stylesheet of its own:
`sheetFrom`, with one equation for each thing that can happen at the token at hand — the
source ends, a block is closed, a brace closes nothing, or an item is read.

`sheetFrom_rec` packages these equations as an induction.  Whatever is to be proved about
all readings is proved for each of the things that can happen.
-/
namespace SheetLint

namespace Stylesheet

/-- One stylesheet behind another. -/
def append (a b : Stylesheet) : Stylesheet := ⟨a.events ++ b.events, a.faults ++ b.faults⟩

instance : Append Stylesheet := ⟨append⟩

@[simp] theorem events_append (a b : Stylesheet) : (a ++ b).events = a.events ++ b.events := rfl

@[simp] theorem faults_append (a b : Stylesheet) : (a ++ b).faults = a.faults ++ b.faults := rfl

theorem append_assoc (a b c : Stylesheet) : a ++ b ++ c = a ++ (b ++ c) := by
  change Stylesheet.mk _ _ = Stylesheet.mk _ _
  simp [List.append_assoc]

/-- The stylesheet without events and faults. -/
def nothing : Stylesheet := ⟨[], []⟩

@[simp] theorem append_nothing (a : Stylesheet) : a ++ nothing = a := by
  change Stylesheet.mk _ _ = a
  simp [nothing]

end Stylesheet

namespace Trail

/-- One trail behind another. -/
def append (a b : Trail) : Trail := ⟨a.events ++ b.events, a.faults ++ b.faults⟩

theorem add_eq_append (trail : Trail) (events : List Event) (faults : List Fault) :
    trail.add events faults = trail.append ⟨events.toArray, faults.toArray⟩ := rfl

theorem append_assoc (a b c : Trail) : (a.append b).append c = a.append (b.append c) := by
  simp [append, Array.append_assoc]

@[simp] theorem append_empty (a : Trail) : a.append {} = a := by
  simp [append]

@[simp] theorem empty_append (a : Trail) : Trail.append {} a = a := by
  simp [append]

/-- The stylesheet that a trail has found. -/
def sheet (trail : Trail) : Stylesheet := ⟨trail.events.toList, trail.faults.toList⟩

theorem sheet_append (a b : Trail) : (a.append b).sheet = a.sheet ++ b.sheet := by
  change Stylesheet.mk _ _ = Stylesheet.mk _ _
  simp [append, sheet]

end Trail

section Reading
variable (src : Source) (base : Body)

/-! ### One step of a reading -/

theorem readFrom_nil (trail : Trail) (nest : List BlockKind) :
    readFrom src base trail nest [] = (trail.endAll src nest [], []) := by
  rw [readFrom.eq_def]

theorem readFrom_end (trail : Trail) (nest : List BlockKind) {t : Token} (ts : List Token)
    (he : t.kind = .eof) :
    readFrom src base trail nest (t :: ts) = (trail.endAll src nest (t :: ts), t :: ts) := by
  rw [readFrom.eq_def]
  simp [he]

theorem readFrom_close (trail : Trail) (kind : BlockKind) (outer : List BlockKind) {t : Token}
    (ts : List Token) (hb : t.kind = .rightBrace) :
    readFrom src base trail (kind :: outer) (t :: ts) =
      readFrom src base (trail.add [.endBlock kind "" (src.position t.span.start)] []) outer
        ts := by
  rw [readFrom.eq_def]
  simp [hb]

theorem readFrom_stray (trail : Trail) {t : Token} (ts : List Token) (hb : t.kind = .rightBrace) :
    readFrom src .sheet trail [] (t :: ts) =
      readFrom src .sheet (trail.add [] [src.unexpected (t :: ts) .rule]) [] ts := by
  rw [readFrom.eq_def]
  simp [hb]

theorem readFrom_leave (trail : Trail) {t : Token} (ts : List Token) (hb : t.kind = .rightBrace)
    (hbase : base ≠ .sheet) : readFrom src base trail [] (t :: ts) = (trail, t :: ts) := by
  rw [readFrom.eq_def]
  simp [hb, hbase]

theorem readFrom_item (trail : Trail) (nest : List BlockKind) {t : Token} (ts : List Token)
    (he : t.kind ≠ .eof) (hb : t.kind ≠ .rightBrace) :
    readFrom src base trail nest (t :: ts) =
      readFrom src base
        (trail.add (readItem src (innermost base nest) t ts).events
          (readItem src (innermost base nest) t ts).faults)
        ((readItem src (innermost base nest) t ts).opened.toList ++ nest)
        (readItem src (innermost base nest) t ts).rest := by
  rw [readFrom.eq_def]
  simp [he, hb]

/-- A reading leaves what it has been given as it is and adds to it. -/
theorem readFrom_trail (trail : Trail) (nest : List BlockKind) (ts : List Token) :
    readFrom src base trail nest ts =
      (trail.append (readFrom src base {} nest ts).1, (readFrom src base {} nest ts).2) := by
  -- both readings go through the same steps, so the trail must be free in the induction
  suffices h : ∀ given : Trail, readFrom src base given nest ts =
      (given.append (readFrom src base {} nest ts).1, (readFrom src base {} nest ts).2) from
    h trail
  induction trail, nest, ts using readFrom.induct src base with
  | case1 _ nest =>
    intro given
    simp [readFrom_nil, Trail.endAll, Trail.add_eq_append]
  | case2 _ nest t ts he =>
    intro given
    simp [readFrom_end src base _ _ _ he, Trail.endAll, Trail.add_eq_append]
  | case3 _ t ts he hb kind outer _ ih =>
    intro given
    rw [readFrom_close _ _ _ _ _ _ hb, readFrom_close _ _ _ _ _ _ hb, ih (given.add _ _),
      ih (Trail.add {} _ _)]
    simp [Trail.add_eq_append, Trail.append_assoc]
  | case4 _ t ts he hb hbase ih =>
    intro given
    subst hbase
    rw [readFrom_stray _ _ _ hb, readFrom_stray _ _ _ hb, ih (given.add _ _),
      ih (Trail.add {} _ _)]
    simp [Trail.add_eq_append, Trail.append_assoc]
  | case5 _ t ts he hb hbase =>
    intro given
    simp [readFrom_leave _ _ _ _ hb hbase]
  | case6 _ nest t ts he hb item ih =>
    intro given
    rw [readFrom_item _ _ _ _ _ he hb, readFrom_item _ _ _ _ _ he hb, ih (given.add _ _),
      ih (Trail.add {} _ _)]
    simp [Trail.add_eq_append, Trail.append_assoc]

/-! ### The stylesheet of some tokens -/

/-- What a reading adds while the blocks of `nest` are open. -/
def sheetFrom (nest : List BlockKind) (ts : List Token) : Stylesheet :=
  (readFrom src base {} nest ts).1.sheet

/-- What the end of the source adds: it ends all open blocks, each with a fault. -/
def endSheet (nest : List BlockKind) (ts : List Token) : Stylesheet where
  events := nest.map fun kind => .endBlock kind "" (src.position (src.peek ts).span.start)
  faults := nest.map fun _ => src.fault ts (.unexpectedEnd .rightBrace)

/-- What an item adds. -/
def Item.sheet (item : Item) : Stylesheet := ⟨item.events, item.faults⟩

/-- Nothing is left to read but the end of the source. -/
def AtEnd (ts : List Token) : Prop := ∀ t ∈ ts.head?, t.kind = .eof

theorem read_eq_sheetFrom : Stylesheet.read src = sheetFrom src .sheet [] src.tokens := rfl

variable {src base}

theorem sheet_readFrom (trail : Trail) (nest : List BlockKind) (ts : List Token) :
    (readFrom src base trail nest ts).1.sheet = trail.sheet ++ sheetFrom src base nest ts := by
  rw [readFrom_trail, Trail.sheet_append, sheetFrom]

theorem sheetFrom_atEnd (nest : List BlockKind) {ts : List Token} (h : AtEnd ts) :
    sheetFrom src base nest ts = endSheet src nest ts := by
  cases ts with
  | nil => simp [sheetFrom, readFrom_nil, Trail.endAll, Trail.add, Trail.sheet, endSheet]
  | cons t ts =>
    simp [sheetFrom, readFrom_end _ _ _ _ _ (h t rfl), Trail.endAll, Trail.add, Trail.sheet,
      endSheet]

theorem sheetFrom_close (kind : BlockKind) (outer : List BlockKind) {t : Token}
    (ts : List Token) (hb : t.kind = .rightBrace) :
    sheetFrom src base (kind :: outer) (t :: ts) =
      ⟨[.endBlock kind "" (src.position t.span.start)], []⟩ ++ sheetFrom src base outer ts := by
  rw [sheetFrom, readFrom_close _ _ _ _ _ _ hb, sheet_readFrom]
  simp [Trail.add, Trail.sheet]

theorem sheetFrom_stray {t : Token} (ts : List Token) (hb : t.kind = .rightBrace) :
    sheetFrom src .sheet [] (t :: ts) =
      ⟨[], [src.unexpected (t :: ts) .rule]⟩ ++ sheetFrom src .sheet [] ts := by
  rw [sheetFrom, readFrom_stray _ _ _ hb, sheet_readFrom]
  simp [Trail.add, Trail.sheet]

theorem sheetFrom_leave {t : Token} (ts : List Token) (hb : t.kind = .rightBrace)
    (hbase : base ≠ .sheet) : sheetFrom src base [] (t :: ts) = .nothing := by
  simp [sheetFrom, readFrom_leave _ _ _ _ hb hbase, Trail.sheet, Stylesheet.nothing]

theorem sheetFrom_item (nest : List BlockKind) {t : Token} (ts : List Token)
    (he : t.kind ≠ .eof) (hb : t.kind ≠ .rightBrace) :
    sheetFrom src base nest (t :: ts) =
      (readItem src (innermost base nest) t ts).sheet ++
        sheetFrom src base ((readItem src (innermost base nest) t ts).opened.toList ++ nest)
          (readItem src (innermost base nest) t ts).rest := by
  rw [sheetFrom, readFrom_item _ _ _ _ _ he hb, sheet_readFrom]
  simp [Trail.add, Trail.sheet, Item.sheet]

/-- **Induction over a reading.**  A property of the open blocks, the tokens left and what
is read from them holds of every reading if it holds at the end of the source and is
handed back by each step. -/
theorem sheetFrom_rec {P : List BlockKind → List Token → Stylesheet → Prop}
    (atEnd : ∀ nest ts, AtEnd ts → P nest ts (endSheet src nest ts))
    (close : ∀ kind outer t ts sheet, t.kind = .rightBrace → P outer ts sheet →
      P (kind :: outer) (t :: ts)
        (⟨[.endBlock kind "" (src.position t.span.start)], []⟩ ++ sheet))
    (stray : base = .sheet → ∀ t ts sheet, t.kind = .rightBrace → P [] ts sheet →
      P [] (t :: ts) (⟨[], [src.unexpected (t :: ts) .rule]⟩ ++ sheet))
    (leave : base ≠ .sheet → ∀ t ts, t.kind = .rightBrace → P [] (t :: ts) .nothing)
    (item : ∀ nest t ts sheet, t.kind ≠ .eof → t.kind ≠ .rightBrace →
      P ((readItem src (innermost base nest) t ts).opened.toList ++ nest)
        (readItem src (innermost base nest) t ts).rest sheet →
      P nest (t :: ts) ((readItem src (innermost base nest) t ts).sheet ++ sheet))
    (nest : List BlockKind) (ts : List Token) : P nest ts (sheetFrom src base nest ts) := by
  induction ({} : Trail), nest, ts using readFrom.induct src base with
  | case1 _ nest =>
    rw [sheetFrom_atEnd nest (by simp [AtEnd])]
    exact atEnd nest [] (by simp [AtEnd])
  | case2 _ nest t ts he =>
    have hend : AtEnd (t :: ts) := by simpa [AtEnd] using he
    rw [sheetFrom_atEnd nest hend]
    exact atEnd nest (t :: ts) hend
  | case3 _ t ts _ hb kind outer _ ih =>
    rw [sheetFrom_close kind outer ts hb]
    exact close kind outer t ts _ hb ih
  | case4 _ t ts _ hb hbase ih =>
    subst hbase
    rw [sheetFrom_stray ts hb]
    exact stray rfl t ts _ hb ih
  | case5 _ t ts _ hb hbase =>
    rw [sheetFrom_leave ts hb hbase]
    exact leave hbase t ts hb
  | case6 _ nest t ts he hb _ ih =>
    rw [sheetFrom_item nest ts he hb]
    exact item nest t ts _ he hb ih

end Reading
end SheetLint
