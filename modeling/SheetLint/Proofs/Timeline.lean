import Mathlib.Data.Fintype.Basic
import SheetLint.Proofs.ResourceRun

/-! # When references are tested

The rule on resources may be fed any events, nested or not.  Which references it tests at an
event can be told from the events alone: at the end of a block, those of the declarations
behind the start of the block, if the block is still the one that is collected for
(`ComesDue`); at an import, its own reference.

`OpenSince` says from when on a block is collected for.  It holds of at most one block at a
time (`OpenSince.unique`), and it changes from one event to the next as the scope does
(`collected_step`).  So the scope behind any number of events is known (`collected_scope`),
and with it what comes due at the next one (`step_dueAt`).
-/
namespace SheetLint

/-! ### Events by their indices -/

instance : Fintype BlockKind where
  elems := {.rule, .fontFace, .page, .pageMargin, .keyframes, .keyframeRule, .media, .supports,
    .document, .viewport}
  complete kind := by cases kind <;> decide

/-- The kind of the event at an index. -/
def kindAt (es : List Event) (i : Nat) : Option EventKind := es[i]?.map Event.kind

/-- The references of the declaration at an index, if there is one. -/
def declaredAt (es : List Event) (i : Nat) : List Reference :=
  match es[i]? with
  | some (.declaration decl) => decl.references
  | _ => []

/-- The reference of the import at an index, if there is one. -/
def importedAt (es : List Event) (i : Nat) : List Reference :=
  match es[i]? with
  | some (.importRule statement) => [statement.reference]
  | _ => []

/-- A tracked block of the given kind starts at index `s`, and between `s` and `n` no tracked
block starts and no block of that kind ends. -/
def OpenSince (es : List Event) (kind : BlockKind) (s n : Nat) : Prop :=
  kind.isTracked = true ∧ kindAt es s = some (.startBlock kind) ∧ s < n ∧
    ∀ m < n, s < m → kindAt es m ≠ some (.endBlock kind) ∧
      ∀ other : BlockKind, other.isTracked = true → kindAt es m ≠ some (.startBlock other)

/-- What is declared at index `i` comes due at index `j`: a block that starts in front of `i`
and is open since ends at `j`. -/
def ComesDue (es : List Event) (i j : Nat) : Prop :=
  ∃ s < i, i < j ∧ ∃ kind, OpenSince es kind s j ∧ kindAt es j = some (.endBlock kind)

instance (es : List Event) (kind : BlockKind) (s n : Nat) : Decidable (OpenSince es kind s n) :=
  inferInstanceAs (Decidable (_ ∧ _ ∧ _ ∧ _))

instance (es : List Event) (i j : Nat) : Decidable (ComesDue es i j) :=
  inferInstanceAs (Decidable (∃ s < i, i < j ∧ ∃ kind : BlockKind,
    OpenSince es kind s j ∧ kindAt es j = some (.endBlock kind)))

/-- The references that come due at an index. -/
def dueAt (es : List Event) (j : Nat) : List Reference :=
  importedAt es j ++
    (List.range j).flatMap fun i => if ComesDue es i j then declaredAt es i else []

/-- The references declared between two indices. -/
def declaredBetween (es : List Event) (s n : Nat) : List Reference :=
  (List.range n).flatMap fun i => if s < i then declaredAt es i else []

section Indices
variable {es : List Event} {kind : BlockKind} {s n : Nat} {e : Event}

theorem kindAt_eq (h : es[n]? = some e) : kindAt es n = some e.kind := by
  rw [kindAt, h, Option.map_some]

/-- Two blocks that are collected for at the same time are one. -/
theorem OpenSince.unique {other : BlockKind} {t : Nat} (h : OpenSince es kind s n)
    (h' : OpenSince es other t n) : s = t ∧ kind = other := by
  obtain ⟨htracked, hstart, hs, hquiet⟩ := h
  obtain ⟨htracked', hstart', ht, hquiet'⟩ := h'
  have hst : s = t := by
    rcases Nat.lt_trichotomy s t with hlt | heq | hlt
    · exact absurd hstart' ((hquiet t ht hlt).2 other htracked')
    · exact heq
    · exact absurd hstart ((hquiet' s hs hlt).2 kind htracked)
  subst hst
  rw [hstart] at hstart'
  injection hstart' with hkinds
  injection hkinds with hkind
  exact ⟨rfl, hkind⟩

/-- What is collected for behind an event: the block that starts there, or the one before if
the event neither starts a tracked block nor ends it. -/
theorem openSince_succ (he : es[n]? = some e) :
    OpenSince es kind s (n + 1) ↔
      (s = n ∧ kind.isTracked = true ∧ e.kind = .startBlock kind) ∨
        (OpenSince es kind s n ∧ e.kind ≠ .endBlock kind ∧
          ∀ other : BlockKind, other.isTracked = true → e.kind ≠ .startBlock other) := by
  have hkind := kindAt_eq he
  constructor
  · rintro ⟨htracked, hstart, hs, hquiet⟩
    rcases Nat.lt_or_eq_of_le (Nat.le_of_lt_succ hs) with hlt | rfl
    · right
      have hlast := hquiet n (Nat.lt_succ_self n) hlt
      rw [hkind] at hlast
      refine ⟨⟨htracked, hstart, hlt, fun m hm => hquiet m (by omega)⟩, ?_, ?_⟩
      · exact fun hend => hlast.1 (congrArg some hend)
      · exact fun other hother hstart => hlast.2 other hother (congrArg some hstart)
    · left
      rw [hkind] at hstart
      exact ⟨rfl, htracked, Option.some.inj hstart⟩
  · rintro (⟨rfl, htracked, hstart⟩ | ⟨⟨htracked, hstart, hs, hquiet⟩, hend, hnone⟩)
    · exact ⟨htracked, hkind.trans (congrArg some hstart), Nat.lt_succ_self s, by omega⟩
    · refine ⟨htracked, hstart, by omega, fun m hm hsm => ?_⟩
      rcases Nat.lt_or_eq_of_le (Nat.le_of_lt_succ hm) with hlt | rfl
      · exact hquiet m hlt hsm
      · rw [hkind]
        exact ⟨fun h => hend (Option.some.inj h),
          fun other hother h => hnone other hother (Option.some.inj h)⟩

theorem declaredBetween_succ (hs : s < n) :
    declaredBetween es s (n + 1) = declaredBetween es s n ++ declaredAt es n := by
  rw [declaredBetween, List.range_succ, List.flatMap_append, List.flatMap_singleton, if_pos hs]
  rfl

theorem declaredBetween_self : declaredBetween es n (n + 1) = [] := by
  refine List.flatMap_eq_nil_iff.mpr fun i hi => if_neg ?_
  rw [List.mem_range] at hi
  omega

/-- While a block is open since `s`, what comes due at its end is what is declared behind
`s`. -/
theorem OpenSince.comesDue_iff {i : Nat} (h : OpenSince es kind s n)
    (hend : kindAt es n = some (.endBlock kind)) (hi : i < n) : ComesDue es i n ↔ s < i := by
  constructor
  · rintro ⟨t, ht, -, other, hopen, -⟩
    rw [(h.unique hopen).1]
    exact ht
  · exact fun hs => ⟨s, hs, hi, kind, h, hend⟩

/-- Whatever comes due does so once. -/
theorem ComesDue.unique {i j k : Nat} (h : ComesDue es i j) (h' : ComesDue es i k) : j = k := by
  -- of two ends of one block, the first would stand between its start and the second
  have hnot : ∀ {j k}, ComesDue es i j → ComesDue es i k → ¬ j < k := by
    rintro j k ⟨s, hs, hij, kind, hopen, hend⟩ ⟨t, ht, hik, other, hopen', hend'⟩ hjk
    have hbefore : OpenSince es other t j :=
      ⟨hopen'.1, hopen'.2.1, by omega, fun m hm => hopen'.2.2.2 m (by omega)⟩
    obtain ⟨-, rfl⟩ := hopen.unique hbefore
    exact (hopen'.2.2.2 j hjk (by omega)).1 hend
  have := hnot h h'
  have := hnot h' h
  omega

end Indices

/-! ### The scope behind some events -/

/-- What is collected behind the first `n` events: nothing if no block is open since any
index, and else what is declared since. -/
inductive Collected (es : List Event) (n : Nat) : Scope → Prop
  | idle (h : ∀ kind s, ¬ OpenSince es kind s n) : Collected es n ⟨none⟩
  | collecting {kind : BlockKind} {s : Nat} (h : OpenSince es kind s n) :
    Collected es n ⟨some ⟨kind, declaredBetween es s n⟩⟩

section Collecting
variable {es : List Event} {n : Nat} {e : Event} {scope : Scope}

/-- An event that starts no tracked block and does not end the block that is collected for
leaves it open; what the event declares is collected. -/
theorem Collected.pass (h : Collected es n scope) (he : es[n]? = some e)
    (hstart : ∀ kind : BlockKind, kind.isTracked = true → e.kind ≠ .startBlock kind)
    (hend : ∀ kind s, OpenSince es kind s n → e.kind ≠ .endBlock kind) :
    Collected es (n + 1) (scope.collect (declaredAt es n)).1 := by
  cases h with
  | idle hnone =>
    refine .idle fun kind s hopen => ?_
    rcases (openSince_succ he).mp hopen with ⟨-, htracked, hkind⟩ | ⟨hbefore, -⟩
    · exact hstart kind htracked hkind
    · exact hnone kind s hbefore
  | @collecting kind s hopen =>
    have hstill : OpenSince es kind s (n + 1) :=
      (openSince_succ he).mpr (.inr ⟨hopen, hend kind s hopen, hstart⟩)
    have hmore := Collected.collecting hstill
    rwa [declaredBetween_succ hopen.2.2.1] at hmore

/-- The same for events that declare nothing. -/
theorem Collected.keep (h : Collected es n scope) (he : es[n]? = some e)
    (hstart : ∀ kind : BlockKind, kind.isTracked = true → e.kind ≠ .startBlock kind)
    (hend : ∀ kind s, OpenSince es kind s n → e.kind ≠ .endBlock kind)
    (hnothing : declaredAt es n = []) : Collected es (n + 1) scope := by
  have hpass := h.pass he hstart hend
  rwa [hnothing, Scope.collect_nil] at hpass

/-- **One event** moves the scope along as it moves the open block along. -/
theorem collected_step (h : Collected es n scope) (he : es[n]? = some e) :
    Collected es (n + 1) (Resource.step scope e).1 := by
  cases e with
  | importRule statement =>
    exact h.keep he (fun _ _ hk => by cases hk) (fun _ _ _ hk => by cases hk)
      (by simp only [declaredAt, he])
  | declaration decl =>
    have hpass := h.pass he (fun _ _ hk => by cases hk) (fun _ _ _ hk => by cases hk)
    simp only [declaredAt, he] at hpass
    exact hpass
  | startBlock kind header position =>
    have hnothing : declaredAt es n = [] := by simp only [declaredAt, he]
    by_cases htracked : kind.isTracked = true
    · have hopen : OpenSince es kind n (n + 1) :=
        (openSince_succ he).mpr (.inl ⟨rfl, htracked, rfl⟩)
      have hfresh := Collected.collecting hopen
      rw [declaredBetween_self] at hfresh
      simpa only [Resource.step, htracked, if_true, Scope.start] using hfresh
    · simp only [Resource.step, htracked]
      refine h.keep he (fun other hother hk => htracked ?_) (fun _ _ _ hk => by cases hk) hnothing
      injection hk with hk
      exact hk ▸ hother
  | endBlock kind header position =>
    have hnothing : declaredAt es n = [] := by simp only [declaredAt, he]
    have hnoStart : ∀ other : BlockKind, other.isTracked = true →
        (Event.endBlock kind header position).kind ≠ .startBlock other :=
      fun _ _ hk => by cases hk
    by_cases htracked : kind.isTracked = true
    · cases h with
      | idle hnone =>
        have hkeep := (Collected.idle hnone).keep he hnoStart
          (fun other s hopen => absurd hopen (hnone other s)) hnothing
        simpa only [Resource.step, htracked, if_true, Scope.finish] using hkeep
      | @collecting other s hopen =>
        simp only [Resource.step, htracked, if_true, Scope.finish]
        split
        · -- the block that is collected for ends
          rename_i hsame
          refine .idle fun third t hthird => ?_
          rcases (openSince_succ he).mp hthird with ⟨-, -, hk⟩ | ⟨hbefore, hk, -⟩
          · cases hk
          · exact hk (by rw [← (hopen.unique hbefore).2, hsame]; rfl)
        · rename_i hother
          refine (Collected.collecting hopen).keep he hnoStart
            (fun third t hthird hk => ?_) hnothing
          injection hk with hk
          exact hother ((hopen.unique hthird).2.trans hk.symm)
    · simp only [Resource.step, htracked]
      refine h.keep he hnoStart (fun other s hopen hk => htracked ?_) hnothing
      injection hk with hk
      exact hk ▸ hopen.1

/-- **The scope behind any number of events** collects for the block that is open since. -/
theorem collected_scope (hn : n ≤ es.length) :
    Collected es n (Resource.run {} (es.take n)).1 := by
  induction n with
  | zero => exact .idle fun kind s hopen => absurd hopen.2.2.1 (Nat.not_lt_zero s)
  | succ n ih =>
    have he : es[n]? = some es[n] := List.getElem?_eq_getElem hn
    have hstep := collected_step (ih (Nat.le_of_succ_le hn)) he
    rw [List.take_add_one, he, Option.toList_some, Resource.run_append]
    exact hstep

/-! ### What comes due -/

/-- Where the block that is collected for does not end, only an import comes due. -/
theorem dueAt_eq_importedAt
    (h : ∀ kind s, OpenSince es kind s n → kindAt es n ≠ some (.endBlock kind)) :
    dueAt es n = importedAt es n := by
  have hnone : (List.range n).flatMap
      (fun i => if ComesDue es i n then declaredAt es i else []) = [] := by
    refine List.flatMap_eq_nil_iff.mpr fun i _ => if_neg ?_
    rintro ⟨s, -, -, kind, hopen, hend⟩
    exact h kind s hopen hend
  rw [dueAt, hnone, List.append_nil]

/-- Where it ends, what has been declared since it is open comes due. -/
theorem OpenSince.dueAt_eq {kind : BlockKind} {s : Nat} (h : OpenSince es kind s n)
    (hend : kindAt es n = some (.endBlock kind)) (hnothing : importedAt es n = []) :
    dueAt es n = declaredBetween es s n := by
  rw [dueAt, hnothing, List.nil_append]
  refine List.flatMap_congr fun i hi => ?_
  simp only [h.comesDue_iff hend (List.mem_range.mp hi)]

/-- **At the next event** the scope hands out what comes due there. -/
theorem step_dueAt (h : Collected es n scope) (he : es[n]? = some e) :
    (Resource.step scope e).2 = dueAt es n := by
  have hkind := kindAt_eq he
  cases e with
  | importRule statement =>
    rw [dueAt_eq_importedAt fun kind s _ => by rw [hkind]; simp [Event.kind]]
    simp only [importedAt, he, Resource.step]
  | declaration decl =>
    rw [dueAt_eq_importedAt fun kind s _ => by rw [hkind]; simp [Event.kind]]
    simp only [importedAt, he, Resource.step]
  | startBlock kind header position =>
    rw [dueAt_eq_importedAt fun kind s _ => by rw [hkind]; simp [Event.kind]]
    simp only [importedAt, he, Resource.step]
    split <;> rfl
  | endBlock kind header position =>
    have hnothing : importedAt es n = [] := by simp only [importedAt, he]
    cases h with
    | idle hnone =>
      rw [dueAt_eq_importedAt fun other s hopen => absurd hopen (hnone other s), hnothing]
      simp [Resource.step, Scope.finish]
    | @collecting other s hopen =>
      by_cases hsame : other = kind
      · subst hsame
        rw [hopen.dueAt_eq hkind hnothing]
        simp [Resource.step, Scope.finish, hopen.1]
      · have helse : ∀ third t, OpenSince es third t n → kindAt es n ≠ some (.endBlock third) := by
          intro third t hthird hend
          rw [hkind] at hend
          injection hend with hend
          injection hend with hend
          exact hsame ((hopen.unique hthird).2.trans hend.symm)
        rw [dueAt_eq_importedAt helse, hnothing]
        simp [Resource.step, Scope.finish, hsame]

end Collecting

/-! ### Whole runs -/

namespace Resource

/-- The references that come due over some events do so one index after another. -/
theorem run_eq_dueAt (es : List Event) {n : Nat} (hn : n ≤ es.length) :
    (run {} (es.take n)).2 = (List.range n).flatMap (dueAt es) := by
  induction n with
  | zero => rfl
  | succ n ih =>
    have he : es[n]? = some es[n] := List.getElem?_eq_getElem hn
    have hdue := step_dueAt (collected_scope (Nat.le_of_succ_le hn)) he
    rw [List.take_add_one, he, Option.toList_some, run_append, ih (Nat.le_of_succ_le hn),
      List.range_succ, List.flatMap_append, List.flatMap_singleton, ← hdue]
    simp only [run, List.append_nil]

/-- The rule is handed the events it subscribes to, each once. -/
theorem deliveries_eq_filter (registry : Registry) (es : List Event) :
    (ruleWith registry).deliveries es = es.filter fun e => e.kind ∈ subscriptions := by
  induction es with
  | nil => rfl
  | cons e es ih =>
    have hsplit : (ruleWith registry).deliveries (e :: es) =
        List.replicate (subscriptions.count e.kind) e ++ (ruleWith registry).deliveries es := rfl
    rw [hsplit, ih, subscriptions_nodup.count, List.filter_cons]
    by_cases hmem : e.kind ∈ subscriptions <;> simp [hmem]

/-- **The rule on any events.**  At each event the references that come due there, and no
others, are put to the tests, in the order of their declarations: an import comes due at
once, and a declaration at the end of the block that is open since before it, and at most
once.  Over the whole run nothing else is found or asked.  An import leaves alone what is
collected, and up to any point it makes no difference whether the rule is fed all events or
only those it subscribes to. -/
theorem feed_timeline (registry : Registry) (context : Context) (es : List Event) :
    (∀ j e, es[j]? = some e →
        (step ((ruleWith registry).feed context {} (es.take j)).state e).2 = dueAt es j ∧
          handle registry context ((ruleWith registry).feed context {} (es.take j)).state e =
            ⟨((ruleWith registry).feed context {} (es.take (j + 1))).state,
              (registry.evaluate context (dueAt es j)).findings,
              (registry.evaluate context (dueAt es j)).asked⟩) ∧
      (∀ i j k, ComesDue es i j → ComesDue es i k → j = k) ∧
      ((ruleWith registry).feed context {} es).findings =
        (registry.evaluate context ((List.range es.length).flatMap (dueAt es))).findings ∧
      ((ruleWith registry).feed context {} es).asked =
        (registry.evaluate context ((List.range es.length).flatMap (dueAt es))).asked ∧
      (∀ scope statement, (handle registry context scope (.importRule statement)).state = scope) ∧
      ∀ n, (ruleWith registry).feed context {}
          ((es.take n).filter fun e => e.kind ∈ subscriptions) =
        (ruleWith registry).feed context {} (es.take n) := by
  have hwhole := run_eq_dueAt es (Nat.le_refl es.length)
  rw [List.take_length] at hwhole
  refine ⟨fun j e he => ?_, fun i j k h h' => h.unique h', ?_, ?_, fun _ _ => rfl, fun n => ?_⟩
  · have hj : j ≤ es.length := Nat.le_of_lt (List.getElem?_eq_some_iff.mp he).1
    have hdue := step_dueAt (collected_scope hj) he
    rw [feed_eq_evaluate, feed_eq_evaluate, List.take_add_one, he, Option.toList_some,
      run_append, ← hdue]
    exact ⟨rfl, rfl⟩
  · rw [feed_eq_evaluate, hwhole]
  · rw [feed_eq_evaluate, hwhole]
  · rw [← deliveries_eq_filter registry, feed_eq_evaluate, feed_eq_evaluate, run_deliveries]

/-- A declaration waits for its own block to end, and the start of another one drops it. -/
example :
    let decl : Event := .declaration ⟨"src", none, ⟨1, 2⟩, ⟨"url(a)", []⟩, false⟩
    let es : List Event := [.startBlock .rule "" ⟨1, 1⟩, decl, .endBlock .fontFace "" ⟨1, 3⟩,
      .endBlock .rule "" ⟨1, 4⟩, .startBlock .page "" ⟨1, 5⟩, decl,
      .startBlock .pageMargin "" ⟨1, 7⟩, .endBlock .pageMargin "" ⟨1, 8⟩,
      .endBlock .page "" ⟨1, 9⟩]
    ComesDue es 1 3 ∧ ∀ j < 9, ¬ ComesDue es 5 j := by
  decide

end Resource
end SheetLint
