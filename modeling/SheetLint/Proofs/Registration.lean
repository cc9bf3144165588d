import Mathlib.Data.List.Nodup
import SheetLint.Resource

/-! # Registration

Rules are registered with a linter one after another, and path tests with a registry.  Both keep
one entry per id: an entry that is registered under an id which is taken moves into the place of
the old one (`put_of_mem`).

`Registered` says what is kept of all that has been registered so far.  Every registration hands
it on (`Registered.put`), so it holds after any number of them, whether they start from nothing
or from what is always there (`registrations_inOrder`).
-/
namespace SheetLint

universe u

/-- What is kept of the entries of `given`, registered in this order: distinct ids, in the order
in which each came first, and under each id the entry that came last.  `find?` looks an id up, and
`register` tells what is kept once one more entry has been registered. -/
structure Registered {α : Type u} (key : α → String) (given kept : List α)
    (find? : String → Option α) (register : α → List α) : Prop where
  nodup : (kept.map key).Nodup
  mem_iff : ∀ id, id ∈ kept.map key ↔ id ∈ given.map key
  ordered : (kept.map key).Pairwise fun a b => (given.map key).idxOf a < (given.map key).idxOf b
  find?_eq : ∀ id, find? id = given.reverse.find? fun a => key a == id
  /-- Nothing but the entry under the same id changes, and no place does. -/
  register_eq : ∀ a, key a ∈ given.map key →
    register a = kept.map fun b => if key b = key a then a else b

section Entries
variable {α : Type u} {key : α → String} {given kept : List α}

/-- What is put under a key that is taken changes no other entry and no place. -/
theorem put_of_mem {a : α} (hnodup : (kept.map key).Nodup) (hmem : key a ∈ kept.map key) :
    Keyed.put key a kept = kept.map fun b => if key b = key a then a else b := by
  induction kept with
  | nil => cases hmem
  | cons b bs ih =>
    rw [List.map_cons, List.nodup_cons] at hnodup
    rw [Keyed.put, List.map_cons]
    by_cases hb : key b = key a
    · -- the key does not come again, so the rest stays as it is
      have hrest : ∀ c ∈ bs, (if key c = key a then a else c) = c := by
        intro c hc
        refine if_neg fun h => hnodup.1 ?_
        rw [hb, ← h]
        exact List.mem_map_of_mem hc
      rw [if_pos hb, if_pos hb, List.map_congr_left hrest, List.map_id']
    · have hmem : key a ∈ bs.map key := (List.mem_cons.mp hmem).resolve_left (Ne.symm hb)
      rw [if_neg hb, if_neg hb, ih hnodup.2 hmem]

/-- The list keeps the entries that have been put into it. -/
abbrev Keeps (key : α → String) (given kept : List α) : Prop :=
  Registered key given kept (fun id => Keyed.find? key id kept) fun a => Keyed.put key a kept

theorem keeps_nil (key : α → String) : Keeps key [] [] where
  nodup := .nil
  mem_iff _ := Iff.rfl
  ordered := .nil
  find?_eq _ := rfl
  register_eq _ h := absurd h List.not_mem_nil

/-- **One more entry.**  Its id keeps its place, or goes to the end if it is new. -/
theorem Registered.put (h : Keeps key given kept) (a : α) :
    Keeps key (given ++ [a]) (Keyed.put key a kept) := by
  have hgiven : (given ++ [a]).map key = given.map key ++ [key a] := List.map_append
  have hmem (id : String) :
      id ∈ (Keyed.put key a kept).map key ↔ id ∈ (given ++ [a]).map key := by
    rw [Keyed.map_put, hgiven, List.mem_append, ← h.mem_iff, List.mem_singleton]
    by_cases ha : key a ∈ kept.map key
    · rw [if_pos ha]
      exact ⟨.inl, fun hid => hid.elim (fun hid => hid) fun heq => heq ▸ ha⟩
    · rw [if_neg ha, List.mem_append, List.mem_singleton]
  have hnodup : ((Keyed.put key a kept).map key).Nodup := by
    rw [Keyed.map_put]
    by_cases ha : key a ∈ kept.map key
    · rw [if_pos ha]
      exact h.nodup
    · rw [if_neg ha]
      rw [← List.concat_eq_append]
      exact h.nodup.concat ha
  -- an id that has been given before comes first where it came first then
  have hbefore {id : String} (hid : id ∈ kept.map key) :
      ((given ++ [a]).map key).idxOf id = (given.map key).idxOf id := by
    rw [hgiven, List.idxOf_append_of_mem ((h.mem_iff id).mp hid)]
  have hkept : (kept.map key).Pairwise fun b c =>
      ((given ++ [a]).map key).idxOf b < ((given ++ [a]).map key).idxOf c :=
    h.ordered.imp_of_mem fun hb hc hlt => by rwa [hbefore hb, hbefore hc]
  refine ⟨hnodup, hmem, ?ordered, ?find, ?register⟩
  case ordered =>
    rw [Keyed.map_put]
    by_cases ha : key a ∈ kept.map key
    · rw [if_pos ha]
      exact hkept
    · rw [if_neg ha]
      refine List.pairwise_append.mpr ⟨hkept, List.pairwise_singleton _ _, fun b hb c hc => ?_⟩
      have hnew : key a ∉ given.map key := mt (h.mem_iff (key a)).mpr ha
      rw [List.mem_singleton.mp hc, hbefore hb, hgiven, List.idxOf_append_of_notMem hnew]
      exact Nat.lt_of_lt_of_le (List.idxOf_lt_length_of_mem ((h.mem_iff b).mp hb))
        (Nat.le_add_right _ _)
  case find =>
    intro id
    rw [Keyed.find?_put, List.reverse_append, List.reverse_singleton, List.singleton_append,
      List.find?_cons, ← h.find?_eq]
    by_cases hid : key a = id
    · simp [hid]
    · simp [hid, beq_eq_false_iff_ne.mpr hid]
  case register =>
    intro b hb
    exact put_of_mem hnodup ((hmem (key b)).mpr hb)

/-- **Any number of entries.**  What adds them puts one after another into the list. -/
theorem Registered.foldl {β : Type u} (entries : β → List α) {add : β → α → β}
    (hadd : ∀ b a, entries (add b a) = Keyed.put key a (entries b)) {start : β}
    (h : Keeps key given (entries start)) (more : List α) :
    Keeps key (given ++ more) (entries (more.foldl add start)) := by
  induction more generalizing given start with
  | nil => rwa [List.append_nil]
  | cons a more ih =>
    have hput := h.put a
    rw [← hadd] at hput
    have hmore := ih hput
    rwa [List.append_assoc, List.singleton_append] at hmore

end Entries

/-! ### Linters and registries -/

/-- The rules of a linter are what registering these one after another has led to. -/
def Linter.HasRegistered (linter : Linter) (given : List Rule) : Prop :=
  Registered Rule.id given linter.rules linter.rule? fun rule => (linter.addRule rule).rules

/-- The tests of a registry are what registering these one after another has led to. -/
def Registry.HasRegistered (registry : Registry) (given : List PathTest) : Prop :=
  Registered PathTest.id given registry.tests registry.get? fun test =>
    (registry.register test).tests

theorem Linter.HasRegistered.foldl_addRule {linter : Linter} {given : List Rule}
    (h : linter.HasRegistered given) (rules : List Rule) :
    (rules.foldl addRule linter).HasRegistered (given ++ rules) :=
  Registered.foldl Linter.rules (fun _ _ => rfl) h rules

theorem Registry.HasRegistered.foldl_register {registry : Registry} {given : List PathTest}
    (h : registry.HasRegistered given) (tests : List PathTest) :
    (tests.foldl register registry).HasRegistered (given ++ tests) :=
  Registered.foldl Registry.tests (fun _ _ => rfl) h tests

/-- **Registrations are kept in order.**  Whatever is registered one after another with a linter
or a registry, empty or with what is always there: the ids are distinct and stand in the order in
which each came first, what was there before in front; looking up an id gives what was registered
last under it, and nothing if nothing was; and registering once more under an id that is taken
changes no other entry and no place. -/
theorem registrations_inOrder (rules : List Rule) (tests : List PathTest) :
    (rules.foldl Linter.addRule .empty).HasRegistered rules ∧
      (rules.foldl Linter.addRule .builtin).HasRegistered (builtinRules ++ rules) ∧
      (tests.foldl Registry.register .empty).HasRegistered tests ∧
      (tests.foldl Registry.register .builtin).HasRegistered
        ([.external, .filesystem] ++ tests) := by
  have hlinter : Linter.empty.HasRegistered [] := keeps_nil Rule.id
  have hregistry : Registry.empty.HasRegistered [] := keeps_nil PathTest.id
  have hrules : Linter.builtin.HasRegistered builtinRules := hlinter.foldl_addRule builtinRules
  have htests : Registry.builtin.HasRegistered [.external, .filesystem] :=
    hregistry.foldl_register [.external, .filesystem]
  exact ⟨hlinter.foldl_addRule rules, hrules.foldl_addRule rules,
    hregistry.foldl_register tests, htests.foldl_register tests⟩

end SheetLint
