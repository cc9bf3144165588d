/-! # Lists with one entry per key

Rules, path tests, levels and configured rules are kept in lists in which every
entry has a key.  A new entry takes the place of the one with its key, or goes to
the end.
-/
namespace SheetLint.Keyed
universe u
variable {α : Type u} (key : α → String)

/-- The list with `a` in place of the entry that has its key, or at the end. -/
def put (a : α) : List α → List α
  | [] => [a]
  | b :: bs => if key b = key a then a :: bs else b :: put a bs

/-- The entry with the given key. -/
def find? (id : String) (as : List α) : Option α :=
  as.find? fun a => key a == id

/-- What is found after `put`: the new entry under its key, and under every other
key what was found before. -/
theorem find?_put (a : α) (as : List α) (id : String) :
    find? key id (put key a as) = if key a = id then some a else find? key id as := by
  induction as with
  | nil => by_cases h : key a = id <;> simp [put, find?, h]
  | cons b bs ih =>
    simp only [find?] at ih
    by_cases hb : key b = key a
    · by_cases h : key a = id <;> simp [put, find?, hb, h]
    · by_cases hid : key b = id
      · have ha : key a ≠ id := fun h => hb (hid.trans h.symm)
        rw [put, if_neg hb, if_neg ha]
        simp [find?, hid]
      · simp [put, find?, hb, hid, ih]

/-- The keys after `put`: a new one goes to the end. -/
theorem map_put (a : α) (as : List α) :
    (put key a as).map key =
      if key a ∈ as.map key then as.map key else as.map key ++ [key a] := by
  induction as with
  | nil => simp [put]
  | cons b bs ih =>
    rw [put]
    by_cases h : key b = key a
    · simp [h]
    · rw [if_neg h, List.map_cons, ih, List.map_cons]
      by_cases hm : key a ∈ bs.map key
      · rw [if_pos hm, if_pos (List.mem_cons_of_mem _ hm)]
      · have hne : key a ∉ key b :: bs.map key := fun hin =>
          (List.mem_cons.mp hin).elim (fun he => h he.symm) hm
        rw [if_neg hm, if_neg hne, List.cons_append]

end SheetLint.Keyed
