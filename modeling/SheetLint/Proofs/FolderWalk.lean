import Mathlib.Data.List.Basic
import SheetLint.Folder
import SheetLint.Proofs.PathNames

/-! # Walking through folders

`Folder.files` walks through a folder with its entries in the order of their names
(`pairwise_files`), and it comes to exactly the files that names lead to (`mem_files_iff`).

`Folder.locate` follows one path.  Where it ends depends on the names that are left when each `..`
has taken away the name before it (`names_locate`, `locate_eq_iff`).
-/
open SheetLint.Path

namespace SheetLint

namespace Folder

/-! ### Folders in order -/

/-- The names of the entries of a folder. -/
def entries : Folder → List String
  | empty => []
  | file name _ rest => name :: entries rest
  | folder name _ rest => name :: entries rest

/-- A folder as a file system has it: its entries have names that can stand on a path, each once
and in increasing order, and so it is in the folders inside. -/
inductive WellFormed : Folder → Prop where
  | empty : WellFormed empty
  | file {name : String} {content : ByteArray} {rest : Folder} (hname : IsName name)
      (hparent : name ≠ "..") (hrest : WellFormed rest) (hfirst : ∀ n ∈ rest.entries, name < n) :
      WellFormed (file name content rest)
  | folder {name : String} {inside rest : Folder} (hname : IsName name) (hparent : name ≠ "..")
      (hinside : WellFormed inside) (hrest : WellFormed rest)
      (hfirst : ∀ n ∈ rest.entries, name < n) : WellFormed (folder name inside rest)

/-- Names lead from a folder to a file in it or below it. -/
inductive Below : Folder → List String → Prop where
  | file {f : Folder} {name : String} {content : ByteArray}
      (h : f.child? name = some (.file content)) : Below f [name]
  | folder {f inside : Folder} {name : String} {names : List String}
      (h : f.child? name = some (.folder inside)) (hinside : Below inside names) :
      Below f (name :: names)

section Walk
variable {f inside rest : Folder} {name n : String} {names : List String} {node : Node}

theorem mem_entries_of_child? (h : f.child? name = some node) : name ∈ f.entries := by
  induction f with
  | empty => cases h
  | file n content rest ih =>
    rw [child?] at h
    split at h
    · rename_i hn
      exact hn ▸ List.mem_cons_self
    · exact List.mem_cons_of_mem n (ih h)
  | folder n inside rest _ ih =>
    rw [child?] at h
    split at h
    · rename_i hn
      exact hn ▸ List.mem_cons_self
    · exact List.mem_cons_of_mem n (ih h)

/-- Every file of a walk is reached by an entry of the folder. -/
theorem exists_cons_of_mem_files (h : names ∈ f.files) :
    ∃ name rest, names = name :: rest ∧ name ∈ f.entries := by
  induction f with
  | empty => cases h
  | file n content rest ih =>
    rcases List.mem_cons.mp h with rfl | h
    · exact ⟨n, [], rfl, List.mem_cons_self⟩
    · obtain ⟨name, names, rfl, hname⟩ := ih h
      exact ⟨name, names, rfl, List.mem_cons_of_mem n hname⟩
  | folder n inside rest _ ih =>
    rcases List.mem_append.mp h with h | h
    · obtain ⟨names, -, rfl⟩ := List.mem_map.mp h
      exact ⟨n, names, rfl, List.mem_cons_self⟩
    · obtain ⟨name, names, rfl, hname⟩ := ih h
      exact ⟨name, names, rfl, List.mem_cons_of_mem n hname⟩

/-- Names lead on from an entry to a file: none from a file itself. -/
def LeadsOn : Node → List String → Prop
  | .file _, names => names = []
  | .folder inside, names => Below inside names

theorem below_cons_iff :
    Below f (name :: names) ↔ ∃ node, f.child? name = some node ∧ LeadsOn node names := by
  constructor
  · rintro (⟨h⟩ | ⟨h, hinside⟩)
    · exact ⟨_, h, rfl⟩
    · exact ⟨_, h, hinside⟩
  · rintro ⟨content | inside, h, hnames⟩
    · cases hnames
      exact .file h
    · exact .folder h hnames

/-- A file is reached by the first entry or by a later one. -/
theorem below_entry_iff (node : Node) (hfirst : ∀ m ∈ rest.entries, n < m) :
    Below (cons n node rest) names ↔
      (∃ behind, names = n :: behind ∧ LeadsOn node behind) ∨ Below rest names := by
  have hchild (name : String) : (cons n node rest).child? name =
      if n = name then some node else rest.child? name := by
    cases node <;> rfl
  cases names with
  | nil => exact iff_of_false nofun (by rintro (⟨_, h, -⟩ | h) <;> cases h)
  | cons name names =>
    rw [below_cons_iff, below_cons_iff, hchild]
    by_cases hn : n = name
    · have hlater : rest.child? name = none := by
        rw [Option.eq_none_iff_forall_ne_some]
        intro node h
        exact String.lt_irrefl n (hfirst n (hn ▸ mem_entries_of_child? h))
      simp [hn, hlater]
    · simp [hn, Ne.symm hn]

/-- A walk comes to exactly the files in a folder and below it. -/
theorem mem_files_iff (hf : f.WellFormed) : names ∈ f.files ↔ Below f names := by
  induction hf generalizing names with
  | empty => exact iff_of_false nofun nofun
  | @file n content rest _ _ _ hfirst ih =>
    have hentry : Below (cons n (.file content) rest) names ↔ _ := below_entry_iff _ hfirst
    rw [files, List.mem_cons, ih]
    simpa [cons, LeadsOn] using hentry.symm
  | @folder n inside rest _ _ _ _ hfirst ihinside ihrest =>
    have hentry : Below (cons n (.folder inside) rest) names ↔ _ := below_entry_iff _ hfirst
    rw [files, List.mem_append, List.mem_map, ihrest]
    simp only [ihinside]
    simpa [cons, LeadsOn, eq_comm, and_comm] using hentry.symm

/-- A walk goes by the names: a folder comes before what stands behind it, with all that is in
it. -/
theorem pairwise_files (hf : f.WellFormed) : f.files.Pairwise (List.Lex (· < ·)) := by
  have hrel {n : String} {names : List String} {rest : Folder} {tail : List String}
      (hfirst : ∀ m ∈ rest.entries, n < m) (h : names ∈ rest.files) :
      List.Lex (· < ·) (n :: tail) names := by
    obtain ⟨name, behind, rfl, hname⟩ := exists_cons_of_mem_files h
    exact .rel (hfirst name hname)
  induction hf with
  | empty => exact .nil
  | file _ _ _ hfirst ih => exact .cons (fun names h => hrel hfirst h) ih
  | folder _ _ _ _ hfirst ihinside ihrest =>
    refine List.pairwise_append.mpr ⟨?_, ihrest, fun names h other h' => ?_⟩
    · exact ihinside.map _ fun _ _ h => .cons h
    · obtain ⟨tail, -, rfl⟩ := List.mem_map.mp h
      exact hrel hfirst h'

/-- The names of a walk can all stand on a path, and none leads back up. -/
theorem isName_of_mem_files (hf : f.WellFormed) (h : names ∈ f.files) :
    ∀ name ∈ names, IsName name ∧ name ≠ ".." := by
  induction hf generalizing names with
  | empty => cases h
  | file hname hparent _ _ ih =>
    rcases List.mem_cons.mp h with rfl | h
    · simpa using ⟨hname, hparent⟩
    · exact ih h
  | folder hname hparent _ _ _ ihinside ihrest =>
    rcases List.mem_append.mp h with h | h
    · obtain ⟨behind, hbehind, rfl⟩ := List.mem_map.mp h
      exact List.forall_mem_cons.mpr ⟨⟨hname, hparent⟩, ihinside hbehind⟩
    · exact ihrest h

end Walk

/-! ### Building folders -/

section Building
variable {f rest : Folder} {name n : String} {node : Node}

/-- A node that can stand in a folder as a file system has it. -/
def NodeWellFormed : Node → Prop
  | .file _ => True
  | .folder inside => inside.WellFormed

theorem wellFormed_cons (hname : IsName name) (hparent : name ≠ "..") (hnode : NodeWellFormed node)
    (hrest : rest.WellFormed) (hfirst : ∀ n ∈ rest.entries, name < n) :
    (cons name node rest).WellFormed := by
  cases node with
  | file => exact .file hname hparent hrest hfirst
  | folder => exact .folder hname hparent hnode hrest hfirst

theorem entries_cons (name : String) (node : Node) (rest : Folder) :
    (cons name node rest).entries = name :: rest.entries := by
  cases node <;> rfl

theorem put_cons (name n : String) (node m : Node) (rest : Folder) :
    put name node (cons n m rest) =
      if name = n then cons name node rest
      else if name < n then cons name node (cons n m rest)
      else cons n m (put name node rest) := by
  cases m <;> rfl

theorem mem_entries_put_cons {m : Node} {other : String}
    (ih : ∀ other, other ∈ (put name node rest).entries → other = name ∨ other ∈ rest.entries)
    (h : other ∈ (put name node (cons n m rest)).entries) :
    other = name ∨ other ∈ (cons n m rest).entries := by
  rw [put_cons] at h
  split at h
  · simp only [entries_cons, List.mem_cons] at h ⊢
    tauto
  · split at h
    · simp only [entries_cons, List.mem_cons] at h ⊢
      tauto
    · simp only [entries_cons, List.mem_cons] at h ⊢
      rcases h with h | h
      · exact .inr (.inl h)
      · exact (ih other h).imp_right .inr

theorem mem_entries_put (h : n ∈ (put name node f).entries) : n = name ∨ n ∈ f.entries := by
  induction f generalizing n with
  | empty =>
    rw [put, entries_cons] at h
    simpa [entries] using h
  | file m content rest ih => exact mem_entries_put_cons (m := .file content) (fun _ => ih) h
  | folder m inside rest _ ih => exact mem_entries_put_cons (m := .folder inside) (fun _ => ih) h

theorem WellFormed.put (hf : f.WellFormed) (hname : IsName name) (hparent : name ≠ "..")
    (hnode : NodeWellFormed node) : (put name node f).WellFormed := by
  have hstep {n : String} {m : Node} {rest : Folder} (hn : IsName n ∧ n ≠ "..")
      (hm : NodeWellFormed m) (hrest : rest.WellFormed) (hfirst : ∀ o ∈ rest.entries, n < o)
      (ih : (Folder.put name node rest).WellFormed) :
      (Folder.put name node (cons n m rest)).WellFormed := by
    rw [put_cons]
    split
    · rename_i heq
      exact wellFormed_cons hname hparent hnode hrest (heq ▸ hfirst)
    · rename_i hne
      split
      · rename_i hlt
        refine wellFormed_cons hname hparent hnode (wellFormed_cons hn.1 hn.2 hm hrest hfirst) ?_
        rw [entries_cons, List.forall_mem_cons]
        exact ⟨hlt, fun o ho => String.lt_trans hlt (hfirst o ho)⟩
      · rename_i hle
        refine wellFormed_cons hn.1 hn.2 hm ih fun o ho => ?_
        rcases mem_entries_put ho with rfl | ho
        · exact Std.lt_of_le_of_ne (String.not_lt.mp hle) (Ne.symm hne)
        · exact hfirst o ho
  induction hf with
  | empty => exact wellFormed_cons hname hparent hnode .empty nofun
  | @file n content rest hn hn' hrest hfirst ih =>
    exact hstep (m := .file content) ⟨hn, hn'⟩ trivial hrest hfirst ih
  | @folder n inside rest hn hn' hinside hrest hfirst _ ih =>
    exact hstep (m := .folder inside) ⟨hn, hn'⟩ hinside hrest hfirst ih

theorem WellFormed.child? (hf : f.WellFormed) (h : f.child? name = some node) :
    NodeWellFormed node := by
  induction hf with
  | empty => cases h
  | file _ _ _ _ ih =>
    rw [Folder.child?] at h
    split at h
    · cases h
      trivial
    · exact ih h
  | folder _ _ hinside _ _ _ ih =>
    rw [Folder.child?] at h
    split at h
    · cases h
      exact hinside
    · exact ih h

theorem WellFormed.inside (hf : f.WellFormed) (name : String) : (f.inside name).WellFormed := by
  unfold Folder.inside
  split
  · rename_i h
    exact hf.child? h
  · exact .empty

/-- A file system stays one when a folder is added. -/
theorem WellFormed.addFolder {names : List String} (hf : f.WellFormed)
    (hnames : ∀ name ∈ names, IsName name ∧ name ≠ "..") : (addFolder names f).WellFormed := by
  induction names generalizing f with
  | nil => exact hf
  | cons name names ih =>
    obtain ⟨⟨hname, hparent⟩, hnames⟩ := List.forall_mem_cons.mp hnames
    exact hf.put hname hparent (ih (hf.inside name) hnames)

/-- A file system stays one when a file is added. -/
theorem WellFormed.addFile {names : List String} (hf : f.WellFormed)
    (hnames : ∀ name ∈ names, IsName name ∧ name ≠ "..") (content : ByteArray) :
    (addFile content names f).WellFormed := by
  induction names generalizing f with
  | nil => exact hf
  | cons name names ih =>
    obtain ⟨⟨hname, hparent⟩, hnames⟩ := List.forall_mem_cons.mp hnames
    cases names with
    | nil => exact hf.put hname hparent trivial
    | cons next names => exact hf.put hname hparent (ih (hf.inside name) hnames)

end Building

end Folder

/-! ### Where a path ends -/

namespace Place

/-- The folders on the way to a place are those that the names lead to. -/
inductive Consistent (root : Folder) : List (String × Folder) → Prop where
  | nil : Consistent root []
  | cons {name : String} {inside : Folder} {trail : List (String × Folder)}
      (htrail : Consistent root trail)
      (h : (trail.head?.elim root Prod.snd).child? name = some (.folder inside)) :
      Consistent root ((name, inside) :: trail)

/-- A place that is there: the names lead to it. -/
def IsIn (root : Folder) : Place → Prop
  | folder trail => Consistent root trail
  | file trail name content => Consistent root trail ∧
      (trail.head?.elim root Prod.snd).child? name = some (.file content)

variable {root : Folder}

theorem Consistent.unique {trail other : List (String × Folder)} (h : Consistent root trail)
    (h' : Consistent root other) (hnames : trail.map Prod.fst = other.map Prod.fst) :
    trail = other := by
  induction h generalizing other with
  | nil =>
    cases h' with
    | nil => rfl
    | cons => cases hnames
  | cons _ hchild ih =>
    cases h' with
    | nil => cases hnames
    | cons htrail' hchild' =>
      obtain ⟨rfl, hrest⟩ := List.cons.inj hnames
      obtain rfl := ih htrail' hrest
      rw [hchild] at hchild'
      cases hchild'
      rfl

/-- The folder at the end of a way is in order, if all folders are. -/
theorem Consistent.wellFormed {trail : List (String × Folder)} (h : Consistent root trail)
    (hroot : root.WellFormed) : (trail.head?.elim root Prod.snd).WellFormed := by
  induction h with
  | nil => exact hroot
  | cons _ hchild ih => exact ih.child? hchild

/-- No names lead to a folder and to a file. -/
theorem Consistent.ne_file {trail other : List (String × Folder)} {name : String}
    {content : ByteArray} (h : Consistent root trail)
    (hfile : IsIn root (file other name content)) :
    (folder trail).names ≠ (file other name content).names := by
  intro hnames
  have hmap : trail.map Prod.fst = name :: other.map Prod.fst := by
    simpa [names] using congrArg List.reverse hnames
  cases h with
  | nil => cases hmap
  | cons htrail hchild =>
    obtain ⟨rfl, hrest⟩ := List.cons.inj hmap
    obtain rfl := htrail.unique hfile.1 hrest
    rw [hfile.2] at hchild
    cases hchild

/-- There is one place for some names. -/
theorem IsIn.unique {place other : Place} (h : place.IsIn root) (h' : other.IsIn root)
    (hnames : place.names = other.names) : place = other := by
  cases place with
  | folder trail =>
    cases other with
    | folder trail' => rw [Consistent.unique h h' (List.reverse_inj.mp hnames)]
    | file trail' name content => exact absurd hnames (Consistent.ne_file h h')
  | file trail name content =>
    cases other with
    | folder trail' => exact absurd hnames.symm (Consistent.ne_file h' h)
    | file trail' name' content' =>
      obtain ⟨hfront, hname⟩ := List.append_inj' hnames rfl
      obtain rfl := List.cons.inj hname |>.1
      obtain rfl := h.1.unique h'.1 (List.reverse_inj.mp hfront)
      obtain hcontent := h.2.symm.trans h'.2
      cases hcontent
      rfl

end Place

namespace Folder
variable {root : Folder} {place place' : Place} {segment path : String}

/-- One segment: it leads nowhere, back up, or on by one name. -/
theorem step_eq_ok (h : root.step place segment = .ok place') (hplace : place.IsIn root) :
    place'.IsIn root ∧ place'.names =
      if isIdle segment then place.names
      else if segment = ".." then place.names.dropLast
      else place.names ++ [segment] := by
  cases place with
  | file => cases h
  | folder trail =>
    rw [step] at h
    split at h
    · rename_i hidle
      obtain rfl := Except.ok.inj h
      exact ⟨hplace, (if_pos hidle).symm⟩
    rename_i hidle
    rw [if_neg hidle]
    split at h
    · rename_i hparent
      obtain rfl := Except.ok.inj h
      refine ⟨?_, by simp [Place.names, hparent, List.dropLast_reverse]⟩
      cases hplace with
      | nil => exact .nil
      | cons htrail => exact htrail
    rename_i hparent
    rw [if_neg hparent]
    split at h
    · cases h
    split at h
    · cases h
    · rename_i content hchild
      obtain rfl := Except.ok.inj h
      exact ⟨⟨hplace, hchild⟩, rfl⟩
    · rename_i inside hchild
      obtain rfl := Except.ok.inj h
      exact ⟨.cons hplace hchild, by simp [Place.names]⟩

/-- Where a way ends: each `..` on it has taken away the name before it. -/
theorem foldlM_step_eq_ok {segments : List String}
    (h : segments.foldlM root.step place = .ok place') (hplace : place.IsIn root) :
    place'.IsIn root ∧ place'.names =
      (segments.filter fun segment => !isIdle segment).foldl
        (fun trail name => if name = ".." then trail.dropLast else trail ++ [name])
        place.names := by
  induction segments generalizing place with
  | nil =>
    obtain rfl := Except.ok.inj h
    exact ⟨hplace, rfl⟩
  | cons segment segments ih =>
    rw [List.foldlM_cons] at h
    cases hstep : root.step place segment with
    | error cause =>
      rw [hstep] at h
      cases h
    | ok next =>
      rw [hstep] at h
      obtain ⟨hnext, hnames⟩ := step_eq_ok hstep hplace
      obtain ⟨hplace', hnames'⟩ := ih h hnext
      refine ⟨hplace', ?_⟩
      rw [hnames', hnames]
      cases hidle : isIdle segment <;> simp [hidle]

theorem locate_eq_ok (h : root.locate path = .ok place) :
    place.IsIn root ∧ place.names = withoutParents (Path.names path) := by
  rw [locate] at h
  split at h
  · cases h
  split at h
  · cases h
  exact foldlM_step_eq_ok h .nil

theorem wellFormed_of_folder? {folder : Folder} (hroot : root.WellFormed)
    (h : root.folder? path = some folder) : folder.WellFormed := by
  rw [folder?] at h
  split at h
  · rename_i trail hlocate
    obtain rfl := Option.some.inj h
    exact Place.Consistent.wellFormed (locate_eq_ok hlocate).1 hroot
  · cases h

/-- Two paths lead to the same place exactly if the same names are left of them without `..`. -/
theorem locate_eq_iff {other : String} (h : root.locate path = .ok place)
    (h' : root.locate other = .ok place') :
    place = place' ↔ withoutParents (Path.names path) = withoutParents (Path.names other) := by
  obtain ⟨hplace, hnames⟩ := locate_eq_ok h
  obtain ⟨hplace', hnames'⟩ := locate_eq_ok h'
  rw [← hnames, ← hnames']
  exact ⟨fun heq => heq ▸ rfl, hplace.unique hplace'⟩

end Folder

theorem Path.withoutParents_of_not_mem {names : List String} (h : ".." ∉ names) :
    withoutParents names = names := by
  suffices hfold : ∀ front : List String, names.foldl
      (fun trail name => if name = ".." then trail.dropLast else trail ++ [name]) front =
        front ++ names from hfold []
  induction names with
  | nil => exact fun front => (List.append_nil front).symm
  | cons name names ih =>
    rw [List.mem_cons, not_or] at h
    intro front
    rw [List.foldl_cons, if_neg (Ne.symm h.1), ih h.2, List.append_assoc]
    rfl

end SheetLint
