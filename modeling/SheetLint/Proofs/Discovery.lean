import Mathlib.Data.List.Basic
import Mathlib.Data.List.Forall2
import SheetLint.Plan
import SheetLint.Proofs.FolderWalk

/-! # Finding stylesheets

A target that is there stands for a list of paths (`Expands`), and a run checks the paths of all
targets one after the other: each at its first place, and without those left out.

Paths are told apart by their names, so a file that is reached by two spellings is found once as
long as `..` is not one of the names (`discover_distinct`).
-/
open SheetLint.Path

namespace SheetLint

/-! ### First occurrences -/

section FirstOccurrences
variable {α : Type} [BEq α] [LawfulBEq α]

/-- Leaving out other elements does not change which of two comes first. -/
theorem idxOf_lt_of_filter {p : α → Bool} {l : List α} {a b : α} (ha : p a = true)
    (hb : p b = true) (h : (l.filter p).idxOf a < (l.filter p).idxOf b) :
    l.idxOf a < l.idxOf b := by
  induction l with
  | nil => exact h
  | cons c l ih =>
    by_cases hc : p c = true
    · rw [List.filter_cons_of_pos hc] at h
      by_cases hb : c = b
      · simp [hb] at h
      rw [List.idxOf_cons_ne _ hb] at h ⊢
      by_cases ha : c = a
      · rw [ha, List.idxOf_cons_self]
        exact Nat.succ_pos _
      · rw [List.idxOf_cons_ne _ ha] at h ⊢
        exact Nat.succ_lt_succ (ih (Nat.lt_of_succ_lt_succ h))
    · rw [List.filter_cons_of_neg hc] at h
      rw [List.idxOf_cons_ne _ (ne_of_apply_ne p (by simp [ha, hc])),
        List.idxOf_cons_ne _ (ne_of_apply_ne p (by simp [hb, hc]))]
      exact Nat.succ_lt_succ (ih h)

/-- Each element is kept at its first place. -/
theorem pairwise_eraseDups (l : List α) :
    l.eraseDups.Pairwise fun a b => l.idxOf a < l.idxOf b := by
  -- on the length, as the first element takes away its later copies
  induction hn : l.length using Nat.strongRecOn generalizing l with
  | _ n ih =>
    cases l with
    | nil => exact .nil
    | cons c l =>
      rw [List.length_cons] at hn
      have hshorter := List.length_filter_le (fun b => !b == c) l
      have hkept {a : α} (ha : a ∈ (l.filter fun b => !b == c).eraseDups) : (!a == c) = true :=
        (List.mem_filter.mp (List.mem_eraseDups.mp ha)).2
      have hlater {a : α} (ha : (!a == c) = true) : (c :: l).idxOf a = l.idxOf a + 1 := by
        refine List.idxOf_cons_ne l ?_
        rintro rfl
        simp at ha
      rw [List.eraseDups_cons]
      refine .cons (fun b hb => ?_) ?_
      · rw [List.idxOf_cons_self, hlater (hkept hb)]
        exact Nat.succ_pos _
      · refine (ih _ (by omega) _ rfl).imp_of_mem fun ha hb hlt => ?_
        rw [hlater (hkept ha), hlater (hkept hb)]
        exact Nat.succ_lt_succ (idxOf_lt_of_filter (hkept ha) (hkept hb) hlt)

end FirstOccurrences

/-! ### What a target stands for -/

/-- There is a file or a folder at the end of a path. -/
def Folder.Holds (root : Folder) (path : String) : Prop :=
  root.isFile path = true ∨ ∃ folder, root.folder? path = some folder

/-- The last of some names is that of a stylesheet: it ends in `.css`, in any case of letters, with
something in front of it. -/
def NamesSheet (names : List String) : Prop :=
  ∃ front name stem ext, names = front ++ [name] ∧ name.toList = stem ++ '.' :: ext ∧ stem ≠ [] ∧
    ext.map Char.toLower = "css".toList

theorem namesSheet_iff {names : List String} :
    NamesSheet names ↔ names.getLast?.any isStylesheet = true := by
  rw [Option.any_eq_true]
  constructor
  · rintro ⟨front, name, stem, ext, rfl, hname, hstem, hext⟩
    exact ⟨name, by simp, isStylesheet_iff.mpr ⟨stem, ext, hname, hstem, hext⟩⟩
  · rintro ⟨name, hlast, hsheet⟩
    obtain ⟨front, rfl⟩ := List.getLast?_eq_some_iff.mp hlast
    obtain ⟨stem, ext, hname, hstem, hext⟩ := isStylesheet_iff.mp hsheet
    exact ⟨front, name, stem, ext, rfl, hname, hstem, hext⟩

/-- The paths that a target stands for: a file for itself, and a folder for the stylesheets in it
and below it, in the order of their names. -/
inductive Expands (files : Folder) (target : String) : List String → Prop where
  | file (h : files.isFile target = true) : Expands files target [target]
  | folder {folder : Folder} {sheets : List (List String)} (hfile : files.isFile target = false)
      (h : files.folder? target = some folder)
      (hsheets : ∀ names, names ∈ sheets ↔ folder.Below names ∧ NamesSheet names)
      (hsorted : sheets.Pairwise (List.Lex (· < ·))) :
      Expands files target (sheets.map fun names => names.foldl Path.join target)

namespace Plan
variable {files : Folder} {target path : String} {plan : Plan} {paths : List String}

/-- A file is left out if a glob describes it as seen from the workspace. -/
def Excludes (plan : Plan) (path : String) : Prop :=
  ∃ shown, SeenFrom plan.workspace path shown ∧
    ∃ glob ∈ plan.excludes.globs, glob.covers shown = true

theorem isExcluded_iff : plan.isExcluded path = true ↔ plan.Excludes path := by
  simp [isExcluded, Excludes, seenFrom_iff, shownPath, Exclusions.covers]

theorem expand_of_holds (hfiles : files.WellFormed) (h : files.Holds target) :
    ∃ found, expand files target = .ok found ∧ Expands files target found := by
  cases hfile : files.isFile target with
  | true => exact ⟨[target], by rw [expand, if_pos hfile], .file hfile⟩
  | false =>
    obtain ⟨folder, hfolder⟩ := h.resolve_left (by simp [hfile])
    have hwalk := Folder.wellFormed_of_folder? hfiles hfolder
    refine ⟨_, by rw [expand, if_neg (by simp [hfile]), hfolder], .folder hfile hfolder ?_ ?_⟩
    · intro names
      rw [List.mem_filter, Folder.mem_files_iff hwalk, namesSheet_iff]
    · exact (Folder.pairwise_files hwalk).filter _

theorem expand_of_not_holds (h : ¬ files.Holds target) :
    expand files target = .error (.pathNotFound target) := by
  rw [Folder.Holds, not_or, not_exists] at h
  cases hfolder : files.folder? target with
  | some folder => exact absurd hfolder (h.2 folder)
  | none => rw [expand, if_neg h.1, hfolder]

/-- Targets are looked at in order, up to the first that is not there. -/
theorem mapM_expand (hfiles : files.WellFormed) (targets : List String) :
    (∃ before target behind, targets = before ++ target :: behind ∧
      (∀ t ∈ before, files.Holds t) ∧ ¬ files.Holds target ∧
      targets.mapM (expand files) = .error (.pathNotFound target)) ∨
    (∀ t ∈ targets, files.Holds t) ∧ ∃ expansions, List.Forall₂ (Expands files) targets expansions ∧
      targets.mapM (expand files) = .ok expansions := by
  induction targets with
  | nil => exact .inr ⟨nofun, [], .nil, rfl⟩
  | cons target targets ih =>
    rw [List.mapM_cons]
    by_cases htarget : files.Holds target
    · obtain ⟨found, hfound, hexpands⟩ := expand_of_holds hfiles htarget
      rw [hfound]
      rcases ih with ⟨before, missing, behind, rfl, hbefore, hmissing, herror⟩ |
        ⟨hall, expansions, hexpansions, hok⟩
      · rw [herror]
        exact .inl ⟨target :: before, missing, behind, rfl,
          List.forall_mem_cons.mpr ⟨htarget, hbefore⟩, hmissing, rfl⟩
      · rw [hok]
        exact .inr ⟨List.forall_mem_cons.mpr ⟨htarget, hall⟩, found :: expansions,
          .cons hexpands hexpansions, rfl⟩
    · rw [expand_of_not_holds htarget]
      exact .inl ⟨[], target, targets, rfl, nofun, htarget, rfl⟩

section Listing
variable (plan : Plan) (all : List String)

theorem pairwise_listing :
    (all.eraseDups.filter fun path => !plan.isExcluded path).Pairwise
      fun p q => all.idxOf p < all.idxOf q :=
  (pairwise_eraseDups all).filter _

theorem nodup_listing : (all.eraseDups.filter fun path => !plan.isExcluded path).Nodup := by
  refine (plan.pairwise_listing all).imp ?_
  rintro p _ h rfl
  exact Nat.lt_irrefl _ h

theorem mem_listing_iff :
    path ∈ (all.eraseDups.filter fun path => !plan.isExcluded path) ↔
      path ∈ all ∧ ¬ plan.Excludes path := by
  rw [List.mem_filter, List.mem_eraseDups, ← isExcluded_iff, Bool.not_eq_true, Bool.not_eq_true']

end Listing

/-- **The files of a run.**  The first target that is neither file nor folder is an error, whatever
follows it.  If there is none, the paths that the targets stand for are found, in order and each
at its first place, but for those left out. -/
theorem discover_cases (plan : Plan) (files : Folder) (hfiles : files.WellFormed) :
    (∃ before target behind, plan.targets = before ++ target :: behind ∧
      (∀ t ∈ before, files.Holds t) ∧ ¬ files.Holds target ∧
      plan.discover files = .error (.pathNotFound target)) ∨
    (∀ t ∈ plan.targets, files.Holds t) ∧
      ∃ expansions paths, List.Forall₂ (Expands files) plan.targets expansions ∧
        plan.discover files = .ok paths ∧ paths.Nodup ∧
        (∀ path, path ∈ paths ↔ (∃ found ∈ expansions, path ∈ found) ∧ ¬ plan.Excludes path) ∧
        paths.Pairwise fun p q => expansions.flatten.idxOf p < expansions.flatten.idxOf q := by
  unfold discover
  rcases mapM_expand hfiles plan.targets with
    ⟨before, missing, behind, htargets, hbefore, hmissing, herror⟩ |
    ⟨hall, expansions, hexpansions, hok⟩
  · rw [herror]
    exact .inl ⟨before, missing, behind, htargets, hbefore, hmissing, rfl⟩
  · rw [hok]
    refine .inr ⟨hall, expansions, _, hexpansions, rfl, plan.nodup_listing _, fun path => ?_,
      plan.pairwise_listing _⟩
    rw [mem_listing_iff, List.mem_flatten]

/-- A file that is named and found in its folder, and left out all the same. -/
theorem discover_cases_overlap :
    let files := Folder.addFile .empty ["w", "d", "x.css"] (.addFile .empty ["w", "a.css"] .empty)
    let plan : Plan :=
      { workspace := "/w", targets := ["/w/d/x.css", "/w"], ruleset := {}, filesystem := true,
        excludes := ⟨[⟨[.literal 'd', .allBelow]⟩]⟩ }
    files.WellFormed ∧ ∃ paths, plan.discover files = .ok paths ∧ paths.Nodup ∧
      "/w/d/x.css" ∉ paths := by
  intro files plan
  have hfiles : files.WellFormed :=
    (Folder.WellFormed.empty.addFile (by decide) _).addFile (by decide) _
  have hholds : ∀ t ∈ plan.targets, files.Holds t := by
    intro t ht
    rcases List.mem_pair.mp ht with rfl | rfl
    · exact .inl (by decide)
    · exact .inr ⟨_, rfl⟩
  have hexcludes : plan.Excludes "/w/d/x.css" := isExcluded_iff.mp (by decide +kernel)
  rcases discover_cases plan files hfiles with
    ⟨before, target, behind, htargets, -, hmissing, -⟩ |
    ⟨-, expansions, paths, -, hok, hnodup, hmem, -⟩
  · exact absurd (hholds target (by rw [htargets]; simp)) hmissing
  · exact ⟨hfiles, paths, hok, hnodup, fun h => ((hmem _).mp h).2 hexcludes⟩

/-! ### Entries and files -/

theorem targets_of_make {around : Surroundings} {args : Arguments}
    (h : make around args = .ok plan) : plan.targets = targetsOf around.directory args := by
  unfold make at h
  dsimp only [bind, Except.bind] at h
  -- a plan comes of the ways on which nothing fails, and they all have the same targets
  repeat' split at h
  all_goals cases h
  all_goals rfl

/-- The paths a command line gives the targets of a run by. -/
def given (args : Arguments) : List String :=
  if args.paths.isEmpty then [args.workspace] else args.paths

theorem targetsOf_eq (directory : String) (args : Arguments) :
    targetsOf directory args = (given args).map (absolute directory) := by
  unfold targetsOf given
  split <;> rfl

/-- Below a target in its only spelling all paths are in theirs, and `..` is no new name. -/
theorem expands_canonical {found : List String} (hfiles : files.WellFormed)
    (htarget : IsCanonical target) (h : Expands files target found) (hpath : path ∈ found) :
    IsCanonical path ∧ (".." ∈ names path → ".." ∈ names target) := by
  cases h with
  | file =>
    obtain rfl := List.mem_singleton.mp hpath
    exact ⟨htarget, id⟩
  | folder _ hfolder hsheets =>
    obtain ⟨trail, htrail, rfl⟩ := List.mem_map.mp hpath
    have hwalk := Folder.wellFormed_of_folder? hfiles hfolder
    have hnames := Folder.isName_of_mem_files hwalk
      ((Folder.mem_files_iff hwalk).mpr ((hsheets trail).mp htrail).1)
    obtain ⟨hpath, hpath'⟩ := htarget.foldl_join fun name hname => (hnames name hname).1
    refine ⟨hpath, fun hparent => ?_⟩
    rw [hpath', List.mem_append] at hparent
    exact hparent.resolve_right fun hparent => (hnames ".." hparent).2 rfl

theorem exists_target_of_mem {targets : List String} {expansions : List (List String)}
    (h : List.Forall₂ (Expands files) targets expansions) (hpath : path ∈ expansions.flatten) :
    ∃ target ∈ targets, ∃ found, Expands files target found ∧ path ∈ found := by
  induction h with
  | nil => cases hpath
  | @cons target found targets expansions hexpands _ ih =>
    rcases List.mem_append.mp hpath with hpath | hpath
    · exact ⟨target, List.mem_cons_self, found, hexpands, hpath⟩
    · obtain ⟨target', htarget', hfound⟩ := ih hpath
      exact ⟨target', List.mem_cons_of_mem _ htarget', hfound⟩

/-- Every path that is found stands for a target, and none is found twice. -/
theorem of_discover_eq_ok (hfiles : files.WellFormed) (h : plan.discover files = .ok paths) :
    paths.Nodup ∧ ∀ path ∈ paths, ∃ target ∈ plan.targets, ∃ found,
      Expands files target found ∧ path ∈ found := by
  unfold discover at h
  rcases mapM_expand hfiles plan.targets with
    ⟨_, _, _, _, _, _, herror⟩ | ⟨_, expansions, hexpansions, hok⟩
  · rw [herror] at h
    cases h
  · rw [hok] at h
    obtain rfl := Except.ok.inj h
    refine ⟨plan.nodup_listing _, fun path hpath => ?_⟩
    exact exists_target_of_mem hexpansions ((plan.mem_listing_iff _).mp hpath).1

/-- The entries of a run are in their only spelling, and a `..` in one has been given. -/
theorem entry_canonical {around : Surroundings} {args : Arguments}
    (hdirectory : isAbsolute around.directory = true) (hfiles : around.files.WellFormed)
    (hplan : make around args = .ok plan) (hpaths : plan.discover around.files = .ok paths)
    (hpath : path ∈ paths) :
    IsCanonical path ∧ (".." ∈ names path →
      ".." ∈ names around.directory ∨ ∃ arg ∈ given args, ".." ∈ names arg) := by
  obtain ⟨target, htarget, found, hexpands, hmem⟩ := (of_discover_eq_ok hfiles hpaths).2 path hpath
  rw [targets_of_make hplan, targetsOf_eq] at htarget
  obtain ⟨arg, harg, rfl⟩ := List.mem_map.mp htarget
  obtain ⟨hcanonical, hparent⟩ :=
    expands_canonical hfiles (isCanonical_absolute hdirectory) hexpands hmem
  refine ⟨hcanonical, fun h => ?_⟩
  exact (mem_names_absolute hdirectory (hparent h)).imp_right fun h => ⟨arg, harg, h⟩

/-- **A file is checked once, but for `..`.**  The entries of a run lead along different names.  Two
of them lead to the same file only if `..` is among the names of one, and that has been put there
by the command line or is part of the folder that relative paths start from. -/
theorem discover_distinct (around : Surroundings) (args : Arguments)
    (hdirectory : isAbsolute around.directory = true) (hfiles : around.files.WellFormed)
    (hplan : make around args = .ok plan) (hpaths : plan.discover around.files = .ok paths) :
    paths.Pairwise (fun p q => names p ≠ names q ∧
      (withoutParents (names p) = withoutParents (names q) → ".." ∈ names p ∨ ".." ∈ names q)) ∧
    (∀ p ∈ paths, ".." ∈ names p →
      ".." ∈ names around.directory ∨ ∃ arg ∈ given args, ".." ∈ names arg) ∧
    (∀ p ∈ paths, ∀ q ∈ paths, ∀ place place', around.files.locate p = .ok place →
      around.files.locate q = .ok place' →
      (place = place' ↔ withoutParents (names p) = withoutParents (names q))) := by
  have hnodup := (of_discover_eq_ok hfiles hpaths).1
  have hentry {p : String} (hp : p ∈ paths) := entry_canonical hdirectory hfiles hplan hpaths hp
  refine ⟨hnodup.imp_of_mem fun {p q} hp hq hne => ?_, fun p hp => (hentry hp).2,
    fun p _ q _ place place' h h' => Folder.locate_eq_iff h h'⟩
  have hnames : names p ≠ names q := fun heq =>
    hne ((hentry hp).1.eq_of_names_eq (hentry hq).1 heq)
  refine ⟨hnames, fun hsame => ?_⟩
  -- without `..` nothing is taken away, so the names would be the same
  by_contra hparents
  rw [not_or] at hparents
  rw [withoutParents_of_not_mem hparents.1, withoutParents_of_not_mem hparents.2] at hsame
  exact hnames hsame

/-- Three spellings lead to one entry for each file. -/
theorem discover_distinct_spellings :
    let files := Folder.addFile .empty ["w", "d", "x.css"] (.addFile .empty ["w", "a.css"] .empty)
    let args : Arguments :=
      { paths := ["a.css", "./a.css", "."], workspace := ".", format := .human, warnings := none,
        errors := none, ignore := none, exclude := [], config := none, flags := [] }
    ∃ plan paths, make ⟨files, "/w", none⟩ args = .ok plan ∧ plan.discover files = .ok paths ∧
      paths.length = 2 ∧
      paths.Pairwise fun p q => withoutParents (names p) ≠ withoutParents (names q) := by
  intro files args
  have hfiles : files.WellFormed :=
    (Folder.WellFormed.empty.addFile (by decide) _).addFile (by decide) _
  have hrun : (make ⟨files, "/w", none⟩ args >>= fun plan => plan.discover files) =
      .ok ["/w/a.css", "/w/d/x.css"] := by decide +kernel
  cases hplan : make ⟨files, "/w", none⟩ args with
  | error cause =>
    rw [hplan] at hrun
    cases hrun
  | ok plan =>
    rw [hplan] at hrun
    obtain ⟨hdistinct, hparents, -⟩ :=
      discover_distinct ⟨files, "/w", none⟩ args (by decide) hfiles hplan hrun
    have hnone : ∀ p ∈ ["/w/a.css", "/w/d/x.css"], ".." ∉ names p :=
      fun p hp h => absurd (hparents p hp h) (by decide)
    exact ⟨plan, _, rfl, hrun, rfl, hdistinct.imp_of_mem fun hp hq h hsame =>
      (h.2 hsame).elim (hnone _ hp) (hnone _ hq)⟩

/-- A file is found twice if it is named once by way of another folder. -/
theorem discover_twice :
    let files := Folder.addFile .empty ["w", "d", "x.css"] (.addFile .empty ["w", "a.css"] .empty)
    let args : Arguments :=
      { paths := ["a.css", "d/../a.css"], workspace := ".", format := .human, warnings := none,
        errors := none, ignore := none, exclude := [], config := none, flags := [] }
    files.WellFormed ∧
      (make ⟨files, "/w", none⟩ args >>= fun plan => plan.discover files) =
        .ok ["/w/a.css", "/w/d/../a.css"] ∧
      withoutParents (names "/w/a.css") = withoutParents (names "/w/d/../a.css") := by
  intro files args
  refine ⟨(Folder.WellFormed.empty.addFile (by decide) _).addFile (by decide) _, ?_, by decide⟩
  decide +kernel

end Plan
end SheetLint
