import Mathlib.Data.List.Basic
import SheetLint.Path

/-! # The names along a path

A path leads along its names, however it is spelled (`names_join`, `names_absolute`).  An
absolute path in its only spelling (`IsCanonical`) is told apart from the others by its names,
and stays so when names are joined to it one by one.
-/
namespace SheetLint.Path
open Text

/-- A text that can be a name on a path: there is no slash in it, and it leads somewhere. -/
def IsName (name : String) : Prop := '/' ∉ name.toList ∧ isIdle name = false

instance (name : String) : Decidable (IsName name) := inferInstanceAs (Decidable (_ ∧ _))

/-! ### Names and spelling -/

section Names
variable {path base name : String} {trail : List String}

theorem segments_append (before behind : List Char) :
    segments (before ++ '/' :: behind) = segments before ++ segments behind := by
  have hpieces : pieces (· == '/') (before ++ '/' :: behind) =
      pieces (· == '/') before ++ pieces (· == '/') behind :=
    pieces_append_cons (by rfl) before behind
  simp only [segments, hpieces, List.map_append]

theorem isName_of_mem_names (h : name ∈ names path) : IsName name := by
  obtain ⟨hsegment, hidle⟩ := List.mem_filter.mp h
  obtain ⟨piece, hpiece, rfl⟩ := List.mem_map.mp hsegment
  refine ⟨fun hslash => ?_, by simpa using hidle⟩
  have hsep := not_sep_of_mem_pieces hpiece '/' (by simpa using hslash)
  simp at hsep

/-- A slash separates the names in front of it from those behind it. -/
theorem names_of_slash (before behind : String)
    (h : path.toList = before.toList ++ '/' :: behind.toList) :
    names path = names before ++ names behind := by
  simp only [names, h, segments_append, List.filter_append]

theorem IsName.names_eq (h : IsName name) : names name = [name] := by
  simp [names, segments, pieces_of_not_mem h.1, h.2]

@[simp] theorem names_empty : names "" = [] := by decide

/-- A relative path is followed behind the path it is joined to. -/
theorem names_join (h : isAbsolute path = false) :
    names (join base path) = names base ++ names path := by
  rw [join, if_neg (by simp [h])]
  split
  · rename_i hbase
    rcases Bool.or_eq_true_iff.mp hbase with hempty | hslash
    · obtain rfl : base = "" := by simpa using hempty
      simp
    · obtain ⟨front, hfront⟩ := List.getLast?_eq_some_iff.mp (beq_iff_eq.mp hslash)
      have hnames : names base = names (String.ofList front) := by
        rw [names_of_slash (String.ofList front) "" (by simp [hfront])]
        simp
      rw [hnames]
      exact names_of_slash (String.ofList front) path (by simp [hfront])
  · exact names_of_slash base path (by simp)

theorem ofSegments_cons (name next : String) (rest : List String) :
    ofSegments (name :: next :: rest) = name ++ "/" ++ ofSegments (next :: rest) := by
  rw [← String.toList_inj]
  simp [ofSegments, String.toList_intercalate, List.intercalate]

theorem ofSegments_singleton (name : String) : ofSegments [name] = name := by
  simp [ofSegments]

theorem ofSegments_concat (name : String) (h : trail ≠ []) :
    ofSegments (trail ++ [name]) = ofSegments trail ++ "/" ++ name := by
  induction trail with
  | nil => exact absurd rfl h
  | cons first rest ih =>
    cases rest with
    | nil =>
      rw [List.singleton_append, ofSegments_cons, ofSegments_singleton, ofSegments_singleton]
    | cons second rest =>
      rw [List.cons_append, List.cons_append, ofSegments_cons, ← List.cons_append,
        ih (List.cons_ne_nil _ _), ofSegments_cons]
      simp only [String.append_assoc]

/-- The path along some names leads along them. -/
theorem names_ofSegments (h : ∀ name ∈ trail, IsName name) : names (ofSegments trail) = trail := by
  induction trail with
  | nil => exact names_empty
  | cons name rest ih =>
    obtain ⟨hname, hrest⟩ := List.forall_mem_cons.mp h
    cases rest with
    | nil => rw [ofSegments_singleton, hname.names_eq]
    | cons next rest =>
      rw [ofSegments_cons, names_of_slash name (ofSegments (next :: rest)) (by simp),
        hname.names_eq, ih hrest]
      rfl

theorem isAbsolute_iff : isAbsolute path = true ↔ ∃ rest, path.toList = '/' :: rest := by
  rw [isAbsolute, beq_iff_eq, List.head?_eq_some_iff]

theorem normalize_of_isAbsolute (h : isAbsolute path = true) :
    normalize path = "/" ++ ofSegments (names path) := by
  obtain ⟨rest, hrest⟩ := isAbsolute_iff.mp h
  simp [normalize, splitHead, hrest]

theorem isAbsolute_join (h : isAbsolute base = true) : isAbsolute (join base path) = true := by
  unfold join
  split
  · assumption
  · obtain ⟨rest, hrest⟩ := isAbsolute_iff.mp h
    split <;> simp [isAbsolute, hrest]

end Names

/-! ### The only spelling of an absolute path -/

/-- An absolute path in its only spelling. -/
def IsCanonical (path : String) : Prop := path = "/" ++ ofSegments (names path)

section Canonical
variable {path base name : String} {trail : List String}

theorem IsCanonical.eq_of_names_eq {other : String} (h : IsCanonical path)
    (h' : IsCanonical other) (hnames : names path = names other) : path = other := by
  rw [h, h', hnames]

theorem names_slash_ofSegments (h : ∀ name ∈ trail, IsName name) :
    names ("/" ++ ofSegments trail) = trail := by
  rw [names_of_slash "" (ofSegments trail) (by simp), names_ofSegments h, names_empty]
  rfl

theorem names_absolute (h : isAbsolute base = true) :
    names (absolute base path) = names (join base path) := by
  rw [absolute, normalize_of_isAbsolute (isAbsolute_join h),
    names_slash_ofSegments fun _ => isName_of_mem_names]

theorem mem_names_absolute (h : isAbsolute base = true)
    (hname : name ∈ names (absolute base path)) : name ∈ names base ∨ name ∈ names path := by
  rw [names_absolute h] at hname
  cases hpath : isAbsolute path with
  | true =>
    rw [join, if_pos hpath] at hname
    exact .inr hname
  | false => rwa [names_join hpath, List.mem_append] at hname

/-- A path seen from an absolute one is in its only spelling, whatever it was before. -/
theorem isCanonical_absolute (h : isAbsolute base = true) : IsCanonical (absolute base path) := by
  rw [IsCanonical, names_absolute h, absolute, normalize_of_isAbsolute (isAbsolute_join h)]

theorem IsName.isAbsolute_eq (h : IsName name) : isAbsolute name = false := by
  rw [Bool.eq_false_iff]
  intro habsolute
  obtain ⟨rest, hrest⟩ := isAbsolute_iff.mp habsolute
  exact h.1 (by simp [hrest])

theorem IsName.getLast? (h : IsName name) : ∃ c, name.toList.getLast? = some c ∧ c ≠ '/' := by
  have hne : name.toList ≠ [] := by
    rw [ne_eq, String.toList_eq_nil_iff]
    rintro rfl
    exact absurd h.2 (by decide)
  obtain ⟨front, c, hname⟩ := (List.eq_nil_or_concat' name.toList).resolve_left hne
  refine ⟨c, by simp [hname], ?_⟩
  rintro rfl
  exact h.1 (by simp [hname])

/-- The path along some names does not end in a slash. -/
theorem getLast?_ofSegments (h : ∀ name ∈ trail, IsName name) (htrail : trail ≠ []) :
    ∃ c, (ofSegments trail).toList.getLast? = some c ∧ c ≠ '/' := by
  obtain ⟨front, last, rfl⟩ := (List.eq_nil_or_concat' trail).resolve_left htrail
  obtain ⟨c, hc, hslash⟩ := IsName.getLast? (h last (by simp))
  refine ⟨c, ?_, hslash⟩
  by_cases hfront : front = []
  · rw [hfront, List.nil_append, ofSegments_singleton, hc]
  · rw [ofSegments_concat last hfront, String.toList_append, List.getLast?_append, hc]
    rfl

/-- One more name goes behind a slash, which the root has already. -/
theorem join_slash_ofSegments (h : ∀ name ∈ trail, IsName name) (hname : IsName name) :
    join ("/" ++ ofSegments trail) name = "/" ++ ofSegments (trail ++ [name]) := by
  rw [join, if_neg (by simp [hname.isAbsolute_eq])]
  by_cases htrail : trail = []
  · subst htrail
    rw [if_pos (by decide), List.nil_append, ofSegments_singleton]
    rfl
  · obtain ⟨c, hc, hslash⟩ := getLast?_ofSegments h htrail
    have hend : ("/" ++ ofSegments trail).toList.getLast? = some c := by
      rw [String.toList_append, List.getLast?_append, hc]
      rfl
    have hopen : ¬ (("/" ++ ofSegments trail).isEmpty ||
        ("/" ++ ofSegments trail).toList.getLast? == some '/') = true := by
      rw [hend]
      simp [hslash]
    rw [if_neg hopen, ofSegments_concat name htrail]
    simp only [String.append_assoc]

/-- One more name keeps the only spelling. -/
theorem IsCanonical.join (h : IsCanonical base) (hname : IsName name) :
    IsCanonical (join base name) ∧ names (join base name) = names base ++ [name] := by
  have hnames : names (Path.join base name) = names base ++ [name] := by
    rw [names_join hname.isAbsolute_eq, hname.names_eq]
  refine ⟨?_, hnames⟩
  rw [IsCanonical, hnames, ← join_slash_ofSegments (fun _ => isName_of_mem_names) hname, ← h]

/-- Names joined one by one keep the only spelling. -/
theorem IsCanonical.foldl_join (h : IsCanonical base) (htrail : ∀ name ∈ trail, IsName name) :
    IsCanonical (trail.foldl Path.join base) ∧
      names (trail.foldl Path.join base) = names base ++ trail := by
  induction trail generalizing base with
  | nil => exact ⟨h, (List.append_nil _).symm⟩
  | cons name trail ih =>
    obtain ⟨hname, htrail⟩ := List.forall_mem_cons.mp htrail
    obtain ⟨hbase, hnames⟩ := h.join hname
    obtain ⟨hpath, hpath'⟩ := ih hbase htrail
    exact ⟨hpath, by rw [List.foldl_cons, hpath', hnames, List.append_assoc]; rfl⟩

end Canonical

/-! ### Parts of a path -/

theorem dropNames?_eq_some_iff {base path rest : List String} :
    dropNames? base path = some rest ↔ path = base ++ rest := by
  induction base generalizing path with
  | nil => simp [dropNames?, eq_comm]
  | cons b base ih =>
    cases path with
    | nil => simp [dropNames?]
    | cons p path =>
      by_cases hp : b = p
      · simp [dropNames?, hp, ih]
      · simp [dropNames?, hp, Ne.symm hp]

/-- What a path looks like from a folder: the names that follow it, or the path itself if it leads
elsewhere. -/
inductive SeenFrom (base path : String) : String → Prop where
  | inside {rest : List String} (h : names path = names base ++ rest) :
      SeenFrom base path (ofSegments rest)
  | outside (h : ¬ names base <+: names path) : SeenFrom base path path

theorem seenFrom_iff {base path shown : String} :
    SeenFrom base path shown ↔ shown = relativeTo base path := by
  unfold relativeTo
  cases hdrop : dropNames? (names base) (names path) with
  | some rest =>
    have hnames := dropNames?_eq_some_iff.mp hdrop
    constructor
    · rintro (⟨h⟩ | ⟨h⟩)
      · rw [List.append_cancel_left (hnames.symm.trans h)]
      · exact absurd ⟨rest, hnames.symm⟩ h
    · rintro rfl
      exact .inside hnames
  | none =>
    have hnone : ¬ names base <+: names path := by
      rintro ⟨rest, hrest⟩
      rw [dropNames?_eq_some_iff.mpr hrest.symm] at hdrop
      cases hdrop
    constructor
    · rintro (⟨h⟩ | ⟨h⟩)
      · exact absurd ⟨_, h.symm⟩ hnone
      · rfl
    · rintro rfl
      exact .outside hnone

/-- The extension stands behind the last dot, if something stands in front of that. -/
theorem extension?_eq_some_iff {name ext : String} :
    extension? name = some ext ↔
      ∃ stem, name.toList = stem ++ '.' :: ext.toList ∧ stem ≠ [] ∧ '.' ∉ ext.toList := by
  constructor
  · intro h
    have hsplit : name.toList.reverse.takeWhile (· != '.') ++
        name.toList.reverse.dropWhile (· != '.') = name.toList.reverse :=
      List.takeWhile_append_dropWhile
    unfold extension? at h
    dsimp only at h
    split at h
    · rename_i c front hdrop
      obtain rfl := Option.some.inj h
      refine ⟨(c :: front).reverse, ?_, by simp, fun hdot => ?_⟩
      · have hname := congrArg List.reverse hsplit
        rw [List.reverse_append, List.reverse_reverse, hdrop] at hname
        simpa using hname.symm
      · rw [String.toList_ofList, List.mem_reverse] at hdot
        simpa using of_mem_takeWhile _ hdot
    · cases h
  · rintro ⟨stem, hname, hstem, hdot⟩
    have hext : ∀ c ∈ ext.toList.reverse, (c != '.') = true := by
      intro c hc
      rw [bne_iff_ne]
      rintro rfl
      exact hdot (List.mem_reverse.mp hc)
    have hrest : ∀ c ∈ ('.' :: stem.reverse).head?, (c != '.') = false := by simp
    obtain ⟨htake, hdrop⟩ := takeWhile_dropWhile_append hext hrest
    obtain ⟨c, front, hfront⟩ := List.exists_cons_of_ne_nil (List.reverse_ne_nil_iff.mpr hstem)
    have hreverse : name.toList.reverse = ext.toList.reverse ++ '.' :: stem.reverse := by
      simp [hname]
    rw [extension?, hreverse, htake, hdrop, hfront]
    simp

/-- A file name is that of a stylesheet if it ends in `.css`, in any case of letters, with
something in front of it. -/
theorem isStylesheet_iff {name : String} :
    isStylesheet name = true ↔ ∃ stem ext, name.toList = stem ++ '.' :: ext ∧ stem ≠ [] ∧
      ext.map Char.toLower = "css".toList := by
  unfold isStylesheet
  constructor
  · intro h
    cases hext : extension? name with
    | none => simp [hext] at h
    | some ext =>
      obtain ⟨stem, hname, hstem, -⟩ := extension?_eq_some_iff.mp hext
      rw [hext] at h
      exact ⟨stem, ext.toList, hname, hstem, sameWord_iff.mp h⟩
  · rintro ⟨stem, ext, hname, hstem, hcss⟩
    have hdot : '.' ∉ ext := by
      intro hdot
      have hlower : Char.toLower '.' ∈ "css".toList := hcss ▸ List.mem_map_of_mem hdot
      exact absurd hlower (by decide)
    rw [extension?_eq_some_iff.mpr ⟨stem, by rwa [String.toList_ofList], hstem, by simpa⟩]
    exact sameWord_iff.mpr (by simpa using hcss)

end SheetLint.Path
