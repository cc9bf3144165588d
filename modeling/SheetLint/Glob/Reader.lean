import SheetLint.Glob

/-! # Reading globs

`Glob.parse` reads a glob from left to right.  The groups that are open are kept on a
stack, each with the parts in front of it and its finished alternatives.
-/
namespace SheetLint

/-- What can be wrong with a glob. -/
inductive GlobFlaw where
  | unclosedClass
  | invalidRange (first last : Char)
  | unclosedGroup
  | unopenedGroup
  | danglingEscape
  deriving DecidableEq, Repr

/-- The wording of a flaw. -/
def GlobFlaw.message : GlobFlaw → String
  | unclosedClass => "unclosed character class; missing ']'"
  | invalidRange first last =>
    "invalid range; '" ++ first.toString ++ "' > '" ++ last.toString ++ "'"
  | unclosedGroup =>
    "unclosed alternate group; missing '\x7d' (maybe escape '\x7b' with '[\x7b]'?)"
  | unopenedGroup =>
    "unopened alternate group; missing '\x7b' (maybe escape '\x7d' with '[\x7d]'?)"
  | danglingEscape => "dangling '\\'"

namespace Glob

/-! ### Groups and stars -/

/-- A group whose end has not been reached. -/
structure OpenGroup where
  /-- The parts in front of the group, last one first. -/
  before : List Part
  /-- The finished alternatives, last one first. -/
  branches : List (List Part)

/-- What has been read of a glob. -/
structure Scan where
  /-- The groups that are open, innermost first. -/
  groups : List OpenGroup := []
  /-- The parts of the current alternative, last one first. -/
  parts : List Part := []
  /-- The character that was read last. -/
  previous : Option Char := none

namespace Scan

/-- Adds a part, read up to the character `c`. -/
def push (scan : Scan) (c : Char) (part : Part) : Scan :=
  { scan with parts := part :: scan.parts, previous := some c }

/-- Opens a group. -/
def openGroup (scan : Scan) : Scan :=
  { groups := ⟨scan.parts, []⟩ :: scan.groups, parts := [], previous := some '{' }

/-- Starts another alternative; outside groups a comma stands for itself. -/
def comma (scan : Scan) : Scan :=
  match scan.groups with
  | [] => scan.push ',' (.literal ',')
  | g :: groups =>
    { groups := ⟨g.before, scan.parts.reverse :: g.branches⟩ :: groups
      parts := []
      previous := some ',' }

/-- Closes the innermost group. -/
def closeGroup (scan : Scan) : Except GlobFlaw Scan :=
  match scan.groups with
  | [] => .error .unopenedGroup
  | g :: groups =>
    let branches := (scan.parts.reverse :: g.branches).reverse
    .ok { groups, parts := .group branches :: g.before, previous := some '}' }

/-- Whether `**` may stand for folders in view of what precedes it: a slash, or
the start of an alternative. -/
def followsBreak (scan : Scan) : Bool :=
  scan.previous == some '/' ||
    (!scan.groups.isEmpty && (scan.previous == some ',' || scan.previous == some '{'))

/-- Puts a part for folders in the place of the slash before it.  Right behind
another such part it adds nothing. -/
def replaceLast (scan : Scan) (c : Char) (part : Part) : Scan :=
  let parts :=
    match scan.parts with
    | .leadingFolders :: rest => .leadingFolders :: rest
    | .allBelow :: rest => .allBelow :: rest
    | _ :: rest => part :: rest
    | [] => [part]
  { scan with parts, previous := some c }

/-- Takes in `**`, given the text behind it.  The result is the text left. -/
def doubleStar (scan : Scan) (rest : List Char) : Scan × List Char :=
  let plain := ((scan.push '*' .anyText).push '*' .anyText, rest)
  if scan.parts.isEmpty then
    match rest with
    | [] => (scan.push '*' .leadingFolders, [])
    | '/' :: rest => (scan.push '/' .leadingFolders, rest)
    | _ => plain
  else if !scan.followsBreak then
    plain
  else
    match rest with
    | [] => (scan.replaceLast '*' .allBelow, [])
    | '/' :: rest => (scan.replaceLast '/' .foldersBetween, rest)
    | c :: _ =>
      if (c = ',' ∨ c = '}') ∧ !scan.groups.isEmpty then (scan.replaceLast '*' .allBelow, rest)
      else plain

end Scan

/-! ### Classes -/

/-- What has been read of a class. -/
structure ClassScan where
  /-- The ranges, last one first. -/
  ranges : List (Char × Char) := []
  /-- Whether a hyphen has been read that may make a range. -/
  inRange : Bool := false

namespace ClassScan

/-- Adds a character: the end of a range, or one by itself. -/
def add (scan : ClassScan) (c : Char) : Except GlobFlaw ClassScan :=
  match scan.inRange, scan.ranges with
  | true, (first, _) :: ranges =>
    if c < first then .error (.invalidRange first c)
    else .ok { ranges := (first, c) :: ranges }
  | _, ranges => .ok { ranges := (c, c) :: ranges }

/-- The ranges of the class.  A hyphen at the end stands for itself. -/
def finish (scan : ClassScan) : List (Char × Char) :=
  (if scan.inRange then ('-', '-') :: scan.ranges else scan.ranges).reverse

/-- Reads a class up to its bracket: the ranges, and the text left. -/
def read (scan : ClassScan) : List Char → Except GlobFlaw (List (Char × Char) × List Char)
  | [] => .error .unclosedClass
  | c :: cs =>
    if c = ']' ∧ !scan.ranges.isEmpty then .ok (scan.finish, cs)
    else if c = '-' ∧ !scan.ranges.isEmpty ∧ !scan.inRange then
      read { scan with inRange := true } cs
    else
      match scan.add c with
      | .ok scan => scan.read cs
      | .error flaw => .error flaw

theorem length_read_lt {scan : ClassScan} {cs rest : List Char} {ranges : List (Char × Char)}
    (h : scan.read cs = .ok (ranges, rest)) : rest.length < cs.length := by
  induction cs generalizing scan with
  | nil => cases h
  | cons c cs ih =>
    rw [read] at h
    split at h
    · cases h
      simp
    · split at h
      · exact Nat.lt_succ_of_lt (ih h)
      · split at h
        · exact Nat.lt_succ_of_lt (ih h)
        · cases h

end ClassScan

/-- Whether a class is negated, and the text behind the sign for it. -/
def readSign : List Char → Bool × List Char
  | '!' :: cs => (true, cs)
  | '^' :: cs => (true, cs)
  | cs => (false, cs)

/-- Reads a class behind its opening bracket: the class, and the text left. -/
def readClass (cs : List Char) : Except GlobFlaw (CharClass × List Char) :=
  match ClassScan.read {} (readSign cs).2 with
  | .ok (ranges, rest) => .ok (⟨(readSign cs).1, ranges⟩, rest)
  | .error flaw => .error flaw

theorem length_readSign_le (cs : List Char) : (readSign cs).2.length ≤ cs.length := by
  unfold readSign
  split <;> simp

theorem length_readClass_lt {cs rest : List Char} {set : CharClass}
    (h : readClass cs = .ok (set, rest)) : rest.length < cs.length := by
  unfold readClass at h
  split at h
  · rename_i hread
    cases h
    exact Nat.lt_of_lt_of_le (ClassScan.length_read_lt hread) (length_readSign_le cs)
  · cases h

/-! ### Whole globs -/

theorem Scan.length_doubleStar_le (scan : Scan) (rest : List Char) :
    (scan.doubleStar rest).2.length ≤ rest.length := by
  unfold doubleStar
  split
  · split <;> simp
  · split
    · exact Nat.le_refl _
    · split
      · simp
      · simp
      · split <;> exact Nat.le_refl _

/-- Takes in what starts with the character `c`, given the text behind it.  The
result is the text left. -/
def Scan.step (scan : Scan) (c : Char) (rest : List Char) : Except GlobFlaw (Scan × List Char) :=
  match c with
  | '?' => .ok (scan.push c .any, rest)
  | '*' =>
    match rest with
    | '*' :: rest => .ok (scan.doubleStar rest)
    | _ => .ok (scan.push c .anyText, rest)
  | '[' =>
    match readClass rest with
    | .ok (set, rest) => .ok (scan.push ']' (.oneOf set), rest)
    | .error flaw => .error flaw
  | '{' => .ok (scan.openGroup, rest)
  | '}' =>
    match scan.closeGroup with
    | .ok scan => .ok (scan, rest)
    | .error flaw => .error flaw
  | ',' => .ok (scan.comma, rest)
  | '\\' =>
    match rest with
    | [] => .error .danglingEscape
    | c :: rest => .ok (scan.push c (.literal c), rest)
  | c => .ok (scan.push c (.literal c), rest)

/-- Nothing is read twice. -/
theorem Scan.length_step_le {scan next : Scan} {c : Char} {cs rest : List Char}
    (h : scan.step c cs = .ok (next, rest)) : rest.length ≤ cs.length := by
  unfold step at h
  split at h
  · cases h
    exact Nat.le_refl _
  · split at h
    · rename_i cs
      simp only [Except.ok.injEq] at h
      have hle := scan.length_doubleStar_le cs
      rw [h] at hle
      exact Nat.le_succ_of_le hle
    · cases h
      exact Nat.le_refl _
  · split at h
    · rename_i hclass
      cases h
      exact Nat.le_of_lt (length_readClass_lt hclass)
    · cases h
  · cases h
    exact Nat.le_refl _
  · split at h
    · cases h
      exact Nat.le_refl _
    · cases h
  · cases h
    exact Nat.le_refl _
  · split at h
    · cases h
    · cases h
      simp
  · cases h
    exact Nat.le_refl _

/-- Reads the parts of a glob. -/
def readParts (scan : Scan) : List Char → Except GlobFlaw (List Part)
  | [] => if scan.groups.isEmpty then .ok scan.parts.reverse else .error .unclosedGroup
  | c :: cs =>
    match _h : scan.step c cs with
    | .ok (next, rest) => readParts next rest
    | .error flaw => .error flaw
termination_by cs => cs.length
decreasing_by exact Nat.lt_succ_of_le (Scan.length_step_le _h)

/-- Reads a glob. -/
def parse (text : String) : Except GlobFlaw Glob :=
  (readParts {} text.toList).map Glob.mk

end Glob
end SheetLint
