import SheetLint.Token

/-! # Skipping

After a fault, reading resumes behind the end of the statement at hand
(`skipDeclaration`) or of the block at hand (`skipBlock`).  Neither passes the
end of the source.
-/
namespace SheetLint

/-- What is left behind the brace that closes the block at hand, when `depth`
blocks are open. -/
def skipBlock (depth : Nat) : List Token → List Token
  | [] => []
  | t :: ts =>
    match t.kind with
    | .eof => t :: ts
    | .leftBrace => skipBlock (depth + 1) ts
    | .rightBrace => if depth ≤ 1 then ts else skipBlock (depth - 1) ts
    | _ => skipBlock depth ts

/-- What is left behind the statement at hand: its semicolon or its block is
skipped with it, a brace that closes the block around it is not. -/
def skipDeclaration : List Token → List Token
  | [] => []
  | t :: ts =>
    match t.kind with
    | .eof | .rightBrace => t :: ts
    | .semicolon => ts
    | .leftBrace => skipBlock 0 (t :: ts)
    | _ => skipDeclaration ts

section SkipBlock
variable {t : Token}

theorem skipBlock_eof (h : t.kind = .eof) (depth : Nat) (ts : List Token) :
    skipBlock depth (t :: ts) = t :: ts := by
  cases t
  cases h
  rfl

theorem skipBlock_leftBrace (h : t.kind = .leftBrace) (depth : Nat) (ts : List Token) :
    skipBlock depth (t :: ts) = skipBlock (depth + 1) ts := by
  cases t
  cases h
  rfl

theorem skipBlock_lastBrace (h : t.kind = .rightBrace) (ts : List Token) :
    skipBlock 1 (t :: ts) = ts := by
  cases t
  cases h
  rfl

theorem skipBlock_rightBrace (h : t.kind = .rightBrace) (depth : Nat) (ts : List Token) :
    skipBlock (depth + 2) (t :: ts) = skipBlock (depth + 1) ts := by
  simp [skipBlock, h]

theorem skipBlock_other (he : t.kind ≠ .eof) (hl : t.kind ≠ .leftBrace)
    (hr : t.kind ≠ .rightBrace) (depth : Nat) (ts : List Token) :
    skipBlock depth (t :: ts) = skipBlock depth ts := by
  rw [skipBlock]
  split <;> simp_all

end SkipBlock

theorem length_skipBlock_le (depth : Nat) (ts : List Token) :
    (skipBlock depth ts).length ≤ ts.length := by
  fun_induction skipBlock depth ts <;> simp_all <;> omega

theorem length_skipBlock_lt {depth : Nat} {t : Token} {ts : List Token} (h : t.kind ≠ .eof) :
    (skipBlock depth (t :: ts)).length < (t :: ts).length := by
  have hle (d : Nat) : (skipBlock d ts).length < (t :: ts).length :=
    Nat.lt_succ_of_le (length_skipBlock_le d ts)
  rw [skipBlock]
  split
  · contradiction
  · exact hle _
  · split
    · simp
    · exact hle _
  · exact hle _

theorem length_skipDeclaration_le (ts : List Token) :
    (skipDeclaration ts).length ≤ ts.length := by
  induction ts with
  | nil => simp [skipDeclaration]
  | cons t ts ih =>
    rw [skipDeclaration]
    split
    · exact Nat.le_refl _
    · exact Nat.le_refl _
    · simp
    · exact length_skipBlock_le 0 (t :: ts)
    · exact Nat.le_succ_of_le ih

theorem length_skipDeclaration_lt {t : Token} {ts : List Token} (h : t.kind ≠ .eof)
    (h' : t.kind ≠ .rightBrace) : (skipDeclaration (t :: ts)).length < (t :: ts).length := by
  rw [skipDeclaration]
  split
  · contradiction
  · contradiction
  · simp
  · exact length_skipBlock_lt h
  · exact Nat.lt_succ_of_le (length_skipDeclaration_le ts)

end SheetLint
