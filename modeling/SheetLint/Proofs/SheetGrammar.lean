import SheetLint.Proofs.Braces
import SheetLint.Proofs.Nesting

/-! # The grammar of stylesheets

How the tokens of a stylesheet without faults are put together: groups and values,
declarations and statements, headers of blocks and, out of these, the items of a body
(`Derives`).  Nothing here reads tokens; that a stylesheet is read without faults exactly if
its tokens derive from this grammar is for the module on acceptance to show.

Some phrases end by what stands behind them: a declaration stands in front of a `;` or of the
brace that closes the block around it, and a group that is not closed ends in front of such a
token.  So a phrase is a relation between its tokens and the tokens that follow them.
-/
namespace SheetLint
open Text

/-! ### Groups -/

/-- The number of groups that the tokens open. -/
def groupsOpened (ts : List Token) : Nat := ts.countP fun t => t.kind.opensGroup

theorem groupsOpened_cons (t : Token) (ts : List Token) :
    groupsOpened (t :: ts) = groupsOpened ts + if t.kind.opensGroup = true then 1 else 0 := by
  simp [groupsOpened, List.countP_cons]

/-- No part of the tokens from the front on closes more groups than the `depth` that are open
in front of them and those it opens. -/
def ClosesOpened (depth : Nat) (ts : List Token) : Prop :=
  ∀ front, front <+: ts → countKind .rightParen front ≤ depth + groupsOpened front

theorem closesOpened_nil (depth : Nat) : ClosesOpened depth [] := by
  intro front hfront
  rw [List.prefix_nil.mp hfront]
  exact Nat.zero_le _

/-- The tokens that belong to a group behind those read of it, of which `depth` open groups
inside it are left, when `follow` stands behind them.  They end with the parenthesis that
closes the group, or in front of a token that stops it. -/
inductive GroupTail (depth : Nat) : List Token → List Token → Prop where
  | closed {inner follow : List Token} {close : Token}
      (hinner : ∀ t ∈ inner, t.kind.stopsGroup = false) (hopened : ClosesOpened depth inner)
      (htotal : countKind .rightParen inner = depth + groupsOpened inner)
      (hclose : close.kind = .rightParen) : GroupTail depth (inner ++ [close]) follow
  | stopped {ts follow : List Token} (hts : ∀ t ∈ ts, t.kind.stopsGroup = false)
      (hopened : ClosesOpened depth ts)
      (hfollow : ∀ t ∈ follow.head?, t.kind.stopsGroup = true) : GroupTail depth ts follow

namespace GroupTail
variable {depth : Nat} {ts follow : List Token}

theorem inside (h : GroupTail depth ts follow) : ∀ t ∈ ts, t.kind.stopsGroup = false := by
  cases h with
  | closed hinner _ _ hclose =>
    intro t ht
    rcases List.mem_append.mp ht with ht | ht
    · exact hinner t ht
    · rw [List.mem_singleton.mp ht, hclose]
      rfl
  | stopped hts => exact hts

theorem endless (h : GroupTail depth ts follow) : Endless ts :=
  fun t ht => (TokenKind.stopsGroup_eq_false_iff.mp (h.inside t ht)).2.2

/-- The group is still open behind any part of its tokens but the whole. -/
theorem front_le (h : GroupTail depth ts follow) {front : List Token} (hfront : front <+: ts)
    (hne : front ≠ ts) : countKind .rightParen front ≤ depth + groupsOpened front := by
  cases h with
  | closed _ hopened _ _ =>
    rcases List.prefix_concat_iff.mp hfront with rfl | hfront
    · exact absurd rfl hne
    · exact hopened front hfront
  | stopped _ hopened _ => exact hopened front hfront

/-- A group does not go on behind its end. -/
theorem eq_nil_of_longer {mid : List Token} (h : GroupTail depth ts (mid ++ follow))
    (hlonger : GroupTail depth (ts ++ mid) follow) : mid = [] := by
  cases mid with
  | nil => rfl
  | cons t mid =>
    exfalso
    cases h with
    | @closed inner _ close _ _ htotal hclose =>
      have hle := hlonger.front_le (List.prefix_append _ _) (by simp)
      have hcount : countKind .rightParen (inner ++ [close]) =
          countKind .rightParen inner + 1 := by simp [countKind, hclose]
      have hopen : groupsOpened (inner ++ [close]) = groupsOpened inner := by
        simp [groupsOpened, hclose, TokenKind.opensGroup]
      omega
    | stopped _ _ hfollow =>
      have hstop := hfollow t rfl
      rw [hlonger.inside t (by simp)] at hstop
      cases hstop

/-- A group ends in one place only. -/
theorem unique {ts' follow' : List Token} (h : GroupTail depth ts follow)
    (h' : GroupTail depth ts' follow') (heq : ts ++ follow = ts' ++ follow') :
    ts = ts' ∧ follow = follow' := by
  rcases List.append_eq_append_iff.mp heq with ⟨mid, rfl, rfl⟩ | ⟨mid, rfl, rfl⟩
  · obtain rfl := eq_nil_of_longer h h'
    simp
  · obtain rfl := eq_nil_of_longer h' h
    simp

/-- A token may be put in front of the tail of a group that is as deep as the token leaves
it. -/
theorem cons {t : Token} {next : Nat} (ht : t.kind.stopsGroup = false)
    (hnext : next + (if t.kind = .rightParen then 1 else 0) =
      depth + if t.kind.opensGroup = true then 1 else 0)
    (h : GroupTail next ts follow) : GroupTail depth (t :: ts) follow := by
  have hfronts {us : List Token} (hus : ClosesOpened next us) : ClosesOpened depth (t :: us) := by
    intro front hfront
    rcases List.prefix_cons_iff.mp hfront with rfl | ⟨more, rfl, hmore⟩
    · simp [countKind]
    · have := hus more hmore
      rw [countKind_cons, groupsOpened_cons]
      omega
  have hinside {us : List Token} (hus : ∀ u ∈ us, u.kind.stopsGroup = false) :
      ∀ u ∈ t :: us, u.kind.stopsGroup = false := List.forall_mem_cons.mpr ⟨ht, hus⟩
  cases h with
  | closed hinner hopened htotal hclose =>
    refine .closed (hinside hinner) (hfronts hopened) ?_ hclose
    rw [countKind_cons, groupsOpened_cons]
    omega
  | stopped hts hopened hfollow => exact .stopped (hinside hts) (hfronts hopened) hfollow

end GroupTail

/-! ### Values -/

/-- A value with the given number of parts.  A part is a group or a single token; the mark
`!important` is none. -/
inductive IsValue (src : Source) : Nat → List Token → List Token → Prop where
  | nil {follow : List Token} : IsValue src 0 [] follow
  | important {n : Nat} {bang word : Token} {ts follow : List Token} (hbang : bang.kind = .bang)
      (hword : word.kind = .ident) (hsame : sameWord (src.tokenText word) "important" = true)
      (h : IsValue src n ts follow) : IsValue src n (bang :: word :: ts) follow
  | group {n : Nat} {opener : Token} {tail ts follow : List Token}
      (hopener : opener.kind = .function ∨ opener.kind = .leftParen)
      (htail : GroupTail 0 tail (ts ++ follow)) (h : IsValue src n ts follow) :
      IsValue src (n + 1) (opener :: (tail ++ ts)) follow
  | single {n : Nat} {t : Token} {ts follow : List Token} (ht : t.kind.endsHeader = false)
      (hbang : t.kind ≠ .bang) (hfunction : t.kind ≠ .function) (hparen : t.kind ≠ .leftParen)
      (h : IsValue src n ts follow) : IsValue src (n + 1) (t :: ts) follow

theorem IsValue.endless {src : Source} {n : Nat} {ts follow : List Token}
    (h : IsValue src n ts follow) : Endless ts := by
  induction h with
  | nil => exact endless_nil
  | important hbang hword _ _ ih => simp [hbang, hword, ih]
  | group hopener htail _ ih => rcases hopener with h | h <;> simp [h, htail.endless, ih]
  | single ht _ _ _ _ ih => exact endless_cons.mpr ⟨ne_of_plain ht rfl, ih⟩

/-! ### Declarations and statements -/

/-- A declaration: a name behind an optional star, a colon, and a value with at least one
part.  Behind it stands a `;` or a closing brace. -/
inductive IsDeclaration (src : Source) : List Token → List Token → Prop where
  | named {n : Nat} {name colon : Token} {value follow : List Token} (hname : name.kind = .ident)
      (hcolon : colon.kind = .colon) (hvalue : IsValue src (n + 1) value follow)
      (hfollow : ∃ t ∈ follow.head?, t.kind = .semicolon ∨ t.kind = .rightBrace) :
      IsDeclaration src (name :: colon :: value) follow
  | starred {n : Nat} {star name colon : Token} {value follow : List Token}
      (hstar : star.kind = .star) (hname : name.kind = .ident) (hcolon : colon.kind = .colon)
      (hvalue : IsValue src (n + 1) value follow)
      (hfollow : ∃ t ∈ follow.head?, t.kind = .semicolon ∨ t.kind = .rightBrace) :
      IsDeclaration src (star :: name :: colon :: value) follow

theorem IsDeclaration.endless {src : Source} {ts follow : List Token}
    (h : IsDeclaration src ts follow) : Endless ts := by
  cases h with
  | named hname hcolon hvalue _ => simp [hname, hcolon, hvalue.endless]
  | starred hstar hname hcolon hvalue _ => simp [hstar, hname, hcolon, hvalue.endless]

/-- The at-keywords that introduce a rule, in small letters. -/
def AtRule.keywords : AtRule → List String
  | importRule => ["@import"]
  | silent => ["@charset", "@namespace"]
  | block .fontFace => ["@font-face"]
  | block .page => ["@page"]
  | block .viewport => ["@viewport", "@-ms-viewport"]
  | block .media => ["@media"]
  | block .supports => ["@supports"]
  | block .document => ["@document", "@-moz-document"]
  | block .keyframes =>
    ["@keyframes", "@-webkit-keyframes", "@-moz-keyframes", "@-o-keyframes", "@-ms-keyframes"]
  | block .rule | block .pageMargin | block .keyframeRule | unknown => []

/-- The token is an at-keyword that introduces the rule, whatever the case of its letters. -/
structure Introduces (src : Source) (rule : AtRule) (t : Token) : Prop where
  isKeyword : t.kind = .atKeyword
  sameWord_keyword : ∃ keyword ∈ rule.keywords, sameWord (src.tokenText t) keyword = true

/-- A statement: a `;` by itself, an import, or one of the rules without effect, of which all
is passed over. -/
inductive IsStatement (src : Source) (body : Body) : List Token → List Token → Prop where
  | semicolon {t : Token} {follow : List Token} (ht : t.kind = .semicolon) :
      IsStatement src body [t] follow
  | importRule {keyword target semicolon : Token} {media follow : List Token}
      (hbody : body.holdsImports = true) (hkeyword : Introduces src .importRule keyword)
      (htarget : target.kind = .url ∨ target.kind = .string) (hmedia : Plain media)
      (hsemicolon : semicolon.kind = .semicolon) :
      IsStatement src body (keyword :: target :: (media ++ [semicolon])) follow
  | silent {keyword : Token} {ts follow : List Token} (hbody : body.holdsImports = true)
      (hkeyword : Introduces src .silent keyword) (hts : Skipped ts follow) :
      IsStatement src body (keyword :: ts) follow

theorem Skipped.endless {ts follow : List Token} (h : Skipped ts follow) : Endless ts := by
  cases h with
  | semicolon hts ht => simp [hts.endless, ht, endless_nil]
  | block hts hbrace _ hend hclose => simp [hts.endless, hbrace, hend, hclose, endless_nil]
  | openBlock hts hbrace _ hend _ => simp [hts.endless, hbrace, hend]
  | stopped hts _ => exact hts.endless

theorem IsStatement.endless {src : Source} {body : Body} {ts follow : List Token}
    (h : IsStatement src body ts follow) : Endless ts := by
  cases h with
  | semicolon ht => simp [ht, endless_nil]
  | importRule _ hkeyword htarget hmedia hsemicolon =>
    rcases htarget with h | h <;>
      simp [hkeyword.isKeyword, h, hmedia.endless, hsemicolon, endless_nil]
  | silent _ hkeyword hts => simp [hkeyword.isKeyword, hts.endless]

/-! ### Blocks -/

/-- The header of a block of the given kind, as it may stand in a body. -/
inductive IsHeader (src : Source) : Body → BlockKind → List Token → Prop where
  | rule {body : Body} {header : List Token} (hbody : body.holdsImports = true)
      (hheader : Plain header) (hfirst : ∀ t ∈ header.head?, t.kind ≠ .atKeyword) :
      IsHeader src body .rule header
  | atRule {body : Body} {kind : BlockKind} {keyword : Token} {header : List Token}
      (hbody : body.holdsImports = true) (hkeyword : Introduces src (.block kind) keyword)
      (hheader : Plain header) : IsHeader src body kind (keyword :: header)
  | keyframeRule {header : List Token} (hheader : Plain header) :
      IsHeader src .keyframes .keyframeRule header
  | pageMargin {keyword : Token} (hkeyword : keyword.kind = .atKeyword) :
      IsHeader src .page .pageMargin [keyword]

theorem IsHeader.plain {src : Source} {body : Body} {kind : BlockKind} {header : List Token}
    (h : IsHeader src body kind header) : Plain header := by
  cases h with
  | rule _ hheader _ => exact hheader
  | atRule _ hkeyword hheader => exact hheader.cons (by rw [hkeyword.isKeyword]; rfl)
  | keyframeRule hheader => exact hheader
  | pageMargin hkeyword => exact plain_nil.cons (by rw [hkeyword]; rfl)

/-- **The grammar of stylesheets.**  The tokens are a sequence of items of a body: statements,
declarations, and blocks whose braces stand around the items of the body of their kind. -/
inductive Derives (src : Source) : Body → List Token → List Token → Prop where
  | nil {body : Body} {follow : List Token} : Derives src body [] follow
  | statement {body : Body} {item ts follow : List Token}
      (hitem : IsStatement src body item (ts ++ follow)) (hts : Derives src body ts follow) :
      Derives src body (item ++ ts) follow
  | declaration {body : Body} {item ts follow : List Token} (hbody : body.holdsDeclarations = true)
      (hitem : IsDeclaration src item (ts ++ follow)) (hts : Derives src body ts follow) :
      Derives src body (item ++ ts) follow
  | block {body : Body} {kind : BlockKind} {header inner ts follow : List Token}
      {brace close : Token} (hheader : IsHeader src body kind header)
      (hbrace : brace.kind = .leftBrace)
      (hinner : Derives src kind.body inner (close :: (ts ++ follow)))
      (hclose : close.kind = .rightBrace) (hts : Derives src body ts follow) :
      Derives src body (header ++ brace :: (inner ++ close :: ts)) follow

theorem Derives.endless {src : Source} {body : Body} {ts follow : List Token}
    (h : Derives src body ts follow) : Endless ts := by
  induction h with
  | nil => exact endless_nil
  | statement hitem _ ih => simp [hitem.endless, ih]
  | declaration _ hitem _ ih => simp [hitem.endless, ih]
  | block hheader hbrace _ hclose _ ihinner ih =>
    simp [hheader.plain.endless, hbrace, hclose, ihinner, ih]

end SheetLint
