import Mathlib.Data.Bool.AllAny
import SheetLint.Resource.Url

/-! # The parts of a URL

`ExternalUrl.parse?` cuts a URL apart from front to back and never takes a cut back: at the
first `://`, at the first `@`, at the first character that ends a host or a port.  Some of these
marks may also stand elsewhere, a colon in the user or in brackets, an `@` in brackets or in the
tail.

`WellFormed` says what the parts may be, each for itself, and `render` is the text they make.
Parsing finds the well-formed parts of every text that has such parts and nothing else
(`parses_iff_wellFormed`), so that no text has two readings.
-/
namespace SheetLint
open Text

namespace ExternalUrl

/-! ### The grammar of the parts -/

/-- A text of letters, digits and underscores. -/
def IsWord (cs : List Char) : Prop := ∀ c ∈ cs, isWordChar c = true

/-- A user, or a user and a password with a colon between them. -/
inductive IsUserinfo : List Char → Prop where
  | user {user : List Char} (hne : user ≠ []) (huser : IsWord user) : IsUserinfo user
  | password {user password : List Char} (hne : user ≠ []) (huser : IsWord user)
      (hpassword : IsWord password) : IsUserinfo (user ++ ':' :: password)

/-- An address in brackets, or a name without white space and without the marks that separate
the parts. -/
inductive IsHost : List Char → Prop where
  | address {address : List Char} (hne : address ≠ []) (haddress : ']' ∉ address) :
      IsHost ('[' :: (address ++ [']']))
  | name {name : List Char} (hne : name ≠ [])
      (hname : ∀ c ∈ name, isBlank c = false ∧ c ∉ ['/', '?', '#', '@', ':', '[', ']']) :
      IsHost name

/-- One digit or more. -/
structure IsPort (cs : List Char) : Prop where
  ne_nil : cs ≠ []
  isDigit : ∀ c ∈ cs, c.isDigit = true

/-- The marks with which a path, a query and a fragment start. -/
def tailMarks : List Char := ['/', '?', '#']

/-- Nothing, or a path, a query or a fragment with its mark; no white space. -/
structure IsTail (cs : List Char) : Prop where
  head_mem : ∀ c ∈ cs.head?, c ∈ tailMarks
  not_isBlank : ∀ c ∈ cs, isBlank c = false

/-- The parts are those of a URL that points at another host. -/
structure WellFormed (url : ExternalUrl) : Prop where
  scheme : lower url.scheme ∈ ["ftp", "http", "https"]
  userinfo : ∀ info ∈ url.userinfo, IsUserinfo info.toList
  host : IsHost url.host.toList
  port : ∀ digits ∈ url.port, IsPort digits.toList
  tail : IsTail url.tail.toList

/-- The text of the parts. -/
def render (url : ExternalUrl) : String :=
  url.scheme ++ "://" ++ (url.userinfo.elim "" fun info => info ++ "@") ++ url.host ++
    (url.port.elim "" fun digits => ":" ++ digits) ++ url.tail

section Parts
variable {cs rest : List Char}

/-! ### The user -/

theorem isWordChar_colon : isWordChar ':' = false := by decide

theorem IsWord.not_mem {c : Char} (h : IsWord cs) (hc : isWordChar c = false) : c ∉ cs := by
  intro hmem
  rw [h c hmem] at hc
  cases hc

theorem isUserinfo_iff : isUserinfo cs = true ↔ IsUserinfo cs := by
  unfold isUserinfo
  split
  · rename_i user password hcut
    obtain ⟨rfl, -⟩ := cutAt?_singleton_eq_some_iff.mp hcut
    simp only [Bool.and_eq_true, Bool.not_eq_true', List.isEmpty_eq_false_iff, List.all_eq_true]
    constructor
    · rintro ⟨⟨hne, huser⟩, hpassword⟩
      exact .password hne huser hpassword
    · intro h
      -- the colon found by the cut is the one in front of the password
      generalize hcs : user ++ ':' :: password = cs at h
      cases h with
      | user hne hword =>
        refine absurd ?_ (IsWord.not_mem hword isWordChar_colon)
        rw [← hcs]
        simp
      | @password user' password' hne huser' hpassword' =>
        have hcut' : cutAt? [':'] (user' ++ ':' :: password') = some (user', password') :=
          cutAt?_append (huser'.not_mem isWordChar_colon) [] password'
        rw [← hcs, hcut] at hcut'
        obtain ⟨rfl, rfl⟩ := Prod.mk.inj (Option.some.inj hcut')
        exact ⟨⟨hne, huser'⟩, hpassword'⟩
  · rename_i hcut
    rw [cutAt?_singleton_eq_none_iff] at hcut
    simp only [Bool.and_eq_true, Bool.not_eq_true', List.isEmpty_eq_false_iff, List.all_eq_true]
    constructor
    · rintro ⟨hne, hword⟩
      exact .user hne hword
    · rintro (⟨hne, hword⟩ | _)
      · exact ⟨hne, hword⟩
      · simp at hcut

/-- The characters of a user and a password. -/
theorem IsUserinfo.mem (h : IsUserinfo cs) : ∀ c ∈ cs, isWordChar c = true ∨ c = ':' := by
  intro c hc
  cases h with
  | user hne huser => exact .inl (huser c hc)
  | password hne huser hpassword =>
    simp only [List.mem_append, List.mem_cons] at hc
    rcases hc with hc | hc | hc
    · exact .inl (huser c hc)
    · exact .inr hc
    · exact .inl (hpassword c hc)

theorem IsUserinfo.not_mem {c : Char} (h : IsUserinfo cs) (hword : isWordChar c = false)
    (hcolon : c ≠ ':') : c ∉ cs := by
  intro hc
  rcases h.mem c hc with hc | hc
  · rw [hword] at hc
    cases hc
  · exact hcolon hc

/-- A user with the mark behind it, or nothing. -/
def userText (user : Option (List Char)) : List Char := user.elim [] fun info => info ++ ['@']

theorem splitUserinfo_sound {user : Option (List Char)} (h : splitUserinfo cs = (user, rest)) :
    cs = userText user ++ rest ∧ ∀ info ∈ user, IsUserinfo info := by
  unfold splitUserinfo at h
  split at h
  · rename_i candidate behind hcut
    split at h
    · rename_i hinfo
      obtain ⟨rfl, rfl⟩ := Prod.mk.inj h
      refine ⟨by simpa [userText] using cutAt?_eq_some hcut, ?_⟩
      rintro info ⟨⟩
      exact isUserinfo_iff.mp hinfo
    · obtain ⟨rfl, rfl⟩ := Prod.mk.inj h
      exact ⟨rfl, nofun⟩
  · obtain ⟨rfl, rfl⟩ := Prod.mk.inj h
    exact ⟨rfl, nofun⟩

theorem splitUserinfo_some {info : List Char} (h : IsUserinfo info) :
    splitUserinfo (userText (some info) ++ rest) = (some info, rest) := by
  have hcut : cutAt? ['@'] (userText (some info) ++ rest) = some (info, rest) := by
    rw [cutAt?_singleton_eq_some_iff]
    exact ⟨by simp [userText], h.not_mem (by decide) (by decide)⟩
  simp [splitUserinfo, hcut, isUserinfo_iff.mpr h]

/-- No user is split off where none stands in front of an `@`. -/
theorem splitUserinfo_none
    (h : ∀ candidate behind, cs = candidate ++ '@' :: behind → ¬ IsUserinfo candidate) :
    splitUserinfo cs = (none, cs) := by
  unfold splitUserinfo
  split
  · rename_i candidate behind hcut
    have hinfo : ¬ isUserinfo candidate = true := by
      rw [isUserinfo_iff]
      exact h candidate behind (cutAt?_singleton_eq_some_iff.mp hcut).1
    rw [if_neg hinfo]
  · rfl

/-! ### The host -/

theorem endsHost_eq_false_iff {c : Char} :
    endsHost c = false ↔ isBlank c = false ∧ c ∉ ['/', '?', '#', '@', ':', '[', ']'] := by
  simp [endsHost]

theorem splitHost_sound {host : List Char} (h : splitHost cs = some (host, rest)) :
    cs = host ++ rest ∧ IsHost host := by
  unfold splitHost at h
  split at h
  · split at h
    · rename_i behind _ address after hcut
      obtain ⟨rfl, haddress⟩ := cutAt?_singleton_eq_some_iff.mp hcut
      split at h
      · cases h
      · rename_i hne
        obtain ⟨rfl, rfl⟩ := Prod.mk.inj (Option.some.inj h)
        exact ⟨by simp, .address (by simpa using hne) haddress⟩
    · cases h
  · dsimp only at h
    split at h
    · cases h
    · rename_i hne
      obtain ⟨rfl, rfl⟩ := Prod.mk.inj (Option.some.inj h)
      refine ⟨List.takeWhile_append_dropWhile.symm, .name (by simpa using hne) ?_⟩
      intro c hc
      exact endsHost_eq_false_iff.mp (by simpa using of_mem_takeWhile c hc)

theorem splitHost_complete {host : List Char} (h : IsHost host)
    (hrest : ∀ c ∈ rest.head?, endsHost c = true) :
    splitHost (host ++ rest) = some (host, rest) := by
  cases h with
  | @address address hne haddress =>
    have hcut : cutAt? [']'] (address ++ ']' :: rest) = some (address, rest) :=
      cutAt?_append haddress [] rest
    simp [splitHost, hcut, hne]
  | name hne hname =>
    have hinside : ∀ c ∈ host, (!endsHost c) = true := by
      intro c hc
      rw [endsHost_eq_false_iff.mpr (hname c hc)]
      rfl
    have hstop : ∀ c ∈ rest.head?, (!endsHost c) = false := by simpa using hrest
    obtain ⟨htake, hdrop⟩ := takeWhile_dropWhile_append hinside hstop
    have hfirst : ∀ more, host ++ rest ≠ '[' :: more := by
      obtain ⟨c, name, rfl⟩ := List.exists_cons_of_ne_nil hne
      intro more heq
      have hc := (hname c List.mem_cons_self).2
      rw [(List.cons.inj heq).1] at hc
      exact hc (by decide)
    unfold splitHost
    split
    · rename_i more heq
      exact absurd heq (hfirst more)
    · simp [htake, hdrop, hne]

/-! ### The port -/

/-- A port with the mark in front of it, or nothing. -/
def portText (port : Option (List Char)) : List Char := port.elim [] fun digits => ':' :: digits

theorem splitPort_sound {port : Option (List Char)} (h : splitPort cs = some (port, rest)) :
    cs = portText port ++ rest ∧ ∀ digits ∈ port, IsPort digits := by
  unfold splitPort at h
  split at h
  · dsimp only at h
    split at h
    · cases h
    · rename_i hne
      obtain ⟨rfl, rfl⟩ := Prod.mk.inj (Option.some.inj h)
      refine ⟨by simp [portText], ?_⟩
      rintro digits ⟨⟩
      exact ⟨by simpa using hne, of_mem_takeWhile⟩
  · obtain ⟨rfl, rfl⟩ := Prod.mk.inj (Option.some.inj h)
    exact ⟨rfl, nofun⟩

theorem splitPort_complete {port : Option (List Char)} (hport : ∀ digits ∈ port, IsPort digits)
    (hrest : IsTail rest) : splitPort (portText port ++ rest) = some (port, rest) := by
  have hmarks : ∀ c ∈ tailMarks, c.isDigit = false ∧ c ≠ ':' :=
    List.all_iff_forall_prop.mp (by decide)
  cases port with
  | none =>
    unfold splitPort
    split
    · rename_i more heq
      have hcolon : rest = ':' :: more := heq
      exact absurd rfl (hmarks ':' (hrest.head_mem ':' (by rw [hcolon]; rfl))).2
    · rfl
  | some digits =>
    obtain ⟨hne, hdigits⟩ := hport digits rfl
    obtain ⟨htake, hdrop⟩ := takeWhile_dropWhile_append hdigits
      fun c hc => (hmarks c (hrest.head_mem c hc)).1
    simp [portText, splitPort, htake, hdrop, hne]

/-! ### The tail -/

theorem isTail_iff : isTail cs = true ↔ IsTail cs := by
  cases cs with
  | nil => exact iff_of_true rfl ⟨nofun, nofun⟩
  | cons c cs =>
    simp only [isTail, Bool.and_eq_true, List.contains_iff_mem, Bool.not_eq_true',
      List.any_eq_false, Bool.not_eq_true]
    constructor
    · rintro ⟨hhead, hblank⟩
      exact ⟨by rintro _ ⟨⟩; exact hhead, hblank⟩
    · rintro ⟨hhead, hblank⟩
      exact ⟨hhead c rfl, hblank⟩

/-! ### The marks behind a host -/

/-- What follows a host ends it. -/
theorem endsHost_of_mem_head {port : Option (List Char)} {tail : List Char} (htail : IsTail tail) :
    ∀ c ∈ (portText port ++ tail).head?, endsHost c = true := by
  have hmarks : ∀ c ∈ tailMarks, endsHost c = true := List.all_iff_forall_prop.mp (by decide)
  cases port with
  | none => exact fun c hc => hmarks c (htail.head_mem c hc)
  | some digits =>
    rintro c ⟨⟩
    decide

/-- In a URL without a user nothing in front of an `@` looks like one: either it starts with a
bracket, or the `@` stands in the tail and the mark of the tail in front of it. -/
theorem not_isUserinfo_of_host {host tail candidate behind : List Char}
    {port : Option (List Char)} (hhost : IsHost host) (hport : ∀ digits ∈ port, IsPort digits)
    (htail : IsTail tail) (heq : host ++ (portText port ++ tail) = candidate ++ '@' :: behind) :
    ¬ IsUserinfo candidate := by
  intro hinfo
  cases hhost with
  | address hne haddress =>
    cases candidate with
    | nil => cases (List.cons.inj heq).1
    | cons c candidate =>
      have hbracket : c = '[' := ((List.cons.inj heq).1).symm
      exact hinfo.not_mem (c := '[') (by decide) (by decide) (by simp [hbracket])
  | name hne hname =>
    have hfront : '@' ∉ host ++ portText port := by
      intro hmem
      rcases List.mem_append.mp hmem with hmem | hmem
      · exact (hname '@' hmem).2 (by decide)
      · cases port with
        | none => cases hmem
        | some digits =>
          rcases List.mem_cons.mp hmem with hmem | hmem
          · cases hmem
          · cases (hport digits rfl).isDigit '@' hmem
    have hmarks : ∀ c ∈ tailMarks, isWordChar c = false ∧ c ≠ ':' ∧ c ≠ '@' :=
      List.all_iff_forall_prop.mp (by decide)
    rw [← List.append_assoc] at heq
    rcases List.append_eq_append_iff.mp heq with ⟨mid, rfl, hmid⟩ | ⟨mid, hmid, hbehind⟩
    · -- the candidate reaches into the tail and holds its mark
      cases mid with
      | nil => exact (hmarks '@' (htail.head_mem '@' (by rw [hmid]; rfl))).2.2 rfl
      | cons c mid =>
        obtain ⟨hword, hcolon, -⟩ := hmarks c (htail.head_mem c (by rw [hmid]; rfl))
        exact hinfo.not_mem hword hcolon (by simp)
    · cases mid with
      | nil =>
        have hhead : '@' ∈ tail.head? := by
          rw [List.nil_append] at hbehind
          rw [← hbehind]
          rfl
        exact (hmarks '@' (htail.head_mem '@' hhead)).2.2 rfl
      | cons c mid =>
        rw [(List.cons.inj hbehind).1, hmid] at hfront
        exact hfront (by simp)

end Parts

/-! ### Reading and writing -/

theorem splitUserinfo_complete {user port : Option (List Char)} {host tail : List Char}
    (huser : ∀ info ∈ user, IsUserinfo info) (hhost : IsHost host)
    (hport : ∀ digits ∈ port, IsPort digits) (htail : IsTail tail) :
    splitUserinfo (userText user ++ (host ++ (portText port ++ tail))) =
      (user, host ++ (portText port ++ tail)) := by
  cases user with
  | none =>
    exact splitUserinfo_none fun candidate behind => not_isUserinfo_of_host hhost hport htail
  | some info => exact splitUserinfo_some (huser info rfl)

theorem any_sameWord_iff {scheme : String} :
    networkSchemes.any (sameWord scheme) = true ↔ lower scheme ∈ ["ftp", "http", "https"] := by
  have hlower : lower "ftp" = "ftp" ∧ lower "http" = "http" ∧ lower "https" = "https" := by decide
  simp [networkSchemes, sameWord, hlower]

/-- No scheme holds the colon that ends it. -/
theorem colon_not_mem_scheme {scheme : String} (h : lower scheme ∈ ["ftp", "http", "https"]) :
    ':' ∉ scheme.toList := by
  have hknown : ∀ known ∈ ["ftp", "http", "https"], ':' ∉ known.toList := by decide
  intro hcolon
  refine hknown _ h ?_
  rw [toList_lower]
  exact List.mem_map_of_mem (f := Char.toLower) hcolon

/-- What each step of parsing has to find. -/
theorem parse?_eq_some_iff_steps {path : String} {url : ExternalUrl} :
    parse? path = some url ↔
      ∃ authority behindUser behindHost,
        cutAt? "://".toList path.toList = some (url.scheme.toList, authority) ∧
        lower url.scheme ∈ ["ftp", "http", "https"] ∧
        splitUserinfo authority = (url.userinfo.map String.toList, behindUser) ∧
        splitHost behindUser = some (url.host.toList, behindHost) ∧
        splitPort behindHost = some (url.port.map String.toList, url.tail.toList) ∧
        IsTail url.tail.toList := by
  unfold parse?
  constructor
  · intro h
    obtain ⟨⟨scheme, authority⟩, hcut, h⟩ := Option.bind_eq_some_iff.mp h
    dsimp only at h
    split at h
    · rename_i hscheme
      obtain ⟨⟨host, behindHost⟩, hhost, h⟩ := Option.bind_eq_some_iff.mp h
      obtain ⟨⟨port, tail⟩, hport, h⟩ := Option.bind_eq_some_iff.mp h
      split at h
      · rename_i htail
        obtain rfl := Option.some.inj h
        refine ⟨authority, (splitUserinfo authority).2, behindHost, ?_⟩
        simp only [String.toList_ofList, Option.map_map]
        exact ⟨hcut, any_sameWord_iff.mp hscheme, by simp [Function.comp_def], hhost,
          by simpa [Function.comp_def] using hport, isTail_iff.mp htail⟩
      · cases h
    · cases h
  · rintro ⟨authority, behindUser, behindHost, hcut, hscheme, huser, hhost, hport, htail⟩
    have hschemes : networkSchemes.any (sameWord (String.ofList url.scheme.toList)) = true := by
      rwa [String.ofList_toList, any_sameWord_iff]
    rw [hcut]
    simp only [Option.bind_eq_bind, Option.bind_some, if_pos hschemes, huser, hhost, hport,
      if_pos (isTail_iff.mpr htail)]
    simp [Function.comp_def]

theorem toList_render (url : ExternalUrl) :
    url.render.toList = url.scheme.toList ++ ("://".toList ++
      (userText (url.userinfo.map String.toList) ++ (url.host.toList ++
        (portText (url.port.map String.toList) ++ url.tail.toList)))) := by
  obtain ⟨scheme, userinfo, host, port, tail⟩ := url
  cases userinfo <;> cases port <;> simp [render, userText, portText]

/-- What is found in a text is well formed and makes this text. -/
theorem wellFormed_of_parse? {path : String} {url : ExternalUrl} (h : parse? path = some url) :
    url.WellFormed ∧ path = url.render := by
  obtain ⟨authority, behindUser, behindHost, hcut, hscheme, huser, hhost, hport, htail⟩ :=
    parse?_eq_some_iff_steps.mp h
  obtain ⟨rfl, hisUser⟩ := splitUserinfo_sound huser
  obtain ⟨rfl, hisHost⟩ := splitHost_sound hhost
  obtain ⟨rfl, hisPort⟩ := splitPort_sound hport
  refine ⟨⟨hscheme, ?_, hisHost, ?_, htail⟩, ?_⟩
  · intro info hinfo
    exact hisUser _ (Option.mem_map_of_mem _ hinfo)
  · intro digits hdigits
    exact hisPort _ (Option.mem_map_of_mem _ hdigits)
  · rw [← String.toList_inj, toList_render, cutAt?_eq_some hcut, List.append_assoc]

/-- Well-formed parts are found in the text they make: each cut is made where they meet. -/
theorem parse?_render {url : ExternalUrl} (h : url.WellFormed) :
    parse? url.render = some url := by
  have huser : ∀ info ∈ url.userinfo.map String.toList, IsUserinfo info := by
    simpa using h.userinfo
  have hport : ∀ digits ∈ url.port.map String.toList, IsPort digits := by
    simpa using h.port
  rw [parse?_eq_some_iff_steps, toList_render]
  exact ⟨_, _, _, cutAt?_append (colon_not_mem_scheme h.scheme) ['/', '/'] _, h.scheme,
    splitUserinfo_complete huser h.host hport h.tail,
    splitHost_complete h.host (endsHost_of_mem_head h.tail), splitPort_complete hport h.tail,
    h.tail⟩

/-- **What parsing finds.**  The parts found in a text are well formed and make this text, and
well-formed parts that make the text are the ones found in it. -/
theorem parses_iff_wellFormed (path : String) (url : ExternalUrl) :
    parse? path = some url ↔ url.WellFormed ∧ path = url.render := by
  constructor
  · exact wellFormed_of_parse?
  · rintro ⟨hparts, rfl⟩
    exact parse?_render hparts

example : parse? "HTTP://a:@[b:c@d]:80?e@f" =
    some ⟨"HTTP", some "a:", "[b:c@d]", some "80", "?e@f"⟩ := by decide +kernel

end ExternalUrl
end SheetLint
