import Mathlib
import SheetLint.Proofs.UrlParts

/-! # White space in URLs

Each part of a URL that points at another host keeps white space out in its own way: the
scheme is one of three words, the user and the port are made of letters and digits, the name of
a host stops at white space, and the tail is searched for it.  Only an address in brackets is
taken as it is, up to the bracket that closes it.

So all white space of such a URL stands between the brackets of its host
(`blanks_between_brackets`), and there it may stand: `http://[a b]/` points at another host
(`blank_between_brackets`).
-/
namespace SheetLint
open Text

/-! ### Characters without white space -/

/-- No character from `!` to `~` is white space. -/
theorem isBlank_eq_false {c : Char} (hfirst : 0x21 ≤ c.toNat) (hlast : c.toNat ≤ 0x7E) :
    isBlank c = false := by
  simp only [isBlank, inRuns, blankRuns, List.any_eq_false, Bool.and_eq_true, decide_eq_true_eq,
    List.forall_mem_cons]
  simp only [List.not_mem_nil, false_implies, implies_true, and_true]
  omega

theorem isBlank_eq_false_of_isAlphanum {c : Char} (h : c.isAlphanum = true) :
    isBlank c = false := by
  simp only [Char.isAlphanum, Char.isAlpha, Char.isUpper, Char.isLower, Char.isDigit,
    Bool.or_eq_true, Bool.and_eq_true, decide_eq_true_eq, ge_iff_le, UInt32.le_iff_toNat_le] at h
  have hval : c.toNat = c.val.toNat := rfl
  have hmarks : '0'.val.toNat = 48 ∧ '9'.val.toNat = 57 ∧ 'A'.val.toNat = 65 ∧
      'Z'.val.toNat = 90 ∧ 'a'.val.toNat = 97 ∧ 'z'.val.toNat = 122 := by decide
  apply isBlank_eq_false <;> omega

/-- None of the characters is white space. -/
def Blankless (cs : List Char) : Prop := ∀ c ∈ cs, isBlank c = false

theorem Blankless.filter_eq_nil {cs : List Char} (h : Blankless cs) : cs.filter isBlank = [] :=
  List.filter_eq_nil_iff.mpr fun c hc => by simp [h c hc]

namespace ExternalUrl

/-- The characters of a scheme are letters. -/
theorem isAlpha_of_mem_scheme {scheme : String} (h : lower scheme ∈ ["ftp", "http", "https"])
    {c : Char} (hc : c ∈ scheme.toList) : c.isAlpha = true := by
  have hknown : ∀ known ∈ ["ftp", "http", "https"], known.toList.all Char.isAlpha = true := by
    decide
  have hlower : c.toLower ∈ (lower scheme).toList := by
    rw [toList_lower]
    exact List.mem_map_of_mem hc
  rw [← Char.isAlpha_toLower_eq_isAlpha]
  exact List.all_eq_true.mp (hknown _ h) _ hlower

section Parts
variable {cs : List Char}

theorem blankless_scheme {scheme : String} (h : lower scheme ∈ ["ftp", "http", "https"]) :
    Blankless scheme.toList := by
  intro c hc
  refine isBlank_eq_false_of_isAlphanum ?_
  rw [Char.isAlphanum, isAlpha_of_mem_scheme h hc]
  rfl

theorem isBlank_eq_false_of_isWordChar {c : Char} (h : isWordChar c = true) :
    isBlank c = false := by
  rcases Bool.or_eq_true_iff.mp h with h | h
  · exact isBlank_eq_false_of_isAlphanum h
  · rw [beq_iff_eq.mp h]
    decide

theorem blankless_userText {user : Option (List Char)} (h : ∀ info ∈ user, IsUserinfo info) :
    Blankless (userText user) := by
  cases user with
  | none => exact nofun
  | some info =>
    intro c hc
    rcases List.mem_append.mp hc with hc | hc
    · rcases (h info rfl).mem c hc with hword | rfl
      · exact isBlank_eq_false_of_isWordChar hword
      · decide
    · rw [List.mem_singleton.mp hc]
      decide

theorem blankless_portText {port : Option (List Char)} (h : ∀ digits ∈ port, IsPort digits) :
    Blankless (portText port) := by
  cases port with
  | none => exact nofun
  | some digits =>
    intro c hc
    rcases List.mem_cons.mp hc with rfl | hc
    · decide
    · refine isBlank_eq_false_of_isAlphanum ?_
      rw [Char.isAlphanum, (h digits rfl).isDigit c hc, Bool.or_true]

/-- White space in a host stands between brackets. -/
theorem IsHost.address_of_isBlank (h : IsHost cs) {c : Char} (hc : c ∈ cs)
    (hblank : isBlank c = true) :
    ∃ address, cs = '[' :: (address ++ [']']) ∧ ']' ∉ address ∧ c ∈ address := by
  cases h with
  | @address address _ haddress =>
    refine ⟨address, rfl, haddress, ?_⟩
    rcases List.mem_cons.mp hc with rfl | hc
    · exact absurd hblank (by decide)
    · rcases List.mem_append.mp hc with hc | hc
      · exact hc
      · rw [List.mem_singleton.mp hc] at hblank
        exact absurd hblank (by decide)
  | name _ hname =>
    rw [(hname c hc).1] at hblank
    cases hblank

end Parts

/-- The white space of a URL is that of its host. -/
theorem WellFormed.filter_isBlank {url : ExternalUrl} (h : url.WellFormed) :
    url.render.toList.filter isBlank = url.host.toList.filter isBlank := by
  have huser : Blankless (userText (url.userinfo.map String.toList)) :=
    blankless_userText (by simpa using h.userinfo)
  have hport : Blankless (portText (url.port.map String.toList)) :=
    blankless_portText (by simpa using h.port)
  have hmark : Blankless "://".toList := List.all_iff_forall_prop.mp (by decide)
  have htail : Blankless url.tail.toList := h.tail.not_isBlank
  simp only [toList_render, List.filter_append, (blankless_scheme h.scheme).filter_eq_nil,
    hmark.filter_eq_nil, huser.filter_eq_nil, hport.filter_eq_nil, htail.filter_eq_nil,
    List.nil_append, List.append_nil]

end ExternalUrl

/-- **White space stands only between brackets.**  The white space of a text that points at
another host is that of its host, and it holds some exactly if the host is an address in
brackets that holds some.  So it holds none wherever the host is a name. -/
theorem blanks_between_brackets (path : String) (h : isExternal path = true) :
    ∃ url, ExternalUrl.parse? path = some url ∧
      path.toList.filter isBlank = url.host.toList.filter isBlank ∧
      ((∃ c ∈ path.toList, isBlank c = true) ↔
        ∃ address, url.host.toList = '[' :: (address ++ [']']) ∧
          ∃ c ∈ address, isBlank c = true) := by
  obtain ⟨url, hurl⟩ := Option.isSome_iff_exists.mp h
  obtain ⟨hparts, rfl⟩ := ExternalUrl.wellFormed_of_parse? hurl
  have hfilter := hparts.filter_isBlank
  refine ⟨url, hurl, hfilter, ?_⟩
  constructor
  · rintro ⟨c, hc, hblank⟩
    have hhost : c ∈ url.host.toList.filter isBlank :=
      hfilter ▸ List.mem_filter.mpr ⟨hc, hblank⟩
    obtain ⟨address, haddress, -, hmem⟩ :=
      hparts.host.address_of_isBlank (List.mem_filter.mp hhost).1 hblank
    exact ⟨address, haddress, c, hmem, hblank⟩
  · rintro ⟨address, haddress, c, hc, hblank⟩
    have hhost : c ∈ url.host.toList.filter isBlank := by
      rw [haddress]
      exact List.mem_filter.mpr
        ⟨List.mem_cons_of_mem _ (List.mem_append_left _ hc), hblank⟩
    rw [← hfilter] at hhost
    exact ⟨c, (List.mem_filter.mp hhost).1, hblank⟩

/-- A URL with all its parts and two blanks in its address. -/
theorem blanks_between_brackets_all :
    let path := "HTTPS://u:p@[a b\u00a0c]:80/d?e#f"
    isExternal path = true ∧ ∃ url, ExternalUrl.parse? path = some url ∧
      path.toList.filter isBlank = url.host.toList.filter isBlank := by
  intro path
  have hexternal : isExternal path = true := by decide +kernel
  obtain ⟨url, hurl, hfilter, -⟩ := blanks_between_brackets path hexternal
  exact ⟨hexternal, url, hurl, hfilter⟩

/-- White space between brackets does not keep a text from pointing at another host. -/
theorem blank_between_brackets :
    isExternal "http://[a b]/" = true ∧
      ¬ ∀ c ∈ "http://[a b]/".toList, isBlank c = false := by
  refine ⟨by decide +kernel, fun h => ?_⟩
  have hspace : isBlank ' ' = false := h ' ' (by decide)
  exact absurd hspace (by decide)

end SheetLint
