import Mathlib.Data.List.Basic
import SheetLint.Config
import SheetLint.Resource

/-! # How a run comes by its levels

Four sources have a say in the level of a rule: the rules that are registered, the
configuration, and the options that list ids of rules to warn about, to treat as errors and to
ignore.  They are applied one after the other, and the last one to mention an id decides on
its level (`level_applyList`, `foldlM_configure_ok`).  An option that lists warnings or errors
keeps the first two from being asked at all (`ruleset_of_namesRules`).  What has been mentioned
must be registered in the end, whatever level it was given (`validate_eq`).
-/
namespace SheetLint
open Text

/-! ### Lists of ids -/

/-- `id` stands in a comma-separated list: it is not empty, and between two commas, or a comma
and an end of the list, stands nothing but `id` and white space around it. -/
structure ListedIn (list id : String) : Prop where
  nonempty : id ≠ ""
  comma : ',' ∉ id.toList
  first : ∀ c ∈ id.toList.head?, isBlank c = false
  last : ∀ c ∈ id.toList.getLast?, isBlank c = false
  stands : ∃ before lead trail behind : List Char,
    list.toList = before ++ (lead ++ (id.toList ++ trail) ++ behind) ∧
      (∀ c ∈ before.getLast?, c = ',') ∧ (∀ c ∈ behind.head?, c = ',') ∧
      (∀ c ∈ lead, isBlank c = true) ∧ ∀ c ∈ trail, isBlank c = true

theorem mem_idsIn_iff {list id : String} : id ∈ RuleSet.idsIn list ↔ ListedIn list id := by
  simp only [RuleSet.idsIn, List.mem_filter, List.mem_map, mem_pieces_iff, beq_iff_eq,
    beq_eq_false_iff_ne, Bool.not_eq_true', String.isEmpty_eq_false_iff]
  constructor
  · rintro ⟨⟨piece, ⟨hpiece, before, behind, hlist, hbefore, hbehind⟩, rfl⟩, hne⟩
    obtain ⟨lead, trail, hsplit, hlead, htrail⟩ := exists_trimBy isBlank piece
    obtain ⟨hfirst, hlast⟩ := ends_trimBy isBlank piece
    have htrim : (trim (String.ofList piece)).toList = trimBy isBlank piece := by simp [trim]
    have hcomma : ',' ∉ trimBy isBlank piece := fun h =>
      hpiece ',' (by rw [hsplit]; simp [h]) rfl
    refine ⟨hne, ?_, ?_, ?_, before, lead, trail, behind, ?_, hbefore, hbehind, hlead, htrail⟩
    all_goals rw [htrim]
    · exact hcomma
    · exact hfirst
    · exact hlast
    · rw [← hsplit, hlist]
  · rintro ⟨hne, hcomma, hfirst, hlast, before, lead, trail, behind, hlist, hbefore, hbehind,
      hlead, htrail⟩
    have hblank : ∀ c, isBlank c = true → c ≠ ',' := by
      rintro _ hc rfl
      exact absurd hc (by decide)
    refine ⟨⟨lead ++ (id.toList ++ trail), ⟨?_, before, behind, hlist, hbefore, hbehind⟩, ?_⟩, hne⟩
    · simp only [List.mem_append]
      rintro c (hc | hc | hc)
      · exact hblank c (hlead c hc)
      · exact fun h => hcomma (h ▸ hc)
      · exact hblank c (htrail c hc)
    · have hhead : ∀ c ∈ (id.toList ++ trail).head?, isBlank c = false := by
        rwa [List.head?_append_of_ne_nil _ (by simpa using hne)]
      have hback : ∀ c ∈ id.toList.reverse.head?, isBlank c = false := by
        rwa [List.head?_reverse]
      rw [trim, String.toList_ofList, trimBy_append hlead htrail hhead hback,
        String.ofList_toList]

/-- `id` stands in the list that an option gives. -/
def Listed (list : Option String) (id : String) : Prop := ∃ ids ∈ list, ListedIn ids id

instance (list id : String) : Decidable (ListedIn list id) := decidable_of_iff _ mem_idsIn_iff

instance (list : Option String) (id : String) : Decidable (Listed list id) :=
  inferInstanceAs (Decidable (∃ ids ∈ list, ListedIn ids id))

/-! ### Setting levels -/

namespace RuleSet
variable (ruleset : RuleSet) (level : Level)

theorem level_set (id other : String) :
    (ruleset.set id level).level other = if id = other then level else ruleset.level other := by
  simp only [set, RuleSet.level, Keyed.find?_put]
  split <;> rfl

theorem mem_ids_set {id other : String} :
    other ∈ (ruleset.set id level).ids ↔ id = other ∨ other ∈ ruleset.ids := by
  simp only [set, ids, Keyed.map_put]
  split <;> grind

/-- Setting several ids to one level is the same in any order. -/
theorem level_foldl_set (ids : List String) (id : String) :
    (ids.foldl (fun ruleset id => ruleset.set id level) ruleset).level id =
      if id ∈ ids then level else ruleset.level id := by
  induction ids generalizing ruleset with
  | nil => simp
  | cons other ids ih =>
    rw [List.foldl_cons, ih, level_set]
    by_cases hmem : id ∈ ids
    · simp [hmem]
    · simp [hmem, eq_comm]

theorem mem_ids_foldl_set {ids : List String} {id : String} :
    id ∈ (ids.foldl (fun ruleset id => ruleset.set id level) ruleset).ids ↔
      id ∈ ids ∨ id ∈ ruleset.ids := by
  induction ids generalizing ruleset with
  | nil => simp
  | cons other ids ih =>
    rw [List.foldl_cons, ih, mem_ids_set, List.mem_cons]
    grind

end RuleSet

/-! ### What the sources say -/

namespace Linter

/-- Some rule of the linter has the id. -/
def Registers (linter : Linter) (id : String) : Prop := ∃ rule ∈ linter.rules, rule.id = id

instance (linter : Linter) (id : String) : Decidable (linter.Registers id) :=
  inferInstanceAs (Decidable (∃ rule ∈ linter.rules, rule.id = id))

variable (linter : Linter)

theorem isNone_rule? {id : String} : (linter.rule? id).isNone = true ↔ ¬ linter.Registers id := by
  simp [rule?, Keyed.find?, Registers]

theorem registers_iff {id : String} : linter.Registers id ↔ id ∈ linter.rules.map Rule.id := by
  simp [Registers]

theorem defaultRuleset_eq :
    linter.defaultRuleset =
      (linter.rules.map Rule.id).foldl (fun ruleset id => ruleset.set id .warn) {} := by
  rw [defaultRuleset, List.foldl_map]

theorem level_defaultRuleset (id : String) :
    linter.defaultRuleset.level id = if linter.Registers id then .warn else .off := by
  simp only [defaultRuleset_eq, RuleSet.level_foldl_set, registers_iff]
  rfl

theorem mem_ids_defaultRuleset {id : String} :
    id ∈ linter.defaultRuleset.ids ↔ linter.Registers id := by
  rw [defaultRuleset_eq, RuleSet.mem_ids_foldl_set, registers_iff]
  simp [RuleSet.ids]

/-- Validation names an id that is mentioned and not registered, if there is one. -/
theorem validate_eq (ruleset : RuleSet) :
    (∃ id ∈ ruleset.ids, ¬ linter.Registers id ∧
        linter.validate ruleset = .error (.unknownRule id)) ∨
      (∀ id ∈ ruleset.ids, linter.Registers id) ∧ linter.validate ruleset = .ok () := by
  rw [validate]
  cases hfind : ruleset.ids.find? fun id => (linter.rule? id).isNone with
  | none =>
    refine .inr ⟨fun id hid => ?_, rfl⟩
    have := List.find?_eq_none.mp hfind id hid
    rwa [isNone_rule?, not_not] at this
  | some id =>
    have hnone := (List.find?_eq_some_iff_append.mp hfind).1
    exact .inl ⟨id, List.mem_of_find?_eq_some hfind, linter.isNone_rule?.mp hnone, rfl⟩

end Linter

/-- The options name the rules to run. -/
def Arguments.NamesRules (args : Arguments) : Prop :=
  args.warnings.isSome = true ∨ args.errors.isSome = true

instance (args : Arguments) : Decidable args.NamesRules :=
  inferInstanceAs (Decidable (_ ∨ _))

namespace Config

/-- Every configured level can be understood. -/
def Readable (entries : List (String × LevelValue)) : Prop :=
  ∀ entry ∈ entries, ∃ level, entry.2.level = .ok level

/-- The first level that cannot be understood is that of the rule `id`. -/
def FirstUnreadable (entries : List (String × LevelValue)) (id : String)
    (cause : RuleSetError) : Prop :=
  ∃ before value behind, entries = before ++ (id, value) :: behind ∧ Readable before ∧
    value.level = .error cause

/-- The level that is configured for a rule. -/
def level? (entries : List (String × LevelValue)) (id : String) : Option Level :=
  (entries.lookup id).bind fun value => value.level.toOption

/-- An id that has to be registered: some list has it, or else the configuration, where it is
asked. -/
def Mentions (config : Config) (args : Arguments) (id : String) : Prop :=
  Listed args.warnings id ∨ Listed args.errors id ∨ Listed args.ignore id ∨
    ¬ args.NamesRules ∧ id ∈ config.rules.map Prod.fst

/-- The level of a rule: the strongest word is that of the option that ignores it, followed by
those that list errors and warnings.  Where neither of these two is given, a rule has the
level configured for it, and a registered one is a warning otherwise. -/
def resolvedLevel (linter : Linter) (config : Config) (args : Arguments) (id : String) : Level :=
  if Listed args.ignore id then .off
  else if Listed args.errors id then .error
  else if Listed args.warnings id then .warn
  else if args.NamesRules then .off
  else (level? config.rules id).getD (if linter.Registers id then .warn else .off)

theorem exists_firstUnreadable {entries : List (String × LevelValue)} (h : ¬ Readable entries) :
    ∃ id cause, FirstUnreadable entries id cause := by
  induction entries with
  | nil => exact absurd (fun _ => nofun) h
  | cons entry entries ih =>
    obtain ⟨id, value⟩ := entry
    cases hlevel : value.level with
    | error cause => exact ⟨id, cause, [], value, entries, rfl, fun _ => nofun, hlevel⟩
    | ok level =>
      have hrest : ¬ Readable entries := fun hr =>
        h (List.forall_mem_cons.mpr ⟨⟨level, hlevel⟩, hr⟩)
      obtain ⟨other, cause, before, value', behind, rfl, hbefore, hcause⟩ := ih hrest
      exact ⟨other, cause, (id, value) :: before, value', behind, rfl,
        List.forall_mem_cons.mpr ⟨⟨level, hlevel⟩, hbefore⟩, hcause⟩

/-! ### Going through the configuration -/

/-- Sets the level of one configured rule. -/
def configure (ruleset : RuleSet) (entry : String × LevelValue) : Except ConfigError RuleSet :=
  (entry.2.level.map (ruleset.set entry.1)).mapError (.level entry.1)

theorem baseRuleset_eq (linter : Linter) (config : Config) (args : Arguments) :
    config.baseRuleset linter args =
      if args.NamesRules then .ok {}
      else config.rules.foldlM configure linter.defaultRuleset := by
  unfold baseRuleset
  refine ite_congr rfl (fun _ => rfl) fun _ => ?_
  refine congrArg (List.foldlM · _ _) (funext fun ruleset => funext fun entry => ?_)
  rw [configure]
  cases entry.2.level <;> rfl

/-- Levels that can be understood are set one after the other.  As no id comes twice, none of
them is lost. -/
theorem foldlM_configure_ok {entries : List (String × LevelValue)}
    (hkeys : (entries.map Prod.fst).Nodup) (hread : Readable entries) (ruleset : RuleSet) :
    ∃ result, entries.foldlM configure ruleset = .ok result ∧
      (∀ id, result.level id = (level? entries id).getD (ruleset.level id)) ∧
      ∀ id, id ∈ result.ids ↔ id ∈ entries.map Prod.fst ∨ id ∈ ruleset.ids := by
  induction entries generalizing ruleset with
  | nil => exact ⟨ruleset, rfl, fun _ => rfl, fun _ => by simp⟩
  | cons entry entries ih =>
    obtain ⟨key, value⟩ := entry
    obtain ⟨hkey, hkeys⟩ := List.nodup_cons.mp hkeys
    obtain ⟨⟨level, hlevel⟩, hread⟩ := List.forall_mem_cons.mp hread
    obtain ⟨result, hresult, hlevels, hids⟩ := ih hkeys hread (ruleset.set key level)
    have hstep : configure ruleset (key, value) = .ok (ruleset.set key level) := by
      rw [configure, hlevel]
      rfl
    refine ⟨result, ?_, fun id => ?_, fun id => ?_⟩
    · rw [List.foldlM_cons, hstep]
      exact hresult
    · rw [hlevels, RuleSet.level_set]
      by_cases hid : id = key
      · subst hid
        have hnone : entries.lookup id = none := by
          rw [List.lookup_eq_none_iff]
          intro other hother
          rw [bne_iff_ne]
          exact fun h => hkey (List.mem_map.mpr ⟨other, hother, h.symm⟩)
        simp [level?, hnone, hlevel, Except.toOption]
      · have hlookup : ((key, value) :: entries).lookup id = entries.lookup id := by
          rw [List.lookup_cons, beq_false_of_ne hid]
        rw [if_neg (Ne.symm hid), level?, level?, hlookup]
    · rw [hids, RuleSet.mem_ids_set, List.map_cons, List.mem_cons]
      grind

/-- A level that cannot be understood ends it. -/
theorem foldlM_configure_error {entries : List (String × LevelValue)} {id : String}
    {cause : RuleSetError} (h : FirstUnreadable entries id cause) (ruleset : RuleSet) :
    entries.foldlM configure ruleset = .error (.level id cause) := by
  obtain ⟨before, value, behind, rfl, hbefore, hvalue⟩ := h
  induction before generalizing ruleset with
  | nil =>
    have hstep : configure ruleset (id, value) = .error (.level id cause) := by
      rw [configure, hvalue]
      rfl
    rw [List.nil_append, List.foldlM_cons, hstep]
    rfl
  | cons entry before ih =>
    obtain ⟨⟨level, hlevel⟩, hbefore⟩ := List.forall_mem_cons.mp hbefore
    have hstep : configure ruleset entry = .ok (ruleset.set entry.1 level) := by
      rw [configure, hlevel]
      rfl
    rw [List.cons_append, List.foldlM_cons, hstep]
    exact ih _ hbefore

/-! ### Applying the options -/

theorem level_applyList (list : Option String) (level : Level) (ruleset : RuleSet) (id : String) :
    (applyList list level ruleset).level id =
      if Listed list id then level else ruleset.level id := by
  cases list with
  | none => simp [applyList, Listed]
  | some ids =>
    simp only [applyList, RuleSet.setList, RuleSet.level_foldl_set, mem_idsIn_iff]
    simp [Listed]

theorem mem_ids_applyList {list : Option String} {level : Level} {ruleset : RuleSet}
    {id : String} :
    id ∈ (applyList list level ruleset).ids ↔ Listed list id ∨ id ∈ ruleset.ids := by
  cases list with
  | none => simp [applyList, Listed]
  | some ids =>
    simp only [applyList, RuleSet.setList, RuleSet.mem_ids_foldl_set, mem_idsIn_iff]
    simp [Listed]

/-- The ruleset with all options applied. -/
def withOptions (args : Arguments) (base : RuleSet) : RuleSet :=
  applyList args.ignore .off (applyList args.errors .error (applyList args.warnings .warn base))

variable {linter : Linter} {config : Config} {args : Arguments}

theorem ruleset_of_error {cause : ConfigError}
    (h : config.baseRuleset linter args = .error cause) :
    config.ruleset linter args = .error cause := by
  rw [ruleset, h]
  rfl

theorem ruleset_of_ok {base : RuleSet} (h : config.baseRuleset linter args = .ok base) :
    (∃ id ∈ (withOptions args base).ids, ¬ linter.Registers id ∧
        config.ruleset linter args = .error (.ruleset (.unknownRule id))) ∨
      (∀ id ∈ (withOptions args base).ids, linter.Registers id) ∧
        config.ruleset linter args = .ok (withOptions args base) := by
  rcases linter.validate_eq (withOptions args base) with
    ⟨id, hid, hunknown, hvalid⟩ | ⟨hall, hvalid⟩
  · refine .inl ⟨id, hid, hunknown, ?_⟩
    unfold withOptions at hvalid
    simp only [ruleset, h, bind, Except.bind, hvalid]
  · refine .inr ⟨hall, ?_⟩
    unfold withOptions at hvalid
    simp only [ruleset, h, bind, Except.bind, hvalid]
    rfl

/-! ### The three outcomes -/

/-- What the options are applied to. -/
theorem exists_baseRuleset (hkeys : (config.rules.map Prod.fst).Nodup)
    (h : args.NamesRules ∨ Readable config.rules) :
    ∃ base, config.baseRuleset linter args = .ok base ∧
      (∀ id, (withOptions args base).level id = config.resolvedLevel linter args id) ∧
      ∀ id, id ∈ (withOptions args base).ids ↔
        config.Mentions args id ∨ ¬ args.NamesRules ∧ linter.Registers id := by
  simp only [baseRuleset_eq, withOptions, level_applyList, mem_ids_applyList, resolvedLevel,
    Mentions]
  by_cases hnames : args.NamesRules
  · refine ⟨{}, if_pos hnames, fun id => ?_, fun id => ?_⟩
    · rw [if_pos hnames]
      rfl
    · simp only [hnames, RuleSet.ids]
      grind
  · obtain ⟨base, hbase, hlevels, hids⟩ :=
      foldlM_configure_ok hkeys (h.resolve_left hnames) linter.defaultRuleset
    refine ⟨base, by rw [if_neg hnames, hbase], fun id => ?_, fun id => ?_⟩
    · rw [if_neg hnames, hlevels, linter.level_defaultRuleset]
    · rw [hids, linter.mem_ids_defaultRuleset]
      grind

variable (linter args) in
/-- A level that cannot be understood, an id that is not registered, or a ruleset. -/
theorem ruleset_cases (hkeys : (config.rules.map Prod.fst).Nodup) :
    (¬ args.NamesRules ∧ ∃ id cause, FirstUnreadable config.rules id cause ∧
        config.ruleset linter args = .error (.level id cause)) ∨
      (∃ id, config.Mentions args id ∧ ¬ linter.Registers id ∧
        config.ruleset linter args = .error (.ruleset (.unknownRule id))) ∨
      (∀ id, config.Mentions args id → linter.Registers id) ∧
        ∃ ruleset, config.ruleset linter args = .ok ruleset ∧
          ∀ id, ruleset.level id = config.resolvedLevel linter args id := by
  by_cases h : args.NamesRules ∨ Readable config.rules
  · obtain ⟨base, hbase, hlevels, hids⟩ := exists_baseRuleset hkeys h
    right
    rcases ruleset_of_ok hbase with ⟨id, hid, hunknown, hresult⟩ | ⟨hall, hresult⟩
    · refine .inl ⟨id, ?_, hunknown, hresult⟩
      exact ((hids id).mp hid).resolve_right fun h => hunknown h.2
    · exact .inr ⟨fun id hid => hall id ((hids id).mpr (.inl hid)), _, hresult, hlevels⟩
  · obtain ⟨hnames, hread⟩ := not_or.mp h
    obtain ⟨id, cause, hfirst⟩ := exists_firstUnreadable hread
    refine .inl ⟨hnames, id, cause, hfirst, ruleset_of_error ?_⟩
    rw [baseRuleset_eq, if_neg hnames, foldlM_configure_error hfirst]

/-- Options that name the rules to run leave the configuration without a say. -/
theorem ruleset_of_namesRules (h : args.NamesRules) (other : Config) :
    other.ruleset linter args = config.ruleset linter args := by
  have hbase (config : Config) : config.baseRuleset linter args = .ok {} := by
    rw [baseRuleset_eq, if_pos h]
  rw [ruleset, ruleset, hbase, hbase]

end Config

/-- A run without options that name its rules fails over the first configured level that cannot
be understood.  Otherwise it fails over an id that is mentioned and not registered, if there is
one, and else gives every id the level that `resolvedLevel` says.  With options that name the
rules the configuration makes no difference. -/
theorem ruleset_resolution (linter : Linter) (config : Config) (args : Arguments)
    (hkeys : (config.rules.map Prod.fst).Nodup) :
    (∀ id cause, config.ruleset linter args = .error (.level id cause) ↔
        ¬ args.NamesRules ∧ Config.FirstUnreadable config.rules id cause) ∧
      ((args.NamesRules ∨ ∀ id cause, ¬ Config.FirstUnreadable config.rules id cause) →
        ((∃ id, config.ruleset linter args = .error (.ruleset (.unknownRule id))) ↔
            ∃ id, config.Mentions args id ∧ ¬ linter.Registers id) ∧
          (∀ id, config.ruleset linter args = .error (.ruleset (.unknownRule id)) →
            config.Mentions args id ∧ ¬ linter.Registers id) ∧
          ((∀ id, config.Mentions args id → linter.Registers id) →
            ∃ ruleset, config.ruleset linter args = .ok ruleset ∧
              ∀ id, ruleset.level id = config.resolvedLevel linter args id)) ∧
      (args.NamesRules → ∀ other : Config,
        other.ruleset linter args = config.ruleset linter args) := by
  refine ⟨fun id cause => ⟨fun h => ?_, fun ⟨hnames, hfirst⟩ => ?_⟩, fun hother => ?_,
    Config.ruleset_of_namesRules⟩
  · rcases Config.ruleset_cases linter args hkeys with
      ⟨hnames, id', cause', hfirst, hresult⟩ | ⟨id', -, -, hresult⟩ | ⟨-, ruleset, hresult, -⟩
    · rw [hresult] at h
      obtain ⟨rfl, rfl⟩ : id' = id ∧ cause' = cause := by simpa using h
      exact ⟨hnames, hfirst⟩
    · simp [hresult] at h
    · simp [hresult] at h
  · refine Config.ruleset_of_error ?_
    rw [Config.baseRuleset_eq, if_neg hnames, Config.foldlM_configure_error hfirst]
  · rcases Config.ruleset_cases linter args hkeys with
      ⟨hnames, id', cause', hfirst, -⟩ | ⟨id', hid, hunknown, hresult⟩ |
      ⟨hall, ruleset, hresult, hlevels⟩
    · exact absurd hfirst (hother.resolve_left hnames id' cause')
    · refine ⟨⟨fun _ => ⟨id', hid, hunknown⟩, fun _ => ⟨id', hresult⟩⟩, fun id h => ?_,
        fun hall => absurd (hall id' hid) hunknown⟩
      rw [hresult] at h
      obtain rfl : id' = id := by simpa using h
      exact ⟨hid, hunknown⟩
    · refine ⟨⟨fun ⟨id, h⟩ => ?_, fun ⟨id, hid, hunknown⟩ => absurd (hall id hid) hunknown⟩,
        fun id h => ?_, fun _ => ⟨ruleset, hresult, hlevels⟩⟩
      · simp [hresult] at h
      · simp [hresult] at h

/-- Two options list a rule.  That the configuration names an unknown rule, and gives it no
level, goes unnoticed. -/
theorem ruleset_resolution_namesRules :
    let config : Config := { rules := [("colour", .text "loud"), ("resource", .flag false)] }
    let args : Arguments :=
      { paths := [], workspace := ".", format := .human, warnings := some "resource,,",
        errors := some " resource ", ignore := none, exclude := [], config := none, flags := [] }
    (config.rules.map Prod.fst).Nodup ∧
      ∃ ruleset, config.ruleset Linter.builtin args = .ok ruleset ∧
        ruleset.level "resource" = .error := by
  intro config args
  have hkeys : (config.rules.map Prod.fst).Nodup := by decide
  have hwarnings : RuleSet.idsIn "resource,," = ["resource"] := by decide +kernel
  have herrors : RuleSet.idsIn " resource " = ["resource"] := by decide +kernel
  obtain ⟨-, hothers, -⟩ := ruleset_resolution Linter.builtin config args hkeys
  obtain ⟨-, -, hsucceeds⟩ := hothers (.inl (by decide))
  have hall : ∀ id, config.Mentions args id → Linter.builtin.Registers id := by
    simp only [Config.Mentions, Listed, args, ← mem_idsIn_iff]
    intro id h
    obtain rfl : id = "resource" := by
      simpa [Arguments.NamesRules, hwarnings, herrors] using h
    decide
  obtain ⟨ruleset, hresult, hlevels⟩ := hsucceeds hall
  refine ⟨hkeys, ruleset, hresult, ?_⟩
  rw [hlevels]
  decide +kernel

end SheetLint
