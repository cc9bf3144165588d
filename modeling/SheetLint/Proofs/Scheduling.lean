import Mathlib.Data.List.Basic
import Mathlib.Logic.Function.Iterate
import SheetLint.Check

/-! # Jobs side by side

The files of a check may be looked at side by side, one job a file.  A job lints its file,
raises a counter shared by all jobs once for each diagnostic, and leaves behind what the file
adds to the output.  Who takes the next step is open: a schedule is any list of indices of
jobs, and an index in it stands for one step of that job.  When all jobs are done, what they
have left is put together in the order of the files, and the counters are read.

Jobs share nothing but the counters.  So a job stands where its own steps have taken it,
whatever happens between them (`getElem?_run`), and what the counters show and what the jobs
have yet to count add up to the same at all times (`counter_run`).  Every schedule that gives
the jobs their turns therefore ends as a check does that goes through the files one by one
(`jobs_of_isOver`, `counter_of_isOver`).
-/
namespace SheetLint

/-! ### Jobs -/

/-- What a file adds to the output. -/
structure Share where
  text : Option String
  entries : List Report.Entry

/-- The share of a file: none where nothing has been found, entries in the format `json`, and
otherwise a text. -/
def FileOutcome.share? (format : OutputFormat) (outcome : FileOutcome) : Option Share :=
  if outcome.diagnostics.isEmpty then none
  else if format = .json then
    some ⟨none, outcome.diagnostics.map (Report.entry outcome.path)⟩
  else
    some ⟨some (Report.render format outcome.diagnostics outcome.path outcome.source), []⟩

/-- The job of checking one file. -/
inductive Job where
  /-- The file has not been looked at. -/
  | waiting (path : String)
  /-- The file has been linted, and the diagnostics `left` are still to be counted. -/
  | counting (outcome : FileOutcome) (left : List Diagnostic)
  /-- All is done; a file that could not be read has no share. -/
  | done (share : Option Share)

namespace Job

/-- The counter that a job raises in its next step. -/
def counts : Job → Option Severity
  | counting _ (d :: _) => some d.severity
  | _ => none

/-- The share that a job has left. -/
def share? : Job → Option Share
  | done share => share
  | _ => none

/-- Whether a job is done. -/
def isDone : Job → Bool
  | done _ => true
  | _ => false

variable (plan : Plan) (files : Folder) (format : OutputFormat)

/-- A job behind its next step. -/
def next : Job → Job
  | waiting path =>
    match plan.checkFile? files path with
    | none => done none
    | some outcome => counting outcome outcome.diagnostics
  | counting outcome (_ :: left) => counting outcome left
  | counting outcome [] => done (outcome.share? format)
  | done share => done share

/-- The number of diagnostics of a severity that a job has yet to count. -/
def due (severity : Severity) : Job → Nat
  | waiting path =>
    ((plan.checkFile? files path).map fun outcome =>
      Diagnostic.count severity outcome.diagnostics).getD 0
  | counting _ left => Diagnostic.count severity left
  | done _ => 0

end Job

/-- The number of steps that the job of a file takes. -/
def Plan.turns (plan : Plan) (files : Folder) (path : String) : Nat :=
  ((plan.checkFile? files path).map fun outcome => outcome.diagnostics.length + 2).getD 1

/-! ### Passes -/

/-- The jobs on some files, in the order of the files, and their counters. -/
structure Pass where
  jobs : List Job
  counter : Severity → Nat

namespace Pass

/-- The pass in which no job has begun. -/
def start (paths : List String) : Pass := ⟨paths.map .waiting, fun _ => 0⟩

/-- All jobs are done. -/
def IsOver (pass : Pass) : Prop := ∀ job ∈ pass.jobs, job.isDone = true

section Steps
variable (plan : Plan) (files : Folder) (format : OutputFormat)

/-- One step of the job with the given index.  Nothing happens where there is none, or where
it is done. -/
def advance (pass : Pass) (i : Nat) : Pass where
  jobs := pass.jobs.modify i (Job.next plan files format)
  counter severity :=
    pass.counter severity + if pass.jobs[i]?.bind Job.counts = some severity then 1 else 0

/-- The steps of a schedule. -/
def run (pass : Pass) (schedule : List Nat) : Pass :=
  schedule.foldl (advance plan files format) pass

end Steps

/-- What the jobs have left, in the order of the files. -/
def shares (pass : Pass) : List Share := pass.jobs.filterMap Job.share?

/-- The pass in numbers. -/
def summary (pass : Pass) (failOnWarnings : Bool) : Summary where
  files := pass.jobs.length
  errors := pass.counter .error
  warnings := pass.counter .warning
  failOnWarnings := failOnWarnings

/-- What is printed behind the pass. -/
def printed (pass : Pass) (format : OutputFormat) (quiet failOnWarnings : Bool) : String :=
  if format = .json then
    Report.renderEntries (pass.shares.flatMap Share.entries) ++ "\n"
  else
    String.join (pass.shares.filterMap Share.text) ++
      if quiet && (pass.summary failOnWarnings).isClean then ""
      else (pass.summary failOnWarnings).render ++ "\n"

end Pass

/-- The schedule that goes through the files one by one. -/
def Plan.oneByOne (plan : Plan) (files : Folder) (paths : List String) : List Nat :=
  paths.zipIdx.flatMap fun entry => List.replicate (plan.turns files entry.1) entry.2

/-! ### What one job does -/

section OneJob
variable (plan : Plan) (files : Folder) (format : OutputFormat)

/-- A step moves a diagnostic from what is yet to be counted to the counters, if it moves
one. -/
theorem due_next (severity : Severity) (job : Job) :
    (job.next plan files format).due plan files severity +
        (if job.counts = some severity then 1 else 0) =
      job.due plan files severity := by
  cases job with
  | waiting path =>
    cases hfile : plan.checkFile? files path <;> simp [Job.next, Job.due, Job.counts, hfile]
  | counting outcome left =>
    cases left with
    | nil => simp [Job.next, Job.due, Job.counts, Diagnostic.count]
    | cons d left =>
      by_cases hd : d.severity = severity <;>
        simp [Job.next, Job.due, Job.counts, Diagnostic.count, hd]
  | done share => simp [Job.next, Job.due, Job.counts]

/-- Where some steps take a job that counts. -/
theorem iterate_next_counting (outcome : FileOutcome) (left : List Diagnostic) (n : Nat) :
    (Job.next plan files format)^[n] (.counting outcome left) =
      if n ≤ left.length then .counting outcome (left.drop n)
      else .done (outcome.share? format) := by
  induction n generalizing left with
  | zero => simp
  | succ n ih =>
    rw [Function.iterate_succ_apply]
    cases left with
    | nil =>
      have hfixed : (Job.next plan files format)^[n] (.done (outcome.share? format)) =
          .done (outcome.share? format) := Function.iterate_fixed rfl n
      simp [Job.next, hfixed]
    | cons d left => simp [Job.next, ih]

/-- Where some steps take a job, up to its last turn and from then on. -/
theorem iterate_next_waiting (path : String) (n : Nat) :
    (((Job.next plan files format)^[n] (.waiting path)).isDone = true ↔
        plan.turns files path ≤ n) ∧
      (plan.turns files path ≤ n → (Job.next plan files format)^[n] (.waiting path) =
        .done ((plan.checkFile? files path).bind (FileOutcome.share? format))) := by
  cases n with
  | zero => cases hfile : plan.checkFile? files path <;> simp [Plan.turns, hfile, Job.isDone]
  | succ n =>
    rw [Function.iterate_succ_apply]
    cases hfile : plan.checkFile? files path with
    | none =>
      have hfixed : (Job.next plan files format)^[n] (.done none) = .done none :=
        Function.iterate_fixed rfl n
      simp [Plan.turns, Job.next, Job.isDone, hfile, hfixed]
    | some outcome =>
      simp only [Plan.turns, Job.next, hfile, iterate_next_counting, Option.map_some,
        Option.getD_some, Option.bind_some]
      by_cases hn : n ≤ outcome.diagnostics.length
      · have hturns : ¬ outcome.diagnostics.length + 2 ≤ n + 1 := by omega
        simp [hn, hturns, Job.isDone]
      · have hturns : outcome.diagnostics.length + 2 ≤ n + 1 := by omega
        simp [hn, hturns, Job.isDone]

end OneJob

/-! ### What a schedule does -/

namespace Pass
variable (plan : Plan) (files : Folder) (format : OutputFormat)

/-- **Jobs do not disturb each other.**  A job stands where as many of its steps have taken
it as the schedule gives it. -/
theorem getElem?_run (pass : Pass) (schedule : List Nat) (i : Nat) :
    (pass.run plan files format schedule).jobs[i]? =
      pass.jobs[i]?.map (Job.next plan files format)^[schedule.count i] := by
  induction schedule generalizing pass with
  | nil => simp [run]
  | cons j schedule ih =>
    have hstep : (pass.advance plan files format j).jobs[i]? =
        if j = i then pass.jobs[i]?.map (Job.next plan files format) else pass.jobs[i]? := by
      rw [advance, List.getElem?_modify]
      split <;> simp
    show (run plan files format (pass.advance plan files format j) schedule).jobs[i]? = _
    rw [ih, hstep, List.count_cons]
    by_cases hij : j = i
    · simp [hij, Function.iterate_succ]
    · simp [hij]

/-- A pass is over when every job has had its turns. -/
theorem isOver_run_iff (paths : List String) (schedule : List Nat) :
    ((start paths).run plan files format schedule).IsOver ↔
      ∀ i path, paths[i]? = some path → plan.turns files path ≤ schedule.count i := by
  have hjobs : ∀ i, ((start paths).run plan files format schedule).jobs[i]? =
      paths[i]?.map fun path =>
        (Job.next plan files format)^[schedule.count i] (.waiting path) := by
    intro i
    rw [getElem?_run, start, List.getElem?_map, Option.map_map]
    rfl
  constructor
  · intro hover i path hpath
    have hjob := hjobs i
    rw [hpath, Option.map_some] at hjob
    have hdone := hover _ (List.mem_of_getElem? hjob)
    exact (iterate_next_waiting plan files format path _).1.mp hdone
  · intro hturns job hjob
    obtain ⟨i, hi⟩ := List.getElem?_of_mem hjob
    rw [hjobs] at hi
    obtain ⟨path, hpath, rfl⟩ := Option.map_eq_some_iff.mp hi
    exact (iterate_next_waiting plan files format path _).1.mpr (hturns i path hpath)

/-- Going through the files one by one gives every job its turns. -/
theorem isOver_oneByOne (paths : List String) :
    ((start paths).run plan files format (plan.oneByOne files paths)).IsOver := by
  refine (isOver_run_iff plan files format paths _).mpr fun i path hpath => ?_
  have hentry : (path, i) ∈ paths.zipIdx := List.mem_zipIdx_iff_getElem?.mpr hpath
  have hmem : List.replicate (plan.turns files path) i ∈
      paths.zipIdx.map fun entry => List.replicate (plan.turns files entry.1) entry.2 :=
    List.mem_map.mpr ⟨(path, i), hentry, rfl⟩
  have hcount := (List.sublist_flatten_of_mem hmem).count_le i
  rwa [List.count_replicate_self, ← List.flatMap_def] at hcount

/-- **When a pass is over** each job has left the share of its file. -/
theorem jobs_of_isOver {paths : List String} {schedule : List Nat}
    (hover : ((start paths).run plan files format schedule).IsOver) :
    ((start paths).run plan files format schedule).jobs =
      paths.map fun path =>
        .done ((plan.checkFile? files path).bind (FileOutcome.share? format)) := by
  have hturns := (isOver_run_iff plan files format paths schedule).mp hover
  refine List.ext_getElem? fun i => ?_
  rw [getElem?_run, start, List.getElem?_map, List.getElem?_map, Option.map_map]
  cases hpath : paths[i]? with
  | none => rfl
  | some path =>
    exact congrArg some ((iterate_next_waiting plan files format path _).2 (hturns i path hpath))

/-- The diagnostics of a severity that the jobs have yet to count. -/
def due (severity : Severity) (pass : Pass) : Nat :=
  pass.jobs.foldr (fun job n => job.due plan files severity + n) 0

/-- Among the jobs, too, a step moves a diagnostic from what is yet to be counted to the
counters, if it moves one. -/
theorem due_modify (severity : Severity) (jobs : List Job) (i : Nat) :
    (jobs.modify i (Job.next plan files format)).foldr
          (fun job n => job.due plan files severity + n) 0 +
        (if jobs[i]?.bind Job.counts = some severity then 1 else 0) =
      jobs.foldr (fun job n => job.due plan files severity + n) 0 := by
  induction jobs generalizing i with
  | nil => simp
  | cons job jobs ih =>
    cases i with
    | zero =>
      have hstep := due_next plan files format severity job
      simp only [List.modify_zero_cons, List.foldr_cons, List.getElem?_cons_zero,
        Option.bind_some]
      omega
    | succ i =>
      have hrest := ih i
      simp only [List.modify_succ_cons, List.foldr_cons, List.getElem?_cons_succ]
      omega

/-- **Nothing is lost and nothing is counted twice.**  What a counter shows and what is yet
to be counted add up to the same at all times. -/
theorem counter_run (severity : Severity) (pass : Pass) (schedule : List Nat) :
    (pass.run plan files format schedule).counter severity +
        (pass.run plan files format schedule).due plan files severity =
      pass.counter severity + pass.due plan files severity := by
  induction schedule generalizing pass with
  | nil => rfl
  | cons i schedule ih =>
    have hstep := due_modify plan files format severity pass.jobs i
    have hrest := ih (pass.advance plan files format i)
    have hadvance : (pass.advance plan files format i).counter severity +
        (pass.advance plan files format i).due plan files severity =
          pass.counter severity + pass.due plan files severity := by
      simp only [advance, due]
      omega
    exact hrest.trans hadvance

/-- When a pass is over, its counters show all diagnostics of the files. -/
theorem counter_of_isOver {paths : List String} {schedule : List Nat}
    (hover : ((start paths).run plan files format schedule).IsOver) (severity : Severity) :
    ((start paths).run plan files format schedule).counter severity =
      (start paths).due plan files severity := by
  have htotal := counter_run plan files format severity (start paths) schedule
  have hnone : ((start paths).run plan files format schedule).due plan files severity = 0 := by
    rw [due, jobs_of_isOver plan files format hover]
    simp [Job.due, List.foldr_map, List.foldr_fixed]
  rw [hnone, Nat.add_zero] at htotal
  rw [htotal]
  exact Nat.zero_add _

end Pass

/-! ### The diagnostics of the files -/

section Files
variable (plan : Plan) (files : Folder)

/-- The diagnostics of a file; a file that cannot be read has none. -/
def Plan.diagnosticsOf (path : String) : List Diagnostic :=
  match files.read path with
  | .error _ => []
  | .ok source =>
    (Linter.builtin.lint plan.ruleset
      (if plan.filesystem then some (files.probe path plan.workspace) else none) source).messages

/-- What looking at a file yields. -/
theorem checkFile?_cases (path : String) :
    (plan.checkFile? files path = none ∧ plan.diagnosticsOf files path = []) ∨
      ∃ outcome, plan.checkFile? files path = some outcome ∧
        outcome.path = plan.shownPath path ∧
        outcome.diagnostics = plan.diagnosticsOf files path := by
  unfold Plan.checkFile? Plan.diagnosticsOf
  cases files.read path with
  | error cause => exact .inl ⟨rfl, rfl⟩
  | ok source => exact .inr ⟨_, rfl, rfl, rfl⟩

/-- What is made of the diagnostics that have been found is made of those of the files. -/
theorem flatMap_outcomes {β : Type} (g : String → Diagnostic → β) (paths : List String) :
    (paths.filterMap (plan.checkFile? files)).flatMap
        (fun outcome => outcome.diagnostics.map (g outcome.path)) =
      paths.flatMap fun path => (plan.diagnosticsOf files path).map (g (plan.shownPath path)) := by
  induction paths with
  | nil => rfl
  | cons path paths ih =>
    rcases checkFile?_cases plan files path with ⟨hfile, hnone⟩ | ⟨outcome, hfile, hpath, hfound⟩
    · rw [List.filterMap_cons_none hfile, ih, List.flatMap_cons, hnone]
      rfl
    · rw [List.filterMap_cons_some hfile, List.flatMap_cons, ih, List.flatMap_cons, hpath, hfound]

theorem Diagnostic.count_append (severity : Severity) (as bs : List Diagnostic) :
    Diagnostic.count severity (as ++ bs) =
      Diagnostic.count severity as + Diagnostic.count severity bs := by
  rw [Diagnostic.count, List.filter_append, List.length_append]
  rfl

theorem Diagnostic.foldr_count {α : Type} (severity : Severity) (f : α → List Diagnostic)
    (as : List α) :
    as.foldr (fun a n => Diagnostic.count severity (f a) + n) 0 =
      Diagnostic.count severity (as.flatMap f) := by
  induction as with
  | nil => rfl
  | cons a as ih => rw [List.foldr_cons, ih, List.flatMap_cons, Diagnostic.count_append]

theorem due_waiting (severity : Severity) (path : String) :
    Job.due plan files severity (.waiting path) =
      Diagnostic.count severity (plan.diagnosticsOf files path) := by
  rcases checkFile?_cases plan files path with ⟨hfile, hnone⟩ | ⟨outcome, hfile, -, hfound⟩
  · rw [Job.due, hfile, hnone]
    rfl
  · rw [Job.due, hfile, ← hfound]
    rfl

/-- What the jobs have to count is what is in the files. -/
theorem due_start (severity : Severity) (paths : List String) :
    (Pass.start paths).due plan files severity =
      Diagnostic.count severity (paths.flatMap (plan.diagnosticsOf files)) := by
  rw [Pass.due, Pass.start, List.foldr_map]
  simp only [due_waiting]
  exact Diagnostic.foldr_count severity (plan.diagnosticsOf files) paths

end Files

section Checks
variable (plan : Plan) (around : Surroundings) (args : Arguments) (paths : List String)

/-- The diagnostics that a check counts are those of the files. -/
theorem count_check (severity : Severity) :
    (plan.check around args paths).count severity =
      Diagnostic.count severity (paths.flatMap (plan.diagnosticsOf around.files)) := by
  have hfound := flatMap_outcomes plan around.files (fun _ d => d) paths
  simp only [List.map_id'] at hfound
  rw [Check.count, Diagnostic.foldr_count, ← hfound]
  rfl

/-- The entries that a check prints are those of the files. -/
theorem entries_check :
    (plan.check around args paths).entries =
      paths.flatMap fun path => (plan.diagnosticsOf around.files path).map
        (Report.entry (plan.shownPath path)) :=
  flatMap_outcomes plan around.files Report.entry paths

end Checks

/-! ### The output -/

/-- The entries of the shares are those of the outcomes; a file without a share has none. -/
theorem flatMap_shares (outcomes : List FileOutcome) :
    (outcomes.filterMap (FileOutcome.share? .json)).flatMap Share.entries =
      outcomes.flatMap fun outcome => outcome.diagnostics.map (Report.entry outcome.path) := by
  induction outcomes with
  | nil => rfl
  | cons outcome outcomes ih =>
    by_cases hempty : outcome.diagnostics = []
    · have hshare : outcome.share? .json = none := by simp [FileOutcome.share?, hempty]
      rw [List.filterMap_cons_none hshare, ih, List.flatMap_cons, hempty]
      rfl
    · have hshare : outcome.share? .json =
          some ⟨none, outcome.diagnostics.map (Report.entry outcome.path)⟩ := by
        simp [FileOutcome.share?, hempty]
      rw [List.filterMap_cons_some hshare, List.flatMap_cons, ih, List.flatMap_cons]

/-- The texts of the shares make up the reports; a file without a share has an empty one. -/
theorem join_shares {format : OutputFormat} (hformat : format ≠ .json)
    (outcomes : List FileOutcome) :
    String.join ((outcomes.filterMap (FileOutcome.share? format)).filterMap Share.text) =
      String.join (outcomes.map fun outcome =>
        Report.render format outcome.diagnostics outcome.path outcome.source) := by
  induction outcomes with
  | nil => rfl
  | cons outcome outcomes ih =>
    by_cases hempty : outcome.diagnostics = []
    · have hshare : outcome.share? format = none := by simp [FileOutcome.share?, hempty]
      have hreport : Report.render format [] outcome.path outcome.source = "" := by
        cases format with
        | json => exact absurd rfl hformat
        | human | humanVerbose | machine => rfl
      rw [List.filterMap_cons_none hshare, ih, List.map_cons, String.join_cons, hempty, hreport,
        String.empty_append]
    · have hshare : outcome.share? format = some
          ⟨some (Report.render format outcome.diagnostics outcome.path outcome.source), []⟩ := by
        simp [FileOutcome.share?, hempty, hformat]
      rw [List.filterMap_cons_some hshare, List.filterMap_cons_some (f := Share.text) rfl,
        String.join_cons, ih, List.map_cons, String.join_cons]

section Endings
variable (plan : Plan) (around : Surroundings) (args : Arguments) {paths : List String}
  {format : OutputFormat} {schedule : List Nat}

theorem shares_of_isOver
    (hover : ((Pass.start paths).run plan around.files format schedule).IsOver) :
    ((Pass.start paths).run plan around.files format schedule).shares =
      (plan.check around args paths).outcomes.filterMap (FileOutcome.share? format) := by
  rw [Pass.shares, Pass.jobs_of_isOver plan around.files format hover, List.filterMap_map,
    Plan.check, List.filterMap_filterMap]
  rfl

/-- A pass that is over shows the numbers of the check. -/
theorem summary_of_isOver
    (hover : ((Pass.start paths).run plan around.files format schedule).IsOver) :
    ((Pass.start paths).run plan around.files format schedule).summary
        (around.failsOnWarnings args) =
      (plan.check around args paths).summary := by
  have hcount : ∀ severity,
      ((Pass.start paths).run plan around.files format schedule).counter severity =
        (plan.check around args paths).count severity := by
    intro severity
    rw [Pass.counter_of_isOver plan around.files format hover, due_start, count_check]
  have hlength : ((Pass.start paths).run plan around.files format schedule).jobs.length =
      paths.length := by
    rw [Pass.jobs_of_isOver plan around.files format hover, List.length_map]
  rw [Pass.summary, hlength, hcount, hcount]
  rfl

/-- A pass that is over prints what the check prints. -/
theorem printed_of_isOver (quiet : Bool)
    (hover : ((Pass.start paths).run plan around.files format schedule).IsOver) :
    ((Pass.start paths).run plan around.files format schedule).printed format quiet
        (around.failsOnWarnings args) =
      (plan.check around args paths).output format quiet := by
  rw [Pass.printed, Check.output, summary_of_isOver plan around args hover,
    shares_of_isOver plan around args hover]
  by_cases hformat : format = .json
  · subst hformat
    rw [if_pos rfl, if_pos rfl, flatMap_shares]
    rfl
  · rw [if_neg hformat, if_neg hformat, join_shares hformat]
    rfl

end Endings

/-! ### Numbers -/

theorem label_eq_iff (severity other : Severity) :
    severity.label = other.label ↔ severity = other := by
  cases severity <;> cases other <;> decide

/-- The entries with the word for a severity are as many as the diagnostics of it. -/
theorem count_entries (severity : Severity) (g : String → List Diagnostic) (h : String → String)
    (paths : List String) :
    ((paths.flatMap fun path => (g path).map (Report.entry (h path))).filter
        fun entry => entry.label = severity.label).length =
      Diagnostic.count severity (paths.flatMap g) := by
  induction paths with
  | nil => rfl
  | cons path paths ih =>
    have hfirst : (((g path).map (Report.entry (h path))).filter
        fun entry => entry.label = severity.label).length = Diagnostic.count severity (g path) := by
      rw [List.filter_map, List.length_map, Diagnostic.count]
      refine congrArg List.length (List.filter_congr fun d _ => ?_)
      show decide (d.severity.label = severity.label) = decide (d.severity = severity)
      exact decide_eq_decide.mpr (label_eq_iff _ _)
    rw [List.flatMap_cons, List.filter_append, List.length_append, ih, hfirst, List.flatMap_cons,
      Diagnostic.count_append]

theorem Diagnostic.count_pos_iff (severity : Severity) (ds : List Diagnostic) :
    0 < Diagnostic.count severity ds ↔ ∃ d ∈ ds, d.severity = severity := by
  simp [Diagnostic.count, List.length_pos_iff_exists_mem, List.mem_filter]

/-- A check fails if there is an error, or anything at all where warnings count. -/
theorem isFailure_iff {summary : Summary} {found : List Diagnostic}
    (herrors : summary.errors = Diagnostic.count .error found)
    (hwarnings : summary.warnings = Diagnostic.count .warning found) :
    summary.isFailure = true ↔
      (∃ d ∈ found, d.severity = .error) ∨ found ≠ [] ∧ summary.failOnWarnings = true := by
  rw [Summary.isFailure, Bool.or_eq_true, Bool.and_eq_true, decide_eq_true_eq, decide_eq_true_eq,
    herrors, hwarnings, Diagnostic.count_pos_iff, Diagnostic.count_pos_iff]
  constructor
  · rintro (herror | ⟨⟨d, hd, -⟩, hfail⟩)
    · exact .inl herror
    · exact .inr ⟨List.ne_nil_of_mem hd, hfail⟩
  · rintro (herror | ⟨hne, hfail⟩)
    · exact .inl herror
    · obtain ⟨d, hd⟩ := List.exists_mem_of_ne_nil found hne
      cases hseverity : d.severity with
      | error => exact .inl ⟨d, hd, hseverity⟩
      | warning => exact .inr ⟨⟨d, hd, hseverity⟩, hfail⟩

/-- Warnings count by the flag or by the variable. -/
theorem failsOnWarnings_iff (around : Surroundings) (args : Arguments) :
    around.failsOnWarnings args = true ↔
      args.has .failOnWarnings = true ∨ around.failOnWarnings.bind switchedOn? = some true := by
  rw [Surroundings.failsOnWarnings, Bool.or_eq_true]
  cases around.failOnWarnings.bind switchedOn? <;> simp

end SheetLint
