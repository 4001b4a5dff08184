/-
Runs of rules compose.

A run gets through a first part of its rule: to the end of it, or up to the first step that is
asked for and reports errors.  The steps of that part that are asked for ran in a chain, and
the others are the skipped ones.  So the run of two rules one after the other is the run of
the first and, unless it has errors, that of the second on the tree that it left.
-/
import SvgTree.Proofs.Rule.Running

namespace SvgTree
namespace Report

/-- The report of a run that goes on where the run of `a` ended.  No run names a source. -/
def append (a b : Report) : Report where
  results := a.results ++ b.results
  skipped := a.skipped ++ b.skipped
  source := a.source ++ b.source

theorem append_assoc (a b c : Report) : (a.append b).append c = a.append (b.append c) := by
  simp only [append, List.append_assoc, String.append_assoc]

theorem append_empty (a : Report) : a.append {} = a := by simp [append]

theorem empty_append (a : Report) : Report.append {} a = a := by simp [append]

end Report

namespace Forest

/-- Steps that run one after the other, each on the forest that the one before left, with
their results. -/
inductive Chain (root : NodeId) : Forest → List Step → List StepResult → Forest → Prop where
  | nil (f : Forest) : Chain root f [] [] f
  | cons {f g h : Forest} {step : Step} {rest : List Step} {result : StepResult}
    {results : List StepResult} :
    f.runStep root step = (g, .ok result) → Chain root g rest results h →
      Chain root f (step :: rest) (result :: results) h

def skipNote (step : Step) : String := step.plugin.name ++ " (not requested)"

def wanted (requested : Option (List String)) (rule : List Step) : List Step :=
  rule.filter (isRequested requested)

def unwanted (requested : Option (List String)) (rule : List Step) : List Step :=
  rule.filter fun step => !isRequested requested step

/-- A run that got through `done` ends there: the rule is at its end and no result has errors,
or the last step is asked for and its result is the only one with errors. -/
def EndsAfter (requested : Option (List String)) (done rest : List Step)
    (results : List StepResult) : Prop :=
  (rest = [] ∧ ∀ r ∈ results, r.hasErrors = false) ∨
    ∃ before step clean last, done = before ++ [step] ∧ isRequested requested step = true ∧
      results = clean ++ [last] ∧ (∀ r ∈ clean, r.hasErrors = false) ∧ last.hasErrors = true

/-- A run that got through `done` without errors breaks off at the next step that it runs. -/
def BreaksAfter (requested : Option (List String)) (root : NodeId) (g : Forest)
    (rest : List Step) (results : List StepResult) (h : Forest) (e : Fault) : Prop :=
  (∀ r ∈ results, r.hasErrors = false) ∧
    ∃ step after, rest = step :: after ∧ isRequested requested step = true ∧
      g.runStep root step = (h, .error e)

/-- What a run comes to: it gets through a first part of the rule and ends there with a report,
or breaks off with what went wrong. -/
def RunsTo (f : Forest) (root : NodeId) (rule : List Step) (requested : Option (List String))
    (outcome : Forest × Except Fault Report) : Prop :=
  ∃ done rest results g, rule = done ++ rest ∧
    Chain root f (wanted requested done) results g ∧
    ((EndsAfter requested done rest results ∧
        outcome = (g, .ok { results, skipped := (unwanted requested done).map skipNote })) ∨
      ∃ h e, BreaksAfter requested root g rest results h e ∧ outcome = (h, .error e))

variable {f g h : Forest} {root : NodeId} {step : Step} {rule rest : List Step}
  {requested : Option (List String)} {result : StepResult}

theorem runSteps_append (f : Forest) (root : NodeId) (requested : Option (List String))
    (rule : List Step) (sofar more : Report) :
    f.runSteps root requested rule (sofar.append more) =
      ((f.runSteps root requested rule more).1,
        (f.runSteps root requested rule more).2.map sofar.append) := by
  induction rule generalizing f more with
  | nil => rfl
  | cons step rest ih =>
    have hresults (result : StepResult) :
        { sofar.append more with results := (sofar.append more).results ++ [result] } =
          sofar.append { more with results := more.results ++ [result] } := by
      simp only [Report.append, List.append_assoc]
    have hskipped (note : String) :
        { sofar.append more with skipped := (sofar.append more).skipped ++ [note] } =
          sofar.append { more with skipped := more.skipped ++ [note] } := by
      simp only [Report.append, List.append_assoc]
    simp only [runSteps, hresults, hskipped]
    split
    · rcases f.runStep root step with ⟨g, _ | result⟩
      · rfl
      · dsimp only
        split
        · rfl
        · exact ih g _
    · exact ih f _

/-- What a run adds to the report of another. -/
theorem runSteps_eq (f : Forest) (root : NodeId) (requested : Option (List String))
    (rule : List Step) (sofar : Report) :
    f.runSteps root requested rule sofar =
      ((f.runRule root rule requested).1,
        (f.runRule root rule requested).2.map sofar.append) := by
  rw [runRule, ← runSteps_append, Report.append_empty]

/-! ### One step more at the head of a rule -/

theorem runRule_skip (hreq : isRequested requested step = false) :
    f.runRule root (step :: rest) requested =
      ((f.runRule root rest requested).1,
        (f.runRule root rest requested).2.map
          (Report.append { skipped := [skipNote step] })) := by
  rw [runRule, runSteps, hreq, ← runSteps_eq]
  rfl

theorem runRule_break (hreq : isRequested requested step = true) {e : Fault}
    (hrun : f.runStep root step = (g, .error e)) :
    f.runRule root (step :: rest) requested = (g, .error e) := by
  rw [runRule, runSteps, hreq]
  simp only [if_true, hrun]

theorem runRule_stop (hreq : isRequested requested step = true)
    (hrun : f.runStep root step = (g, .ok result)) (herr : result.hasErrors = true) :
    f.runRule root (step :: rest) requested = (g, .ok { results := [result] }) := by
  rw [runRule, runSteps, hreq]
  simp only [if_true, hrun, herr]
  rfl

theorem runRule_run (hreq : isRequested requested step = true)
    (hrun : f.runStep root step = (g, .ok result)) (herr : result.hasErrors = false) :
    f.runRule root (step :: rest) requested =
      ((g.runRule root rest requested).1,
        (g.runRule root rest requested).2.map (Report.append { results := [result] })) := by
  rw [runRule, runSteps, hreq, ← runSteps_eq]
  simp only [if_true, hrun, herr, Bool.false_eq_true, if_false]
  rfl

/-! ### Whole rules -/

theorem EndsAfter.cons {done : List Step} {results : List StepResult} (step : Step)
    (h : EndsAfter requested done rest results) :
    EndsAfter requested (step :: done) rest results := by
  rcases h with ⟨hrest, hclean⟩ | ⟨before, last, clean, bad, rfl, hlast⟩
  · exact .inl ⟨hrest, hclean⟩
  · exact .inr ⟨step :: before, last, clean, bad, rfl, hlast⟩

theorem EndsAfter.cons_result {done : List Step} {results : List StepResult}
    (herr : result.hasErrors = false) (h : EndsAfter requested done rest results) :
    EndsAfter requested done rest (result :: results) := by
  rcases h with ⟨hrest, hclean⟩ | ⟨before, last, clean, bad, hdone, hreq, rfl, hclean, hbad⟩
  · exact .inl ⟨hrest, List.forall_mem_cons.mpr ⟨herr, hclean⟩⟩
  · exact .inr ⟨before, last, result :: clean, bad, hdone, hreq, rfl,
      List.forall_mem_cons.mpr ⟨herr, hclean⟩, hbad⟩

/-- Every run comes to what is said.  The induction is on the rule, and each case adds a step
to the part that the run got through. -/
theorem runRule_runsTo (f : Forest) (root : NodeId) (rule : List Step)
    (requested : Option (List String)) :
    RunsTo f root rule requested (f.runRule root rule requested) := by
  induction rule generalizing f with
  | nil => exact ⟨[], [], [], f, rfl, .nil f, .inl ⟨.inl ⟨rfl, by simp⟩, rfl⟩⟩
  | cons step rest ih =>
    cases hreq : isRequested requested step with
    | false =>
      have hunwanted (done : List Step) : unwanted requested (step :: done) =
          step :: unwanted requested done := List.filter_cons_of_pos (by simp [hreq])
      obtain ⟨done, left, results, g, rfl, hchain, hend⟩ := ih f
      refine ⟨step :: done, left, results, g, rfl, ?_, ?_⟩
      · rwa [wanted, List.filter_cons_of_neg (by simp [hreq])]
      · rw [runRule_skip hreq]
        rcases hend with ⟨hend, hrun⟩ | ⟨h, e, hbreak, hrun⟩
        · refine .inl ⟨hend.cons step, ?_⟩
          rw [hrun, hunwanted]
          rfl
        · exact .inr ⟨h, e, hbreak, by rw [hrun]; rfl⟩
    | true =>
      have hwanted (done : List Step) : wanted requested (step :: done) =
          step :: wanted requested done := List.filter_cons_of_pos hreq
      have hunwanted (done : List Step) : unwanted requested (step :: done) =
          unwanted requested done := List.filter_cons_of_neg (by simp [hreq])
      rcases hrun : f.runStep root step with ⟨g, e | result⟩
      · refine ⟨[], step :: rest, [], f, rfl, .nil f, .inr ⟨g, e, ⟨by simp, ?_⟩, ?_⟩⟩
        · exact ⟨step, rest, rfl, hreq, hrun⟩
        · exact runRule_break hreq hrun
      · cases herr : result.hasErrors with
        | true =>
          refine ⟨[step], rest, [result], g, rfl, ?_, .inl ⟨.inr ?_, ?_⟩⟩
          · rw [hwanted]
            exact .cons hrun (.nil g)
          · exact ⟨[], step, [], result, rfl, hreq, rfl, by simp, herr⟩
          · rw [runRule_stop hreq hrun herr, hunwanted]
            rfl
        | false =>
          obtain ⟨done, left, results, h, rfl, hchain, hend⟩ := ih g
          refine ⟨step :: done, left, result :: results, h, rfl, ?_, ?_⟩
          · rw [hwanted]
            exact .cons hrun hchain
          · rw [runRule_run hreq hrun herr]
            rcases hend with ⟨hend, hrest⟩ | ⟨k, e, ⟨hclean, hnext⟩, hrest⟩
            · refine .inl ⟨(hend.cons step).cons_result herr, ?_⟩
              rw [hrest, hunwanted]
              rfl
            · exact .inr ⟨k, e, ⟨List.forall_mem_cons.mpr ⟨herr, hclean⟩, hnext⟩,
                by rw [hrest]; rfl⟩

theorem signed_of_runStep (h : f.runStep root step = (g, .ok result)) :
    result.plugin = step.plugin.name := by
  rw [runStep] at h
  rcases hperform : f.perform root step with ⟨k, e | made⟩
  · rw [hperform] at h
    dsimp only at h
    split at h
    · cases h
      rfl
    · cases h
  · rw [hperform] at h
    cases h
    exact (signed_of_perform hperform).1

theorem Chain.map_plugin {steps : List Step} {results : List StepResult}
    (h : Chain root f steps results g) :
    results.map (·.plugin) = steps.map (·.plugin.name) := by
  induction h with
  | nil f => rfl
  | cons hrun _ ih => rw [List.map_cons, List.map_cons, signed_of_runStep hrun, ih]

/-- A report names, in order, the steps that are asked for in the part that the run got
through. -/
theorem executed_of_runRule {report : Report}
    (h : f.runRule root rule requested = (g, .ok report)) :
    ∃ done rest, rule = done ++ rest ∧
      report.executed = (wanted requested done).map (·.plugin.name) := by
  obtain ⟨done, rest, results, k, hrule, hchain, hend⟩ := runRule_runsTo f root rule requested
  rw [h] at hend
  rcases hend with ⟨-, hend⟩ | ⟨k, e, -, hend⟩
  · cases hend
    exact ⟨done, rest, hrule, hchain.map_plugin⟩
  · cases hend

/-- Steps that are not asked for leave nothing but their notes. -/
theorem runRule_wanted (f : Forest) (root : NodeId) (rule : List Step)
    (requested : Option (List String)) :
    f.runRule root (wanted requested rule) none =
      ((f.runRule root rule requested).1,
        (f.runRule root rule requested).2.map fun report => { report with skipped := [] }) := by
  induction rule generalizing f with
  | nil => rfl
  | cons step rest ih =>
    cases hreq : isRequested requested step with
    | false =>
      rw [wanted, List.filter_cons_of_neg (by simp [hreq]), runRule_skip hreq]
      refine (ih f).trans ?_
      rcases f.runRule root rest requested with ⟨g, _ | report⟩
      · rfl
      · simp [Report.append, Except.map]
    | true =>
      have hall : isRequested none step = true := rfl
      rw [wanted, List.filter_cons_of_pos hreq]
      rcases hrun : f.runStep root step with ⟨g, e | result⟩
      · rw [runRule_break hreq hrun, runRule_break hall hrun]
        rfl
      · cases herr : result.hasErrors with
        | true =>
          rw [runRule_stop hreq hrun herr, runRule_stop hall hrun herr]
          rfl
        | false =>
          rw [runRule_run hreq hrun herr, runRule_run hall hrun herr, ← wanted, ih g]
          rcases g.runRule root rest requested with ⟨k, _ | report⟩ <;> rfl

/-- What is left to do behind the outcome of a run: nothing where it broke off or has errors,
and otherwise the rule that comes next, on the forest that it left. -/
def andThen (root : NodeId) (second : List Step) (requested : Option (List String)) :
    Forest × Except Fault Report → Forest × Except Fault Report
  | (g, .error e) => (g, .error e)
  | (g, .ok report) =>
    if report.hasErrors then (g, .ok report)
    else ((g.runRule root second requested).1,
      (g.runRule root second requested).2.map report.append)

/-- What clean steps report in front of a run is in front of it also when it goes on. -/
theorem andThen_append {second : List Step} {sofar : Report} (hclean : sofar.hasErrors = false)
    (outcome : Forest × Except Fault Report) :
    andThen root second requested (outcome.1, outcome.2.map sofar.append) =
      ((andThen root second requested outcome).1,
        (andThen root second requested outcome).2.map sofar.append) := by
  obtain ⟨g, _ | report⟩ := outcome
  · rfl
  · have herrors : (sofar.append report).hasErrors = report.hasErrors := by
      rw [Report.hasErrors] at hclean
      rw [Report.hasErrors, Report.append, List.any_append, hclean, Bool.false_or]
      rfl
    simp only [andThen, Except.map, herrors]
    cases report.hasErrors with
    | true => rfl
    | false =>
      simp only [Bool.false_eq_true, if_false]
      rcases g.runRule root second requested with ⟨h, _ | more⟩
      · rfl
      · simp only [Report.append_assoc]

theorem runRule_append (f : Forest) (root : NodeId) (first second : List Step)
    (requested : Option (List String)) :
    f.runRule root (first ++ second) requested =
      andThen root second requested (f.runRule root first requested) := by
  induction first generalizing f with
  | nil =>
    have hempty : Report.append {} = id := funext Report.empty_append
    show f.runRule root second requested =
      ((f.runRule root second requested).1,
        (f.runRule root second requested).2.map (Report.append {}))
    rw [hempty]
    rcases f.runRule root second requested with ⟨g, _ | report⟩ <;> rfl
  | cons step rest ih =>
    rw [List.cons_append]
    cases hreq : isRequested requested step with
    | false =>
      rw [runRule_skip hreq, runRule_skip hreq, ih f, andThen_append rfl]
    | true =>
      rcases hrun : f.runStep root step with ⟨g, e | result⟩
      · rw [runRule_break hreq hrun, runRule_break hreq hrun]
        rfl
      · cases herr : result.hasErrors with
        | true =>
          have hreport : Report.hasErrors { results := [result] } = true := by
            simp [Report.hasErrors, herr]
          rw [runRule_stop hreq hrun herr, runRule_stop hreq hrun herr, andThen, if_pos hreport]
        | false =>
          have hreport : Report.hasErrors { results := [result] } = false := by
            simp [Report.hasErrors, herr]
          rw [runRule_run hreq hrun herr, runRule_run hreq hrun herr, ih g,
            andThen_append hreport]

/-- A run gets through the rule in order: it runs the steps that are asked for, each on the
forest that the one before left, up to and including the first that reports errors, and skips
the others on the way.  Without the others it does the same and skips nothing.  Of two rules
one after the other the second runs on what the first leaves, unless the first has errors.  On
a tree of legacy nodes no rule that was read breaks off. -/
theorem runRule_composes (f : Forest) (root : NodeId) (rule : List Step)
    (requested : Option (List String)) :
    RunsTo f root rule requested (f.runRule root rule requested) ∧
      f.runRule root (wanted requested rule) none =
        ((f.runRule root rule requested).1,
          (f.runRule root rule requested).2.map fun report => { report with skipped := [] }) ∧
      (∀ first second, rule = first ++ second →
        f.runRule root rule requested =
          andThen root second requested (f.runRule root first requested)) ∧
      (f.Reachable → f.LegacyTree root → ∀ data, Rule.ofSection data = .ok rule →
        ∃ g report, f.runRule root rule requested = (g, .ok report)) := by
  refine ⟨runRule_runsTo f root rule requested, runRule_wanted f root rule requested, ?_, ?_⟩
  · rintro first second rfl
    exact runRule_append f root first second requested
  · intro hf tree data hread
    have hempty : ({} : Report).hasErrors = false := rfl
    obtain ⟨g, report, hrun, -⟩ : ∃ g report, f.runRule root rule requested = (g, .ok report) ∧
        (report.hasErrors = true ↔ f.StumblesWithin root requested rule) :=
      runSteps_spec hf.wellFormed tree (Rule.sound_of_ofSection hread) hempty
    exact ⟨g, report, hrun⟩

/-- The second step of the rule stumbles on what the first has renamed, and asked for without
the first it finds nothing. -/
theorem runRule_composes_of_blanking :
    (Forest.empty.afterAll rootedCalls).Reachable ∧
      (Forest.empty.afterAll rootedCalls).LegacyTree 0 ∧
      Rule.ofSection blankingSection = .ok blankingRule ∧
      (∃ g report, (Forest.empty.afterAll rootedCalls).runRule 0 blankingRule none =
          (g, .ok report) ∧
        andThen 0 (blankingRule.drop 1) none
          ((Forest.empty.afterAll rootedCalls).runRule 0 (blankingRule.take 1) none) =
            (g, .ok report) ∧
        report.results.map (·.hasErrors) = [false, true]) ∧
      ∃ g report, (Forest.empty.afterAll rootedCalls).runRule 0 blankingRule
          (some ["set_attributes"]) = (g, .ok report) ∧
        report.results.map (·.hasErrors) = [false] ∧
        report.skipped = ["rename_elements (not requested)"] := by
  have reach : (Forest.empty.afterAll rootedCalls).Reachable :=
    ⟨rootedCalls, by decide +kernel, rfl⟩
  have tree : (Forest.empty.afterAll rootedCalls).LegacyTree 0 := by decide +kernel
  have read : Rule.ofSection blankingSection = .ok blankingRule := rfl
  have both : ((Forest.empty.afterAll rootedCalls).runRule 0 blankingRule none).2.toOption.map
      (fun report => report.results.map (·.hasErrors)) = some [false, true] := by
    decide +kernel
  have second : ((Forest.empty.afterAll rootedCalls).runRule 0 blankingRule
      (some ["set_attributes"])).2.toOption.map
        (fun report => (report.results.map (·.hasErrors), report.skipped)) =
          some ([false], ["rename_elements (not requested)"]) := by
    decide +kernel
  obtain ⟨-, -, hparts, hruns⟩ := runRule_composes (Forest.empty.afterAll rootedCalls) 0
    blankingRule none
  obtain ⟨g, report, hrun⟩ := hruns reach tree blankingSection read
  obtain ⟨-, -, -, hruns'⟩ := runRule_composes (Forest.empty.afterAll rootedCalls) 0
    blankingRule (some ["set_attributes"])
  obtain ⟨g', report', hrun'⟩ := hruns' reach tree blankingSection read
  rw [hrun] at both
  rw [hrun'] at second
  obtain ⟨hresults, hskipped⟩ := Prod.mk.inj (Option.some.inj second)
  refine ⟨reach, tree, read, ⟨g, report, hrun, ?_, Option.some.inj both⟩, g', report', hrun',
    hresults, hskipped⟩
  rw [← hparts (blankingRule.take 1) (blankingRule.drop 1) rfl, hrun]

end Forest
end SvgTree
