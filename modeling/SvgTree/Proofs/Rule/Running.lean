/-
A rule that was read always runs.

Each step that is asked for is run on the tree that the steps before it left, and reports an
error exactly when it stumbles.  A run ends with the first such step or with the last of the
rule, and in either case with a report.  So the report has errors exactly when some step
stumbles on the tree to which the steps before it lead without errors.
-/
import SvgTree.Proofs.Rule.Plugins

namespace SvgTree

open Value (textEntry)

namespace Forest

variable {f g h : Forest} {root : NodeId} {step : Step} {rule rest : List Step}
  {requested : Option (List String)} {result : StepResult}

/-- The steps that are asked for run in order without errors, and lead from one forest to
another. -/
inductive RunsClean (root : NodeId) (requested : Option (List String)) :
    Forest → List Step → Forest → Prop where
  | done (f : Forest) : RunsClean root requested f [] f
  | skip {f g : Forest} {step : Step} {rest : List Step} :
    isRequested requested step = false → RunsClean root requested f rest g →
      RunsClean root requested f (step :: rest) g
  | run {f g h : Forest} {step : Step} {rest : List Step} {result : StepResult} :
    isRequested requested step = true → f.runStep root step = (g, .ok result) →
      result.errors = [] → RunsClean root requested g rest h →
      RunsClean root requested f (step :: rest) h

/-- A step that is asked for stumbles, and those before it that are asked for ran without
errors. -/
def StumblesWithin (f : Forest) (root : NodeId) (requested : Option (List String))
    (rule : List Step) : Prop :=
  ∃ before step after g, rule = before ++ step :: after ∧ isRequested requested step = true ∧
    RunsClean root requested f before g ∧ g.Stumbles root step

/-! ### One step -/

/-- A step that was read gives a result, with errors exactly where it stumbles.  Without errors
it leaves a tree that the next step can be run on. -/
theorem runStep_spec (wf : f.WellFormed) (tree : f.LegacyTree root) (hs : step.Sound) :
    ∃ g result, f.runStep root step = (g, .ok result) ∧ g.WellFormed ∧
      (result.hasErrors = true ↔ f.Stumbles root step) ∧
      (result.hasErrors = false → g.LegacyTree root) := by
  have wg := kept_wellFormed.keptByPlugins.runStep wf root step
  rcases perform_cases wf tree hs with
    ⟨hnot, g, result, hperform, ht⟩ | ⟨hstumbles, g, e, hperform, he⟩
  · have hrun : f.runStep root step = (g, .ok result) := by rw [runStep, hperform]
    have herrors : result.hasErrors = false := by
      rw [StepResult.hasErrors, errors_of_perform hperform]
      rfl
    rw [hrun] at wg
    refine ⟨g, result, hrun, wg, ?_, fun _ => ht.legacyTree wf wg tree⟩
    rw [herrors]
    exact ⟨fun h => (by cases h), fun h => absurd h hnot⟩
  · have hrun : f.runStep root step =
        (g, .ok { plugin := step.plugin.name, errors := [e.message g.names] }) := by
      rw [runStep, hperform]
      simp only [he, if_true]
    rw [hrun] at wg
    exact ⟨g, _, hrun, wg, ⟨fun _ => hstumbles, fun _ => rfl⟩, fun h => by cases h⟩

/-! ### Where a rule stumbles -/

theorem not_stumblesWithin_nil : ¬ f.StumblesWithin root requested [] := by
  rintro ⟨before, step, after, g, h, -⟩
  cases before <;> cases h

theorem stumblesWithin_skip (hskip : isRequested requested step = false) :
    f.StumblesWithin root requested (step :: rest) ↔ f.StumblesWithin root requested rest := by
  constructor
  · rintro ⟨before, bad, after, g, hrule, hreq, hclean, hstumbles⟩
    cases before with
    | nil =>
      cases hrule
      rw [hskip] at hreq
      cases hreq
    | cons first before =>
      cases hrule
      cases hclean with
      | skip _ hclean => exact ⟨before, bad, after, g, rfl, hreq, hclean, hstumbles⟩
      | run hreq' _ _ _ =>
        rw [hskip] at hreq'
        cases hreq'
  · rintro ⟨before, bad, after, g, rfl, hreq, hclean, hstumbles⟩
    exact ⟨step :: before, bad, after, g, rfl, hreq, .skip hskip hclean, hstumbles⟩

theorem stumblesWithin_run (hreq : isRequested requested step = true)
    (hrun : f.runStep root step = (g, .ok result)) (herrors : result.errors = [])
    (hnot : ¬ f.Stumbles root step) :
    f.StumblesWithin root requested (step :: rest) ↔ g.StumblesWithin root requested rest := by
  constructor
  · rintro ⟨before, bad, after, k, hrule, hbad, hclean, hstumbles⟩
    cases before with
    | nil =>
      cases hrule
      cases hclean
      exact absurd hstumbles hnot
    | cons first before =>
      cases hrule
      cases hclean with
      | skip hskip _ =>
        rw [hskip] at hreq
        cases hreq
      | run _ hrun' _ hclean =>
        cases hrun.symm.trans hrun'
        exact ⟨before, bad, after, k, rfl, hbad, hclean, hstumbles⟩
  · rintro ⟨before, bad, after, k, rfl, hbad, hclean, hstumbles⟩
    exact ⟨step :: before, bad, after, k, rfl, hbad, .run hreq hrun herrors hclean, hstumbles⟩

/-! ### A whole rule -/

/-- A run of steps that were read gives a report, which has errors exactly where the rule
stumbles. -/
theorem runSteps_spec (wf : f.WellFormed) (tree : f.LegacyTree root)
    (hsound : ∀ step ∈ rule, step.Sound) {report : Report} (hclean : report.hasErrors = false) :
    ∃ g report', f.runSteps root requested rule report = (g, .ok report') ∧
      (report'.hasErrors = true ↔ f.StumblesWithin root requested rule) := by
  -- The induction is on the steps that are left, with the forest and the report that the run
  -- has come to; a report so far never has errors, since a run ends with the first one.
  induction rule generalizing f report with
  | nil =>
    refine ⟨f, report, rfl, ?_⟩
    rw [hclean]
    exact ⟨fun h => (by cases h), fun h => absurd h not_stumblesWithin_nil⟩
  | cons step rest ih =>
    have hrest : ∀ s ∈ rest, s.Sound := fun s hs => hsound s (List.mem_cons_of_mem _ hs)
    cases hreq : isRequested requested step with
    | false =>
      rw [runSteps, hreq, stumblesWithin_skip hreq]
      exact ih wf tree hrest hclean
    | true =>
      obtain ⟨g, result, hrun, wg, hiff, htree⟩ :=
        runStep_spec wf tree (hsound step List.mem_cons_self)
      rw [runSteps, hreq]
      simp only [if_true, hrun]
      cases hresult : result.hasErrors with
      | true =>
        refine ⟨g, _, rfl, ?_⟩
        have hstumbles := hiff.mp hresult
        refine ⟨fun _ => ⟨[], step, rest, f, rfl, hreq, .done f, hstumbles⟩, fun _ => ?_⟩
        simp [Report.hasErrors, hresult]
      | false =>
        have hnot : ¬ f.Stumbles root step := fun h => by
          rw [hiff.mpr h] at hresult
          cases hresult
        have herrors : result.errors = [] := by
          simpa [StepResult.hasErrors] using hresult
        rw [stumblesWithin_run hreq hrun herrors hnot]
        refine ih wg (htree hresult) hrest ?_
        rw [Report.hasErrors] at hclean
        simp [Report.hasErrors, hclean, hresult]

/-- A rule that was read runs on every tree of legacy nodes whose kinds and names are text,
whatever steps are asked for, and gives a report.  It has errors exactly when a step that is
asked for sets attributes, finds a node in the tree as the steps before it left it, which ran
without errors, and is given a name of which stripping leaves nothing. -/
theorem Reachable.rule_runs (hf : f.Reachable) (tree : f.LegacyTree root) {data : Value}
    (hread : Rule.ofSection data = .ok rule) (requested : Option (List String)) :
    ∃ g report, f.runRule root rule requested = (g, .ok report) ∧
      (report.hasErrors = true ↔
        ∃ before step after h, rule = before ++ step :: after ∧
          isRequested requested step = true ∧ RunsClean root requested f before h ∧
          step.plugin = .setAttributes ∧
          (∃ s, step.selector = .text s ∧
            ∃ i ∈ h.walk root, (Selector.parse s).test (h.node i).toFields = .ok true) ∧
          ∃ pairs : List (String × String), step.attributes = .dict (pairs.map textEntry) ∧
            ∃ p ∈ pairs, Text.strip p.1 = "") := by
  have hsound := Rule.sound_of_ofSection hread
  have hempty : ({} : Report).hasErrors = false := rfl
  -- What is left to say is what `StumblesWithin` and `Stumbles` stand for.
  exact runSteps_spec hf.wellFormed tree hsound hempty

def blankingSection : Value :=
  .dict [(.text "plugins", .list [
    .dict [(.text "name", .text "rename_elements"),
      (.text "mapping", .dict [(.text "b", .text "d")])],
    .dict [(.text "name", .text "set_attributes"), (.text "selector", .text "d"),
      (.text "attributes", .dict [(.text " ", .text "x")])]])]

def blankingRule : List Step :=
  [{ plugin := .renameElements, mapping := .dict [(.text "b", .text "d")] },
    { plugin := .setAttributes, selector := .text "d",
      attributes := .dict [(.text " ", .text "x")] }]

/-- No node has the new name at first, and the second step stumbles on the one that was
renamed. -/
theorem rule_runs_of_blanking :
    (Forest.empty.afterAll rootedCalls).Reachable ∧
      (Forest.empty.afterAll rootedCalls).LegacyTree 0 ∧
      Rule.ofSection blankingSection = .ok blankingRule ∧
      ((Forest.empty.afterAll rootedCalls).queryAll 0 (Selector.parse "d")).toOption = some [] ∧
      ∃ g report, (Forest.empty.afterAll rootedCalls).runRule 0 blankingRule none =
          (g, .ok report) ∧ report.hasErrors = true ∧
        ∃ before step after h, blankingRule = before ++ step :: after ∧
          RunsClean 0 none (Forest.empty.afterAll rootedCalls) before h ∧
          step.plugin = .setAttributes := by
  have reach : (Forest.empty.afterAll rootedCalls).Reachable :=
    ⟨rootedCalls, by decide +kernel, rfl⟩
  have tree : (Forest.empty.afterAll rootedCalls).LegacyTree 0 := by decide +kernel
  have read : Rule.ofSection blankingSection = .ok blankingRule := rfl
  have fails : ((Forest.empty.afterAll rootedCalls).runRule 0 blankingRule none).2.toOption.map
      Report.hasErrors = some true := by decide +kernel
  obtain ⟨g, report, hrun, hiff⟩ := reach.rule_runs tree read none
  rw [hrun] at fails
  have herrors : report.hasErrors = true := Option.some.inj fails
  obtain ⟨before, step, after, h, hrule, -, hclean, hplugin, -⟩ := hiff.mp herrors
  exact ⟨reach, tree, read, by decide +kernel, g, report, hrun, herrors, before, step, after, h,
    hrule, hclean, hplugin⟩

end Forest
end SvgTree
