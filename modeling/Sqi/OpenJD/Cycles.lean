import Sqi.Lib.Search
import Sqi.OpenJD.Template

/-! Dependency cycles between the steps of a template (`validateNoCycles` of `validate.go`). -/

namespace Sqi
open List Relation

def stepDeps (steps : List StepTemplate) (name : String) : List String :=
  steps.flatMap fun s => if s.name ≠ "" ∧ s.name = name then s.dependencies.map (·.dependsOn) else []
def cycleError (quote : String → String) (name : String) : ValidationError :=
  ⟨"/steps", s!"dependency cycle detected involving step {quote name}"⟩
def validateNoCycles (quote : String → String) (steps : List StepTemplate) : Option (List ValidationError) :=
  let names := (steps.map (·.name)).filter (· ≠ "")
  (Search.visitAll (stepDeps steps) (steps.length + 1) names Search.State.start).map fun st =>
    (st.cycle.map (cycleError quote)).toList

def DependsOn (steps : List StepTemplate) (a b : String) : Prop :=
  ∃ s ∈ steps, s.name = a ∧ ∃ d ∈ s.dependencies, d.dependsOn = b
def Declared (steps : List StepTemplate) (name : String) : Prop := name ≠ "" ∧ ∃ s ∈ steps, s.name = name

variable {steps : List StepTemplate} {a b : String}

lemma mem_stepDeps : b ∈ stepDeps steps a ↔ a ≠ "" ∧ DependsOn steps a b := by
  unfold stepDeps DependsOn
  rw [mem_flatMap]
  constructor
  · rintro ⟨s, hs, hb⟩
    split at hb
    · rename_i hname
      obtain ⟨hne, rfl⟩ := hname
      exact ⟨hne, s, hs, rfl, mem_map.mp hb⟩
    · cases hb
  · rintro ⟨hne, s, hs, rfl, hb⟩
    refine ⟨s, hs, ?_⟩
    rw [if_pos ⟨hne, rfl⟩]
    exact mem_map.mpr hb

lemma mem_names_of_deps (h : stepDeps steps a ≠ []) : a ∈ (steps.map (·.name)).filter (· ≠ "") := by
  obtain ⟨b, hb⟩ := exists_mem_of_ne_nil _ h
  obtain ⟨hne, s, hs, rfl, -⟩ := mem_stepDeps.mp hb
  exact mem_filter.mpr ⟨mem_map_of_mem hs, by simpa using hne⟩

lemma edges_of_path (hdecl : ∀ a b, DependsOn steps a b → b ≠ "")
    (ha : a ≠ "") (h : TransGen (DependsOn steps) a b) : TransGen (Search.Edge (stepDeps steps)) a b := by
  induction h with
  | single hab => exact .single (mem_stepDeps.mpr ⟨ha, hab⟩)
  | tail hac hcb ih =>
    obtain ⟨c, -, hc⟩ := TransGen.tail'_iff.mp hac
    exact ih.tail (mem_stepDeps.mpr ⟨hdecl c _ hc, hcb⟩)

lemma cycle_iff_edges (hdecl : ∀ a b, DependsOn steps a b → b ≠ "") (a : String) :
    TransGen (Search.Edge (stepDeps steps)) a a ↔ TransGen (DependsOn steps) a a := by
  constructor
  · exact TransGen.mono (fun _ _ h => (mem_stepDeps.mp h).2) a a
  · intro h
    obtain ⟨c, -, hc⟩ := TransGen.tail'_iff.mp h
    exact edges_of_path hdecl (hdecl c a hc) h

/-- Cycle detection ends, and reports a step on a cycle iff there is one. -/
theorem validateNoCycles_exact (quote : String → String) (steps : List StepTemplate)
    (hdecl : ∀ s ∈ steps, ∀ d ∈ s.dependencies, Declared steps d.dependsOn) :
    ∃ errs, validateNoCycles quote steps = some errs ∧
      (errs ≠ [] ↔ ∃ name, TransGen (DependsOn steps) name name) ∧
      ∀ err ∈ errs, ∃ name, TransGen (DependsOn steps) name name ∧ err = cycleError quote name := by
  have hnamed : ∀ a b, DependsOn steps a b → b ≠ "" := by
    rintro a b ⟨s, hs, -, d, hd, rfl⟩
    exact (hdecl s hs d hd).1
  have hdepth : ((steps.map (·.name)).filter (· ≠ "")).length < steps.length + 1 := by
    have := length_filter_le (· ≠ "") (steps.map (·.name))
    rw [length_map] at this
    omega
  obtain ⟨st, hst⟩ := Search.visitAll_total (fun _ => mem_names_of_deps) hdepth
    ((steps.map (·.name)).filter (· ≠ ""))
  obtain ⟨hiff, hcycle⟩ := Search.cycle_iff hst fun _ => mem_names_of_deps
  simp only [cycle_iff_edges hnamed] at hiff hcycle
  unfold validateNoCycles
  dsimp only
  rw [hst, ← hiff]
  refine ⟨_, rfl, ?_, fun err herr => ?_⟩
  · cases hc : st.cycle <;> simp [hc]
  · obtain ⟨name, hname, rfl⟩ := Option.map_eq_some_iff.mp (Option.mem_toList.mp herr)
    exact ⟨name, hcycle name hname, rfl⟩

def stepNamed (name : String) (deps : List String) : StepTemplate :=
  { name, script := none, stepEnvironments := [], parameterSpace := none, hostRequirements := none,
    dependencies := deps.map StepDependency.mk }
def diamond (back : List String) : List StepTemplate :=
  [stepNamed "comp" ["left", "right"], stepNamed "left" ["sim"], stepNamed "right" ["sim"], stepNamed "sim" back]

theorem validateNoCycles_exact_diamond :
    validateNoCycles id (diamond []) = some [] ∧
    ∃ errs, validateNoCycles id (diamond ["right"]) = some errs ∧ errs ≠ [] := by
  have hdecl : ∀ s ∈ diamond ["right"], ∀ d ∈ s.dependencies, Declared (diamond ["right"]) d.dependsOn := by
    unfold Declared
    decide
  obtain ⟨errs, herrs, hiff, -⟩ := validateNoCycles_exact id (diamond ["right"]) hdecl
  have hback : DependsOn (diamond ["right"]) "right" "sim" ∧ DependsOn (diamond ["right"]) "sim" "right" := by
    unfold DependsOn
    decide
  exact ⟨by decide, errs, herrs, hiff.mpr ⟨"sim", (TransGen.single hback.2).tail hback.1⟩⟩

end Sqi
