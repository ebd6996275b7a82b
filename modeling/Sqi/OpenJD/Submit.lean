import Sqi.OpenJD.Locations
import Sqi.OpenJD.Rows

/-! Submission of a job template (`submit.go`, `bind.go`, `resolve.go`): from the parsed template and the
submitted values to the steps and tasks of the job. -/

namespace Sqi
open List GoText Program Prog

structure SubmitRules where
  host : HostRules
  canonicalFloat : Text → Option String
  /-- The rules of `Validate` that are not modelled. -/
  templateErrors : JobTemplate → List ValidationError
  /-- `validateParamValue`. -/
  valueErrors : JobParameter → String → List ValidationError
  /-- `checkTemplateExpressions` with the bound values. -/
  expressionErrors : JobTemplate → StringMap String → List ValidationError
  /-- The errors of a step's own `let` block. -/
  letErrors : JobTemplate → StepTemplate → StringMap String → List ValidationError
  /-- `validateParameterSpaceLimits`, no errors where limits are not enforced. -/
  limitErrors : StepParameterSpace → String → List ValidationError
  /-- The evaluator at a step's job scope. -/
  expressions : JobTemplate → StepTemplate → StringMap String → Expressions

inductive SubmitValidationError where
  | validation (errs : List ValidationError)
  | storage (text : String)
  | binding (errs : List ValidationError)
  | expressions (errs : List ValidationError)
  | resolve (step : String) (errs : List ValidationError)
  | limits (step : String) (errs : List ValidationError)
  | expand (step : String) (err : ExpandError)
deriving DecidableEq

def nameErrors (own : Nat → String → Option ValidationError) (duplicate : Nat → String → ValidationError) :
    Nat → List String → List String → List ValidationError
  | _, _, [] => []
  | i, seen, name :: names =>
    match own i name with
    | some e => e :: nameErrors own duplicate (i + 1) seen names
    | none =>
      (if name ∈ seen then [duplicate i name] else []) ++
        nameErrors own duplicate (i + 1) (name :: seen) names

lemma nodup_of_nameErrors {own : Nat → String → Option ValidationError}
    {duplicate : Nat → String → ValidationError} {i : Nat} {seen names : List String}
    (h : nameErrors own duplicate i seen names = []) : names.Nodup ∧ ∀ name ∈ names, name ∉ seen := by
  induction names generalizing i seen with
  | nil => exact ⟨nodup_nil, fun _ hn => absurd hn not_mem_nil⟩
  | cons name names ih =>
    rw [nameErrors] at h
    split at h
    · cases h
    obtain ⟨hseen, hrest⟩ := append_eq_nil_iff.mp h
    obtain ⟨hnodup, hfresh⟩ := ih hrest
    have hname : name ∉ seen := by
      intro hmem
      rw [if_pos hmem] at hseen
      cases hseen
    constructor
    · refine nodup_cons.mpr ⟨?_, hnodup⟩
      intro hmem
      exact hfresh name hmem mem_cons_self
    intro n hn
    rcases mem_cons.mp hn with rfl | hn
    · exact hname
    · exact fun hs => hfresh n hn (mem_cons_of_mem name hs)

namespace SubmitRules
variable (rules : SubmitRules)

def parameterNameErrors (tmpl : JobTemplate) : List ValidationError :=
  nameErrors
    (fun i name =>
      if isIdentifier name then none
      else some ⟨s!"/parameterDefinitions/{i}/name",
        s!"invalid identifier {rules.host.quote name}; must match [A-Za-z_][A-Za-z0-9_]*"⟩)
    (fun i name =>
      ⟨s!"/parameterDefinitions/{i}/name", s!"duplicate parameter name {rules.host.quote name}"⟩)
    0 [] (tmpl.parameterDefinitions.map (·.name))

def stepNameErrors (tmpl : JobTemplate) : List ValidationError :=
  nameErrors
    (fun i name => if trimSpace name.toList = [] then some ⟨s!"/steps/{i}/name", "required"⟩ else none)
    (fun i name => ⟨s!"/steps/{i}/name", s!"duplicate step name {rules.host.quote name}"⟩)
    0 [] (tmpl.steps.map (·.name))

def hostRequirementErrors (tmpl : JobTemplate) : List ValidationError :=
  tmpl.steps.zipIdx.flatMap fun p =>
    p.1.hostRequirements.toList.flatMap fun hr =>
      rules.host.validateHostRequirements hr s!"/steps/{p.2}/hostRequirements" (tmpl.hasExtension "EXPR")
def validate (tmpl : JobTemplate) : List ValidationError :=
  rules.templateErrors tmpl ++ rules.parameterNameErrors tmpl ++ rules.stepNameErrors tmpl ++
    rules.hostRequirementErrors tmpl

def unknownParameters (params : List JobParameter) (provided : StringMap String) :
    List ValidationError :=
  provided.flatMap fun e =>
    if params.any fun p => p.name = e.1 then []
    else [⟨"/parameterValues/" ++ e.1, s!"unknown parameter {rules.host.quote e.1}"⟩]

def bindParameter (provided : StringMap String) (p : JobParameter) :
    Except (List ValidationError) String :=
  match (provided.lookup p.name).or p.default with
  | none =>
    .error [⟨"/parameterDefinitions/" ++ p.name,
      s!"required parameter {rules.host.quote p.name} has no value and no default"⟩]
  | some value => if rules.valueErrors p value = [] then .ok value else .error (rules.valueErrors p value)

def bindAll (provided : StringMap String) :
    StringMap String → List ValidationError → List JobParameter → StringMap String × List ValidationError
  | bound, errs, [] => (bound, errs)
  | bound, errs, p :: params =>
    match rules.bindParameter provided p with
    | .error es => bindAll provided bound (errs ++ es) params
    | .ok value => bindAll provided (bound.put p.name value) errs params

def bindJobParameters (params : List JobParameter) (provided : StringMap String) :
    Except (List ValidationError) (StringMap String) :=
  let (bound, errs) := rules.bindAll provided [] (rules.unknownParameters params provided) params
  if errs = [] then .ok bound else .error errs

def prepareTemplate (lookup : LocationLookup) (tmpl : JobTemplate) (provided : StringMap String) :
    Except SubmitValidationError (StringMap String) := do
  if rules.validate tmpl ≠ [] then throw (.validation (rules.validate tmpl))
  (validateStorageLocations rules.host.quote rules.host.casing lookup tmpl).mapError .storage
  let bound ← (rules.bindJobParameters tmpl.parameterDefinitions provided).mapError .binding
  if rules.expressionErrors tmpl bound ≠ [] then throw (.expressions (rules.expressionErrors tmpl bound))
  return bound

end SubmitRules

/-! ## Resolution of format strings -/

structure Resolver where
  exprEnabled : Bool
  expressions : Expressions
  scope : StringMap String

def paramScope (bound : StringMap String) : StringMap String :=
  bound.flatMap fun e => [("Param." ++ e.1, e.2), ("RawParam." ++ e.1, e.2)]
def SubmitRules.resolver (rules : SubmitRules) (tmpl : JobTemplate) (st : StepTemplate)
    (bound : StringMap String) : Resolver :=
  ⟨tmpl.hasExtension "EXPR", rules.expressions tmpl st bound, paramScope bound⟩

def rangeExprElemType : TaskParamType → ExprTarget
  | .float => .float
  | .string => .string
  | .path => .path
  | _ => .int

namespace Resolver
variable (r : Resolver)

def lookup (name : Text) : Option Text := (r.scope.lookup (String.ofList name)).map String.toList
def resolve (target : ExprTarget) (s : String) : Except FormatError String :=
  (if r.exprEnabled then resolveFormatStringExpr r.expressions target s.toList
    else resolveText s.toList r.lookup).map String.ofList

def resolveRangeListEntry (typ : TaskParamType) (entry : String) : Except FormatError String :=
  r.resolve (rangeExprElemType typ) entry

def resolveRangeExprField (typ : TaskParamType) (raw : String) :
    Except FormatError (String ⊕ List String) :=
  match (if r.exprEnabled then loneRef raw.toList else none) with
  | some body =>
    ((r.expressions.rangeField typ body).mapError .expression).map fun
      | .inl text => .inl (String.ofList text)
      | .inr entries => .inr (entries.map String.ofList)
  | none => (r.resolve .any raw).map .inl

variable (quote : String → String)

def resolveRangeListDefinition (i : Nat) (tp : TaskParamDefinition) :
    List String × List ValidationError :=
  let entries := tp.rangeList.zipIdx.map fun p => (p.1, p.2, r.resolveRangeListEntry tp.type p.1)
  (entries.map fun e => e.2.2.toOption.getD e.1, entries.flatMap fun e =>
      match e.2.2 with
      | .ok _ => []
      | .error err =>
        [⟨s!"/parameterSpace/taskParameterDefinitions/{i}/range/{e.2.1}", err.message quote⟩])

def resolveTaskParamDefinition (i : Nat) (tp : TaskParamDefinition) :
    TaskParamDefinition × List ValidationError :=
  match tp.rangeExpr with
  | some raw =>
    match r.resolveRangeExprField tp.type raw with
    | .error err =>
      (tp, [⟨s!"/parameterSpace/taskParameterDefinitions/{i}/range", err.message quote⟩])
    | .ok (.inl text) => ({ tp with rangeExpr := some text, rangeList := [] }, [])
    | .ok (.inr entries) => ({ tp with rangeExpr := none, rangeList := entries }, [])
  | none =>
    if tp.rangeList = [] then (tp, [])
    else
      let (entries, errs) := r.resolveRangeListDefinition quote i tp
      ({ tp with rangeList := entries }, errs)

def resolveChunkInt (raw ptr : String) (minimum : Int) : Except (List ValidationError) Int :=
  match r.resolveRangeListEntry .int raw with
  | .error err => .error [⟨ptr, err.message quote⟩]
  | .ok text =>
    match atoi text.toList with
    | none => .error [⟨ptr, s!"resolved to {quote text}, which is not an integer"⟩]
    | some n =>
      if n < minimum then .error [⟨ptr, s!"resolved to {itoa n}; must be at least {itoa minimum}"⟩]
      else .ok n

def resolveChunkFields (i : Nat) : Option TaskChunks → Option TaskChunks × List ValidationError
  | none => (none, [])
  | some c =>
    match c.defaultTaskCountExpr with
    | none => (some c, [])
    | some raw =>
      match r.resolveChunkInt quote raw
          s!"/parameterSpace/taskParameterDefinitions/{i}/chunks/defaultTaskCount" 1 with
      | .error errs => (some c, errs)
      | .ok n => (some { c with defaultTaskCount := n, defaultTaskCountExpr := none }, [])

def resolveDefinition (i : Nat) (tp : TaskParamDefinition) :
    TaskParamDefinition × List ValidationError :=
  let (tp', errs) := r.resolveTaskParamDefinition quote i tp
  let (chunks, chunkErrs) := r.resolveChunkFields quote i tp.chunks
  ({ tp' with chunks := chunks }, errs ++ chunkErrs)

end Resolver
namespace SubmitRules
variable (rules : SubmitRules)

def resolveParameterSpaceParams (tmpl : JobTemplate) (st : StepTemplate) (bound : StringMap String) :
    Option StepParameterSpace → Except (List ValidationError) (Option StepParameterSpace)
  | none => .ok none
  | some ps =>
    let letErrs := if tmpl.hasExtension "EXPR" then rules.letErrors tmpl st bound else []
    let defs := ps.taskParameterDefinitions.zipIdx.map fun p =>
      (rules.resolver tmpl st bound).resolveDefinition rules.host.quote p.2 p.1
    let errs := letErrs ++ defs.flatMap (·.2)
    if errs = [] then .ok (some { ps with taskParameterDefinitions := defs.map (·.1) }) else .error errs

end SubmitRules

def chunkBounds (value : String) : Option (Int × Int) :=
  match parseIntRangeExpr value.toList with
  | .error _ => none
  | .ok [] => none
  | .ok (n :: ints) => some (ints.foldl min n, ints.foldl max n)

def deriveBounds (row : TaskParams) (tp : TaskParamDefinition) : TaskParams :=
  if tp.type = .chunkInt then
    match (row.lookup tp.name).bind chunkBounds with
    | none => row
    | some (lo, hi) => (StringMap.put row (tp.name ++ ".Start") (itoa lo)).put (tp.name ++ ".End") (itoa hi)
  else row

def deriveChunkBounds (rows : Rows) : Option StepParameterSpace → Rows
  | none => rows
  | some ps => rows.map fun row => ps.taskParameterDefinitions.foldl deriveBounds row

structure SubmittedStep where
  name : String
  hostRequirements : Option StepHostRequirements
  computeLocation : String
deriving DecidableEq

structure SubmittedTask where
  step : Nat
  parameters : TaskParams
  requiredCores : Option Int
deriving DecidableEq

structure Submission where
  parameters : StringMap String
  steps : List SubmittedStep
  tasks : List SubmittedTask
deriving DecidableEq

namespace SubmitRules
variable (rules : SubmitRules)

def coreRules : CoreRules := ⟨rules.host.casing.foldRune, rules.host.floats.toFloats⟩

def expandStepTaskParams (tmpl : JobTemplate) (bound : StringMap String) (i : Nat) (st : StepTemplate) :
    Prog SubmitValidationError Expansion Rows := .tx fun s =>
  match rules.resolveParameterSpaceParams tmpl st bound st.parameterSpace with
  | .error errs => (.error (.resolve st.name (errs.map fun e => ⟨s!"/steps/{i}" ++ e.pointer, e.message⟩)), s)
  | .ok ps =>
    let limits := ps.toList.flatMap fun ps => rules.limitErrors ps s!"/steps/{i}/parameterSpace"
    if limits ≠ [] then (.error (.limits st.name limits), s)
    else
      match expandParameterSpace rules.canonicalFloat ps s with
      | (.error e, s') => (.error (.expand st.name e), s')
      | (.ok rows, s') =>
        (.ok (if tmpl.hasExtension "SQI_CHUNK_BOUNDS" then deriveChunkBounds rows ps else rows), s')

def storedStep (st : StepTemplate) : SubmittedStep :=
  let (hostReqs, computeLoc) := toStoreHostRequirements rules.host.casing st.hostRequirements
  ⟨st.name, hostReqs, computeLoc⟩
def requiredCores (reqs : Option StepHostRequirements) : Option Int :=
  reqs.bind fun r => requiredCoresFromAmounts rules.coreRules (r.amounts.map (·.toStepAmountRequirement))

def buildStepWithTasks (tmpl : JobTemplate) (bound : StringMap String) (i : Nat) (st : StepTemplate) :
    Prog SubmitValidationError Expansion (SubmittedStep × List SubmittedTask) := do
  let rows ← rules.expandStepTaskParams tmpl bound i st
  let step := rules.storedStep st
  return (step, rows.map fun params => ⟨i, params, rules.requiredCores step.hostRequirements⟩)

def buildSteps (tmpl : JobTemplate) (bound : StringMap String) :
    Nat → List StepTemplate → Prog SubmitValidationError Expansion (List SubmittedStep × List SubmittedTask)
  | _, [] => pure ([], [])
  | i, st :: sts => do
    let (step, tasks) ← rules.buildStepWithTasks tmpl bound i st
    let (steps, more) ← buildSteps tmpl bound (i + 1) sts
    return (step :: steps, tasks ++ more)

def submit (lookup : LocationLookup) (tmpl : JobTemplate) (provided : StringMap String) :
    Except SubmitValidationError Submission := do
  let bound ← rules.prepareTemplate lookup tmpl provided
  let (steps, tasks) ← (rules.buildSteps tmpl bound 0 tmpl.steps ⟨some 0, []⟩).1
  return ⟨bound, steps, tasks⟩

/-! ## What an accepted submission is -/

variable {rules}
variable {tmpl : JobTemplate} {bound provided : StringMap String} {i : Nat}
  {lookup : LocationLookup} {tasks : List SubmittedTask} {st : StepTemplate} {sub : Submission}

lemma buildStepWithTasks_ok {s s' : Expansion} {step : SubmittedStep}
    (h : rules.buildStepWithTasks tmpl bound i st s = (.ok (step, tasks), s')) :
    step = rules.storedStep st ∧ ∃ rows, rules.expandStepTaskParams tmpl bound i st s = (.ok rows, s') ∧
    tasks = rows.map fun params => ⟨i, params, rules.requiredCores step.hostRequirements⟩ := by
  cases hx : rules.expandStepTaskParams tmpl bound i st s with
  | mk result s1 =>
    cases result with
    | error e =>
      rw [buildStepWithTasks, bind_error hx] at h
      cases h
    | ok rows =>
      rw [buildStepWithTasks, bind_ok hx] at h
      cases h
      exact ⟨rfl, rows, rfl, rfl⟩

structure TaskOf (rules : SubmitRules) (tmpl : JobTemplate) (bound : StringMap String) (st : StepTemplate)
    (task : SubmittedTask) : Prop where
  cores : task.requiredCores = rules.requiredCores (rules.storedStep st).hostRequirements
  row : ∃ s s' rows, rules.expandStepTaskParams tmpl bound task.step st s = (.ok rows, s') ∧
    task.parameters ∈ rows

lemma buildSteps_ok {sts : List StepTemplate} {s s' : Expansion} {steps : List SubmittedStep}
    (h : rules.buildSteps tmpl bound i sts s = (.ok (steps, tasks), s')) :
    steps = sts.map rules.storedStep ∧
    ∀ task ∈ tasks, ∃ k st, sts[k]? = some st ∧ task.step = i + k ∧ TaskOf rules tmpl bound st task := by
  induction sts generalizing i s steps tasks with
  | nil =>
    cases h
    exact ⟨rfl, fun _ ht => absurd ht not_mem_nil⟩
  | cons st sts ih =>
    cases hone : rules.buildStepWithTasks tmpl bound i st s with
    | mk result s1 =>
      cases result with
      | error e =>
        rw [buildSteps, bind_error hone] at h
        cases h
      | ok built =>
        obtain ⟨step, own⟩ := built
        rw [buildSteps, bind_ok hone] at h
        change (rules.buildSteps tmpl bound (i + 1) sts >>= fun p =>
          pure (step :: p.1, own ++ p.2)) s1 = _ at h
        cases hrest : rules.buildSteps tmpl bound (i + 1) sts s1 with
        | mk result s2 =>
          cases result with
          | error e =>
            rw [bind_error hrest] at h
            cases h
          | ok rest =>
            obtain ⟨more, others⟩ := rest
            rw [bind_ok hrest] at h
            cases h
            obtain ⟨rfl, rows, hrows, rfl⟩ := buildStepWithTasks_ok hone
            obtain ⟨rfl, hothers⟩ := ih hrest
            refine ⟨rfl, fun task ht => ?_⟩
            rcases mem_append.mp ht with ht | ht
            · obtain ⟨params, hparams, rfl⟩ := mem_map.mp ht
              exact ⟨0, st, rfl, rfl, rfl, s, s1, rows, hrows, hparams⟩
            · obtain ⟨k, st', hst', hstep, htask⟩ := hothers task ht
              exact ⟨k + 1, st', hst', by omega, htask⟩

structure Accepted (rules : SubmitRules) (lookup : LocationLookup) (tmpl : JobTemplate)
    (provided : StringMap String) (sub : Submission) : Prop where
  valid : rules.validate tmpl = []
  stored : validateStorageLocations rules.host.quote rules.host.casing lookup tmpl = .ok ()
  bound : rules.bindJobParameters tmpl.parameterDefinitions provided = .ok sub.parameters
  steps : sub.steps = tmpl.steps.map rules.storedStep
  tasks : ∀ task ∈ sub.tasks, ∃ st, tmpl.steps[task.step]? = some st ∧
    TaskOf rules tmpl sub.parameters st task

lemma prepareTemplate_ok (h : rules.prepareTemplate lookup tmpl provided = .ok bound) :
    rules.validate tmpl = [] ∧ validateStorageLocations rules.host.quote rules.host.casing lookup tmpl = .ok () ∧
      rules.bindJobParameters tmpl.parameterDefinitions provided = .ok bound := by
  unfold prepareTemplate at h
  by_cases hvalid : rules.validate tmpl = []
  · simp only [hvalid, ne_eq, not_true_eq_false, if_false] at h
    cases hstored : validateStorageLocations rules.host.quote rules.host.casing lookup tmpl with
    | error e =>
      rw [hstored] at h
      cases h
    | ok u =>
      rw [hstored] at h
      cases hbind : rules.bindJobParameters tmpl.parameterDefinitions provided with
      | error e =>
        rw [hbind] at h
        cases h
      | ok bound' =>
        rw [hbind] at h
        by_cases hexpr : rules.expressionErrors tmpl bound' = []
        · simp only [Except.mapError, bind, Except.bind, pure, Except.pure, hexpr,
            not_true_eq_false, if_false, Except.ok.injEq] at h
          exact ⟨hvalid, rfl, congrArg _ h⟩
        · simp only [Except.mapError, bind, Except.bind, pure, Except.pure, hexpr, not_false_eq_true, if_true] at h
          cases h
  · simp only [hvalid, ne_eq, not_false_eq_true, if_true] at h
    cases h

lemma submit_ok (h : rules.submit lookup tmpl provided = .ok sub) :
    Accepted rules lookup tmpl provided sub := by
  obtain ⟨bound, hprep, h⟩ := except_bind_eq_ok.mp h
  obtain ⟨⟨steps, tasks⟩, hbuild, h⟩ := except_bind_eq_ok.mp h
  cases h
  obtain ⟨hvalid, hstored, hbind⟩ := prepareTemplate_ok hprep
  obtain ⟨hsteps, htasks⟩ := buildSteps_ok (Prod.ext hbuild rfl)
  refine ⟨hvalid, hstored, hbind, hsteps, fun task ht => ?_⟩
  obtain ⟨k, st, hst, hstep, htask⟩ := htasks task ht
  rw [Nat.zero_add] at hstep
  exact ⟨st, hstep ▸ hst, htask⟩

end SubmitRules

/-! ## The bound parameters -/

namespace SubmitRules
variable {rules : SubmitRules} {provided : StringMap String} {errs : List ValidationError}
  {params : List JobParameter} {bound : StringMap String}

lemma bindAll_errs (h : (rules.bindAll provided bound errs params).2 = []) : errs = [] := by
  induction params generalizing bound errs with
  | nil => exact h
  | cons p params ih =>
    rw [bindAll] at h
    split at h
    · exact (append_eq_nil_iff.mp (ih h)).1
    · exact ih h

lemma bindParameter_error {p : JobParameter} {es : List ValidationError}
    (h : rules.bindParameter provided p = .error es) : es ≠ [] := by
  unfold bindParameter at h
  split at h
  · cases h
    exact cons_ne_nil _ _
  split at h
  · cases h
  · cases h
    assumption

lemma put_ne_nil {α : Type} (m : StringMap α) (key : String) (value : α) : StringMap.put m key value ≠ [] := by
  unfold StringMap.put
  split
  · rename_i h
    cases m with
    | nil => cases h
    | cons e m => simp
  · simp

lemma bindAll_ne_nil (h : (rules.bindAll provided bound errs params).2 = [])
    (hne : bound ≠ [] ∨ params ≠ []) : (rules.bindAll provided bound errs params).1 ≠ [] := by
  induction params generalizing bound errs with
  | nil => exact hne.resolve_right fun h => h rfl
  | cons p params ih =>
    rw [bindAll] at h ⊢
    cases hp : rules.bindParameter provided p with
    | error es =>
      rw [hp] at h
      exact absurd (append_eq_nil_iff.mp (bindAll_errs h)).2 (bindParameter_error hp)
    | ok value =>
      rw [hp] at h
      exact ih h (.inl (put_ne_nil _ _ _))

lemma bindJobParameters_nil (h : rules.bindJobParameters params provided = .ok []) : params = [] := by
  unfold bindJobParameters at h
  dsimp only at h
  split at h
  · rename_i herrs
    by_contra hne
    exact bindAll_ne_nil herrs (.inr hne) (Except.ok.inj h)
  · cases h

end SubmitRules

def asciiRules : SubmitRules where
  host :=
    { casing := ⟨Char.toLower, Char.toLower⟩
      floats :=
        { Val := Int
          parse := fun s => atoi s.toList
          nonpos := fun n => n ≤ 0
          toInt := id
          ofInt := id
          less := fun a b => a < b
          number := fun n => some n
          finite_ofInt := fun n => ⟨n, rfl⟩
          less_iff := by
            rintro a b _ _ ⟨⟩ ⟨⟩
            simp }
      quote := fun s => "\"" ++ s ++ "\""
      showFloat := itoa }
  canonicalFloat := fun _ => none
  templateErrors := fun _ => []
  valueErrors := fun _ _ => []
  expressionErrors := fun _ _ => []
  letErrors := fun _ _ _ => []
  limitErrors := fun _ _ => []
  expressions := fun _ _ _ => ⟨fun _ _ => .error "", fun _ => .error "", fun _ _ => .error ""⟩

end Sqi
