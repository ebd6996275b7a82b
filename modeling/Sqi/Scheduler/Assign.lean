import Sqi.Scheduler.Matcher

/-! The assignment of a task to a worker (`assign.go`): the template is read again, and every `loc://`
reference in the message is replaced by a path for the worker. -/

namespace Sqi
open List GoText Program

structure LocationRegistry where
  locs : List StorageLocation
  unique : (locs.map (·.name)).Nodup

namespace LocationRegistry

def get (registry : LocationRegistry) (name : String) : Option StorageLocation :=
  registry.locs.find? (·.name = name)
def locMap (registry : LocationRegistry) (name : String) : Option StorageLocation :=
  registry.locs.reverse.find? (·.name = name)

end LocationRegistry

structure AssignEnvironment where
  name : String
  vars : StringMap String
  onEnter : Option Action
  onExit : Option Action
  embeddedFiles : List EmbeddedFile
deriving DecidableEq

structure AssignMsg where
  parameters : TaskParams
  jobParameters : StringMap String
  /-- Set with the EXPR extension only. -/
  jobParameterTypes : StringMap JobParamType
  onRun : Option Action
  embeddedFiles : List EmbeddedFile
  environments : List AssignEnvironment
deriving DecidableEq

inductive AssignError where
  | stepNotFound (step : String)
  | location (fields : List String) (err : LocError)
  | list (fields : List String) (text : String)
deriving DecidableEq

structure ListCodec where
  Other : Type
  decode : String → Except String (List (String ⊕ Other))
  encode : List (String ⊕ Other) → Except String String

def buildJobParameters (tmpl : JobTemplate) (jobParams : StringMap String) : StringMap String :=
  if jobParams ≠ [] then jobParams
  else tmpl.parameterDefinitions.foldl (fun m p =>
    match p.default with
    | some v => StringMap.put m p.name v
    | none => m) []

def buildJobParameterTypes (tmpl : JobTemplate) : StringMap JobParamType :=
  tmpl.parameterDefinitions.reverse.map fun p => (p.name, p.type)
def convertEnvironment (e : Environment) : AssignEnvironment :=
  ⟨e.name, e.vars, e.script.bind (·.onEnter), e.script.bind (·.onExit),
    (e.script.map (·.embeddedFiles)).getD []⟩

section
variable (quote : String → String) (resolve : String → String → Except LocError String)

def resolveField (fields : List String) (s : String) : Except AssignError String :=
  (resolveLocURIs resolve s).mapError (.location fields)
def resolveElement {α : Type} (fields : List String) : String ⊕ α → Except AssignError (String ⊕ α)
  | .inl s => (resolveField resolve fields s).map .inl
  | .inr v => .ok (.inr v)
def elementChanged {α : Type} : String ⊕ α → String ⊕ α → Bool
  | .inl s, .inl t => s ≠ t
  | _, _ => false

def resolveLocURIsInParamValue (codec : ListCodec) (fields : List String) (value : String)
    (declaredType : Option JobParamType) : Except AssignError String :=
  if declaredType.any isListParamType then do
    let elems ← (codec.decode value).mapError fun e => .list fields s!"list parameter value: {e}"
    let resolved ← elems.mapM (resolveElement resolve fields)
    if (elems.zip resolved).any fun p => elementChanged p.1 p.2 then
      (codec.encode resolved).mapError (.list fields)
    else return value
  else resolveField resolve fields value

def resolveAction (fields : List String) (a : Action) : Except AssignError Action := do
  let command ← resolveField resolve (fields ++ ["command"]) a.command
  let args ← a.args.zipIdx.mapM fun p => resolveField resolve (fields ++ [s!"arg[{p.2}]"]) p.1
  return ⟨command, args⟩

def resolveOptionalAction (fields : List String) : Option Action → Except AssignError (Option Action)
  | none => .ok none
  | some a => (resolveAction resolve fields a).map some
def resolveVariable (fields : List String) (e : String × String) : Except AssignError (String × String) :=
  (resolveField resolve (fields ++ [s!"variable {quote e.1}"]) e.2).map (e.1, ·)
def resolveEmbeddedFile (fields : List String) (f : EmbeddedFile) : Except AssignError EmbeddedFile :=
  (resolveField resolve (fields ++ [s!"embedded file {quote f.name}"]) f.data).map ({ f with data := · })

def resolveEnvironment (e : AssignEnvironment) : Except AssignError AssignEnvironment := do
  let fields := [s!"environment {quote e.name}"]
  let vars ← e.vars.mapM (resolveVariable quote resolve fields)
  let embeddedFiles ← e.embeddedFiles.mapM (resolveEmbeddedFile quote resolve fields)
  let onEnter ← resolveOptionalAction resolve (fields ++ ["onEnter"]) e.onEnter
  let onExit ← resolveOptionalAction resolve (fields ++ ["onExit"]) e.onExit
  return ⟨e.name, vars, onEnter, onExit, embeddedFiles⟩

def resolveJobParameter (codec : ListCodec) (types : StringMap JobParamType) (e : String × String) :
    Except AssignError (String × String) :=
  (resolveLocURIsInParamValue resolve codec [s!"job parameter {quote e.1}"] e.2 (types.lookup e.1)).map (e.1, ·)
def resolveParameter (e : String × String) : Except AssignError (String × String) :=
  (resolveField resolve [s!"parameter {quote e.1}"] e.2).map (e.1, ·)

def resolveLocURIsInMsg (codec : ListCodec) (msg : AssignMsg) : Except AssignError AssignMsg := do
  let jobParameters ← msg.jobParameters.mapM (resolveJobParameter quote resolve codec msg.jobParameterTypes)
  let parameters ← msg.parameters.mapM (resolveParameter quote resolve)
  let onRun ← resolveOptionalAction resolve ["onRun"] msg.onRun
  let embeddedFiles ← msg.embeddedFiles.mapM (resolveEmbeddedFile quote resolve [])
  let environments ← msg.environments.mapM (resolveEnvironment quote resolve)
  return { msg with parameters, jobParameters, onRun, embeddedFiles, environments }

end

def resolveAt (registry : LocationRegistry) (computeLocation name relPath : String) :
    Except LocError String :=
  match registry.locMap name with
  | none => .error (.notFound name)
  | some loc => (resolveRoot name loc.roots computeLocation).map (joinPath · relPath)

def assignMsg (tmpl : JobTemplate) (st : StepTemplate) (jobParams : StringMap String) (params : TaskParams) :
    AssignMsg where
  parameters := params
  jobParameters := buildJobParameters tmpl jobParams
  jobParameterTypes := if tmpl.hasExtension "EXPR" then buildJobParameterTypes tmpl else []
  onRun := st.script.map (·.onRun)
  embeddedFiles := (st.script.map (·.embeddedFiles)).getD []
  environments := tmpl.jobEnvironments.map convertEnvironment ++ st.stepEnvironments.map convertEnvironment

def buildAssignPayload (quote : String → String) (codec : ListCodec) (registry : LocationRegistry)
    (tmpl : JobTemplate) (jobParams : StringMap String) (step : SubmittedStep) (params : TaskParams)
    (worker : MatchWorker) : Except AssignError AssignMsg :=
  match tmpl.steps.find? (·.name = step.name) with
  | none => .error (.stepNotFound step.name)
  | some st =>
    resolveLocURIsInMsg quote (resolveAt registry worker.computeLocation) codec
      (assignMsg tmpl st jobParams params)

/-! ## Assignments that fail on a reference -/

def Resolvable (resolve : String → String → Except LocError String) (s : String) : Prop :=
  ∀ r ∈ extractLocRefs s, ∃ path, resolve (String.ofList r.locationName) (String.ofList r.relPath) = .ok path

/-- `m` fails on a reference unless `p` holds, and does not fail otherwise. -/
def LocatesIff {α : Type} (p : Prop) (m : Except AssignError α) : Prop :=
  p ∧ (∃ a, m = .ok a) ∨ ¬ p ∧ ∃ fields err, m = .error (.location fields err)

/-- The texts of a bound value: of a list, its string elements. -/
def valueTexts (codec : ListCodec) (isList : Bool) (value : String) : List String :=
  if isList then
    match codec.decode value with
    | .ok elems => elems.filterMap Sum.getLeft?
    | .error _ => []
  else [value]

namespace LocatesIff
variable {α β : Type} {p q : Prop} {f : α → Except AssignError β} {m : Except AssignError α}

lemma ok (a : α) : LocatesIff True (.ok a) := .inl ⟨trivial, a, rfl⟩

lemma congr (h : LocatesIff p m) (hpq : p ↔ q) : LocatesIff q m := propext hpq ▸ h

lemma bind (hm : LocatesIff p m) (hf : ∀ a, LocatesIff q (f a)) : LocatesIff (p ∧ q) (m >>= f) := by
  rcases hm with ⟨hp, a, rfl⟩ | ⟨hp, fields, err, rfl⟩
  · rcases hf a with ⟨hq, b, hb⟩ | ⟨hq, fields, err, hb⟩
    · exact .inl ⟨⟨hp, hq⟩, b, hb⟩
    · exact .inr ⟨fun h => hq h.2, fields, err, hb⟩
  · exact .inr ⟨fun h => hp h.1, fields, err, rfl⟩

lemma map {g : α → β} (hm : LocatesIff p m) : LocatesIff p (m.map g) := by
  rcases hm with ⟨hp, a, rfl⟩ | ⟨hp, fields, err, rfl⟩
  · exact .inl ⟨hp, g a, rfl⟩
  · exact .inr ⟨hp, fields, err, rfl⟩

lemma mapM {p : α → Prop} {as : List α} (h : ∀ a ∈ as, LocatesIff (p a) (f a)) :
    LocatesIff (∀ a ∈ as, p a) (as.mapM f) := by
  induction as with
  | nil => exact (ok []).congr (by simp)
  | cons a as ih =>
    obtain ⟨ha, has⟩ := forall_mem_cons.mp h
    rw [mapM_cons]
    refine (ha.bind fun b => (ih has).bind fun bs => ok (b :: bs)).congr ?_
    rw [and_true, forall_mem_cons]

lemma ne_location (h : LocatesIff p m) : (∀ fields err, m ≠ .error (.location fields err)) ↔ p := by
  rcases h with ⟨hp, a, rfl⟩ | ⟨hp, fields, err, rfl⟩
  · exact iff_of_true nofun hp
  · exact iff_of_false (fun h => h fields err rfl) hp

variable {quote : String → String} {resolve : String → String → Except LocError String} {codec : ListCodec}

lemma resolveField (s : String) (fields : List String) :
    LocatesIff (Resolvable resolve s) (resolveField resolve fields s) := by
  unfold Sqi.resolveField
  cases hs : resolveLocURIs resolve s with
  | ok t => exact .inl ⟨fun r hr => resolveLocURIs_ok hs hr, t, rfl⟩
  | error e =>
    refine .inr ⟨fun h => ?_, fields, e, rfl⟩
    obtain ⟨r, hr, he⟩ := resolveLocURIs_error hs
    obtain ⟨path, hpath⟩ := h r hr
    rw [hpath] at he
    cases he

lemma resolveTexts {g : α → String} (as : List α) (fields : α → List String) {f : α → Except AssignError β}
    (h : ∀ a, ∃ k : String → β, f a = (Sqi.resolveField resolve (fields a) (g a)).map k) :
    LocatesIff (∀ s ∈ as.map g, Resolvable resolve s) (as.mapM f) := by
  refine (mapM fun a _ => ?_).congr forall_mem_map.symm
  obtain ⟨k, hk⟩ := h a
  rw [hk]
  exact (resolveField (g a) (fields a)).map

lemma resolveLocURIsInParamValue {value : String} {type : Option JobParamType}
    (decodes : type.any isListParamType = true → ∃ elems, codec.decode value = .ok elems)
    (encodes : ∀ elems, ∃ text, codec.encode elems = .ok text) (fields : List String) :
    LocatesIff (∀ s ∈ valueTexts codec (type.any isListParamType) value, Resolvable resolve s)
      (resolveLocURIsInParamValue resolve codec fields value type) := by
  unfold Sqi.resolveLocURIsInParamValue valueTexts
  split
  · rename_i htype
    obtain ⟨elems, hdecode⟩ := decodes htype
    rw [hdecode]
    change LocatesIff _ (elems.mapM (resolveElement resolve fields) >>= _)
    have heach : ∀ elem ∈ elems, LocatesIff (∀ s ∈ elem.getLeft?, Resolvable resolve s)
        (resolveElement resolve fields elem) := fun elem _ => by
      cases elem with
      | inl s => exact (resolveField s fields).map.congr (by simp)
      | inr v => exact (ok _).congr (by simp)
    refine ((mapM heach).bind fun resolved => (?_ : LocatesIff True _)).congr (by simp [mem_filterMap])
    split
    · obtain ⟨text, htext⟩ := encodes resolved
      rw [htext]
      exact ok text
    · exact ok value
  · exact (resolveField value fields).congr (by simp)

lemma resolveAction (a : Action) (fields : List String) :
    LocatesIff (∀ s ∈ a.locTexts, Resolvable resolve s) (resolveAction resolve fields a) := by
  have hargs : LocatesIff (∀ s ∈ a.args, Resolvable resolve s) (a.args.zipIdx.mapM fun p =>
      Sqi.resolveField resolve (fields ++ [s!"arg[{p.2}]"]) p.1) := by
    refine (mapM fun p _ => resolveField p.1 _).congr ?_
    rw [← forall_mem_map (f := Prod.fst) (P := Resolvable resolve), zipIdx_map_fst]
  refine ((resolveField a.command _).bind fun command => hargs.bind fun args => ok _).congr ?_
  rw [and_true, Action.locTexts, forall_mem_cons]

lemma resolveOptionalAction (a : Option Action) (fields : List String) :
    LocatesIff (∀ s ∈ a.toList.flatMap Action.locTexts, Resolvable resolve s)
      (resolveOptionalAction resolve fields a) := by
  cases a with
  | none => exact (ok none).congr (by simp)
  | some a => exact (resolveAction a fields).map.congr (by simp)

lemma resolveEmbeddedFiles (files : List EmbeddedFile) (fields : List String) :
    LocatesIff (∀ s ∈ files.map (·.data), Resolvable resolve s)
      (files.mapM (resolveEmbeddedFile quote resolve fields)) :=
  resolveTexts files _ fun f => ⟨({ f with data := · }), rfl⟩

lemma resolveEnvironment (e : Environment) :
    LocatesIff (∀ s ∈ e.locTexts, Resolvable resolve s)
      (resolveEnvironment quote resolve (convertEnvironment e)) := by
  have hvars : ∀ fields, LocatesIff (∀ s ∈ e.vars.map (·.2), Resolvable resolve s)
      (e.vars.mapM (resolveVariable quote resolve fields)) :=
    fun fields => resolveTexts e.vars _ fun v => ⟨(v.1, ·), rfl⟩
  refine ((hvars _).bind fun vars => (resolveEmbeddedFiles _ _).bind fun files =>
    (resolveOptionalAction _ _).bind fun onEnter => (resolveOptionalAction _ _).bind fun onExit => ok _).congr ?_
  rw [Environment.locTexts, forall_mem_append, and_true]
  refine and_congr_right fun _ => ?_
  obtain ⟨name, vars, script⟩ := e
  cases script with
  | none => simp [convertEnvironment]
  | some script =>
    simp only [convertEnvironment, Option.toList_some, flatMap_singleton, forall_mem_append, Option.map_some,
      Option.getD_some, Option.bind_some]
    tauto

lemma resolveLocURIsInMsg {tmpl : JobTemplate} {st : StepTemplate} {jobParams : StringMap String} {params : TaskParams}
    (decodes : ∀ e ∈ (assignMsg tmpl st jobParams params).jobParameters,
      ((assignMsg tmpl st jobParams params).jobParameterTypes.lookup e.1).any isListParamType = true →
        ∃ elems, codec.decode e.2 = .ok elems) (encodes : ∀ elems, ∃ text, codec.encode elems = .ok text) :
    LocatesIff ((∀ e ∈ (assignMsg tmpl st jobParams params).jobParameters, ∀ s ∈ valueTexts codec
        (((assignMsg tmpl st jobParams params).jobParameterTypes.lookup e.1).any isListParamType) e.2,
          Resolvable resolve s) ∧ (∀ s ∈ params.map (·.2), Resolvable resolve s) ∧
        (∀ s ∈ st.script.toList.flatMap (fun s => s.onRun.locTexts ++ s.embeddedFiles.map (·.data)),
          Resolvable resolve s) ∧
        ∀ s ∈ (tmpl.jobEnvironments ++ st.stepEnvironments).flatMap Environment.locTexts, Resolvable resolve s)
      (resolveLocURIsInMsg quote resolve codec (assignMsg tmpl st jobParams params)) := by
  have henvs : LocatesIff (∀ e ∈ tmpl.jobEnvironments ++ st.stepEnvironments, ∀ s ∈ e.locTexts, Resolvable resolve s)
      ((assignMsg tmpl st jobParams params).environments.mapM (Sqi.resolveEnvironment quote resolve)) := by
    rw [assignMsg, ← map_append, mapM_map]
    exact mapM fun e _ => resolveEnvironment e
  refine ((mapM fun e he => (resolveLocURIsInParamValue (decodes e he) encodes _).map).bind fun jobParameters =>
    (resolveTexts params _ fun e => ⟨(e.1, ·), rfl⟩).bind fun parameters =>
    (resolveOptionalAction _ _).bind fun onRun => (resolveEmbeddedFiles _ _).bind fun files =>
    henvs.bind fun environments => ok _).congr ?_
  refine and_congr_right fun _ => and_congr_right fun _ => ?_
  rw [and_true, ← and_assoc]
  refine and_congr ?_ forall_mem_flatMap.symm
  cases hst : st.script with
  | none => simp [assignMsg, hst]
  | some script =>
    simp only [assignMsg, hst, Option.map_some, Option.toList_some, flatMap_singleton, Option.getD_some,
      forall_mem_append]

end LocatesIff

/-! ## What submission has checked -/

variable {registry : LocationRegistry} {name : String}

lemma LocationRegistry.locMap_eq {loc : StorageLocation}
    (h : registry.get name = some loc) : registry.locMap name = some loc := by
  have hmem : loc ∈ registry.locs := mem_of_find?_eq_some h
  have hname : loc.name = name := by simpa using find?_some h
  unfold locMap
  cases hfind : registry.locs.reverse.find? (·.name = name) with
  | none =>
    have hno := find?_eq_none.mp hfind loc (mem_reverse.mpr hmem)
    simp [hname] at hno
  | some loc' =>
    have hmem' : loc' ∈ registry.locs := mem_reverse.mp (mem_of_find?_eq_some hfind)
    have hname' : loc'.name = name := by simpa using find?_some hfind
    rw [inj_on_of_nodup_map registry.unique hmem' hmem (hname'.trans hname.symm)]

lemma resolveAt_ok {place relPath : String} :
    (∃ path, resolveAt registry place name relPath = .ok path) ↔ RootCovered registry.get place name := by
  unfold resolveAt
  cases hget : registry.get name with
  | none =>
    have hmap : registry.locMap name = none := by
      unfold LocationRegistry.locMap LocationRegistry.get at *
      rw [find?_eq_none] at hget ⊢
      exact fun loc hloc => hget loc (mem_reverse.mp hloc)
    rw [hmap]
    exact iff_of_false nofun fun ⟨loc, hloc, _⟩ => nomatch hget.symm.trans hloc
  | some loc =>
    rw [LocationRegistry.locMap_eq hget]
    constructor
    · rintro ⟨path, h⟩
      refine ⟨loc, hget, ?_⟩
      dsimp only at h
      unfold resolveRoot at h
      by_cases hplace : place = ""
      · rw [if_pos hplace] at h
        cases hdefault : loc.roots.lookup "default" with
        | none =>
          rw [hdefault] at h
          cases h
        | some root => exact .inr rfl
      · rw [if_neg hplace] at h
        cases hroot : loc.roots.lookup place with
        | some root => exact .inl ⟨hplace, rfl⟩
        | none =>
          rw [hroot] at h
          cases hdefault : loc.roots.lookup "default" with
          | none =>
            rw [hdefault] at h
            cases h
          | some root => exact .inr rfl
    · intro covered
      obtain ⟨root, hroot⟩ := covered.resolveRoot_ok hget (.inr rfl)
      dsimp only
      rw [hroot]
      exact ⟨_, rfl⟩

lemma resolvable_iff {place s : String} :
    Resolvable (resolveAt registry place) s ↔ ∀ name ∈ locNames [s], RootCovered registry.get place name := by
  unfold Resolvable
  simp only [resolveAt_ok, mem_locNames, mem_singleton]
  exact ⟨fun h name ⟨t, ht, r, hr, e⟩ => e ▸ h r (ht ▸ hr), fun h r hr => h _ ⟨s, rfl, r, hr, rfl⟩⟩

lemma RootCovered.at_place {lookup : LocationLookup} {computeLoc place : String}
    (h : RootCovered lookup computeLoc name) (hplace : computeLoc = "" ∨ computeLoc = place) :
    RootCovered lookup place name := by
  obtain ⟨loc, hloc, hroots⟩ := h
  refine ⟨loc, hloc, hroots.imp_left fun ⟨hne, hroot⟩ => ?_⟩
  obtain rfl := hplace.resolve_left hne
  exact ⟨hne, hroot⟩

lemma locNames_subset {s : String} {texts : List String} (hs : s ∈ texts)
    (h : name ∈ locNames [s]) : name ∈ locNames texts := by
  obtain ⟨t, ht, r, hr, e⟩ := mem_locNames.mp h
  obtain rfl := mem_singleton.mp ht
  exact mem_locNames.mpr ⟨t, hs, r, hr, e⟩

/-- Whether the value bound to a parameter is read as a list. -/
def JobTemplate.bindsList (tmpl : JobTemplate) (param : String) : Bool :=
  ((if tmpl.hasExtension "EXPR" then buildJobParameterTypes tmpl else []).lookup param).any isListParamType

def JobTemplate.boundTexts (codec : ListCodec) (tmpl : JobTemplate) (bound : StringMap String) : List String :=
  bound.flatMap fun e => valueTexts codec (tmpl.bindsList e.1) e.2

section
variable {rules : SubmitRules} {registry : LocationRegistry} {tmpl : JobTemplate} {provided : StringMap String}
  {sub : Submission} {lookup : LocationLookup} {st : StepTemplate} {s : String}

lemma SubmitRules.Accepted.stepNames
    (h : SubmitRules.Accepted rules lookup tmpl provided sub) : (tmpl.steps.map (·.name)).Nodup := by
  have hvalid := h.valid
  simp only [SubmitRules.validate, append_eq_nil_iff] at hvalid
  exact (nodup_of_nameErrors hvalid.1.2).1

section
variable (h : SubmitRules.Accepted rules registry.get tmpl provided sub)
include h

lemma SubmitRules.Accepted.resolvable_job (place : String) (hs : s ∈ tmpl.jobLocTexts) :
    Resolvable (resolveAt registry place) s :=
  resolvable_iff.mpr fun _ hname => (jobLocRefs_covered h.stored (locNames_subset hs hname)).at_place (.inl rfl)

lemma SubmitRules.Accepted.resolvable_step (hst : st ∈ tmpl.steps) {place : String}
    (hplace : (rules.storedStep st).computeLocation = "" ∨ (rules.storedStep st).computeLocation = place)
    (hs : s ∈ st.locTexts) : Resolvable (resolveAt registry place) s :=
  resolvable_iff.mpr fun _ hname => (stepLocRefs_covered h.stored hst (locNames_subset hs hname)).at_place hplace

lemma SubmitRules.Accepted.jobParameters (st : StepTemplate) (params : TaskParams) :
    (assignMsg tmpl st sub.parameters params).jobParameters = sub.parameters := by
  by_cases hnil : sub.parameters = []
  · have hnone : tmpl.parameterDefinitions = [] := SubmitRules.bindJobParameters_nil (hnil ▸ h.bound)
    simp [assignMsg, buildJobParameters, hnil, hnone]
  · simp [assignMsg, buildJobParameters, hnil]

end

/-- Assigning a task to a worker eligible for its step does not fail on a reference, exactly if the locations
that the job's bound values and the task's parameters name are registered with a root for the worker. -/
theorem assignment_locations_resolve (accepted : rules.submit registry.get tmpl provided = .ok sub)
    (codec : ListCodec) (encodes : ∀ elems, ∃ text, codec.encode elems = .ok text)
    (decodes : ∀ e ∈ sub.parameters, tmpl.bindsList e.1 = true → ∃ elems, codec.decode e.2 = .ok elems)
    {task : SubmittedTask} (htask : task ∈ sub.tasks)
    {step : SubmittedStep} (hstep : sub.steps[task.step]? = some step) {worker : MatchWorker} {job : MatchJob}
    {usage : UsageContext}
    (eligible : workerEligible rules.host.casing rules.host.floats worker job step usage = .ok ()) :
    (∀ fields err, buildAssignPayload rules.host.quote codec registry tmpl sub.parameters step task.parameters
      worker ≠ .error (.location fields err)) ↔
    ∀ name ∈ locNames (tmpl.boundTexts codec sub.parameters ++ task.parameters.map (·.2)),
      RootCovered registry.get worker.computeLocation name := by
  have h := SubmitRules.submit_ok accepted
  obtain ⟨st, hst, htaskOf⟩ := h.tasks task htask
  have hmem : st ∈ tmpl.steps := mem_of_getElem? hst
  obtain rfl : rules.storedStep st = step := by
    rw [h.steps, getElem?_map, hst] at hstep
    exact Option.some.inj hstep
  -- the step's name finds its own template again
  have hfind : tmpl.steps.find? (·.name = (rules.storedStep st).name) = some st := by
    cases hf : tmpl.steps.find? (·.name = (rules.storedStep st).name) with
    | none =>
      have hno := find?_eq_none.mp hf st hmem
      simp [SubmitRules.storedStep] at hno
    | some st' =>
      have hsome := find?_some hf
      have hname : st'.name = st.name := of_decide_eq_true hsome
      rw [inj_on_of_nodup_map h.stepNames (mem_of_find?_eq_some hf) hmem hname]
  have hplace := (workerEligible_iff.mp eligible).location
  have hjob := h.jobParameters st task.parameters
  unfold buildAssignPayload
  rw [hfind]
  dsimp only
  rw [(LocatesIff.resolveLocURIsInMsg (by rwa [hjob]) encodes).ne_location, hjob]
  -- what the template itself names was checked at submission
  have hscript : ∀ s ∈ st.script.toList.flatMap (fun s => s.onRun.locTexts ++ s.embeddedFiles.map (·.data)),
      Resolvable (resolveAt registry worker.computeLocation) s := fun s hs =>
    h.resolvable_step hmem hplace (mem_append_left _ (mem_append_left _ hs))
  have henvs : ∀ s ∈ (tmpl.jobEnvironments ++ st.stepEnvironments).flatMap Environment.locTexts,
      Resolvable (resolveAt registry worker.computeLocation) s := fun s hs => by
    rw [flatMap_append] at hs
    rcases mem_append.mp hs with hs | hs
    · exact h.resolvable_job _ (mem_append_right _ hs)
    · exact h.resolvable_step hmem hplace (mem_append_left _ (mem_append_right _ hs))
  rw [and_iff_left (⟨hscript, henvs⟩ : _ ∧ _)]
  simp only [resolvable_iff]
  constructor
  · rintro ⟨hbound, hparams⟩ name hname
    obtain ⟨s, hs, hr⟩ := mem_locNames.mp hname
    have hone : name ∈ locNames [s] := mem_locNames.mpr ⟨s, mem_singleton.mpr rfl, hr⟩
    rcases mem_append.mp hs with hs | hs
    · obtain ⟨e, he, hs⟩ := mem_flatMap.mp hs
      exact hbound e he s hs name hone
    · exact hparams s hs name hone
  · refine fun hall => ⟨fun e he s hs name hname => ?_, fun s hs name hname => ?_⟩
    · exact hall name (locNames_subset (mem_append_left _ (mem_flatMap.mpr ⟨e, he, hs⟩)) hname)
    · exact hall name (locNames_subset (mem_append_right _ hs) hname)

end

/-! ## A submitted value -/

section

def textCodec : ListCodec := ⟨Empty, fun _ => .error "", fun _ => .ok ""⟩
def assetsRegistry : LocationRegistry := ⟨[⟨"assets", [("default", "/mnt/assets")]⟩], by decide⟩
def sceneJob (default : Option String) : JobTemplate :=
  ⟨[], [⟨"Scene", .path, default⟩], [],
    [⟨"render", some ⟨⟨"render", ["\x7b\x7bParam.Scene\x7d\x7d"]⟩, []⟩, [], none, none, []⟩]⟩
def anyWorker : MatchWorker := ⟨"", "", "", 8, 65536, 0, 0, "linux", "", "amd64", []⟩

def assetsJob : JobTemplate := sceneJob (some "loc://assets/a")
def assetsParams : TaskParams := [("Scene", "loc://assets/a")]

/-- The scene of the default, at its root. -/
theorem assignment_locations_resolve_scene :
    (∀ fields err, buildAssignPayload asciiRules.host.quote textCodec assetsRegistry
      assetsJob assetsParams ⟨"render", none, ""⟩ [] anyWorker ≠
        .error (.location fields err)) ∧
    (buildAssignPayload asciiRules.host.quote textCodec assetsRegistry assetsJob
      assetsParams ⟨"render", none, ""⟩ [] anyWorker).toOption.map (·.jobParameters) =
        some [("Scene", "/mnt/assets/a")] := by
  have accepted : asciiRules.submit assetsRegistry.get assetsJob [] =
      .ok ⟨assetsParams, [⟨"render", none, ""⟩], [⟨0, [], none⟩]⟩ := by decide +kernel
  have eligible : workerEligible asciiRules.host.casing asciiRules.host.floats anyWorker ⟨"", ""⟩
      ⟨"render", none, ""⟩ ⟨[], []⟩ = .ok () := by decide +kernel
  have scalar : ∀ e ∈ assetsParams, assetsJob.bindsList e.1 = true →
      ∃ elems, textCodec.decode e.2 = .ok elems := fun e _ hlist => nomatch hlist
  refine ⟨fun fields err => ?_, by decide +kernel⟩
  refine (assignment_locations_resolve accepted textCodec (fun _ => ⟨_, rfl⟩) scalar
    (mem_singleton.mpr rfl) rfl eligible).mpr (fun name hname => ?_) fields err
  have hnames : locNames (assetsJob.boundTexts textCodec assetsParams ++
      []) = ["assets"] := by decide +kernel
  rw [show ([] : TaskParams).map (·.2) = [] from rfl, hnames] at hname
  obtain rfl := mem_singleton.mp hname
  exact ⟨_, rfl, .inr rfl⟩

/-- The references of the template are looked for in its own text; one in a submitted
value is found at dispatch. -/
theorem submitted_location_not_checked :
    ∃ sub step task, asciiRules.submit assetsRegistry.get (sceneJob none) [("Scene", "loc://nope/a")] = .ok sub ∧
      task ∈ sub.tasks ∧ sub.steps[task.step]? = some step ∧
      workerEligible asciiRules.host.casing asciiRules.host.floats anyWorker ⟨"", ""⟩ step ⟨[], []⟩ = .ok () ∧
      buildAssignPayload asciiRules.host.quote textCodec assetsRegistry (sceneJob none) sub.parameters step
        task.parameters anyWorker = .error (.location ["job parameter \"Scene\""] (.notFound "nope")) :=
  ⟨⟨[("Scene", "loc://nope/a")], [⟨"render", none, ""⟩], [⟨0, [], none⟩]⟩, ⟨"render", none, ""⟩, ⟨0, [], none⟩,
    by decide +kernel, by decide +kernel, rfl, by decide +kernel, by decide +kernel⟩

end
end Sqi
