import Sqi.OpenJD.Submit
import Sqi.Store.Types

/-! Which workers a task may run on (`matcher.go`): `workerEligible` compares a worker with the stored host
requirements of a step. -/

namespace Sqi
open GoText Program

structure MatchWorker where
  farmID : String
  queueID : String
  computeLocation : String
  cpuCount : Int
  ramMb : Int
  gpuCount : Int
  gpuVRAMMb : Int
  os : String
  osVersion : String
  arch : String
  tags : StringMap String
deriving DecidableEq

structure MatchJob where
  farmID : String
  queueID : String
deriving DecidableEq

structure UsageContext where
  pools : StringMap UsagePool
  activeCounts : StringMap Int
deriving DecidableEq

inductive MatchRejection where
  | farm
  | queue
  | computeLocation
  | amountRequirement
  | attributeRequirement
  | usagePool
deriving DecidableEq

def workerAmountValues (w : MatchWorker) : StringMap Int :=
  [("amount.worker.vcpu", w.cpuCount), ("amount.worker.memory.mb", w.ramMb),
    ("amount.worker.gpu.count", w.gpuCount), ("amount.worker.gpu.memory.mb", w.gpuVRAMMb)]
def workerAmountValue (k : Casing) (w : MatchWorker) (name : String) : Int :=
  ((workerAmountValues w).lookup (k.lower name)).getD 0

def boundHolds (f : Float64) (fails : f.Val → Bool) : Option String → Bool
  | none => true
  | some text =>
    match f.parse text with
    | none => false
    | some v => !fails v

def satisfiesAmount (f : Float64) (req : StepAmountBounds) (workerVal : Int) : Bool :=
  boundHolds f (fun v => f.less (f.ofInt workerVal) v) req.min &&
    boundHolds f (fun v => f.less v (f.ofInt workerVal)) req.max

def checkAmounts (k : Casing) (f : Float64) (amts : List StepAmountBounds) (w : MatchWorker) :
    Except MatchRejection Unit :=
  amts.forM fun req =>
    if (k.cutFold req.name usagePoolNames).isSome then .ok ()
    else if satisfiesAmount f req (workerAmountValue k w req.name) then .ok ()
    else .error .amountRequirement

def osFamily (k : Casing) (workerOS : String) : String :=
  if k.lower workerOS = "darwin" then "macos" else k.lower workerOS
def cpuArch (k : Casing) (workerArch : String) : String :=
  if k.lower workerArch = "amd64" then "x86_64" else k.lower workerArch
def workerAttributes (k : Casing) (w : MatchWorker) : StringMap String :=
  [("attr.worker.os.family", osFamily k w.os), ("attr.worker.os.version", w.osVersion),
    ("attr.worker.cpu.arch", cpuArch k w.arch), ("attr.worker.computelocation", w.computeLocation)]

def tagValueFold (k : Casing) (tags : StringMap String) (key : String) : String :=
  match tags.lookup key with
  | some v => v
  | none =>
    match tags.find? fun e => k.eqFold e.1 key with
    | some e => e.2
    | none => ""

def workerAttributeValue (k : Casing) (w : MatchWorker) (name : String) : String :=
  match (workerAttributes k w).lookup (k.lower name) with
  | some v => v
  | none =>
    match k.cutFold name "attr.worker.tag." with
    | some key => tagValueFold k w.tags key
    | none => ""

def satisfiesAttribute (k : Casing) (req : StepAttributeRequirement) (val : String) : Bool :=
  (req.anyOf = [] || req.anyOf.any fun accepted => k.eqFold val accepted) &&
    req.allOf.all fun required => k.eqFold val required

def checkAttributes (k : Casing) (attrs : List StepAttributeRequirement) (w : MatchWorker) :
    Except MatchRejection Unit :=
  attrs.forM fun req =>
    if satisfiesAttribute k req (workerAttributeValue k w req.name) then .ok ()
    else .error .attributeRequirement

def poolFree (k : Casing) (usage : UsageContext) (name : String) : Bool :=
  match usage.pools.lookup (k.lower name) with
  | none => false
  | some pool =>
    pool.maxConcurrent ≤ 0 || (usage.activeCounts.lookup (k.lower name)).getD 0 < pool.maxConcurrent

def checkUsagePools (k : Casing) (names : List String) (usage : UsageContext) :
    Except MatchRejection Unit :=
  names.forM fun name => if poolFree k usage name then .ok () else .error .usagePool

def checkHostRequirements (k : Casing) (f : Float64) (w : MatchWorker) (usage : UsageContext) :
    Option StepHostRequirements → Except MatchRejection Unit
  | none => .ok ()
  | some reqs => do
    checkAmounts k f reqs.amounts w
    checkAttributes k reqs.attributes w
    checkUsagePools k reqs.usagePools usage

def workerEligible (k : Casing) (f : Float64) (w : MatchWorker) (job : MatchJob) (step : SubmittedStep)
    (usage : UsageContext) : Except MatchRejection Unit := do
  if w.farmID ≠ "" ∧ w.farmID ≠ job.farmID then throw .farm
  if w.queueID ≠ "" ∧ w.queueID ≠ job.queueID then throw .queue
  if step.computeLocation ≠ "" ∧ step.computeLocation ≠ w.computeLocation then throw .computeLocation
  checkHostRequirements k f w usage step.hostRequirements

/-! ## Eligibility by its parts -/

lemma forM_eq_ok_iff {α ε : Type} {f : α → Except ε Unit} {as : List α} :
    as.forM f = .ok () ↔ ∀ a ∈ as, f a = .ok () := by
  induction as with
  | nil => simp [pure, Except.pure]
  | cons a as ih =>
    change (f a >>= fun _ => as.forM f) = .ok () ↔ _
    rw [except_bind_eq_ok]
    constructor
    · rintro ⟨_, ha, has⟩ b hb
      rcases List.mem_cons.mp hb with rfl | hb
      · exact ha
      · exact ih.mp has b hb
    · intro h
      exact ⟨(), h a List.mem_cons_self, ih.mpr fun b hb => h b (List.mem_cons_of_mem a hb)⟩

lemma guard_eq_ok {ε : Type} {c : Prop} [Decidable c] {e : ε} {rest : Except ε Unit} :
    (do if c then throw e
        rest) = .ok () ↔ ¬c ∧ rest = .ok () := by
  by_cases hc : c
  · simp [hc, throw, throwThe, MonadExceptOf.throw, bind, Except.bind]
  · simp [hc]

structure Eligible (k : Casing) (f : Float64) (w : MatchWorker) (job : MatchJob) (step : SubmittedStep)
    (usage : UsageContext) : Prop where
  farm : w.farmID = "" ∨ w.farmID = job.farmID
  queue : w.queueID = "" ∨ w.queueID = job.queueID
  location : step.computeLocation = "" ∨ step.computeLocation = w.computeLocation
  amounts : ∀ reqs, step.hostRequirements = some reqs → ∀ a ∈ reqs.amounts,
    k.cutFold a.name usagePoolNames = none → satisfiesAmount f a (workerAmountValue k w a.name) = true
  attributes : ∀ reqs, step.hostRequirements = some reqs → ∀ a ∈ reqs.attributes,
    satisfiesAttribute k a (workerAttributeValue k w a.name) = true
  pools : ∀ reqs, step.hostRequirements = some reqs → ∀ name ∈ reqs.usagePools, poolFree k usage name = true

variable {k : Casing} {f : Float64} {w : MatchWorker} {usage : UsageContext}

lemma checkAmounts_ok {amts : List StepAmountBounds} :
    checkAmounts k f amts w = .ok () ↔ ∀ a ∈ amts, k.cutFold a.name usagePoolNames = none →
      satisfiesAmount f a (workerAmountValue k w a.name) = true := by
  unfold checkAmounts
  rw [forM_eq_ok_iff]
  refine forall₂_congr fun a _ => ?_
  cases k.cutFold a.name usagePoolNames with
  | some rest => simp
  | none => cases satisfiesAmount f a (workerAmountValue k w a.name) <;> simp

lemma checkAttributes_ok {attrs : List StepAttributeRequirement} :
    checkAttributes k attrs w = .ok () ↔ ∀ a ∈ attrs,
      satisfiesAttribute k a (workerAttributeValue k w a.name) = true := by
  unfold checkAttributes
  rw [forM_eq_ok_iff]
  refine forall₂_congr fun a _ => ?_
  cases satisfiesAttribute k a (workerAttributeValue k w a.name) <;> simp

lemma checkUsagePools_ok {names : List String} :
    checkUsagePools k names usage = .ok () ↔ ∀ name ∈ names, poolFree k usage name = true := by
  unfold checkUsagePools
  rw [forM_eq_ok_iff]
  refine forall₂_congr fun name _ => ?_
  cases poolFree k usage name <;> simp

lemma checkHostRequirements_ok
    {reqs : StepHostRequirements} : checkHostRequirements k f w usage (some reqs) = .ok () ↔
      checkAmounts k f reqs.amounts w = .ok () ∧ checkAttributes k reqs.attributes w = .ok () ∧
        checkUsagePools k reqs.usagePools usage = .ok () := by
  unfold checkHostRequirements
  rw [except_bind_eq_ok]
  constructor
  · rintro ⟨_, hamounts, hrest⟩
    obtain ⟨_, hattrs, hpools⟩ := except_bind_eq_ok.mp hrest
    exact ⟨hamounts, hattrs, hpools⟩
  · rintro ⟨hamounts, hattrs, hpools⟩
    exact ⟨(), hamounts, except_bind_eq_ok.mpr ⟨(), hattrs, hpools⟩⟩

lemma workerEligible_iff {job : MatchJob} {step : SubmittedStep} :
    workerEligible k f w job step usage = .ok () ↔ Eligible k f w job step usage := by
  unfold workerEligible
  rw [guard_eq_ok, guard_eq_ok, guard_eq_ok]
  cases hreqs : step.hostRequirements with
  | none =>
    constructor
    · rintro ⟨hfarm, hqueue, hloc, -⟩
      exact ⟨by tauto, by tauto, by tauto, by simp [hreqs], by simp [hreqs], by simp [hreqs]⟩
    · rintro ⟨hfarm, hqueue, hloc, -, -, -⟩
      exact ⟨by tauto, by tauto, by tauto, rfl⟩
  | some reqs =>
    rw [checkHostRequirements_ok, checkAmounts_ok, checkAttributes_ok, checkUsagePools_ok]
    constructor
    · rintro ⟨hfarm, hqueue, hloc, hamounts, hattrs, hpools⟩
      exact ⟨by tauto, by tauto, by tauto, by simpa [hreqs] using hamounts, by simpa [hreqs] using hattrs,
        by simpa [hreqs] using hpools⟩
    · rintro ⟨hfarm, hqueue, hloc, hamounts, hattrs, hpools⟩
      exact ⟨by tauto, by tauto, by tauto, hamounts reqs hreqs, hattrs reqs hreqs, hpools reqs hreqs⟩

end Sqi
