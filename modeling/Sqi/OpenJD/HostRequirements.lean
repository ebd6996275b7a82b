import Mathlib.Data.Rat.Defs
import Mathlib.Algebra.Order.Ring.Rat
import Sqi.OpenJD.FormatString

/-! Host requirements: the checks a template's requirements pass (`validate.go`) and the form a step stores
them in (`toStoreHostRequirements`, `submit.go`). -/

namespace Sqi
open List GoText

structure Floats where
  Val : Type
  parse : String → Option Val
  nonpos : Val → Bool
  toInt : Val → Int

structure Float64 extends Floats where
  ofInt : Int → Val
  less : Val → Val → Bool
  number : Val → Option ℚ
  finite_ofInt : ∀ n, ∃ x, number (ofInt n) = some x
  less_iff : ∀ {a b x y}, number a = some x → number b = some y → (less a b = true ↔ x < y)

structure AmountRequirement where
  name : String
  min : Option String
  max : Option String
  deriving DecidableEq

structure AttributeRequirement where
  name : String
  anyOf : List String
  allOf : List String
  deriving DecidableEq

structure HostRequirements where
  amounts : List AmountRequirement
  attributes : List AttributeRequirement
  deriving DecidableEq

structure ValidationError where
  pointer : String
  message : String
  deriving DecidableEq

structure HostRules where
  casing : Casing
  floats : Float64
  quote : String → String
  showFloat : floats.Val → String

def quoteText (quote : String → String) (t : Text) : String := quote (String.ofList t)

def FormatError.message (quote : String → String) : FormatError → String
  | .unclosed ref => s!"malformed format-string reference {quoteText quote ref}: missing closing \"\x7d\x7d\""
  | .emptyName ref => s!"malformed format-string reference {quoteText quote ref}: empty variable name"
  | .invalidName ref =>
    s!"malformed format-string reference {quoteText quote ref}: not a valid dotted identifier"
  | .unresolved [name] => s!"unresolved format-string variable {quoteText quote name}"
  | .unresolved names =>
    "unresolved format-string variables: " ++ ", ".intercalate (names.map (quoteText quote))
  | .expression text => text

namespace HostRules
variable (rules : HostRules)

def validateCapabilityNameRequired (name ptr : String) : List ValidationError :=
  if name.length = 0 then [⟨ptr, "name is required"⟩] else []

def validateCapabilityPrefix (name want ptr : String) : List ValidationError :=
  if name = "" then []
  else
    let malformed : List ValidationError :=
      [⟨ptr, s!"capability name {rules.quote name} must begin with {rules.quote want}, " ++
        "optionally preceded by a single \"<identifier>:\" vendor prefix"⟩]
    match cut ":".toList name.toList with
    | none => if (rules.casing.cutFold name want).isNone then malformed else []
    | some (vendor, rest) =>
      if !isIdentifier (String.ofList vendor) then malformed
      else if (rules.casing.cutFold (String.ofList rest) want).isNone then malformed
      else []

def reservedCapabilityScopes : List String := ["worker", "job", "step", "task"]
def specDefinedCapabilities : List String :=
  ["amount.worker.vcpu", "amount.worker.memory", "amount.worker.gpu", "amount.worker.gpu.memory",
    "amount.worker.disk.scratch", "attr.worker.os.family", "attr.worker.cpu.arch"]
def sqiReservedScopeNames : List String :=
  ["amount.worker.usagepool.", "attr.worker.tag.", "attr.worker.os.version", "attr.worker.computelocation"]
def scopeSegment (name want : Text) : Text :=
  let rest := name.drop want.length
  ((cut ".".toList rest).map (·.1)).getD rest

def validateReservedScope (name want ptr : String) : List ValidationError :=
  let lowered := (rules.casing.lower name).toList
  let check (loc : Text) : List ValidationError :=
    if want.toList.isPrefixOf loc then
      let scope := String.ofList (scopeSegment loc want.toList)
      if !reservedCapabilityScopes.contains scope then []
      else if specDefinedCapabilities.contains (String.ofList loc) then []
      else if sqiReservedScopeNames.any fun allowed => decide (loc = allowed.toList) ||
          (".".toList.isSuffixOf allowed.toList && allowed.toList.isPrefixOf loc) then []
      else
        [⟨ptr, s!"capability name {rules.quote name} uses the reserved scope {rules.quote scope} " ++
          "but is not a defined capability; use a custom scope or a vendor prefix"⟩]
    else []
  match cut ":".toList lowered with
  | none => check lowered
  | some (vendor, rest) => if isIdentifier (String.ofList vendor) then [] else check rest

def validateCapabilityName (name want ptr : String) : List ValidationError :=
  validateCapabilityNameRequired name ptr ++ rules.validateCapabilityPrefix name want ptr ++
    rules.validateReservedScope name want ptr
def duplicateName (what : String) (seen : List String) (name ptr : String) : List ValidationError :=
  if name ≠ "" ∧ rules.casing.lower name ∈ seen then
    [⟨ptr, s!"duplicate {what} capability name {rules.quote name} (names are case-insensitive)"⟩]
  else []
def seeName (seen : List String) (name : String) : List String :=
  if name = "" then seen else rules.casing.lower name :: seen

def validateAmountNames (base : String) : Nat → List String → List AmountRequirement → List ValidationError
  | _, _, [] => []
  | i, seen, a :: amounts =>
    let ptr := s!"{base}/amounts/{i}/name"
    rules.validateCapabilityName a.name "amount." ptr ++ rules.duplicateName "amount" seen a.name ptr ++
      validateAmountNames base (i + 1) (rules.seeName seen a.name) amounts

def isAttributeValue (v : String) : Bool :=
  match v.toList with
  | [] => false
  | c :: cs => isIdentChar c && !('0' ≤ c && c ≤ '9') && cs.all fun c => isIdentChar c || c = '-'

def validateAttributeValue (v ptr : String) : List ValidationError :=
  if hasRef v.toList then []
  else if !isAttributeValue v then
    [⟨ptr, s!"attribute value {rules.quote v} must start with a letter or underscore and contain only " ++
      "letters, digits, underscores, and hyphens"⟩]
  else []

def eachValue (check : String → String → List ValidationError) (ptr : String) (values : List String) :
    List ValidationError :=
  values.zipIdx.flatMap fun p => check p.1 s!"{ptr}/{p.2}"
def reservedAttributeAllowed : List (String × List String) :=
  [("attr.worker.os.family", ["linux", "macos", "windows"]), ("attr.worker.cpu.arch", ["arm64", "x86_64"])]

def validateAttributeNames (base : String) :
    Nat → List String → List AttributeRequirement → List ValidationError
  | _, _, [] => []
  | i, seen, a :: attributes =>
    let ptr := s!"{base}/attributes/{i}"
    rules.validateCapabilityName a.name "attr." (ptr ++ "/name") ++
      rules.duplicateName "attribute" seen a.name (ptr ++ "/name") ++
      eachValue rules.validateAttributeValue (ptr ++ "/anyOf") a.anyOf ++
      eachValue rules.validateAttributeValue (ptr ++ "/allOf") a.allOf ++
      (if (reservedAttributeAllowed.lookup (rules.casing.lower a.name)).isSome ∧ 1 < a.allOf.length then
        [⟨ptr ++ "/allOf",
          s!"{rules.quote a.name} holds a single value, so allOf cannot require {a.allOf.length} of them"⟩]
      else []) ++
      (if a.anyOf.length + a.allOf.length = 0 then
        [⟨ptr, "attribute must declare at least one of anyOf or allOf"⟩]
      else []) ++
      validateAttributeNames base (i + 1) (rules.seeName seen a.name) attributes

def parseAmountBound (bound : Option String) (ptr : String) :
    Option rules.floats.Val × List ValidationError :=
  match bound with
  | none => (none, [])
  | some text =>
    if hasRef text.toList then (none, [])
    else
      match rules.floats.parse text with
      | none => (none, [⟨ptr, s!"value {rules.quote text} is not a valid number"⟩])
      | some v =>
        if (rules.floats.number v).isNone then
          (none, [⟨ptr, s!"value {rules.quote text} is not a finite number"⟩])
        else (some v, [])

def validateAmountBound (base : String) (i : Nat) (a : AmountRequirement) : List ValidationError :=
  let ptr := s!"{base}/amounts/{i}"
  if a.min = none ∧ a.max = none then [⟨ptr, "at least one of min or max must be provided"⟩]
  else
    let (low, lowErrs) := rules.parseAmountBound a.min (ptr ++ "/min")
    let (high, highErrs) := rules.parseAmountBound a.max (ptr ++ "/max")
    lowErrs ++ highErrs ++
      (match low with
        | some v =>
          if rules.floats.less v (rules.floats.ofInt 0) then
            [⟨ptr ++ "/min", s!"min must be non-negative (got {rules.showFloat v})"⟩]
          else []
        | none => []) ++
      (match high with
        | some v =>
          if rules.floats.nonpos v then
            [⟨ptr ++ "/max", s!"max must be positive (got {rules.showFloat v})"⟩]
          else []
        | none => []) ++
      (match low, high with
        | some l, some h =>
          if rules.floats.less h l then
            [⟨ptr ++ "/min", s!"min {rules.showFloat l} must not exceed max {rules.showFloat h}"⟩]
          else []
        | _, _ => [])

def validateAmountBounds (amounts : List AmountRequirement) (base : String) : List ValidationError :=
  amounts.zipIdx.flatMap fun p => rules.validateAmountBound base p.2 p.1

def validateReservedAttribute (base : String) (i : Nat) (a : AttributeRequirement) :
    List ValidationError :=
  match reservedAttributeAllowed.lookup (rules.casing.lower a.name) with
  | none => []
  | some allowed =>
    let ptr := s!"{base}/attributes/{i}"
    let check (v ptr : String) : List ValidationError :=
      if allowed.contains (rules.casing.lower v) then []
      else
        [⟨ptr, s!"value {rules.quote v} is not allowed for reserved attribute {rules.quote a.name}; " ++
          "allowed: " ++ ", ".intercalate allowed⟩]
    eachValue check (ptr ++ "/anyOf") a.anyOf ++ eachValue check (ptr ++ "/allOf") a.allOf

def validateReservedAttributes (attributes : List AttributeRequirement) (base : String) :
    List ValidationError :=
  attributes.zipIdx.flatMap fun p => rules.validateReservedAttribute base p.2 p.1
def jobScope : List String := ["Param.", "RawParam."]

def validateFormatString (s ptr : String) : List ValidationError :=
  match references s.toList with
  | .error e => [⟨ptr, s!"malformed format string: {e.message rules.quote}"⟩]
  | .ok refs =>
    refs.flatMap fun r =>
      if jobScope.any fun p => p.toList.isPrefixOf r then []
      else
        [⟨ptr, s!"reference {quoteText rules.quote r} is not available here; " ++
          "allowed: " ++ ", ".intercalate jobScope⟩]

def validateHostRequirementFormatStrings (hr : HostRequirements) (base : String) : List ValidationError :=
  (hr.amounts.zipIdx.flatMap fun p =>
    let ptr := s!"{base}/amounts/{p.2}"
    (p.1.min.toList.flatMap fun m => rules.validateFormatString m (ptr ++ "/min")) ++
      p.1.max.toList.flatMap fun m => rules.validateFormatString m (ptr ++ "/max")) ++
  hr.attributes.zipIdx.flatMap fun p =>
    let ptr := s!"{base}/attributes/{p.2}"
    eachValue rules.validateFormatString (ptr ++ "/anyOf") p.1.anyOf ++
      eachValue rules.validateFormatString (ptr ++ "/allOf") p.1.allOf

def validateHostRequirements (hr : HostRequirements) (base : String) (exprDeclared : Bool) :
    List ValidationError :=
  (if hr.amounts.length + hr.attributes.length = 0 then
    [⟨base, "hostRequirements must declare at least one amount or attribute when present"⟩]
  else []) ++
    rules.validateAmountNames base 0 [] hr.amounts ++ rules.validateAttributeNames base 0 [] hr.attributes ++
    rules.validateAmountBounds hr.amounts base ++ rules.validateReservedAttributes hr.attributes base ++
    if exprDeclared then [] else rules.validateHostRequirementFormatStrings hr base

variable {rules} {a : AmountRequirement} {base : String}

end HostRules

/-! ## The stored form -/

structure StepAmountRequirement where
  name : String
  min : Option String
  deriving DecidableEq

structure StepAmountBounds extends StepAmountRequirement where
  max : Option String
  deriving DecidableEq

structure StepAttributeRequirement where
  name : String
  anyOf : List String
  allOf : List String
  deriving DecidableEq

structure StepHostRequirements where
  amounts : List StepAmountBounds
  attributes : List StepAttributeRequirement
  usagePools : List String
  deriving DecidableEq

def usagePoolNames : String := "amount.worker.usagepool."
def computeLocationAttr : String := "attr.worker.computelocation"
def usagePoolOf (casing : Casing) (name : String) : Option String :=
  (casing.cutFold name usagePoolNames).filter (· ≠ "")

def declaredLocation (casing : Casing) (attributes : List AttributeRequirement) : String :=
  attributes.foldl (fun loc a =>
    if casing.eqFold a.name computeLocationAttr then
      match a.anyOf, a.allOf with
      | [v], _ => v
      | _, [v] => v
      | _, _ => loc
    else loc) ""

def toStoreHostRequirements (casing : Casing) : Option HostRequirements → Option StepHostRequirements × String
  | none => (none, "")
  | some hr =>
    (some
      { amounts := hr.amounts.map fun a => ⟨⟨a.name, a.min⟩, a.max⟩
        attributes := hr.attributes.map fun a => ⟨a.name, a.anyOf, a.allOf⟩
        usagePools := hr.amounts.filterMap fun a => usagePoolOf casing a.name },
      declaredLocation casing hr.attributes)

structure CoreRules where
  foldRune : Char → Char
  floats : Floats

def requiredCoresFromAmounts (rules : CoreRules) : List StepAmountRequirement → Option Int
  | [] => none
  | a :: amts =>
    if equalFold rules.foldRune a.name "amount.worker.vcpu" then
      match a.min with
      | none => some 1
      | some text =>
        match rules.floats.parse text with
        | none => none
        | some f => if rules.floats.nonpos f then none else some (max (rules.floats.toInt f) 1)
    else requiredCoresFromAmounts rules amts

lemma requiredCoresFromAmounts_pos {rules : CoreRules} {amts : List StepAmountRequirement} {n : Int}
    (h : requiredCoresFromAmounts rules amts = some n) : 1 ≤ n := by
  induction amts with
  | nil => cases h
  | cons a amts ih =>
    unfold requiredCoresFromAmounts at h
    split at h
    · split at h
      · obtain rfl := Option.some.inj h
        omega
      split at h
      · cases h
      split at h
      · cases h
      · obtain rfl := Option.some.inj h
        exact le_max_right _ _
    · exact ih h

end Sqi
