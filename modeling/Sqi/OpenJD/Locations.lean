import Mathlib.Data.List.Dedup
import Mathlib.Data.List.TakeWhile
import Sqi.OpenJD.Template

/-! Storage locations in a template (`locations.go`) and their check at submission
(`validateStorageLocations`, `submit.go`). -/

namespace Sqi
open GoText Program List

structure LocRef where
  locationName : Text
  relPath : Text
  raw : Text
deriving DecidableEq

def isRegexpSpace (c : Char) : Bool := [' ', '\t', '\n', '\r', '\x0c'].contains c
def isLocPathChar (c : Char) : Bool := !isRegexpSpace c && c ≠ '"' && c ≠ '\''
def isLocNameChar (c : Char) : Bool := isLocPathChar c && c ≠ '/'
def locScheme : Text := "loc://".toList
def locPath : Text → Text
  | '/' :: s => '/' :: s.takeWhile isLocPathChar
  | _ => []

def matchLoc (s : Text) : Option LocRef :=
  if locScheme <+: s then
    let rest := s.drop locScheme.length
    let name := rest.takeWhile isLocNameChar
    if name = [] then none
    else
      let path := locPath (rest.drop name.length)
      some ⟨name, path, locScheme ++ name ++ path⟩
  else none

def locPieces : (skip : Nat) → Text → List (Char ⊕ LocRef)
  | _, [] => []
  | k + 1, _ :: s => locPieces k s
  | 0, c :: s =>
    match matchLoc (c :: s) with
    | some r => .inr r :: locPieces (r.raw.length - 1) s
    | none => .inl c :: locPieces 0 s

def extractLocRefs (s : String) : List LocRef := (locPieces 0 s.toList).filterMap Sum.getRight?
def replaceLoc {ε : Type} (resolve : String → String → Except ε String) (raw : Text) : Except ε Text :=
  match (extractLocRefs (String.ofList raw)).head? with
  | none => .ok raw
  | some m => (resolve (String.ofList m.locationName) (String.ofList m.relPath)).map String.toList

def resolveLocURIs {ε : Type} (resolve : String → String → Except ε String) (s : String) :
    Except ε String := do
  let texts ← (locPieces 0 s.toList).mapM fun
    | .inl c => .ok [c]
    | .inr r => replaceLoc resolve r.raw
  return String.ofList texts.flatten

/-! ## A reference is matched again as itself -/

lemma takeWhile_append_stop {α : Type} {p : α → Bool} {as bs : List α} (has : ∀ a ∈ as, p a = true)
    (hbs : ∀ b, bs.head? = some b → p b = false) : (as ++ bs).takeWhile p = as := by
  rw [takeWhile_append_of_pos has]
  cases bs with
  | nil => simp
  | cons b bs => simp [hbs b rfl]

lemma locPath_cases (s : Text) :
    locPath s = [] ∨ ∃ s' : Text, locPath s = '/' :: s'.takeWhile isLocPathChar := by
  unfold locPath
  split
  · exact .inr ⟨_, rfl⟩
  · exact .inl rfl

lemma locPath_idem (s : Text) : locPath (locPath s) = locPath s := by
  rcases locPath_cases s with h | ⟨s', h⟩
  · rw [h]
    rfl
  · rw [h, locPath, takeWhile_idem]

variable {s : Text} {r : LocRef} {computeLoc name : String}

lemma head_locPath {c : Char} (h : (locPath s).head? = some c) : isLocNameChar c = false := by
  rcases locPath_cases s with hs | ⟨s', hs⟩
  · rw [hs] at h
    cases h
  · rw [hs] at h
    obtain rfl := Option.some.inj h
    rfl

lemma matchLoc_eq_some (h : matchLoc s = some r) :
    r.locationName ≠ [] ∧ (∀ c ∈ r.locationName, isLocNameChar c = true) ∧
      (∃ rest, r.relPath = locPath rest) ∧ r.raw = locScheme ++ r.locationName ++ r.relPath := by
  unfold matchLoc at h
  split at h
  · dsimp only at h
    split at h
    · cases h
    · obtain rfl := Option.some.inj h
      exact ⟨‹_›, fun c => mem_takeWhile_imp, ⟨_, rfl⟩, rfl⟩
  · cases h

lemma matchLoc_raw (h : matchLoc s = some r) : matchLoc r.raw = some r := by
  obtain ⟨hne, hname, ⟨rest, hpath⟩, hraw⟩ := matchLoc_eq_some h
  have hdrop : r.raw.drop locScheme.length = r.locationName ++ r.relPath := by
    rw [hraw, append_assoc, drop_left]
  have htake : (r.locationName ++ r.relPath).takeWhile isLocNameChar = r.locationName := by
    refine takeWhile_append_stop hname fun c hc => head_locPath (s := rest) ?_
    rw [← hpath]
    exact hc
  have hscheme : locScheme <+: r.raw := ⟨r.locationName ++ r.relPath, by rw [hraw, append_assoc]⟩
  have hrel : locPath r.relPath = r.relPath := by rw [hpath, locPath_idem]
  simp only [matchLoc, if_pos hscheme, hdrop, htake, if_neg hne, drop_left, hrel, ← hraw]

lemma mem_locPieces {skip : Nat} (h : .inr r ∈ locPieces skip s) : ∃ s', matchLoc s' = some r := by
  induction s generalizing skip with
  | nil => cases skip <;> cases h
  | cons c s ih =>
    cases skip with
    | succ k => exact ih h
    | zero =>
      rw [locPieces] at h
      cases hm : matchLoc (c :: s) with
      | some r' =>
        rw [hm] at h
        rcases mem_cons.mp h with h | h
        · cases h
          exact ⟨_, hm⟩
        · exact ih h
      | none =>
        rw [hm] at h
        rcases mem_cons.mp h with h | h
        · cases h
        · exact ih h

lemma mem_extractLocRefs {s : String} : r ∈ extractLocRefs s ↔ .inr r ∈ locPieces 0 s.toList := by
  unfold extractLocRefs
  rw [mem_filterMap]
  constructor
  · rintro ⟨c | r', hmem, h⟩
    · cases h
    · cases h
      exact hmem
  · exact fun h => ⟨.inr r, h, rfl⟩

lemma extractLocRefs_raw {s : String} (h : r ∈ extractLocRefs s) :
    (extractLocRefs (String.ofList r.raw)).head? = some r := by
  obtain ⟨s', hs'⟩ := mem_locPieces (mem_extractLocRefs.mp h)
  have hm := matchLoc_raw hs'
  rw [extractLocRefs, String.toList_ofList]
  cases hraw : r.raw with
  | nil =>
    rw [hraw] at hm
    cases hm
  | cons c raw =>
    rw [hraw] at hm
    rw [locPieces, hm]
    rfl

lemma resolveLocURIs_ok {ε : Type} {resolve : String → String → Except ε String} {s t : String}
    (h : resolveLocURIs resolve s = .ok t) (hr : r ∈ extractLocRefs s) :
    ∃ path, resolve (String.ofList r.locationName) (String.ofList r.relPath) = .ok path := by
  obtain ⟨texts, htexts, -⟩ := except_bind_eq_ok.mp h
  obtain ⟨text, -, hpiece⟩ := exists_ok_of_mem_mapM htexts (mem_extractLocRefs.mp hr)
  dsimp only [replaceLoc] at hpiece
  rw [extractLocRefs_raw hr] at hpiece
  dsimp only at hpiece
  cases hres : resolve (String.ofList r.locationName) (String.ofList r.relPath) with
  | ok path => exact ⟨path, rfl⟩
  | error e =>
    rw [hres] at hpiece
    cases hpiece

lemma resolveLocURIs_error {ε : Type} {resolve : String → String → Except ε String} {s : String} {e : ε}
    (h : resolveLocURIs resolve s = .error e) :
    ∃ r ∈ extractLocRefs s, resolve (String.ofList r.locationName) (String.ofList r.relPath) = .error e := by
  rcases except_bind_eq_error.mp h with h | ⟨_, _, h⟩
  · obtain ⟨piece, hpiece, h⟩ := mapM_eq_error h
    cases piece with
    | inl c => cases h
    | inr r =>
      have hr := mem_extractLocRefs.mpr hpiece
      refine ⟨r, hr, ?_⟩
      dsimp only [replaceLoc] at h
      rw [extractLocRefs_raw hr] at h
      dsimp only at h
      cases hres : resolve (String.ofList r.locationName) (String.ofList r.relPath) with
      | ok text =>
        rw [hres] at h
        cases h
      | error e' =>
        rw [hres] at h
        cases h
        rfl
  · cases h

/-! ## The texts of a template -/

def Action.locTexts (a : Action) : List String := a.command :: a.args
def Environment.locTexts (e : Environment) : List String :=
  e.vars.map (·.2) ++ e.script.toList.flatMap fun s =>
    s.onEnter.toList.flatMap Action.locTexts ++ s.onExit.toList.flatMap Action.locTexts ++
      s.embeddedFiles.map (·.data)
def StepTemplate.locTexts (st : StepTemplate) : List String :=
  (st.script.toList.flatMap fun s => s.onRun.locTexts ++ s.embeddedFiles.map (·.data)) ++
    st.stepEnvironments.flatMap Environment.locTexts ++
    st.parameterSpace.toList.flatMap fun ps => ps.taskParameterDefinitions.flatMap (·.rangeList)

def JobTemplate.jobLocTexts (tmpl : JobTemplate) : List String :=
  tmpl.parameterDefinitions.flatMap (·.default.toList) ++ tmpl.jobEnvironments.flatMap Environment.locTexts
def locNames (texts : List String) : List String :=
  (texts.flatMap fun s => (extractLocRefs s).map fun r => String.ofList r.locationName).dedup
def extractTemplateLocRefs (tmpl : JobTemplate) : List String :=
  locNames (tmpl.jobLocTexts ++ tmpl.steps.flatMap StepTemplate.locTexts)
def extractStepLocRefs (st : StepTemplate) : List String := locNames st.locTexts
def extractJobLevelLocRefs (tmpl : JobTemplate) : List String := locNames tmpl.jobLocTexts

structure StorageLocation where
  name : String
  roots : StringMap String
deriving DecidableEq

inductive LocError where
  | notFound (name : String)
  | noRoot (name computeLocation : String)
deriving DecidableEq

def resolveRoot (name : String) (roots : StringMap String) (computeLocation : String) :
    Except LocError String :=
  match (if computeLocation = "" then none else roots.lookup computeLocation) with
  | some root => .ok root
  | none =>
    match roots.lookup "default" with
    | some root => .ok root
    | none => .error (.noRoot name computeLocation)

def trimRight (cutset : Text) (s : Text) : Text :=
  (s.reverse.dropWhile fun c => cutset.contains c).reverse

def joinPath (root relPath : String) : String :=
  let rel := match relPath.toList with
    | '/' :: s => s
    | s => s
  if rel = [] then root
  else if "s3://".toList.isPrefixOf root.toList then
    String.ofList (trimRight ['/'] root.toList ++ '/' :: rel)
  else
    let sep := if root.toList.contains '\\' && !root.toList.contains '/' then '\\' else '/'
    String.ofList (trimRight ['/', '\\'] root.toList ++ sep :: rel.map fun c => if c = '/' then sep else c)

/-! ## The check at submission -/

def missingRootMsg (quote : String → String) (name computeLoc : String) (roots : StringMap String) :
    Option String :=
  let hasDefault := (roots.lookup "default").isSome
  if computeLoc ≠ "" then
    if (roots.lookup computeLoc).isSome then none
    else if hasDefault then none
    else some (s!"storage location {quote name} has no root for compute location {quote computeLoc} and " ++
      "no default root")
  else if hasDefault then none
  else some (s!"storage location {quote name} has no default root " ++
    "(required when no compute location affinity is declared)")

abbrev LocRootCache := StringMap (Except String (StringMap String))
abbrev LocationLookup := String → Option StorageLocation

def buildLocRootCache (quote : String → String) (lookup : LocationLookup) (names : List String) :
    LocRootCache :=
  names.map fun name =>
    (name, match lookup name with
      | none => .error s!"location {quote name} not found in registry"
      | some loc => .ok loc.roots)

def LocRootCache.entry (cache : LocRootCache) (name : String) : Except String (StringMap String) :=
  (cache.lookup name).getD (.ok [])

def checkLocRootCoverage (quote : String → String) (stepIdx : Nat) (name computeLoc : String)
    (cache : LocRootCache) : List String :=
  match cache.entry name with
  | .error e => [s!"/steps/{stepIdx}: {e}"]
  | .ok roots => (missingRootMsg quote name computeLoc roots).toList.map fun msg => s!"/steps/{stepIdx}: {msg}"

def validateStepLocRefs (quote : String → String) (casing : Casing) (steps : List StepTemplate)
    (cache : LocRootCache) : List String :=
  steps.zipIdx.flatMap fun p =>
    (extractStepLocRefs p.1).flatMap fun name =>
      checkLocRootCoverage quote p.2 name (toStoreHostRequirements casing p.1.hostRequirements).2 cache

def validateJobLocRefs (quote : String → String) (tmpl : JobTemplate) (cache : LocRootCache) :
    List String :=
  (extractJobLevelLocRefs tmpl).flatMap fun name =>
    match cache.entry name with
    | .error _ => []
    | .ok roots => (missingRootMsg quote name "" roots).toList.map fun msg => "/job: " ++ msg

def unreportedCacheErrors (quote : String → String) (cache : LocRootCache) (existing : List String) :
    List String :=
  cache.flatMap fun e =>
    match e.2 with
    | .ok _ => []
    | .error err =>
      if existing.any fun msg => contains msg.toList (quote e.1).toList then [] else [err]

def validateStorageLocations (quote : String → String) (casing : Casing) (lookup : LocationLookup)
    (tmpl : JobTemplate) : Except String Unit :=
  let allNames := extractTemplateLocRefs tmpl
  if allNames = [] then .ok ()
  else
    let cache := buildLocRootCache quote lookup allNames
    let errs := validateStepLocRefs quote casing tmpl.steps cache ++ validateJobLocRefs quote tmpl cache
    let errs := errs ++ unreportedCacheErrors quote cache errs
    if errs = [] then .ok () else .error ("; ".intercalate (errs.mergeSort (· ≤ ·)))

/-! ## References that are covered -/

lemma mem_locNames {texts : List String} : name ∈ locNames texts ↔
    ∃ s ∈ texts, ∃ r ∈ extractLocRefs s, String.ofList r.locationName = name := by
  simp only [locNames, mem_dedup, mem_flatMap, mem_map]

def RootCovered (lookup : LocationLookup) (computeLoc name : String) : Prop :=
  ∃ loc, lookup name = some loc ∧
    ((computeLoc ≠ "" ∧ (loc.roots.lookup computeLoc).isSome) ∨ (loc.roots.lookup "default").isSome)

lemma RootCovered.resolveRoot_ok {lookup : LocationLookup} {loc : StorageLocation}
    (covered : RootCovered lookup computeLoc name) (hloc : lookup name = some loc) {place : String}
    (hplace : computeLoc = "" ∨ computeLoc = place) : ∃ root, resolveRoot name loc.roots place = .ok root := by
  obtain ⟨loc', hloc', hroots⟩ := covered
  obtain rfl : loc = loc' := Option.some.inj (hloc.symm.trans hloc')
  unfold resolveRoot
  split
  · exact ⟨_, rfl⟩
  rename_i hnone
  rcases hroots with ⟨hne, hroot⟩ | hdefault
  · obtain rfl : computeLoc = place := hplace.resolve_left hne
    rw [if_neg hne] at hnone
    rw [hnone] at hroot
    cases hroot
  · obtain ⟨root, hroot⟩ := Option.isSome_iff_exists.mp hdefault
    rw [hroot]
    exact ⟨root, rfl⟩

lemma missingRootMsg_eq_none (quote : String → String) (name : String)
    {roots : StringMap String} (h : missingRootMsg quote name computeLoc roots = none) :
    (computeLoc ≠ "" ∧ (roots.lookup computeLoc).isSome) ∨ (roots.lookup "default").isSome := by
  unfold missingRootMsg at h
  by_cases hloc : computeLoc = ""
  · rw [if_neg (not_not.mpr hloc)] at h
    split at h
    · exact .inr ‹_›
    · cases h
  · rw [if_pos hloc] at h
    split at h
    · exact .inl ⟨hloc, ‹_›⟩
    · split at h
      · exact .inr ‹_›
      · cases h

section
variable {quote : String → String} {casing : Casing} {lookup : LocationLookup} {tmpl : JobTemplate}
variable {name : String} {st : StepTemplate}

lemma entry_buildLocRootCache {names : List String} (h : name ∈ names) :
    (buildLocRootCache quote lookup names).entry name = match lookup name with
      | none => .error s!"location {quote name} not found in registry"
      | some loc => .ok loc.roots := by
  have hlookup : ∀ (g : String → Except String (StringMap String)) (ns : List String), name ∈ ns →
      (ns.map fun n => (n, g n)).lookup name = some (g name) := by
    intro g ns hns
    induction ns with
    | nil => cases hns
    | cons n ns ih =>
      by_cases hn : name = n
      · subst hn
        simp
      · have hmem : name ∈ ns := (mem_cons.mp hns).resolve_left hn
        simp [lookup_cons, beq_eq_false_iff_ne.mpr hn, ih hmem]
  rw [LocRootCache.entry, buildLocRootCache, hlookup _ names h]
  rfl

lemma validateStorageLocations_ok (h : validateStorageLocations quote casing lookup tmpl = .ok ())
    (hname : name ∈ extractTemplateLocRefs tmpl) :
    validateStepLocRefs quote casing tmpl.steps
        (buildLocRootCache quote lookup (extractTemplateLocRefs tmpl)) = [] ∧
      validateJobLocRefs quote tmpl (buildLocRootCache quote lookup (extractTemplateLocRefs tmpl)) = [] ∧
      ∃ loc, lookup name = some loc := by
  unfold validateStorageLocations at h
  rw [if_neg (ne_nil_of_mem hname)] at h
  dsimp only at h
  split at h
  · rename_i hnil
    obtain ⟨hboth, hcache⟩ := append_eq_nil_iff.mp hnil
    rw [hboth] at hcache
    obtain ⟨hsteps, hjob⟩ := append_eq_nil_iff.mp hboth
    refine ⟨hsteps, hjob, ?_⟩
    cases hloc : lookup name with
    | some loc => exact ⟨loc, rfl⟩
    | none =>
      have hentry := flatMap_eq_nil_iff.mp hcache _ (mem_map.mpr ⟨name, hname, rfl⟩)
      simp [hloc] at hentry
  · cases h

lemma extractStepLocRefs_subset (hst : st ∈ tmpl.steps)
    (h : name ∈ extractStepLocRefs st) : name ∈ extractTemplateLocRefs tmpl := by
  obtain ⟨s, hs, hr⟩ := mem_locNames.mp h
  exact mem_locNames.mpr ⟨s, mem_append_right _ (mem_flatMap.mpr ⟨st, hst, hs⟩), hr⟩
lemma extractJobLevelLocRefs_subset (h : name ∈ extractJobLevelLocRefs tmpl) :
    name ∈ extractTemplateLocRefs tmpl := by
  obtain ⟨s, hs, hr⟩ := mem_locNames.mp h
  exact mem_locNames.mpr ⟨s, mem_append_left _ hs, hr⟩

lemma stepLocRefs_covered (h : validateStorageLocations quote casing lookup tmpl = .ok ())
    (hst : st ∈ tmpl.steps) (hname : name ∈ extractStepLocRefs st) :
    RootCovered lookup (toStoreHostRequirements casing st.hostRequirements).2 name := by
  have hall := extractStepLocRefs_subset hst hname
  obtain ⟨hsteps, -, loc, hloc⟩ := validateStorageLocations_ok h hall
  obtain ⟨i, hi⟩ := mem_iff_getElem?.mp hst
  have hstep := flatMap_eq_nil_iff.mp hsteps (st, i) (mk_mem_zipIdx_iff_getElem?.mpr hi)
  have hone := flatMap_eq_nil_iff.mp hstep name hname
  rw [checkLocRootCoverage, entry_buildLocRootCache hall, hloc] at hone
  refine ⟨loc, hloc, missingRootMsg_eq_none quote name ?_⟩
  simpa using hone

lemma jobLocRefs_covered (h : validateStorageLocations quote casing lookup tmpl = .ok ())
    (hname : name ∈ extractJobLevelLocRefs tmpl) : RootCovered lookup "" name := by
  have hall := extractJobLevelLocRefs_subset hname
  obtain ⟨-, hjob, loc, hloc⟩ := validateStorageLocations_ok h hall
  have hone := flatMap_eq_nil_iff.mp hjob name hname
  rw [entry_buildLocRootCache hall, hloc] at hone
  refine ⟨loc, hloc, missingRootMsg_eq_none quote name ?_⟩
  simpa using hone

end
end Sqi
