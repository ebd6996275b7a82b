import Sqi.Push.Log

/-! Owners of jobs, in the hub and at its door. -/

namespace Sqi.Push
open Transition

structure Directory where
  ownerOf : String → String
  jobOf : String → String
  ownerOf_empty : ownerOf "" = ""

def Options.ownerMatches (o : Options) (jobOwner scopedOwner : String) : Bool :=
  jobOwner ≠ "" && o.equalFold jobOwner scopedOwner

/-! ## The owner cache -/

structure OwnerCache where
  m : List (String × String)
  failedAt : List (String × Nat)
  deriving DecidableEq

def maxOwnerCache : Nat := 4096
def failureCooldown : Nat := 5000000000
def OwnerCache.cooling (c : OwnerCache) (jobID : String) (now : Nat) : Bool :=
  match c.failedAt.lookup jobID with
  | some failed => now - failed < failureCooldown
  | none => false
def OwnerCache.Asks (c : OwnerCache) (jobID : String) (now : Nat) : Prop :=
  jobID ≠ "" ∧ c.m.lookup jobID = none ∧ c.cooling jobID now = false

instance (c : OwnerCache) (jobID : String) (now : Nat) : Decidable (c.Asks jobID now) :=
  inferInstanceAs (Decidable (_ ∧ _ ∧ _))

def OwnerCache.get (c : OwnerCache) (jobID : String) (now : Nat) (lookup : Option String)
    (answeredAt : Nat) : String × OwnerCache :=
  if jobID = "" then ("", c)
  else
    match c.m.lookup jobID with
    | some owner => (owner, c)
    | none =>
      if c.cooling jobID now then ("", c)
      else
        match lookup with
        | none =>
          let failed := if maxOwnerCache ≤ c.failedAt.length then [] else c.failedAt
          ("", { c with failedAt := (jobID, answeredAt) :: failed.filter fun f => f.1 ≠ jobID })
        | some owner =>
          let m := if maxOwnerCache ≤ c.m.length then [] else c.m
          (owner, { m := (jobID, owner) :: m, failedAt := c.failedAt.filter fun f => f.1 ≠ jobID })

def Event.summary (now : Nat) : Event → Option Payload
  | .task e => some (.jobSummary e.jobID e.taskID "" "" "" e.status e.progress e.statusText
      (e.updatedAt.getD now))
  | .job e => some (.jobSummary e.jobID "" e.name e.owner e.queueID e.status none ""
      (e.updatedAt.getD now))
  | _ => none

def Event.jobID : Event → String
  | .task e => e.jobID
  | .job e => e.jobID
  | _ => ""

def Event.owner : Event → String
  | .job e => e.owner
  | _ => ""
def Event.resolves (o : Options) (now : Nat) (e : Event) : Bool :=
  (e.summary now).any (fun p => (o.marshal p).isSome) && e.owner = ""

/-! ## The gate of a subscription -/

inductive JobScoped where
  | job (id : String)
  | task (id : String)
  deriving DecidableEq

def cutAround (pre suf : String) (x : String) : Option String :=
  if pre.toList.isPrefixOf x.toList then
    let rest := x.toList.drop pre.toList.length
    if suf.toList.isSuffixOf rest then
      some (String.ofList (rest.take (rest.length - suf.toList.length)))
    else none
  else none

def parseJobScopedSubject (x : String) : Option JobScoped :=
  match (cutAround "jobs/" "/tasks" x).filter (· ≠ "") with
  | some id => some (.job id)
  | none => ((cutAround "tasks/" "/logs" x).filter (· ≠ "")).map .task

inductive LookupError where
  | notFound
  | failed
  deriving DecidableEq

structure Answers where
  diagnosticsRead : Bool
  getTask : Except LookupError String
  getJob : Except LookupError String
  jobOwner : Option String
  answeredAt : Nat

def jobAllowed (o : Options) (scope : Scope) (a : Answers) : Except LookupError Bool :=
  match a.getJob with
  | .error .notFound => .ok false
  | .error e => .error e
  | .ok owner => .ok (o.ownerMatches owner scope.owner)

def subjectAllowed (o : Options) (scope : Scope) (a : Answers) (k : JobScoped) :
    Except LookupError Bool :=
  if scope.all then .ok true
  else
    match k with
    | .job _ => jobAllowed o scope a
    | .task _ =>
      match a.getTask with
      | .error .notFound => .ok false
      | .error e => .error e
      | .ok _ => jobAllowed o scope a

def authorizeSubscribe (o : Options) (scope : Scope) (a : Answers) (x : String) : Option String :=
  if x = subjectDiagnostics ∧ a.diagnosticsRead = false then
    some "forbidden: diagnostics requires diagnostics.read"
  else
    match parseJobScopedSubject x with
    | none => none
    | some k =>
      match subjectAllowed o scope a k with
      | .error _ => some "failed to resolve job"
      | .ok false => some "forbidden: not your job"
      | .ok true => none

structure Server where
  state : State
  cache : OwnerCache

structure Call where
  label : Label
  answers : Answers

def Hub.scopeOf (h : Hub) (id : String) : Option Scope :=
  (h.clients id).bind fun r => h.objects[r]?.map (·.scope)
def Server.admits (o : Options) (s : Server) (a : Answers) (id x : String) : Bool :=
  (s.state.hub.scopeOf id).any fun scope => (authorizeSubscribe o scope a x).isNone
def Server.resolve (o : Options) (s : Server) (a : Answers) (e : Event) (now : Nat) :
    String × OwnerCache :=
  if e.resolves o now then s.cache.get e.jobID now a.jobOwner a.answeredAt else ("", s.cache)

def Server.made (o : Options) (s : Server) (c : Call) : Option Label :=
  match c.label with
  | .notify e _ now => some (.notify e (s.resolve o c.answers e now).1 now)
  | .subscribe id x cursor =>
    if s.admits o c.answers id x then some (.subscribe id x cursor) else none
  | .handleSubscribe id x sinceSeq =>
    if s.admits o c.answers id x then some (.handleSubscribe id x sinceSeq) else none
  | l => some l

def Server.next (o : Options) (c : Call) (s : Server) : Server where
  state :=
    match s.made o c with
    | some l => Push.next o l s.state
    | none => s.state
  cache :=
    match c.label with
    | .notify e _ now => (s.resolve o c.answers e now).2
    | _ => s.cache

def Answers.Truthful (dir : Directory) (a : Answers) : Label → Prop
  | .notify e _ _ => (∀ owner, a.jobOwner = some owner → owner = dir.ownerOf e.jobID) ∧
      (e.owner = "" ∨ e.owner = dir.ownerOf e.jobID)
  | .subscribe _ x _ | .handleSubscribe _ x _ =>
    match parseJobScopedSubject x with
    | none => True
    | some (.job id) => ∀ owner, a.getJob = .ok owner → owner = dir.ownerOf id
    | some (.task id) => ∀ owner, a.getJob = .ok owner → owner = dir.ownerOf (dir.jobOf id)
  | _ => True

instance decidableAnswer (expected : String) : (answer : Option String) →
    Decidable (∀ owner, answer = some owner → owner = expected)
  | none => isTrue fun _ h => by cases h
  | some owner => decidable_of_iff (owner = expected)
      ⟨fun h _ e => (Option.some.inj e).symm.trans h, fun h => h owner rfl⟩

instance decidableRow (expected : String) : (row : Except LookupError String) →
    Decidable (∀ owner, row = .ok owner → owner = expected)
  | .error _ => isTrue fun _ h => by cases h
  | .ok owner => decidable_of_iff (owner = expected)
      ⟨fun h _ e => (Except.ok.inj e).symm.trans h, fun h => h owner rfl⟩

instance (dir : Directory) (a : Answers) : DecidablePred (a.Truthful dir)
  | .notify .. => inferInstanceAs (Decidable ((∀ _, _ → _) ∧ (_ ∨ _)))
  | .subscribe _ x _ | .handleSubscribe _ x _ =>
    match h : parseJobScopedSubject x with
    | none => isTrue (by simp [Answers.Truthful, h])
    | some (.job id) => decidable_of_iff (∀ owner, a.getJob = .ok owner → owner = dir.ownerOf id)
        (by simp [Answers.Truthful, h])
    | some (.task id) =>
      decidable_of_iff (∀ owner, a.getJob = .ok owner → owner = dir.ownerOf (dir.jobOf id))
        (by simp [Answers.Truthful, h])
  | .register .. | .deregister _ | .unsubscribe .. | .advance .. | .receive _ =>
    isTrue trivial

def NewConnection (h : Hub) : Label → Prop
  | .register id _ => ∀ c ∈ h.objects, c.id ≠ id
  | _ => True

instance (h : Hub) : DecidablePred (NewConnection h)
  | .register .. => inferInstanceAs (Decidable (∀ _ ∈ _, _))
  | .deregister _ | .unsubscribe .. | .subscribe .. | .handleSubscribe .. | .notify .. | .advance .. |
    .receive _ => isTrue trivial

def server (o : Options) (dir : Directory) : System Server Call where
  init := ⟨(hub o).init, ⟨[], []⟩⟩
  enabled := fun _ s c =>
    Enabled s.state c.label ∧ NewConnection s.state.hub c.label ∧ c.answers.Truthful dir c.label
  next := Server.next o

instance (o : Options) (dir : Directory) (h : List (Server × Call)) (s : Server) (c : Call) :
    Decidable ((server o dir).enabled h s c) := inferInstanceAs (Decidable (_ ∧ _ ∧ _))

def OwnerCache.Sound (dir : Directory) (c : OwnerCache) : Prop :=
  ∀ jobID owner, (jobID, owner) ∈ c.m → owner = dir.ownerOf jobID

lemma mem_of_lookup_eq_some {α β : Type} [DecidableEq α] {l : List (α × β)} {a : α} {b : β}
    (h : l.lookup a = some b) : (a, b) ∈ l := by
  obtain ⟨front, back, rfl, -⟩ := List.lookup_eq_some_iff.mp h
  exact List.mem_append_right front List.mem_cons_self

variable {lookup : Option String} {dir : Directory} {jobID : String} {c : OwnerCache}

lemma OwnerCache.get_sound (sound : c.Sound dir)
    (truthful : ∀ owner, lookup = some owner → owner = dir.ownerOf jobID)
    (now answeredAt : Nat) :
    ((c.get jobID now lookup answeredAt).1 = "" ∨
    (c.get jobID now lookup answeredAt).1 = dir.ownerOf jobID) ∧
    (c.get jobID now lookup answeredAt).2.Sound dir := by
  unfold OwnerCache.get
  split
  · exact ⟨.inl rfl, sound⟩
  split
  · rename_i owner hm
    exact ⟨.inr (sound _ _ (mem_of_lookup_eq_some hm)), sound⟩
  split
  · exact ⟨.inl rfl, sound⟩
  split
  · exact ⟨.inl rfl, sound⟩
  rename_i owner
  have howner := truthful owner rfl
  refine ⟨.inr howner, ?_⟩
  intro jobID' owner' hmem
  rcases List.mem_cons.mp hmem with e | hmem
  · obtain ⟨rfl, rfl⟩ := Prod.mk.inj e
    exact howner
  · split at hmem
    · cases hmem
    · exact sound _ _ hmem

lemma OwnerCache.get_answered (sound : c.Sound dir)
    (truthful : ∀ owner, lookup = some owner → owner = dir.ownerOf jobID) {now answeredAt : Nat}
    (warm : c.cooling jobID now = false) (answered : c.Asks jobID now → lookup ≠ none) :
    (c.get jobID now lookup answeredAt).1 = dir.ownerOf jobID := by
  unfold OwnerCache.get
  split
  · rename_i hid
    rw [hid, dir.ownerOf_empty]
  rename_i hid
  split
  · rename_i owner hm
    exact sound _ _ (mem_of_lookup_eq_some hm)
  rename_i hm
  simp only [warm, Bool.false_eq_true, ↓reduceIte]
  split
  · exact absurd rfl (answered ⟨hid, hm, warm⟩)
  · exact truthful _ rfl

end Sqi.Push
