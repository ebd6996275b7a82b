import Sqi.Lib.Pool
import Sqi.Lib.RingBuffer
import Sqi.Lib.Run

/-! The push hub (`ws/hub.go`) under any number of goroutines. -/

namespace Sqi.Push
open Function Transition

/-! ## Events and envelopes -/

abbrev Stamp := Option Nat

structure TaskEvent where
  jobID : String
  taskID : String
  name : String
  status : String
  workerID : String
  unschedulableReason : String
  progress : Option Int
  statusText : String
  updatedAt : Stamp
  deriving DecidableEq

structure WorkerEvent where
  workerID : String
  name : String
  hostname : String
  farmID : String
  status : String
  deriving DecidableEq

structure LogEvent where
  taskID : String
  attemptID : String
  seqNum : Int
  stream : String
  data : String
  time : Stamp
  deriving DecidableEq

structure JobEvent where
  jobID : String
  name : String
  owner : String
  queueID : String
  status : String
  updatedAt : Stamp
  deriving DecidableEq

structure DiagEvent where
  component : String
  level : String
  msg : String
  attrs : List (String × String)
  time : Stamp
  deriving DecidableEq

inductive Payload where
  | jobSummary (jobID taskID name owner queueID status : String) (progress : Option Int)
      (statusText : String) (updatedAt : Nat)
  | taskUpdate (jobID taskID name status workerID unschedulableReason : String)
      (progress : Option Int) (statusText : String) (updatedAt : Nat)
  | workerStatus (workerID name hostname farmID status : String)
  | taskLog (taskID attemptID : String) (seqNum : Int) (stream data : String) (time : Nat)
  | diagnostics (component level msg : String) (attrs : List (String × String)) (time : Nat)
  deriving DecidableEq

structure Envelope where
  subject : String
  payload : String
  seq : Nat
  ownerScoped : Bool
  owner : String
  deriving DecidableEq, Inhabited

structure Scope where
  owner : String
  all : Bool
  deriving DecidableEq

structure Options where
  ownerScoping : Bool
  marshal : Payload → Option String
  foldRune : Char → Char

def Options.equalFold (o : Options) (a b : String) : Bool :=
  a.toList.map o.foldRune = b.toList.map o.foldRune
def Scope.allows (o : Options) (s : Scope) (env : Envelope) : Bool :=
  if s.all || !env.ownerScoped then true
  else env.owner ≠ "" && o.equalFold env.owner s.owner

def subjectJobs : String := "jobs"
def subjectWorkers : String := "workers"
def subjectDiagnostics : String := "diagnostics"
def subjectJobTasks (jobID : String) : String := "jobs/" ++ jobID ++ "/tasks"
def subjectTaskLogs (taskID : String) : String := "tasks/" ++ taskID ++ "/logs"
def matchesPattern (pre suf subject : String) : Bool :=
  pre.utf8ByteSize + suf.utf8ByteSize < subject.utf8ByteSize &&
    pre.toList.isPrefixOf subject.toList && suf.toList.isSuffixOf subject.toList
def isValidSubject (subject : String) : Bool :=
  subject = subjectJobs || subject = subjectWorkers || subject = subjectDiagnostics ||
    matchesPattern "jobs/" "/tasks" subject || matchesPattern "tasks/" "/logs" subject

def ringBufSize : Nat := 256

instance : NeZero ringBufSize := ⟨by decide⟩

inductive Cursor where
  | noReplay
  | since (seq : Nat)
  deriving DecidableEq

def Cursor.before : Cursor → Nat → Bool
  | .noReplay, _ => false
  | .since s, n => s < n

structure SubjectRing where
  entries : RingBuffer Envelope ringBufSize
  nextSeq : Nat

def SubjectRing.empty : SubjectRing := ⟨RingBuffer.empty, 0⟩
def SubjectRing.assigns (r : SubjectRing) : Nat := if r.nextSeq = 0 then 1 else r.nextSeq
def SubjectRing.number (r : SubjectRing) (env : Envelope) : Envelope := { env with seq := r.assigns }
def SubjectRing.add (r : SubjectRing) (env : Envelope) : SubjectRing :=
  ⟨r.entries.push (r.number env), r.assigns + 1⟩
def SubjectRing.headSeq (r : SubjectRing) : Nat := if r.nextSeq = 0 then 0 else r.nextSeq - 1
def SubjectRing.since (r : SubjectRing) (cursor : Cursor) : List Envelope :=
  r.entries.toList.filter fun e => cursor.before e.seq

/-! ## Clients and the hub -/

def clientSendBuf : Nat := 64

structure HubClient where
  id : String
  scope : Scope
  closed : Bool
  queue : List Envelope
  received : List Envelope
  replayCeil : String → Option Nat

def HubClient.sent (c : HubClient) : List Envelope := c.received ++ c.queue

abbrev Ref := Nat

structure Hub where
  objects : List HubClient
  clients : String → Option Ref
  subs : String → List (String × Ref)
  rings : String → SubjectRing

def Hub.new : Hub :=
  { objects := [], clients := fun _ => none, subs := fun _ => [], rings := fun _ => .empty }
def Hub.hasSubscribers (h : Hub) (subject : String) : Bool := 0 < (h.subs subject).length

def Hub.register (h : Hub) (clientID : String) (scope : Scope) : Hub :=
  match h.clients clientID with
  | some _ => h
  | none =>
    { h with
      objects := h.objects ++
        [{ id := clientID, scope, closed := false, queue := [], received := [],
           replayCeil := fun _ => none }]
      clients := update h.clients clientID (some h.objects.length) }

def without (members : List (String × Ref)) (clientID : String) : List (String × Ref) :=
  members.filter fun m => m.1 ≠ clientID

def Hub.deregister (h : Hub) (clientID : String) : Hub :=
  match h.clients clientID with
  | none => h
  | some r =>
    { h with
      objects := h.objects.modify r fun c => { c with closed := true }
      clients := update h.clients clientID none
      subs := fun subject => without (h.subs subject) clientID }

def Hub.unsubscribe (h : Hub) (clientID subject : String) : Hub :=
  { h with
    objects := match h.clients clientID with
      | none => h.objects
      | some r =>
        -- The ceiling is dropped only where the subject has members at all.
        if h.hasSubscribers subject then
          h.objects.modify r fun c => { c with replayCeil := update c.replayCeil subject none }
        else h.objects
    subs := update h.subs subject (without (h.subs subject) clientID) }

inductive Section where
  /-- The guard before a push is built, `always` where the operation has none. -/
  | publish (always : Bool) (subject : String) (payload : Payload) (scopedTo : Option String)
  /-- `fanout`: number and buffer the envelope. -/
  | add (env : Envelope)
  /-- `fanout`: copy the members. -/
  | copy (env : Envelope)
  /-- Offer an envelope to one client, in `fanout` and in a replay. -/
  | offer (r : Ref) (env : Envelope)
  /-- `Subscribe`: join the subject, then replay, then the calls that follow. -/
  | enter (clientID subject : String) (cursor : Cursor) (calls : List Cursor)
  /-- `Subscribe`: read the ring. -/
  | replay (clientID : String) (r : Ref) (subject : String) (cursor : Cursor) (ceil : Nat)
  deriving DecidableEq

def subscribes (clientID subject : String) : List Cursor → List Section
  | [] => []
  | cursor :: calls => [.enter clientID subject cursor calls]

def buildEnvelope (o : Options) (subject : String) (payload : Payload) (scopedTo : Option String) :
    Option Envelope :=
  (o.marshal payload).map fun raw =>
    { subject, payload := raw, seq := 0, ownerScoped := scopedTo.isSome, owner := scopedTo.getD "" }

def Hub.publish (o : Options) (h : Hub) (always : Bool) (subject : String) (payload : Payload)
    (scopedTo : Option String) : List Section :=
  if always || h.hasSubscribers subject then
    match buildEnvelope o subject payload scopedTo with
    | some env => [.add env]
    | none => []
  else []

def Hub.member (h : Hub) (clientID subject : String) : Bool :=
  (h.subs subject).any fun m => m.1 = clientID

def Hub.join (h : Hub) (clientID subject : String) (r : Ref) : Hub :=
  { h with
    objects :=
      if h.member clientID subject then h.objects
      else h.objects.modify r fun c =>
        { c with replayCeil := update c.replayCeil subject (some (h.rings subject).headSeq) }
    subs := update h.subs subject (without (h.subs subject) clientID ++ [(clientID, r)]) }

def Hub.ceiling (h : Hub) (r : Ref) (subject : String) : Nat :=
  ((h.objects[r]?.bind fun c => c.replayCeil subject)).getD 0

def Hub.offer (o : Options) (h : Hub) (r : Ref) (env : Envelope) : Option Hub :=
  match h.objects[r]? with
  | none => some h
  | some c =>
    if !c.scope.allows o env then some h
    else if c.closed then none
    else if c.queue.length < clientSendBuf then
      some { h with objects := h.objects.modify r fun c => { c with queue := c.queue ++ [env] } }
    else some h

def Hub.replays (h : Hub) (subject : String) (cursor : Cursor) (ceil : Nat) : List Envelope :=
  ((h.rings subject).since cursor).filter fun e => e.seq ≤ ceil

def Section.take (o : Options) (order : List (String × Ref)) (h : Hub) :
    Section → Option (List Section × Hub)
  | .publish always subject payload scopedTo => some (h.publish o always subject payload scopedTo, h)
  | .add env =>
    let ring := h.rings env.subject
    some ([.copy (ring.number env)], { h with rings := update h.rings env.subject (ring.add env) })
  | .copy env => some (order.map fun m => .offer m.2 env, h)
  | .offer r env => (h.offer o r env).map fun h' => ([], h')
  | .enter clientID subject cursor calls =>
    match h.clients clientID with
    | none => some ([], h)
    | some r =>
      let h' := h.join clientID subject r
      some (.replay clientID r subject cursor (h'.ceiling r subject) ::
        subscribes clientID subject calls, h')
  | .replay _ r subject cursor ceil =>
    some ((h.replays subject cursor ceil).map fun e => .offer r e, h)

/-! ## The notify operations -/

inductive Event where
  | task (e : TaskEvent)
  | worker (e : WorkerEvent)
  | log (e : LogEvent)
  | job (e : JobEvent)
  | diag (e : DiagEvent)
  deriving DecidableEq

def resolveOwner (owner cached : String) : String := if owner ≠ "" then owner else cached

def Event.sections (o : Options) (cached : String) (now : Nat) : Event → List Section
  | .task e =>
    [.publish o.ownerScoping subjectJobs
       (.jobSummary e.jobID e.taskID "" "" "" e.status e.progress e.statusText (e.updatedAt.getD now))
       (some (resolveOwner "" cached)),
     .publish false (subjectJobTasks e.jobID)
       (.taskUpdate e.jobID e.taskID e.name e.status e.workerID e.unschedulableReason e.progress
         e.statusText (e.updatedAt.getD now)) none]
  | .worker e =>
    [.publish false subjectWorkers (.workerStatus e.workerID e.name e.hostname e.farmID e.status) none]
  | .log e =>
    [.publish true (subjectTaskLogs e.taskID)
       (.taskLog e.taskID e.attemptID e.seqNum e.stream e.data (e.time.getD now)) none]
  | .job e =>
    [.publish o.ownerScoping subjectJobs
       (.jobSummary e.jobID "" e.name e.owner e.queueID e.status none "" (e.updatedAt.getD now))
       (some (resolveOwner e.owner cached))]
  | .diag e =>
    [.publish false subjectDiagnostics (.diagnostics e.component e.level e.msg e.attrs (e.time.getD now))
       none]

/-! ## The system -/

structure State where
  hub : Hub
  running : Pool.Procs Section
  crashed : Bool

inductive Label where
  | register (clientID : String) (scope : Scope)
  | deregister (clientID : String)
  | unsubscribe (clientID subject : String)
  | subscribe (clientID subject : String) (cursor : Cursor)
  /-- A connection's `handleSubscribe`: join without replay, acknowledge, replay. -/
  | handleSubscribe (clientID subject : String) (sinceSeq : Nat)
  | notify (e : Event) (cached : String) (now : Nat)
  /-- Goroutine `i` takes its next section. -/
  | advance (i : Nat) (order : List (String × Ref))
  /-- The send loop of a client takes an envelope from the channel. -/
  | receive (r : Ref)
  deriving DecidableEq

def State.start (s : State) (p : List Section) : State := { s with running := Pool.spawn s.running p }
def State.takes (s : State) : Label → Option Section
  | .advance i _ => Pool.next? s.running i
  | _ => none

def State.advance (o : Options) (s : State) (i : Nat) (order : List (String × Ref)) : State :=
  match Pool.next? s.running i with
  | none => s
  | some a =>
    match a.take o order s.hub with
    | none => { s with crashed := true }
    | some (k, h) => { s with hub := h, running := Pool.resume s.running i k }

section
variable {o : Options} {s : State} {i : Nat} {order : List (String × Ref)} {a : Section} {h : Hub}

lemma State.advance_some {k : List Section} (ha : Pool.next? s.running i = some a)
    (ht : a.take o order s.hub = some (k, h)) :
    s.advance o i order = { s with hub := h, running := Pool.resume s.running i k } := by
  simp [State.advance, ha, ht]

lemma State.advance_panic (ha : Pool.next? s.running i = some a)
    (ht : a.take o order s.hub = none) : s.advance o i order = { s with crashed := true } := by
  simp [State.advance, ha, ht]

lemma Section.take_none (ht : a.take o order h = none) :
    ∃ r env c, a = .offer r env ∧ h.objects[r]? = some c ∧ c.scope.allows o env = true ∧
    c.closed = true := by
  cases a with
  | offer r env =>
    simp only [Section.take, Option.map_eq_none_iff, Hub.offer] at ht
    split at ht
    · cases ht
    next c hc =>
      split at ht
      · cases ht
      next al =>
        split at ht
        next cl => exact ⟨r, env, c, rfl, hc, by simpa using al, cl⟩
        · split at ht <;> cases ht
  | enter id x cursor calls =>
    simp only [Section.take] at ht
    split at ht <;> cases ht
  | _ => cases ht

lemma State.advance_cases (o : Options) (i : Nat) (order : List (String × Ref)) (s : State) :
    (Pool.next? s.running i = none ∧ s.advance o i order = s) ∨
    (∃ r env c, Pool.next? s.running i = some (.offer r env) ∧ (s.hub.objects[r]? = some c ∧
      c.scope.allows o env = true ∧ c.closed = true) ∧ s.advance o i order = { s with crashed := true }) ∨
    ∃ a k h, Pool.next? s.running i = some a ∧ a.take o order s.hub = some (k, h) ∧
      s.advance o i order = { s with hub := h, running := Pool.resume s.running i k } := by
  cases ha : Pool.next? s.running i with
  | none => exact .inl ⟨rfl, by simp [State.advance, ha]⟩
  | some a =>
    cases ht : a.take o order s.hub with
    | none =>
      obtain ⟨r, env, c, rfl, hc⟩ := Section.take_none ht
      exact .inr (.inl ⟨r, env, c, rfl, hc, State.advance_panic ha ht⟩)
    | some p => exact .inr (.inr ⟨a, p.1, p.2, rfl, ht, State.advance_some ha ht⟩)

lemma Event.mem_sections {e : Event} {cached : String} {now : Nat} (ha : a ∈ e.sections o cached now) :
    ∃ always x p scopedTo, a = .publish always x p scopedTo := by
  cases e <;> simp only [Event.sections, List.mem_cons, List.not_mem_nil, or_false] at ha
  case task => rcases ha with rfl | rfl <;> exact ⟨_, _, _, _, rfl⟩
  all_goals subst ha; exact ⟨_, _, _, _, rfl⟩

end

def HubClient.receive (c : HubClient) : HubClient :=
  { c with queue := c.queue.tail, received := c.received ++ c.queue.head?.toList }

def next (o : Options) : Label → State → State
  | .register clientID scope, s => { s with hub := s.hub.register clientID scope }
  | .deregister clientID, s => { s with hub := s.hub.deregister clientID }
  | .unsubscribe clientID subject, s => { s with hub := s.hub.unsubscribe clientID subject }
  | .subscribe clientID subject cursor, s =>
    if isValidSubject subject then s.start (subscribes clientID subject [cursor]) else s
  | .handleSubscribe clientID subject sinceSeq, s =>
    if isValidSubject subject then s.start (subscribes clientID subject [.noReplay, .since sinceSeq])
    else s
  | .notify e cached now, s => s.start (e.sections o cached now)
  | .advance i order, s => s.advance o i order
  | .receive r, s =>
    { s with hub := { s.hub with objects := s.hub.objects.modify r HubClient.receive } }

def Section.Admits (h : Hub) (order : List (String × Ref)) : Section → Prop
  | .copy env => order.Perm (h.subs env.subject)
  | _ => True

instance (h : Hub) (order : List (String × Ref)) : (a : Section) → Decidable (a.Admits h order)
  | .copy env => inferInstanceAs (Decidable (order.Perm (h.subs env.subject)))
  | .publish .. | .add _ | .offer .. | .enter .. | .replay .. => isTrue trivial

def Enabled (s : State) (l : Label) : Prop :=
  s.crashed = false ∧
    match l with
    | .advance i order =>
      match Pool.next? s.running i with
      | none => False
      | some a => a.Admits s.hub order
    | _ => True

instance (s : State) (l : Label) : Decidable (Enabled s l) := by
  unfold Enabled
  cases l with
  | advance i order =>
    dsimp only
    cases Pool.next? s.running i <;> dsimp only <;> infer_instance
  | _ => dsimp only; infer_instance

def hub (o : Options) : System State Label where
  init := { hub := .new, running := [], crashed := false }
  enabled := fun _ s l => Enabled s l
  next := next o

instance (o : Options) (h : List (State × Label)) (s : State) (l : Label) :
    Decidable ((hub o).enabled h s l) := inferInstanceAs (Decidable (Enabled s l))

end Sqi.Push
