import Sqi.Push.Owners

/-! A hub that never hears of other owners' jobs. -/

namespace Sqi.Push
open List Option Transition
open Pool (Procs)

/-! ## The ideal hub -/

structure Ideal where
  state : State
  log : String → List Envelope

def Ideal.replays (o : Options) (t : Ideal) (r : Ref) (x : String) (ceil start : Nat) : List Envelope :=
  ((t.log x).filter fun e =>
    e.seq ≤ ceil && (t.state.hub.objects[r]?).any fun c => c.scope.allows o e).drop start

def Ideal.advance (o : Options) (t : Ideal) (i : Nat) (order : List (String × Ref)) (start : Nat) :
    Ideal :=
  match Pool.next? t.state.running i with
  | some (.replay _ r x _ ceil) =>
    { t with state := { t.state with
        running := Pool.resume t.state.running i ((t.replays o r x ceil start).map fun e => .offer r e) } }
  | some (.add env) =>
    { state := t.state.advance o i order
      log := Function.update t.log env.subject
        (t.log env.subject ++ [(t.state.hub.rings env.subject).number env]) }
  | _ => { t with state := t.state.advance o i order }

def Ideal.next (o : Options) (k : Label × Nat) (t : Ideal) : Ideal :=
  match k.1 with
  | .advance i order => t.advance o i order k.2
  | l => { t with state := Push.next o l t.state }
def ideal (o : Options) : System Ideal (Label × Nat) where
  init := ⟨(hub o).init, fun _ => []⟩
  enabled := fun _ t k => Enabled t.state k.1
  next := Ideal.next o

def Label.call : Label → List Label
  | .advance .. => []
  | l => [l]
def idealCalls : List (Ideal × Label × Nat) → List Label
  | [] => []
  | (_, k) :: hist => idealCalls hist ++ k.1.call

/-! ## What an owner may see -/

structure Viewer where
  o : Options
  dir : Directory
  owner : String

namespace Viewer
variable (v : Viewer)

def scope : Scope := ⟨v.owner, false⟩
def owns (jobID : String) : Bool := v.o.ownerMatches (v.dir.ownerOf jobID) v.owner

def concerns : Event → Bool
  | .task e => v.owns e.jobID
  | .job e => v.owns e.jobID
  | .log e => v.owns (v.dir.jobOf e.taskID)
  | .worker _ | .diag _ => true

def callsOf (s : Server) (c : Call) : List Label :=
  match c.label with
  | .notify e _ now =>
    if v.concerns e then [.notify e (if e.resolves v.o now then v.dir.ownerOf e.jobID else "") now]
    else []
  | _ => (s.made v.o c).toList.flatMap Label.call

def calls : List (Server × Call) → List Label
  | [] => []
  | (s, c) :: hist => calls hist ++ v.callsOf s c

def Observable (x : String) : Prop :=
  isValidSubject x = true ∧
    match parseJobScopedSubject x with
    | none => True
    | some (.job id) => v.owns id = true
    | some (.task id) => v.owns (v.dir.jobOf id) = true

def sees (e : Envelope) : Bool := v.scope.allows v.o e

end Viewer

/-! ## Envelopes without their numbers -/

def Envelope.anon (e : Envelope) : Envelope := { e with seq := 0 }

lemma Scope.allows_of_anon {o : Options} {e e' : Envelope} (h : e'.anon = e.anon) (sc : Scope) :
    sc.allows o e' = sc.allows o e :=
  show sc.allows o e'.anon = sc.allows o e.anon by rw [h]
lemma subject_of_anon {e e' : Envelope} (h : e'.anon = e.anon) : e'.subject = e.subject :=
  show e'.anon.subject = e.anon.subject by rw [h]

def Alike (v : Viewer) (l l' : List Envelope) : Prop :=
  (l.filter v.sees).map Envelope.anon = (l'.filter v.sees).map Envelope.anon

section
variable {v : Viewer}

lemma Alike.append {l1 l1' l2 l2' : List Envelope} (h1 : Alike v l1 l1') (h2 : Alike v l2 l2') :
    Alike v (l1 ++ l2) (l1' ++ l2') := by
  unfold Alike at *
  rw [filter_append, filter_append, map_append, map_append, h1, h2]

lemma alike_singleton {e e' : Envelope} (h : e'.anon = e.anon) : Alike v [e] [e'] := by
  have hs : v.sees e' = v.sees e := Scope.allows_of_anon h _
  cases hv : v.sees e <;> simp [Alike, hs, hv, h]
lemma alike_nil_of_unseen {e : Envelope} (h : v.sees e = false) : Alike v [e] [] := by simp [Alike, h]

structure SameCeiling (v : Viewer) (log log' : List Envelope) (n n' : Nat) : Prop where
  le : n ≤ log.length
  le' : n' ≤ log'.length
  alike : Alike v (log.take n) (log'.take n')

lemma SameCeiling.zero (log log' : List Envelope) : SameCeiling v log log' 0 0 :=
  ⟨Nat.zero_le _, Nat.zero_le _, rfl⟩
lemma SameCeiling.full {log log' : List Envelope} (h : Alike v log log') :
    SameCeiling v log log' log.length log'.length :=
  ⟨le_rfl, le_rfl, by rwa [take_length, take_length]⟩

lemma SameCeiling.append {log log' : List Envelope} {n n' : Nat} (h : SameCeiling v log log' n n')
    (more more' : List Envelope) : SameCeiling v (log ++ more) (log' ++ more') n n' where
  le := by
    rw [length_append]
    exact h.le.trans (Nat.le_add_right _ _)
  le' := by
    rw [length_append]
    exact h.le'.trans (Nat.le_add_right _ _)
  alike := by
    rw [take_append_of_le_length h.le, take_append_of_le_length h.le']
    exact h.alike

end

/-! ## Related states -/

structure Moment where
  clients : List HubClient
  log : String → List Envelope
  log' : String → List Envelope

def KeepsScopes (cs cs' : List HubClient) : Prop :=
  ∀ (r : Ref) (c : HubClient), cs[r]? = some c → ∃ c', cs'[r]? = some c' ∧ c'.scope = c.scope

variable {cs cs' : List HubClient}

lemma KeepsScopes.rfl : KeepsScopes cs cs := fun _ c hc => ⟨c, hc, Eq.refl _⟩

lemma KeepsScopes.modify {f : HubClient → HubClient} (r : Ref)
    (hf : ∀ c : HubClient, (f c).scope = c.scope) : KeepsScopes cs (cs.modify r f) := by
  intro r' c hc
  refine ⟨_, getElem?_modify_some f hc, ?_⟩
  split
  · exact hf c
  · exact Eq.refl _

lemma Evolves.keepsScopes (h : Evolves cs cs') : KeepsScopes cs cs' := by
  intro r c hc
  obtain ⟨c', hc', same⟩ := h r c hc
  exact ⟨c', hc', same.scope⟩

structure Moment.Le (m m' : Moment) : Prop where
  clients : KeepsScopes m.clients m'.clients
  log : ∀ x, ∃ more, m'.log x = m.log x ++ more
  log' : ∀ x, ∃ more, m'.log' x = m.log' x ++ more

lemma Moment.Le.refl (m : Moment) : m.Le m :=
  ⟨.rfl, fun _ => ⟨[], (append_nil _).symm⟩, fun _ => ⟨[], (append_nil _).symm⟩⟩
lemma Moment.Le.of_clients {log log' : String → List Envelope}
    (h : KeepsScopes cs cs') : Moment.Le ⟨cs, log, log'⟩ ⟨cs', log, log'⟩ :=
  ⟨h, (Moment.Le.refl ⟨cs, log, log'⟩).log, (Moment.Le.refl ⟨cs, log, log'⟩).log'⟩

section
variable (v : Viewer) (m : Moment)

structure SameClient (log log' : String → List Envelope) (c c' : HubClient) : Prop where
  id : c'.id = c.id
  scope : c'.scope = c.scope
  closed : c'.closed = c.closed
  received : c.scope = v.scope → c'.received.map Envelope.anon = c.received.map Envelope.anon
  queue : c.scope = v.scope → c'.queue.map Envelope.anon = c.queue.map Envelope.anon
  ceil : c.scope = v.scope → ∀ x, v.Observable x →
    SameCeiling v (log x) (log' x) ((c.replayCeil x).getD 0) ((c'.replayCeil x).getD 0)

def Hidden (r : Ref) (e : Envelope) : Prop :=
  (∃ c, m.clients[r]? = some c ∧ c.scope ≠ v.scope) ∨ v.sees e = false
def SameReplay (r : Ref) (x : String) (n n' : Nat) : Prop :=
  ∃ c, m.clients[r]? = some c ∧ (c.scope = v.scope → v.Observable x ∧ SameCeiling v (m.log x) (m.log' x) n n')

inductive SameSection : Section → Section → Prop
  | publish (always : Bool) (x : String) (p : Payload) (scopedTo : Option String) :
      SameSection (.publish always x p scopedTo) (.publish always x p scopedTo)
  | add (env : Envelope) : SameSection (.add env) (.add env)
  | copy {env env' : Envelope} (h : env'.anon = env.anon) : SameSection (.copy env) (.copy env')
  | offer (r : Ref) {env env' : Envelope} (h : env'.anon = env.anon) :
      SameSection (.offer r env) (.offer r env')
  | enter (id x : String) (cursor : Cursor) (calls : List Cursor) :
      SameSection (.enter id x cursor calls) (.enter id x cursor calls)
  | replay (id : String) {r : Ref} {x : String} (cursor : Cursor) {n n' : Nat}
      (h : SameReplay v m r x n n') : SameSection (.replay id r x cursor n) (.replay id r x cursor n')

inductive SameProc : List Section → List Section → Prop
  | nil : SameProc [] []
  | cons {a a' : Section} {p p' : List Section} (h : SameSection v m a a') (hp : SameProc p p') :
      SameProc (a :: p) (a' :: p')
  | skip {r : Ref} {e : Envelope} {p p' : List Section} (h : Hidden v m r e) (hp : SameProc p p') :
      SameProc (.offer r e :: p) p'

def Foreign : Section → Prop
  | .publish _ x _ scopedTo => ¬ v.Observable x ∨
      ∃ owner, scopedTo = some owner ∧ v.o.ownerMatches owner v.owner = false
  | .add env | .copy env => ¬ v.Observable env.subject ∨ v.sees env = false
  | .offer r env => Hidden v m r env
  | .enter .. | .replay .. => False

inductive SameProcs : Procs Section → Procs Section → Prop
  | nil : SameProcs [] []
  | same {p p' : List Section} {ps ps' : Procs Section} (h : SameProc v m p p')
      (hs : SameProcs ps ps') : SameProcs (p :: ps) (p' :: ps')
  | foreign {p : List Section} {ps ps' : Procs Section} (h : ∀ a ∈ p, Foreign v m a)
      (hs : SameProcs ps ps') : SameProcs (p :: ps) ps'

end
section
variable {v : Viewer} {m m' : Moment} {x : String} {r : Ref}

section
variable (le : m.Le m')
include le

lemma SameCeiling.later {n n' : Nat}
    (h : SameCeiling v (m.log x) (m.log' x) n n') : SameCeiling v (m'.log x) (m'.log' x) n n' := by
  obtain ⟨more, hlog⟩ := le.log x
  obtain ⟨more', hlog'⟩ := le.log' x
  rw [hlog, hlog']
  exact SameCeiling.append h more more'

lemma SameClient.later {c c' : HubClient} (h : SameClient v m.log m.log' c c') :
    SameClient v m'.log m'.log' c c' :=
  { h with ceil := fun own x hx => (h.ceil own x hx).later le }
lemma Hidden.later {e : Envelope} (h : Hidden v m r e) : Hidden v m' r e := by
  refine h.imp_left fun ⟨c, hc, hs⟩ => ?_
  obtain ⟨c', hc', hscope⟩ := le.clients r c hc
  exact ⟨c', hc', by rwa [hscope]⟩

lemma SameReplay.later {n n' : Nat}
    (h : SameReplay v m r x n n') : SameReplay v m' r x n n' := by
  obtain ⟨c, hc, hown⟩ := h
  obtain ⟨c', hc', hscope⟩ := le.clients r c hc
  refine ⟨c', hc', fun own => ?_⟩
  obtain ⟨hx, hn⟩ := hown (hscope.symm.trans own)
  exact ⟨hx, hn.later le⟩

lemma SameSection.later {a a' : Section} (h : SameSection v m a a') :
    SameSection v m' a a' := by
  cases h with
  | publish always x p scopedTo => exact .publish always x p scopedTo
  | add env => exact .add env
  | copy h => exact .copy h
  | offer r h => exact .offer r h
  | enter id x cursor calls => exact .enter id x cursor calls
  | replay id cursor h => exact .replay id cursor (h.later le)

lemma SameProc.later {p p' : List Section} (h : SameProc v m p p') : SameProc v m' p p' := by
  induction h with
  | nil => exact .nil
  | cons h _ ih => exact .cons (h.later le) ih
  | skip h _ ih => exact .skip (h.later le) ih

lemma Foreign.later {a : Section} (h : Foreign v m a) : Foreign v m' a := by
  cases a with
  | offer r env => exact Hidden.later le h
  | _ => exact h

lemma SameProcs.later {ps ps' : Procs Section} (h : SameProcs v m ps ps') :
    SameProcs v m' ps ps' := by
  induction h with
  | nil => exact .nil
  | same h _ ih => exact .same (h.later le) ih
  | foreign h _ ih => exact .foreign (fun a ha => (h a ha).later le) ih

end
end

section
variable {v : Viewer} {m : Moment}

lemma SameProc.append {k k' p p' : List Section} (hk : SameProc v m k k') (hp : SameProc v m p p') :
    SameProc v m (k ++ p) (k' ++ p') := by
  induction hk with
  | nil => exact hp
  | cons h _ ih => exact .cons h ih
  | skip h _ ih => exact .skip h ih

lemma SameProcs.spawn {ps ps' : Procs Section} {p p' : List Section} (hs : SameProcs v m ps ps')
    (hp : SameProc v m p p') : SameProcs v m (Pool.spawn ps p) (Pool.spawn ps' p') := by
  induction hs with
  | nil => exact .same hp .nil
  | same h _ ih => exact .same h ih
  | foreign h _ ih => exact .foreign h ih

lemma SameProcs.spawn_foreign {ps ps' : Procs Section} {p : List Section}
    (hs : SameProcs v m ps ps') (hp : ∀ a ∈ p, Foreign v m a) :
    SameProcs v m (Pool.spawn ps p) ps' := by
  induction hs with
  | nil => exact .foreign hp .nil
  | same h _ ih => exact .same h ih
  | foreign h _ ih => exact .foreign h ih

inductive Matched (v : Viewer) (m : Moment) (ps ps' : Procs Section) (i : Nat) (a : Section) : Prop
  | foreign (h : Foreign v m a) (go : ∀ m', m.Le m' → ∀ k, (∀ b ∈ k, Foreign v m' b) →
      SameProcs v m' (Pool.resume ps i k) ps')
  | hidden {r : Ref} {e : Envelope} (ha : a = .offer r e) (h : Hidden v m r e)
      (go : ∀ m', m.Le m' → SameProcs v m' (Pool.resume ps i []) ps')
  | same (i' : Nat) {a' : Section} (h : SameSection v m a a') (hn : Pool.next? ps' i' = some a')
      (go : ∀ m', m.Le m' → ∀ k k', SameProc v m' k k' →
        SameProcs v m' (Pool.resume ps i k) (Pool.resume ps' i' k'))

lemma SameProcs.matched {ps ps' : Procs Section} {i : Nat} {a : Section}
    (hs : SameProcs v m ps ps') (hn : Pool.next? ps i = some a) : Matched v m ps ps' i a := by
  induction hs generalizing i with
  | nil => simp [Pool.next?] at hn
  | @same p p' ps ps' hp hs ih =>
    cases i with
    | zero =>
      have hhead : p.head? = some a := by simpa [Pool.next?] using hn
      cases hp with
      | nil => cases hhead
      | @cons b b' p p' h hp =>
        obtain rfl := some.inj hhead
        exact .same 0 h rfl fun m' le k k' hk => .same (hk.append (hp.later le)) (hs.later le)
      | @skip r e p p' h hp =>
        obtain rfl := some.inj hhead
        exact .hidden rfl h fun m' le => .same (hp.later le) (hs.later le)
    | succ i =>
      have hn' : Pool.next? ps i = some a := by simpa [Pool.next?] using hn
      cases ih hn' with
      | foreign h go => exact .foreign h fun m' le k hk => .same (hp.later le) (go m' le k hk)
      | hidden ha h go => exact .hidden ha h fun m' le => .same (hp.later le) (go m' le)
      | same i' h hn'' go =>
        exact .same (i' + 1) h (by simpa [Pool.next?] using hn'') fun m' le k k' hk =>
          .same (hp.later le) (go m' le k k' hk)
  | @foreign p ps ps' hp hs ih =>
    cases i with
    | zero =>
      have hhead : p.head? = some a := by simpa [Pool.next?] using hn
      obtain ⟨p', rfl⟩ : ∃ p', p = a :: p' := by
        cases p with
        | nil => cases hhead
        | cons b p' => exact ⟨p', by rw [some.inj hhead]⟩
      refine .foreign (hp a mem_cons_self) fun m' le k hk => .foreign (fun b hb => ?_) (hs.later le)
      rcases mem_append.mp hb with hb | hb
      · exact hk b hb
      · exact (hp b (mem_cons_of_mem _ hb)).later le
    | succ i =>
      have hn' : Pool.next? ps i = some a := by simpa [Pool.next?] using hn
      have hp' : ∀ m', m.Le m' → ∀ b ∈ p, Foreign v m' b := fun m' le b hb => (hp b hb).later le
      cases ih hn' with
      | foreign h go => exact .foreign h fun m' le k hk => .foreign (hp' m' le) (go m' le k hk)
      | hidden ha h go => exact .hidden ha h fun m' le => .foreign (hp' m' le) (go m' le)
      | same i' h hn'' go =>
        exact .same i' h hn'' fun m' le k k' hk => .foreign (hp' m' le) (go m' le k k' hk)

end

structure SameClients (v : Viewer) (log log' : String → List Envelope) (cs cs' : List HubClient) :
    Prop where
  length : cs'.length = cs.length
  get : ∀ {r : Ref} {c : HubClient}, cs[r]? = some c → ∃ c', cs'[r]? = some c' ∧ SameClient v log log' c c'

section
variable {v : Viewer} {cs cs' : List HubClient} {log log' : String → List Envelope}

lemma SameClients.later {m m' : Moment} (le : m.Le m') (h : SameClients v m.log m.log' cs cs') :
    SameClients v m'.log m'.log' cs cs' where
  length := h.length
  get hc := by
    obtain ⟨c', hc', same⟩ := h.get hc
    exact ⟨c', hc', same.later le⟩

lemma SameClients.modify (h : SameClients v log log' cs cs') (r : Ref) (f f' : HubClient → HubClient)
    (hf : ∀ c c', cs[r]? = some c → SameClient v log log' c c' → SameClient v log log' (f c) (f' c')) :
    SameClients v log log' (cs.modify r f) (cs'.modify r f') where
  length := by
    rw [length_modify, length_modify]
    exact h.length
  get {r' d} hd := by
    rw [getElem?_modify] at hd
    obtain ⟨c, hc, rfl⟩ := map_eq_some_iff.mp hd
    obtain ⟨c', hc', same⟩ := h.get hc
    refine ⟨_, getElem?_modify_some f' hc', ?_⟩
    by_cases e : r = r'
    · subst e
      simpa using hf c c' hc same
    · simpa [e] using same

lemma SameClients.modify_left (h : SameClients v log log' cs cs') (r : Ref) (f : HubClient → HubClient)
    (hf : ∀ c c', cs[r]? = some c → SameClient v log log' c c' → SameClient v log log' (f c) c') :
    SameClients v log log' (cs.modify r f) cs' := by
  have key := h.modify r f id hf
  rwa [modify_id] at key

end
end Sqi.Push
