import Sqi.Push.Simulation

/-! Owner isolation. -/

namespace Sqi.Push
open Function List Pool State Transition

/-! ## Where an envelope comes from -/

def Event.Builds (o : Options) (e : Event) (cached : String) (now : Nat) (env : Envelope) : Prop :=
  ∃ always x p scopedTo, .publish always x p scopedTo ∈ e.sections o cached now ∧
    buildEnvelope o x p scopedTo = some env.anon
def From (o : Options) (calls : List Label) (env : Envelope) : Prop :=
  ∃ e cached now, .notify e cached now ∈ calls ∧ e.Builds o cached now env

def Section.From (o : Options) (calls : List Label) : Section → Prop
  | .publish always x p scopedTo => ∃ e cached now, .notify e cached now ∈ calls ∧
      .publish always x p scopedTo ∈ Event.sections o cached now e
  | .add env | .copy env | .offer _ env => Push.From o calls env
  | .enter .. | .replay .. => True

structure Traced (o : Options) (calls : List Label) (t : Ideal) : Prop where
  sent : ∀ c ∈ t.state.hub.objects, ∀ env ∈ c.sent, From o calls env
  log : ∀ x, ∀ env ∈ t.log x, From o calls env
  pending : ∀ a ∈ Pool.pending t.state.running, a.From o calls

section
variable {o : Options} {calls calls' : List Label} {t : Ideal} {env : Envelope} {h : Hub} {a : Section}

lemma From.of_anon {env' : Envelope} (h : From o calls env) (e : env'.anon = env.anon) :
    From o calls env' := by
  obtain ⟨ev, cached, now, hmem, always, x, p, scopedTo, hp, hb⟩ := h
  exact ⟨ev, cached, now, hmem, always, x, p, scopedTo, hp, hb.trans (congrArg some e.symm)⟩
lemma From.more (h : From o calls env) : From o (calls ++ calls') env := by
  obtain ⟨e, cached, now, hmem, hb⟩ := h
  exact ⟨e, cached, now, mem_append_left _ hmem, hb⟩

lemma Section.From.more (h : a.From o calls) : a.From o (calls ++ calls') := by
  cases a with
  | publish always x p scopedTo =>
    obtain ⟨e, cached, now, hmem, hp⟩ := h
    exact ⟨e, cached, now, mem_append_left _ hmem, hp⟩
  | add env => exact Push.From.more h
  | copy env => exact Push.From.more h
  | offer r env => exact Push.From.more h
  | enter id x cursor cs => trivial
  | replay id r x cursor ceil => trivial

section
variable (w : Traced o calls t)
include w

lemma Traced.more : Traced o (calls ++ calls') t where
  sent c hc env henv := (w.sent c hc env henv).more
  log x env henv := (w.log x env henv).more
  pending a ha := (w.pending a ha).more
lemma Traced.hub (hsent : ∀ c ∈ h.objects, ∀ env ∈ c.sent, From o calls env) :
    Traced o calls { t with state := { t.state with hub := h } } :=
  ⟨hsent, w.log, w.pending⟩

lemma Traced.start {p : List Section} (hp : ∀ a ∈ p, a.From o calls) :
    Traced o calls { t with state := t.state.start p } where
  sent := w.sent
  log := w.log
  pending a ha := by
    rcases mem_append.mp (pending_spawn p ▸ ha) with ha | ha
    · exact w.pending a ha
    · exact hp a ha

lemma Traced.resume {i : Nat}
    (hn : Pool.next? t.state.running i = some a) {k : List Section} (hk : ∀ b ∈ k, b.From o calls) :
    ∀ b ∈ Pool.pending (Pool.resume t.state.running i k), b.From o calls := by
  intro b hb
  rcases mem_pending_resume hn hb with hb | hb
  · exact hk b hb
  · exact w.pending b hb

end

lemma subscribes_from (id x : String) (cs : List Cursor) : ∀ a ∈ subscribes id x cs, a.From o calls := by
  intro a ha
  cases cs with
  | nil => cases ha
  | cons c cs =>
    obtain rfl := mem_singleton.mp ha
    trivial

lemma Event.sections_from (e : Event) (cached : String) (now : Nat) :
    ∀ a ∈ e.sections o cached now, a.From o (calls ++ [.notify e cached now]) := by
  intro a ha
  obtain ⟨always, x, p, scopedTo, rfl⟩ := Event.mem_sections ha
  exact ⟨e, cached, now, by simp, ha⟩

lemma publish_from {always : Bool} {x : String} {p : Payload} {scopedTo : Option String}
    (hp : (Section.publish always x p scopedTo).From o calls) :
    ∀ b ∈ h.publish o always x p scopedTo, b.From o calls := by
  intro b hb
  unfold Hub.publish at hb
  split at hb
  · split at hb
    · rename_i env hbuild
      obtain rfl := mem_singleton.mp hb
      obtain ⟨e, cached, now, hmem, hsec⟩ := hp
      refine ⟨e, cached, now, hmem, always, x, p, scopedTo, hsec, ?_⟩
      obtain ⟨raw, hraw, rfl⟩ := Option.map_eq_some_iff.mp hbuild
      exact hbuild
    · cases hb
  · cases hb

lemma Traced.offer (w : Traced o calls t) {r : Ref} (henv : From o calls env)
    (ho : t.state.hub.offer o r env = some h) : ∀ c ∈ h.objects, ∀ e ∈ c.sent, From o calls e := by
  unfold Hub.offer at ho
  repeat' split at ho
  all_goals cases ho
  · exact w.sent
  · exact w.sent
  · refine forall_mem_modify (fun c _ hc e he => ?_) w.sent
    have he : e ∈ c.sent ∨ e = env := by simpa [HubClient.sent, or_assoc] using he
    rcases he with he | rfl
    · exact hc e he
    · exact henv
  · exact w.sent

lemma Traced.advance (w : Traced o calls t) (i : Nat) (order : List (String × Ref)) (start : Nat) :
    Traced o calls (t.advance o i order start) := by
  unfold Ideal.advance
  cases hn : Pool.next? t.state.running i with
  | none => simpa [State.advance, hn] using w
  | some a =>
    have ha := w.pending a (Pool.next?_mem hn)
    cases a with
    | publish always x p scopedTo =>
      dsimp only
      rw [advance_some hn rfl]
      exact ⟨w.sent, w.log, w.resume hn (publish_from ha)⟩
    | add env =>
      dsimp only
      rw [advance_some hn rfl]
      have hnumber : From o calls ((t.state.hub.rings env.subject).number env) := Push.From.of_anon ha rfl
      refine ⟨w.sent, fun x e he => ?_, w.resume hn fun b hb => ?_⟩
      · by_cases hx : x = env.subject
        · subst hx
          have he : e ∈ t.log env.subject ∨ e = (t.state.hub.rings env.subject).number env := by
            simpa using he
          rcases he with he | rfl
          · exact w.log _ e he
          · exact hnumber
        · exact w.log x e (by simpa [hx] using he)
      · obtain rfl := mem_singleton.mp hb
        exact hnumber
    | copy env =>
      dsimp only
      rw [advance_some hn rfl]
      refine ⟨w.sent, w.log, w.resume hn fun b hb => ?_⟩
      obtain ⟨m, -, rfl⟩ := mem_map.mp hb
      exact ha
    | offer r env =>
      dsimp only
      cases ho : t.state.hub.offer o r env with
      | none =>
        rw [advance_panic hn (by simp [Section.take, ho])]
        exact ⟨w.sent, w.log, w.pending⟩
      | some h =>
        rw [advance_some hn (k := []) (h := h) (by simp [Section.take, ho])]
        exact ⟨w.offer ha ho, w.log, w.resume hn (by simp)⟩
    | enter id x cursor cs =>
      dsimp only
      cases hr : t.state.hub.clients id with
      | none =>
        rw [advance_some hn (k := []) (h := t.state.hub) (by simp [Section.take, hr])]
        exact ⟨w.sent, w.log, w.resume hn (by simp)⟩
      | some r =>
        rw [advance_some hn (Section.take_enter hr)]
        refine ⟨?_, w.log, w.resume hn fun b hb => ?_⟩
        · simp only [Hub.join]
          split
          · exact w.sent
          · exact forall_mem_modify (fun _ _ hc => hc) w.sent
        · rcases mem_cons.mp hb with rfl | hb
          · trivial
          · exact subscribes_from id x cs b hb
    | replay id r x cursor ceil =>
      refine ⟨w.sent, w.log, w.resume hn fun b hb => ?_⟩
      obtain ⟨e, he, rfl⟩ := mem_map.mp hb
      exact w.log x e (mem_of_mem_filter (mem_of_mem_drop he))

lemma Traced.next (w : Traced o calls t) (k : Label × Nat) :
    Traced o (calls ++ k.1.call) (Ideal.next o k t) := by
  obtain ⟨l, start⟩ := k
  have w' : Traced o (calls ++ l.call) t := w.more
  cases l with
  | advance i order => exact w'.advance i order start
  | register id scope =>
    refine w'.hub ?_
    unfold Hub.register
    split
    · exact w'.sent
    intro c hc env henv
    rcases mem_append.mp hc with hc | hc
    · exact w'.sent c hc env henv
    · obtain rfl := mem_singleton.mp hc
      simp [HubClient.sent] at henv
  | deregister id =>
    refine w'.hub ?_
    unfold Hub.deregister
    split
    · exact w'.sent
    · exact forall_mem_modify (fun _ _ hc => hc) w'.sent
  | unsubscribe id x =>
    refine w'.hub ?_
    simp only [Hub.unsubscribe]
    split
    · exact w'.sent
    · split
      · exact forall_mem_modify (fun _ _ hc => hc) w'.sent
      · exact w'.sent
  | subscribe id x cursor =>
    simp only [Ideal.next, Push.next]
    split
    · exact w'.start (subscribes_from id x _)
    · exact w'
  | handleSubscribe id x sinceSeq =>
    simp only [Ideal.next, Push.next]
    split
    · exact w'.start (subscribes_from id x _)
    · exact w'
  | notify e cached now => exact w'.start (e.sections_from cached now)
  | receive r =>
    refine w'.hub (forall_mem_modify (fun c _ hc env henv => hc env ?_) w'.sent)
    rwa [c.receive_sent] at henv

lemma traced_run {hist : List (Ideal × Label × Nat)} (run : Run (ideal o) hist t) :
    Traced o (idealCalls hist) t := by
  induction run with
  | start =>
    exact ⟨fun _ hc => absurd hc not_mem_nil, fun _ _ he => absurd he not_mem_nil, fun _ ha => absurd ha not_mem_nil⟩
  | step k _ _ ih => exact ih.next k

end

/-! ## The owner cache and the gate -/

def Answered (v : Viewer) (s : Server) (c : Call) : Prop :=
  match c.label with
  | .notify e _ now => v.concerns e = true → e.resolves v.o now = true → s.cache.Asks e.jobID now →
      c.answers.jobOwner ≠ none
  | _ => True

instance (v : Viewer) (s : Server) : DecidablePred (Answered v s)
  | ⟨.notify .., _⟩ => inferInstanceAs (Decidable (_ → _ → _ → _))
  | ⟨.register .., _⟩ | ⟨.deregister _, _⟩ | ⟨.unsubscribe .., _⟩ | ⟨.subscribe .., _⟩ |
    ⟨.handleSubscribe .., _⟩ | ⟨.advance .., _⟩ | ⟨.receive _, _⟩ => isTrue trivial

structure OwnerCache.Serves (c : OwnerCache) (v : Viewer) : Prop where
  sound : c.Sound v.dir
  warm : ∀ f ∈ c.failedAt, v.owns f.1 = false

section
variable {v : Viewer} {s : Server}
variable {jobID x : String} {now : Nat} {e : Event} {a : Answers} {scope : Scope} {c : Call}
  {l : Label} {id : String}

lemma OwnerCache.Serves.cooling {c : OwnerCache} (w : c.Serves v)
    (h : v.owns jobID = true) (now : Nat) : c.cooling jobID now = false := by
  unfold OwnerCache.cooling
  split
  · rename_i failed hf
    have hother := w.warm _ (mem_of_lookup_eq_some hf)
    rw [h] at hother
    cases hother
  · rfl

lemma OwnerCache.Serves.get {c : OwnerCache} (w : c.Serves v) {lookup : Option String}
    (truthful : ∀ owner, lookup = some owner → owner = v.dir.ownerOf jobID) {answeredAt : Nat}
    (answered : v.owns jobID = true → c.Asks jobID now → lookup ≠ none) :
    (c.get jobID now lookup answeredAt).2.Serves v := by
  refine ⟨(OwnerCache.get_sound w.sound truthful now answeredAt).2, ?_⟩
  unfold OwnerCache.get
  split
  · exact w.warm
  rename_i hid
  split
  · exact w.warm
  rename_i hm
  split
  · exact w.warm
  rename_i hcool
  have asks : c.Asks jobID now := ⟨hid, hm, by simpa using hcool⟩
  split
  · intro f hf
    rcases mem_cons.mp hf with rfl | hf
    · cases how : v.owns jobID with
      | false => rfl
      | true => exact absurd rfl (answered how asks)
    have hf := mem_of_mem_filter hf
    split at hf
    · cases hf
    · exact w.warm f hf
  · exact fun f hf => w.warm f (mem_of_mem_filter hf)

lemma concerns_of_resolves (h : e.resolves v.o now = true) : v.concerns e = v.owns e.jobID := by
  cases e with
  | task e => rfl
  | job e => rfl
  | _ => simp [Event.resolves, Event.summary] at h

lemma Server.resolve_serves (w : s.cache.Serves v)
    (truthful : ∀ owner, a.jobOwner = some owner → owner = v.dir.ownerOf e.jobID)
    (answered : v.concerns e = true → e.resolves v.o now = true → s.cache.Asks e.jobID now →
      a.jobOwner ≠ none) : (s.resolve v.o a e now).2.Serves v := by
  unfold Server.resolve
  split
  · rename_i hres
    exact w.get truthful fun how => answered ((concerns_of_resolves hres).trans how) hres
  · exact w

lemma Server.resolve_answered (w : s.cache.Serves v) (concerns : v.concerns e = true)
    (truthful : ∀ owner, a.jobOwner = some owner → owner = v.dir.ownerOf e.jobID)
    (answered : e.resolves v.o now = true → s.cache.Asks e.jobID now → a.jobOwner ≠ none) :
    (s.resolve v.o a e now).1 = if e.resolves v.o now then v.dir.ownerOf e.jobID else "" := by
  unfold Server.resolve
  split
  · rename_i hres
    have how : v.owns e.jobID = true := (concerns_of_resolves hres).symm.trans concerns
    exact OwnerCache.get_answered w.sound truthful (w.cooling how now) (answered hres)
  · rfl

lemma jobAllowed_owns (hs : scope = v.scope)
    (truthful : ∀ owner, a.getJob = .ok owner → owner = v.dir.ownerOf jobID)
    (h : jobAllowed v.o scope a = .ok true) : v.owns jobID = true := by
  unfold jobAllowed at h
  split at h
  · cases h
  · cases h
  rename_i owner hjob
  have hok : v.o.ownerMatches owner scope.owner = true := by simpa using h
  rw [truthful owner hjob, hs] at hok
  exact hok

lemma subjectAllowed_of_authorized {k : JobScoped}
    (hk : parseJobScopedSubject x = some k) (h : authorizeSubscribe v.o scope a x = none) :
    subjectAllowed v.o scope a k = .ok true := by
  unfold authorizeSubscribe at h
  rw [hk] at h
  split at h
  · cases h
  dsimp only at h
  split at h
  · cases h
  · cases h
  · assumption

lemma observable_of_authorized (hs : scope = v.scope) (valid : isValidSubject x = true)
    (truthful : match parseJobScopedSubject x with
      | none => True
      | some (.job id) => ∀ owner, a.getJob = .ok owner → owner = v.dir.ownerOf id
      | some (.task id) => ∀ owner, a.getJob = .ok owner → owner = v.dir.ownerOf (v.dir.jobOf id))
    (h : authorizeSubscribe v.o scope a x = none) : v.Observable x := by
  refine ⟨valid, ?_⟩
  have hall : scope.all = false := by rw [hs]; rfl
  cases hk : parseJobScopedSubject x with
  | none => trivial
  | some k =>
    have hallowed := subjectAllowed_of_authorized hk h
    rw [hk] at truthful
    simp only [subjectAllowed, hall, Bool.false_eq_true, ↓reduceIte] at hallowed
    cases k with
    | job id => exact jobAllowed_owns hs truthful hallowed
    | task id =>
      dsimp only at hallowed
      split at hallowed
      · cases hallowed
      · cases hallowed
      · exact jobAllowed_owns hs truthful hallowed

lemma Server.admits_spec (h : s.admits v.o a id x = true) :
    ∃ r c, s.state.hub.clients id = some r ∧ s.state.hub.objects[r]? = some c ∧
    authorizeSubscribe v.o c.scope a x = none := by
  cases hr : s.state.hub.clients id with
  | none => simp [Server.admits, Hub.scopeOf, hr] at h
  | some r =>
    cases hc : s.state.hub.objects[r]? with
    | none => simp [Server.admits, Hub.scopeOf, hr, hc] at h
    | some c => exact ⟨r, c, rfl, hc, by simpa [Server.admits, Hub.scopeOf, hr, hc] using h⟩

lemma Server.gate_subscribe (lk : Linked False s.state) (h : s.admits v.o a id x = true)
    (truthful : match parseJobScopedSubject x with
    | none => True
      | some (.job id) => ∀ owner, a.getJob = .ok owner → owner = v.dir.ownerOf id
      | some (.task id) => ∀ owner, a.getJob = .ok owner → owner = v.dir.ownerOf (v.dir.jobOf id))
    (valid : isValidSubject x = true) :
    ∃ c ∈ s.state.hub.objects, c.id = id ∧ (c.scope = v.scope → v.Observable x) := by
  obtain ⟨r, c, hr, hc, hauth⟩ := Server.admits_spec h
  obtain ⟨c', hc', hid, -⟩ := lk.hub.registered hr
  obtain rfl := Option.some.inj (hc.symm.trans hc')
  exact ⟨c, mem_of_getElem? hc, hid, fun own => observable_of_authorized own valid truthful hauth⟩

lemma Server.made_gate (lk : Linked False s.state) (w : s.cache.Serves v)
    (hnew : NewConnection s.state.hub c.label) (truthful : c.answers.Truthful v.dir c.label)
    (hl : s.made v.o c = some l) : Gate v s.state l := by
  obtain ⟨label, answers⟩ := c
  cases label with
  | notify e cached now =>
    cases hl
    refine ⟨?_, truthful.2⟩
    unfold Server.resolve
    split
    · exact (OwnerCache.get_sound w.sound truthful.1 now _).1
    · exact .inl rfl
  | subscribe id x cursor =>
    simp only [Server.made] at hl
    split at hl
    · cases hl
      exact Server.gate_subscribe lk ‹_› truthful
    · cases hl
  | handleSubscribe id x sinceSeq =>
    simp only [Server.made] at hl
    split at hl
    · cases hl
      exact Server.gate_subscribe lk ‹_› truthful
    · cases hl
  | register id scope =>
    cases hl
    exact hnew
  | _ =>
    cases hl
    trivial

lemma Label.mem_call {l' : Label} (h : l' ∈ [l].flatMap Label.call) : l' = l := by
  cases l <;> simp [Label.call] at h <;> exact h

lemma Server.made_cases (hl : s.made v.o c = some l) : (∃ e cached now, c.label = .notify e cached now ∧
        l = .notify e (s.resolve v.o c.answers e now).1 now) ∨
      (∀ e cached now, l ≠ .notify e cached now) ∧ c.label = l := by
  obtain ⟨label, answers⟩ := c
  cases label with
  | notify e cached now =>
    cases hl
    exact .inl ⟨e, cached, now, rfl, rfl⟩
  | subscribe id x cursor =>
    simp only [Server.made] at hl
    split at hl <;> cases hl
    exact .inr ⟨by simp, rfl⟩
  | handleSubscribe id x sinceSeq =>
    simp only [Server.made] at hl
    split at hl <;> cases hl
    exact .inr ⟨by simp, rfl⟩
  | _ =>
    cases hl
    exact .inr ⟨by simp, rfl⟩

lemma Server.cache_serves (w : s.cache.Serves v)
    (truthful : c.answers.Truthful v.dir c.label) (answered : Answered v s c) :
    (Server.next v.o c s).cache.Serves v := by
  obtain ⟨label, answers⟩ := c
  cases label with
  | notify e cached now => exact Server.resolve_serves w truthful.1 answered
  | _ => exact w

lemma Server.made_enabled (enabled : Enabled s.state c.label)
    (hl : s.made v.o c = some l) : Enabled s.state l := by
  rcases Server.made_cases hl with ⟨e, cached, now, hlabel, rfl⟩ | ⟨-, hlabel⟩
  · exact ⟨enabled.1, trivial⟩
  · rwa [← hlabel]

lemma Viewer.callsOf_none (hl : s.made v.o c = none) : v.callsOf s c = [] := by
  unfold Viewer.callsOf
  split
  · rename_i e cached now he
    simp [Server.made, he] at hl
  · simp [hl]

lemma Viewer.concerns_of_mem_calls (v : Viewer) {hist : List (Server × Call)}
    {cached : String} (h : .notify e cached now ∈ v.calls hist) : v.concerns e = true := by
  induction hist with
  | nil => cases h
  | cons p hist ih =>
    obtain ⟨s, c⟩ := p
    rcases mem_append.mp h with h | h
    · exact ih h
    unfold Viewer.callsOf at h
    split at h
    · split at h
      · obtain ⟨rfl, -, -⟩ := Label.notify.inj (mem_singleton.mp h)
        assumption
      · cases h
    · rename_i hne
      cases hl : s.made v.o c with
      | none => simp [hl] at h
      | some l =>
        rw [hl] at h
        rcases Server.made_cases hl with ⟨e', cached', now', hlabel, -⟩ | ⟨hne', -⟩
        · exact absurd hlabel (hne e' cached' now')
        · exact absurd (Label.mem_call h) (hne' e cached now).symm

lemma Server.follows {log : String → List Envelope} {t : Ideal} (sim : Sim v log s.state t)
    (lk : Linked False s.state) (g : Gated v s.state) (logs : ∀ x, (s.state.hub.rings x).Logs (log x))
    (w : s.cache.Serves v) (enabled : Enabled s.state l)
    (truthful : c.answers.Truthful v.dir c.label) (gate : Gate v s.state l) (answered : Answered v s c)
    (hl : s.made v.o c = some l) :
    Follows v (grown log s.state l) (Push.next v.o l s.state) t (v.callsOf s c) := by
  rcases Server.made_cases hl with ⟨e, cached, now, hlabel, rfl⟩ | ⟨hne, hlabel⟩
  · obtain ⟨label, answers⟩ := c
    obtain rfl : label = .notify e cached now := hlabel
    cases hc : v.concerns e with
    | true =>
      have hcalls : v.callsOf s ⟨.notify e cached now, answers⟩ = [.notify e (s.resolve v.o answers e now).1 now] := by
        rw [Server.resolve_answered w hc truthful.1 (answered hc)]
        simp [Viewer.callsOf, hc]
      rw [hcalls]
      exact sim.notify e _ now enabled.1
    | false =>
      have hcalls : v.callsOf s ⟨.notify e cached now, answers⟩ = [] := by simp [Viewer.callsOf, hc]
      rw [hcalls]
      rw [grown_eq (by simp [State.takes])]
      exact .inl ⟨rfl, { sim with running := sim.running.spawn_foreign (Event.sections_foreign hc gate _) }⟩
  · have hcalls : v.callsOf s c = l.call := by
      unfold Viewer.callsOf
      split
      · rename_i e cached now he
        exact absurd (hlabel.symm.trans he) (hne e cached now)
      · simp [hl]
    rw [hcalls]
    exact sim.called hne lk g logs enabled

end

/-! ## Isolation -/

structure Followed (v : Viewer) (calls : List Label) (s : State) : Prop where
  gated : Gated v s
  follows : ∃ hist hist' t, Run (hub v.o) hist s ∧ Run (ideal v.o) hist' t ∧ idealCalls hist' = calls ∧
    Sim v (fun x => published x hist) s t

lemma gated_init (v : Viewer) : Gated v (hub v.o).init where
  ids := nodup_nil
  members he := absurd he not_mem_nil
  entering ha := absurd ha not_mem_nil

variable {s : State} {v : Viewer}

lemma Followed.linked {calls : List Label} (f : Followed v calls s) : Linked False s := by
  obtain ⟨-, hist, -, -, run, -⟩ := f
  exact linked_run run

lemma Followed.step {calls calls' : List Label} {l : Label}
    (f : Followed v calls s) (enabled : Enabled s l) (gate : Gate v s l)
    (h : ∀ log t, Linked False s → (∀ x, (s.hub.rings x).Logs (log x)) → Sim v log s t →
    Follows v (grown log s l) (next v.o l s) t calls') :
    Followed v (calls ++ calls') (next v.o l s) := by
  obtain ⟨gated, hist, hist', t, run, run', hcalls, sim⟩ := f
  have lk := linked_run run
  refine ⟨gated.next lk gate, ?_⟩
  rcases h _ t lk (rings_log run) sim with ⟨rfl, sim⟩ | ⟨k, enabled', rfl, sim⟩
  · exact ⟨(s, l) :: hist, hist', t, .step l run enabled, run', by rw [hcalls, append_nil], sim⟩
  · exact ⟨(s, l) :: hist, (t, k) :: hist', _, .step l run enabled, .step k run' enabled',
      by rw [idealCalls, hcalls], sim⟩

lemma followed_run (v : Viewer) {hist : List (Server × Call)} {s : Server}
    (run : Run ((server v.o v.dir).guarded fun _ s c => Answered v s c) hist s) :
    s.cache.Serves v ∧ Followed v (v.calls hist) s.state := by
  induction run with
  | start =>
    exact ⟨⟨fun _ _ hm => absurd hm not_mem_nil, fun _ hf => absurd hf not_mem_nil⟩,
      gated_init v, [], [], (ideal v.o).init, .start, .start, rfl, sim_init v⟩
  | @step hist s c _ enabled ih =>
    obtain ⟨⟨hubEnabled, hnew, truthful⟩, answered⟩ := enabled
    obtain ⟨serves, followed⟩ := ih
    refine ⟨Server.cache_serves serves truthful answered, ?_⟩
    show Followed v (v.calls hist ++ v.callsOf s c) (Server.next v.o c s).state
    cases hl : s.made v.o c with
    | none =>
      have hstate : (Server.next v.o c s).state = s.state := by simp [Server.next, hl]
      rw [hstate, Viewer.callsOf_none hl, append_nil]
      exact followed
    | some l =>
      have hstate : (Server.next v.o c s).state = next v.o l s.state := by simp [Server.next, hl]
      have lk := followed.linked
      have gate := Server.made_gate lk serves hnew truthful hl
      have henabled := Server.made_enabled hubEnabled hl
      rw [hstate]
      exact followed.step henabled gate fun log t lk logs sim =>
        Server.follows sim lk followed.gated logs serves henabled truthful gate answered hl

/-- The owner's connections are sent what a hub without the other jobs would send them. -/
theorem owner_isolation (v : Viewer) {hist : List (Server × Call)} {s : Server}
    (run : Run ((server v.o v.dir).guarded fun _ s c => Answered v s c) hist s) :
    ∃ hist' t, Run (ideal v.o) hist' t ∧ idealCalls hist' = v.calls hist ∧
      ∀ (r : Ref) (c : HubClient), s.state.hub.objects[r]? = some c → c.scope = v.scope →
        (∃ c', t.state.hub.objects[r]? = some c' ∧ c'.sent.map Envelope.anon = c.sent.map Envelope.anon) ∧
        ∀ env ∈ c.sent, ∃ e cached now, .notify e cached now ∈ v.calls hist ∧
          v.concerns e = true ∧ e.Builds v.o cached now env := by
  obtain ⟨-, -, hist₂, hist', t, -, run', hcalls, sim⟩ := followed_run v run
  refine ⟨hist', t, run', hcalls, fun r c hc own => ?_⟩
  obtain ⟨c', hc', same⟩ := sim.objects.get hc
  have hsent : c'.sent.map Envelope.anon = c.sent.map Envelope.anon := by
    simp only [HubClient.sent, map_append, same.received own, same.queue own]
  refine ⟨⟨c', hc', hsent⟩, fun env henv => ?_⟩
  obtain ⟨env', henv', hanon⟩ : ∃ env' ∈ c'.sent, env'.anon = env.anon := by
    have hmem : env.anon ∈ c'.sent.map Envelope.anon := hsent ▸ mem_map_of_mem henv
    exact mem_map.mp hmem
  obtain ⟨e, cached, now, hmem, hbuilds⟩ :=
    ((traced_run run').sent c' (mem_of_getElem? hc') env' henv').of_anon hanon.symm
  rw [hcalls] at hmem
  exact ⟨e, cached, now, hmem, v.concerns_of_mem_calls hmem, hbuilds⟩

/-! ## A forgotten owner -/

def Viewer.own (v : Viewer) (c : Call) : Bool :=
  match c.label with
  | .advance .. => false
  | .notify e _ _ => v.concerns e
  | _ => true

lemma State.advance_start {o : Options} {order : List (String × Ref)} {a : Section}
    {p k : List Section} {h : Hub} (ht : a.take o order s.hub = some (k, h)) :
    (s.start (a :: p)).advance o s.running.length order = State.start { s with hub := h } (k ++ p) := by
  have hn : Pool.next? (s.start (a :: p)).running s.running.length = some a := Pool.next?_spawn _
  rw [advance_some hn ht]
  simp only [State.start, resume_spawn, tail_cons]

section

def aliceDirectory : Directory where
  ownerOf jobID := if jobID = "J" then "alice" else if jobID = "" then "" else "bob"
  jobOf _ := ""
  ownerOf_empty := by decide
def alice : Viewer where
  o := { ownerScoping := true, marshal := fun _ => some "summary", foldRune := id }
  dir := aliceDirectory
  owner := "alice"

def statusEvent (jobID status : String) : Event := .job ⟨jobID, "", "", "", status, some 0⟩
def ownerAnswer (owner : Option String) : Answers := ⟨false, .error .notFound, .error .notFound, owner, 0⟩
def statusCall (jobID status : String) (owner : Option String) : Call :=
  ⟨.notify (statusEvent jobID status) "" 0, ownerAnswer owner⟩
def advanceCall (i : Nat) (order : List (String × Ref)) : Call := ⟨.advance i order, ownerAnswer none⟩
def aliceServer : System Server Call := server alice.o alice.dir
def Reaches (calls : List Call) (s : Server) : Prop :=
  ∃ hist, Run aliceServer hist s ∧ (hist.map Prod.snd).filter alice.own = calls

variable {calls : List Call} {s : Server}

lemma Reaches.call (w : Reaches calls s) {c : Call} (enabled : Enabled s.state c.label)
    (hnew : NewConnection s.state.hub c.label) (truthful : c.answers.Truthful alice.dir c.label) :
    Reaches (if alice.own c then c :: calls else calls) (Server.next alice.o c s) := by
  obtain ⟨hist, run, rfl⟩ := w
  exact ⟨(s, c) :: hist, .step c run ⟨enabled, hnew, truthful⟩, filter_cons⟩

lemma Reaches.section {σ : State} {cache : OwnerCache} (order : List (String × Ref)) {a : Section}
    {p k : List Section} {h : Hub} (w : Reaches calls ⟨σ.start (a :: p), cache⟩)
    (awake : σ.crashed = false) (admits : a.Admits σ.hub order)
    (ht : a.take alice.o order σ.hub = some (k, h)) :
    Reaches calls ⟨State.start { σ with hub := h } (k ++ p), cache⟩ := by
  have hn : Pool.next? (σ.start (a :: p)).running σ.running.length = some a := Pool.next?_spawn _
  have step := w.call (c := advanceCall σ.running.length order)
    ⟨awake, by simp only [advanceCall, hn]; exact admits⟩ trivial trivial
  have hstate : Server.next alice.o (advanceCall σ.running.length order) ⟨σ.start (a :: p), cache⟩ =
      ⟨State.start { σ with hub := h } (k ++ p), cache⟩ := by
    rw [← advance_start ht]
    rfl
  rw [hstate] at step
  exact step

def summaryOf (owner : String) (seq : Nat) : Envelope := ⟨subjectJobs, "summary", seq, true, owner⟩

lemma Reaches.announce (w : Reaches calls s) (awake : s.state.crashed = false) (jobID status : String)
    (owner : Option String) (truthful : ∀ o, owner = some o → o = alice.dir.ownerOf jobID) :
    ∃ rings seq, Reaches (if alice.own (statusCall jobID status owner) then
        statusCall jobID status owner :: calls else calls)
      ⟨State.start { s.state with hub := { s.state.hub with rings } }
        ((s.state.hub.subs subjectJobs).map fun m =>
          .offer m.2 (summaryOf (s.cache.get jobID 0 owner 0).1 seq)), (s.cache.get jobID 0 owner 0).2⟩ := by
  let cached := (s.cache.get jobID 0 owner 0).1
  let ring := s.state.hub.rings subjectJobs
  let hub := { s.state.hub with
    rings := update s.state.hub.rings subjectJobs (ring.add (summaryOf cached 0)) }
  have published : Reaches _ ⟨s.state.start
      [.publish true subjectJobs (.jobSummary jobID "" "" "" "" status none "" 0) (some cached)], _⟩ :=
    w.call (c := statusCall jobID status owner) ⟨awake, trivial⟩ trivial ⟨truthful, .inl rfl⟩
  have added : Reaches _ ⟨s.state.start [.add (summaryOf cached 0)], _⟩ :=
    Reaches.section [] published awake trivial rfl
  have copied : Reaches _ ⟨State.start { s.state with hub } [.copy (ring.number (summaryOf cached 0))], _⟩ :=
    Reaches.section [] added awake trivial rfl
  have offered := Reaches.section (s.state.hub.subs subjectJobs) copied awake (.refl _) rfl
  rw [append_nil] at offered
  exact ⟨hub.rings, ring.assigns, offered⟩

structure Quiet (s : State) : Prop where
  objects : s.hub.objects = []
  clients : s.hub.clients = fun _ => none
  subs : s.hub.subs = fun _ => []
  pending : Pool.pending s.running = []
  awake : s.crashed = false

lemma Reaches.unheard (w : Reaches calls s) (q : Quiet s.state) (jobID status : String)
    (owner : Option String) (truthful : ∀ o, owner = some o → o = alice.dir.ownerOf jobID) :
    ∃ s', Reaches (if alice.own (statusCall jobID status owner) then
        statusCall jobID status owner :: calls else calls) s' ∧ Quiet s'.state ∧
      s'.cache = (s.cache.get jobID 0 owner 0).2 := by
  obtain ⟨rings, seq, announced⟩ := w.announce q.awake jobID status owner truthful
  refine ⟨_, announced, ⟨q.objects, q.clients, q.subs, ?_, q.awake⟩, rfl⟩
  simp [State.start, q.subs, q.pending]

def otherJob (i : Nat) : String := String.ofList (List.replicate (i + 2) 'j')

lemma otherJob_inj {i j : Nat} (h : otherJob i = otherJob j) : i = j := by
  have hlen := congrArg (fun x : String => x.toList.length) h
  simpa [otherJob] using hlen
lemma otherJob_foreign (i : Nat) : otherJob i ≠ "" ∧ otherJob i ≠ "J" := by
  have hlen : (otherJob i).toList.length = i + 2 := by simp [otherJob]
  constructor <;> intro h <;> rw [h] at hlen <;> simp at hlen
lemma ownerOf_otherJob (i : Nat) : alice.dir.ownerOf (otherJob i) = "bob" := by
  simp [alice, aliceDirectory, otherJob_foreign i]

lemma own_otherJob (i : Nat) (status : String) (owner : Option String) :
    alice.own (statusCall (otherJob i) status owner) = false := by
  show alice.o.ownerMatches (alice.dir.ownerOf (otherJob i)) alice.owner = false
  rw [ownerOf_otherJob]
  decide

def known : Nat → List (String × String)
  | 0 => [("J", "alice")]
  | n + 1 => (otherJob n, "bob") :: known n

lemma length_known (n : Nat) : (known n).length = n + 1 := by
  induction n with
  | zero => rfl
  | succ n ih => rw [known, length_cons, ih]

lemma lookup_known {n i : Nat} (h : n ≤ i) : (known n).lookup (otherJob i) = none := by
  induction n with
  | zero => simp [known, (otherJob_foreign i).2]
  | succ n ih =>
    have hne : otherJob i ≠ otherJob n := fun e => by
      have := otherJob_inj e
      omega
    rw [known, lookup_cons, beq_false_of_ne hne]
    exact ih (by omega)

lemma Reaches.other (w : Reaches calls s) (q : Quiet s.state) {n : Nat} (hc : s.cache = ⟨known n, []⟩) :
    ∃ s', Reaches calls s' ∧ Quiet s'.state ∧
      s'.cache = ⟨(otherJob n, "bob") :: if maxOwnerCache ≤ n + 1 then [] else known n, []⟩ := by
  obtain ⟨s', w', q', hc'⟩ := w.unheard q (otherJob n) "RUNNING" (some "bob") fun o ho => by
    rw [ownerOf_otherJob, Option.some.inj ho]
  rw [own_otherJob] at w'
  exact ⟨s', w', q', by
    rw [hc', hc]
    simp [OwnerCache.get, (otherJob_foreign n).1, lookup_known le_rfl, OwnerCache.cooling, length_known]⟩

lemma get_forgotten (n : Nat) : (OwnerCache.get ⟨[(otherJob n, "bob")], []⟩ "J" 0 none 0).1 = "" := by
  have hne : "J" ≠ otherJob n := fun e => (otherJob_foreign n).2 e.symm
  simp [OwnerCache.get, lookup_cons, beq_false_of_ne hne, OwnerCache.cooling]

lemma Reaches.others (w : Reaches calls s) (q : Quiet s.state) (hc : s.cache = ⟨known 0, []⟩) (n : Nat)
    (hn : n < maxOwnerCache) :
    ∃ s', Reaches calls s' ∧ Quiet s'.state ∧ s'.cache = ⟨known n, []⟩ := by
  induction n with
  | zero => exact ⟨s, w, q, hc⟩
  | succ n ih =>
    obtain ⟨s1, w1, q1, hc1⟩ := ih (by omega)
    obtain ⟨s2, w2, q2, hc2⟩ := w1.other q1 hc1
    rw [if_neg (by omega)] at hc2
    exact ⟨s2, w2, q2, hc2⟩

lemma Reaches.forget (w : Reaches calls s) (q : Quiet s.state) (hc : s.cache = ⟨known 0, []⟩) :
    ∃ s', Reaches calls s' ∧ Quiet s'.state ∧ s'.cache = ⟨[(otherJob (maxOwnerCache - 1), "bob")], []⟩ := by
  obtain ⟨s1, w1, q1, hc1⟩ := w.others q hc (maxOwnerCache - 1) (by decide)
  obtain ⟨s2, w2, q2, hc2⟩ := w1.other q1 hc1
  rw [if_pos (by decide)] at hc2
  exact ⟨s2, w2, q2, hc2⟩

lemma alice_allows (owner : String) (seq : Nat) :
    alice.scope.allows alice.o (summaryOf owner seq) = decide (owner = "alice") := by
  by_cases h : owner = "alice"
  · subst h
    simp [Scope.allows, summaryOf, alice, Viewer.scope, Options.equalFold]
  · have hne : owner.toList ≠ "alice".toList := fun e => h (String.toList_injective e)
    simpa [Scope.allows, summaryOf, alice, Viewer.scope, Options.equalFold, h] using fun _ => hne

def connect : Call := ⟨.register "c" alice.scope, ownerAnswer none⟩
def listen : Call := ⟨.subscribe "c" subjectJobs .noReplay, ownerAnswer none⟩

lemma Reaches.removal (w : Reaches calls s) (q : Quiet s.state) :
    ∃ s' c, Reaches (statusCall "J" "removed" none :: listen :: connect :: calls) s' ∧
      Pool.pending s'.state.running = [] ∧ s'.state.hub.objects[0]? = some c ∧ c.scope = alice.scope ∧
      c.sent.length = if (s.cache.get "J" 0 none 0).1 = "alice" then 1 else 0 := by
  obtain ⟨⟨hub, running, crashed⟩, cache⟩ := s
  obtain ⟨objects, clients, subs, rings⟩ := hub
  obtain ⟨hobjects, hclients, hsubs, hpending, hawake⟩ := q
  obtain rfl : objects = [] := hobjects
  obtain rfl : clients = fun _ => none := hclients
  obtain rfl : subs = fun _ => [] := hsubs
  obtain rfl : crashed = false := hawake
  let hub1 : Hub := Hub.register ⟨[], fun _ => none, fun _ => [], rings⟩ "c" alice.scope
  let hub2 : Hub := hub1.join "c" subjectJobs 0
  have connected : Reaches (connect :: calls) ⟨⟨hub1, running, false⟩, cache⟩ :=
    w.call (c := connect) ⟨rfl, trivial⟩ (by simp [connect, NewConnection]) trivial
  have listening : Reaches (listen :: connect :: calls)
      ⟨State.start ⟨hub1, running, false⟩ [.enter "c" subjectJobs .noReplay []], cache⟩ :=
    connected.call (c := listen) ⟨rfl, trivial⟩ trivial trivial
  have entered : Reaches (listen :: connect :: calls)
      ⟨State.start ⟨hub2, running, false⟩
        [.replay "c" 0 subjectJobs .noReplay (hub2.ceiling 0 subjectJobs)], cache⟩ :=
    Reaches.section [] listening rfl trivial rfl
  have replayed : Reaches (listen :: connect :: calls) ⟨State.start ⟨hub2, running, false⟩ [], cache⟩ := by
    have hnone : hub2.replays subjectJobs .noReplay (hub2.ceiling 0 subjectJobs) = [] := by
      simp [Hub.replays, SubjectRing.since, Cursor.before]
    exact Reaches.section [] (k := []) (h := hub2) entered rfl trivial
      (by simp [Section.take, hnone])
  obtain ⟨rings', seq, announced⟩ := replayed.announce rfl "J" "removed" none (by simp)
  let σ : State := ⟨{ hub2 with rings := rings' }, Pool.spawn running [], false⟩
  have offering : Reaches (statusCall "J" "removed" none :: listen :: connect :: calls)
      ⟨σ.start [.offer 0 (summaryOf (cache.get "J" 0 none 0).1 seq)], (cache.get "J" 0 none 0).2⟩ := announced
  have hpending' : Pool.pending (Pool.spawn (Pool.spawn running []) []) = [] := by simpa using hpending
  have hallows := alice_allows (cache.get "J" 0 none 0).1 seq
  by_cases howner : (cache.get "J" 0 none 0).1 = "alice"
  · rw [if_pos howner]
    rw [decide_eq_true howner] at hallows
    have sent := Reaches.section [] (k := []) offering rfl trivial
      (h := { σ.hub with objects := [
        { id := "c", scope := alice.scope, closed := false, received := [],
          queue := [summaryOf (cache.get "J" 0 none 0).1 seq],
          replayCeil := update (fun _ => none) subjectJobs (some (rings subjectJobs).headSeq) }] })
      (by simp [Section.take, Hub.offer, σ, hub2, hub1, Hub.join, Hub.register, Hub.member, hallows, clientSendBuf])
    exact ⟨_, _, sent, hpending', rfl, rfl, rfl⟩
  · rw [if_neg howner]
    rw [decide_eq_false howner] at hallows
    have refused := Reaches.section [] (k := []) (h := σ.hub) offering rfl trivial
      (by simp [Section.take, Hub.offer, σ, hub2, hub1, Hub.join, Hub.register, Hub.member, hallows])
    exact ⟨_, _, refused, hpending', rfl, rfl, rfl⟩

end

def aliceListens : List Call :=
  [connect, listen, advanceCall 0 [], advanceCall 0 [], statusCall "J" "RUNNING" (some "alice"),
    statusCall "K" "RUNNING" (some "bob"), advanceCall 2 [], advanceCall 2 [], advanceCall 1 [],
    advanceCall 1 [], advanceCall 2 [("c", 0)], advanceCall 1 [("c", 0)], advanceCall 2 [],
    advanceCall 1 []]

def aliceListening : List (Server × Call) × Server :=
  ((server alice.o alice.dir).guarded fun _ s c => Answered alice s c).exec aliceListens []
    (server alice.o alice.dir).init

theorem owner_isolation_alice :
    (aliceListening.2.state.hub.objects[0]?.map fun c => c.sent) = some [summaryOf "alice" 2] ∧
      ∃ hist' t, Run (ideal alice.o) hist' t ∧ idealCalls hist' = alice.calls aliceListening.1 ∧
        ∀ (r : Ref) (c : HubClient), aliceListening.2.state.hub.objects[r]? = some c → c.scope = alice.scope →
          (∃ c', t.state.hub.objects[r]? = some c' ∧ c'.sent.map Envelope.anon = c.sent.map Envelope.anon) ∧
          ∀ env ∈ c.sent, ∃ e cached now, .notify e cached now ∈ alice.calls aliceListening.1 ∧
            alice.concerns e = true ∧ e.Builds alice.o cached now env :=
  ⟨by decide +kernel, owner_isolation alice (Run.start.exec (by decide +kernel))⟩

/-- Events of other jobs keep an event of the owner's from it: they drive the
job's owner out of the cache, and the row is gone when the store is asked again. -/
theorem other_events_hide_removal :
    ∃ (v : Viewer) (hist hist' : List (Server × Call)) (s s' : Server) (c c' : HubClient),
      Run (server v.o v.dir) hist s ∧ Run (server v.o v.dir) hist' s' ∧
      (hist.map Prod.snd).filter v.own = (hist'.map Prod.snd).filter v.own ∧
      Pool.pending s.state.running = [] ∧ Pool.pending s'.state.running = [] ∧
      s.state.hub.objects[0]? = some c ∧ s'.state.hub.objects[0]? = some c' ∧
      c.scope = v.scope ∧ c'.scope = v.scope ∧ c.sent.length = 0 ∧ c'.sent.length = 1 := by
  have start : Reaches [] aliceServer.init := ⟨[], .start, rfl⟩
  have quiet : Quiet aliceServer.init.state := ⟨rfl, rfl, rfl, rfl, rfl⟩
  obtain ⟨s₁, w₁, q₁, hc₁⟩ := start.unheard quiet "J" "RUNNING" (some "alice") fun o ho => by
    rw [← Option.some.inj ho]
    rfl
  obtain ⟨s₂, w₂, q₂, hc₂⟩ := w₁.forget q₁ hc₁
  obtain ⟨s₃, c, ⟨hist, run, hcalls⟩, hpending, hc, hscope, hsent⟩ := w₂.removal q₂
  obtain ⟨s₃', c', ⟨hist', run', hcalls'⟩, hpending', hc', hscope', hsent'⟩ := w₁.removal q₁
  refine ⟨alice, hist, hist', s₃, s₃', c, c', run, run', hcalls.trans hcalls'.symm, hpending, hpending',
    hc, hc', hscope, hscope', ?_, ?_⟩
  · rw [hsent, hc₂, get_forgotten]
    rfl
  · rw [hsent', hc₁]
    rfl

end Sqi.Push
