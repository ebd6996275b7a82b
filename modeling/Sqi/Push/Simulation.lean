import Sqi.Push.Gate

/-! The ideal hub follows a hub whose subscriptions are gated. -/

namespace Sqi.Push
open Function Hub List Section State Transition

/-! ## Subjects and events of other jobs -/

section

lemma cutAround_append (pre x suf : String) : cutAround pre suf (pre ++ x ++ suf) = some x := by
  simp [cutAround]

variable {v : Viewer}

lemma not_observable_jobTasks {jobID : String} (h : v.owns jobID = false) :
    ¬ v.Observable (subjectJobTasks jobID) := by
  rintro ⟨valid, hx⟩
  by_cases hid : jobID = ""
  · subst hid
    revert valid
    decide
  have parse : parseJobScopedSubject (subjectJobTasks jobID) = some (.job jobID) := by
    simp [parseJobScopedSubject, subjectJobTasks, cutAround_append, Option.filter, hid]
  rw [parse] at hx
  simp [h] at hx

lemma not_observable_taskLogs {taskID : String} (h : v.owns (v.dir.jobOf taskID) = false) :
    ¬ v.Observable (subjectTaskLogs taskID) := by
  rintro ⟨valid, hx⟩
  by_cases hid : taskID = ""
  · subst hid
    revert valid
    decide
  have parse : parseJobScopedSubject (subjectTaskLogs taskID) = some (.task taskID) := by
    have hjob : cutAround "jobs/" "/tasks" ("tasks/" ++ taskID ++ "/logs") = none := by simp [cutAround]
    simp [parseJobScopedSubject, subjectTaskLogs, cutAround_append, Option.filter, hid, hjob]
  rw [parse] at hx
  simp [h] at hx

lemma ownerMatches_resolveOwner {jobID owner cached : String} (h : v.owns jobID = false)
    (howner : owner = "" ∨ owner = v.dir.ownerOf jobID)
    (hcached : cached = "" ∨ cached = v.dir.ownerOf jobID) :
    v.o.ownerMatches (resolveOwner owner cached) v.owner = false := by
  have hempty : v.o.ownerMatches "" v.owner = false := by simp [Options.ownerMatches]
  have hjob : v.o.ownerMatches (v.dir.ownerOf jobID) v.owner = false := h
  unfold resolveOwner
  split
  · rename_i hne
    rw [howner.resolve_left hne]
    exact hjob
  · rcases hcached with rfl | rfl
    · exact hempty
    · exact hjob

lemma Event.sections_foreign {e : Event} (h : v.concerns e = false) {s : State} {cached : String}
    {now : Nat} (gate : Gate v s (.notify e cached now)) (m : Moment) :
    ∀ a ∈ e.sections v.o cached now, Foreign v m a := by
  obtain ⟨hcached, howner⟩ := gate
  intro a ha
  cases e with
  | task e =>
    simp only [Event.sections, mem_cons, not_mem_nil, or_false] at ha
    rcases ha with rfl | rfl
    · exact .inr ⟨_, rfl, ownerMatches_resolveOwner h (.inl rfl) hcached⟩
    · exact .inl (not_observable_jobTasks h)
  | job e =>
    obtain rfl := mem_singleton.mp ha
    exact .inr ⟨_, rfl, ownerMatches_resolveOwner h howner hcached⟩
  | log e =>
    obtain rfl := mem_singleton.mp ha
    exact .inl (not_observable_taskLogs h)
  | worker e => cases h
  | diag e => cases h

lemma sameProc_refl {m : Moment} {p : List Section}
    (h : ∀ a ∈ p, SameSection v m a a) : SameProc v m p p := by
  induction p with
  | nil => exact .nil
  | cons a p ih => exact .cons (h a mem_cons_self) (ih fun b hb => h b (mem_cons_of_mem _ hb))

lemma Event.sections_same (e : Event) (cached : String) (now : Nat) (m : Moment) :
    SameProc v m (e.sections v.o cached now) (e.sections v.o cached now) := by
  refine sameProc_refl fun a ha => ?_
  obtain ⟨_, _, _, _, rfl⟩ := Event.mem_sections ha
  exact .publish ..

lemma subscribes_same (id x : String) (cs : List Cursor) (m : Moment) :
    SameProc v m (subscribes id x cs) (subscribes id x cs) := by
  cases cs with
  | nil => exact .nil
  | cons c cs => exact .cons (.enter ..) .nil

end

lemma filter_numbered {l : List Envelope} {b : Nat} (h : ∀ i e, l[i]? = some e → e.seq = b + i + 1)
    (lo hi : Nat) :
    (l.filter fun e => decide (lo < e.seq)).filter (fun e => decide (e.seq ≤ hi)) =
      (l.take (hi - b)).drop (lo - b) := by
  induction l generalizing b with
  | nil => simp
  | cons a l ih =>
    have hseq : a.seq = b + 1 := h 0 a rfl
    have htail : ∀ i e, l[i]? = some e → e.seq = b + 1 + i + 1 := by
      intro i e hi
      have := h (i + 1) e hi
      omega
    have hrec := ih htail
    by_cases hhi : hi ≤ b
    · have hnil : hi - b = 0 := by omega
      have hnil' : hi - (b + 1) = 0 := by omega
      rw [hnil'] at hrec
      rw [hnil]
      by_cases hlo : lo < a.seq
      · rw [filter_cons_of_pos (by simpa using hlo), filter_cons_of_neg (by simp; omega), hrec]
        simp
      · rw [filter_cons_of_neg (by simpa using hlo), hrec]
        simp
    · obtain ⟨n, hn⟩ : ∃ n, hi - b = n + 1 := ⟨hi - b - 1, by omega⟩
      have hn' : hi - (b + 1) = n := by omega
      rw [hn'] at hrec
      rw [hn, take_succ_cons]
      by_cases hlo : lo < a.seq
      · have hzero : lo - b = 0 := by omega
        have hzero' : lo - (b + 1) = 0 := by omega
        rw [hzero', drop_zero] at hrec
        rw [filter_cons_of_pos (by simpa using hlo), filter_cons_of_pos (by simp; omega), hrec, hzero, drop_zero]
      · obtain ⟨k, hk⟩ : ∃ k, lo - b = k + 1 := ⟨lo - b - 1, by omega⟩
        have hk' : lo - (b + 1) = k := by omega
        rw [hk'] at hrec
        rw [filter_cons_of_neg (by simpa using hlo), hrec, hk, drop_succ_cons]

lemma replays_eq_drop {h : Hub} {x : String} {log : List Envelope} (w : (h.rings x).Logs log)
    (cursor : Cursor) (ceil : Nat) : ∃ d, h.replays x cursor ceil = (log.take ceil).drop d := by
  cases cursor with
  | noReplay => exact ⟨(log.take ceil).length, by simp [Hub.replays, SubjectRing.since, Cursor.before]⟩
  | since n =>
    have hentries : (h.rings x).entries.toList = log.drop (log.length - ringBufSize) := w.entries
    have hnum : ∀ i e, (log.drop (log.length - ringBufSize))[i]? = some e →
        e.seq = log.length - ringBufSize + i + 1 := by
      intro i e hi
      rw [getElem?_drop] at hi
      exact w.numbered hi
    have htake : (log.take ceil).drop (log.length - ringBufSize) =
        (log.drop (log.length - ringBufSize)).take (ceil - (log.length - ringBufSize)) := drop_take ..
    refine ⟨log.length - ringBufSize + (n - (log.length - ringBufSize)), ?_⟩
    unfold Hub.replays SubjectRing.since
    rw [hentries]
    simp only [Cursor.before]
    rw [filter_numbered hnum, ← drop_drop, htake]

section
variable {v : Viewer} {m : Moment} {r : Ref}

lemma sameProc_offers {l l' : List Envelope}
    (h : (l.filter v.sees).map Envelope.anon = l'.map Envelope.anon) :
    SameProc v m (l.map fun e => .offer r e) (l'.map fun e => .offer r e) := by
  induction l generalizing l' with
  | nil =>
    obtain rfl : l' = [] := map_eq_nil_iff.mp h.symm
    exact .nil
  | cons e l ih =>
    cases hs : v.sees e with
    | true =>
      rw [filter_cons_of_pos hs, map_cons] at h
      cases l' with
      | nil => cases h
      | cons e' l' =>
        obtain ⟨he, hl⟩ := List.cons.inj h
        exact .cons (.offer r he.symm) (ih hl)
    | false =>
      rw [filter_cons_of_neg (by simp [hs])] at h
      exact .skip (.inr hs) (ih h)

lemma sameProc_copies {env env' : Envelope} (h : env'.anon = env.anon) (order : List (String × Ref)) :
    SameProc v m (order.map fun e => .offer e.2 env) (order.map fun e => .offer e.2 env') := by
  induction order with
  | nil => exact .nil
  | cons e order ih => exact .cons (.offer e.2 h) ih

lemma sameProc_hidden {c : HubClient} (hc : m.clients[r]? = some c) (hs : c.scope ≠ v.scope)
    (l : List Envelope) : SameProc v m (l.map fun e => .offer r e) [] := by
  induction l with
  | nil => exact .nil
  | cons e l ih => exact .skip (.inl ⟨c, hc, hs⟩) ih

end

/-! ## The simulation -/

structure Sim (v : Viewer) (log : String → List Envelope) (s : State) (t : Ideal) : Prop where
  clients : t.state.hub.clients = s.hub.clients
  subs : t.state.hub.subs = s.hub.subs
  objects : SameClients v log t.log s.hub.objects t.state.hub.objects
  logs : ∀ x, v.Observable x → Alike v (log x) (t.log x)
  numbered : ∀ x, (t.state.hub.rings x).Logs (t.log x)
  running : SameProcs v ⟨s.hub.objects, log, t.log⟩ s.running t.state.running
  crashed : t.state.crashed = true → s.crashed = true

section
variable {v : Viewer} {log : String → List Envelope} {s : State} {t : Ideal}
variable {h : Hub} {log' : String → List Envelope} {env : Envelope} {h' : Hub}

section
variable (sim : Sim v log s t)
include sim

lemma Sim.moved {ps ps' : Pool.Procs Section}
    (hclients : h'.clients = h.clients) (hsubs : h'.subs = h.subs)
    (objects : SameClients v log t.log h.objects h'.objects) (rings : h'.rings = t.state.hub.rings)
    (running : SameProcs v ⟨h.objects, log, t.log⟩ ps ps') :
    Sim v log { s with hub := h, running := ps }
      { t with state := { t.state with hub := h', running := ps' } } where
  clients := hclients
  subs := hsubs
  objects := objects
  logs := sim.logs
  numbered := by rw [rings]; exact sim.numbered
  running := running
  crashed := sim.crashed

lemma Sim.hubs (keeps : KeepsScopes s.hub.objects h.objects)
    (hclients : h'.clients = h.clients) (hsubs : h'.subs = h.subs)
    (objects : SameClients v log t.log h.objects h'.objects) (rings : h'.rings = t.state.hub.rings) :
    Sim v log { s with hub := h } { t with state := { t.state with hub := h' } } :=
  sim.moved hclients hsubs objects rings (sim.running.later (.of_clients keeps))

lemma Sim.start {p p' : List Section}
    (h : SameProc v ⟨s.hub.objects, log, t.log⟩ p p') :
    Sim v log (s.start p) { t with state := t.state.start p' } :=
  { sim with running := sim.running.spawn h }

lemma Sim.register (id : String) (scope : Scope) :
    Sim v log { s with hub := s.hub.register id scope }
      { t with state := { t.state with hub := t.state.hub.register id scope } } := by
  have hobj := sim.objects
  unfold Hub.register
  rw [sim.clients]
  split
  · exact sim
  refine sim.hubs (Evolves.append _ _).keepsScopes ?_ sim.subs ⟨?_, ?_⟩ rfl
  · dsimp only
    rw [hobj.length]
  · dsimp only
    rw [length_append, length_append, hobj.length]
  intro r c hc
  dsimp only at hc ⊢
  by_cases hr : r < s.hub.objects.length
  · rw [getElem?_append_left hr] at hc
    obtain ⟨c', hc', same⟩ := hobj.get hc
    rw [getElem?_append_left (by rw [hobj.length]; exact hr)]
    exact ⟨c', hc', same⟩
  · rw [getElem?_append_right (not_lt.mp hr)] at hc
    rw [getElem?_append_right (by rw [hobj.length]; exact not_lt.mp hr), hobj.length]
    refine ⟨c, hc, ?_⟩
    obtain rfl := mem_singleton.mp (mem_of_getElem? hc)
    exact ⟨rfl, rfl, rfl, fun _ => rfl, fun _ => rfl, fun _ _ _ => .zero _ _⟩

lemma Sim.deregister (id : String) : Sim v log { s with hub := s.hub.deregister id }
      { t with state := { t.state with hub := t.state.hub.deregister id } } := by
  unfold Hub.deregister
  rw [sim.clients]
  split
  · exact sim
  rename_i r hr
  refine sim.hubs (.modify r fun _ => rfl) rfl ?_ ?_ rfl
  · dsimp only
    rw [sim.subs]
  · exact sim.objects.modify r _ _ fun c c' _ same => { same with closed := rfl }

lemma Sim.unsubscribe (id x : String) :
    Sim v log { s with hub := s.hub.unsubscribe id x }
      { t with state := { t.state with hub := t.state.hub.unsubscribe id x } } := by
  refine sim.hubs (s.hub.evolves_unsubscribe id x).keepsScopes sim.clients ?_ ?_ rfl
  · simp only [Hub.unsubscribe, sim.subs]
  have hmem : t.state.hub.hasSubscribers x = s.hub.hasSubscribers x := by
    simp only [Hub.hasSubscribers, sim.subs]
  simp only [Hub.unsubscribe, sim.clients, hmem]
  split
  · exact sim.objects
  split
  · refine sim.objects.modify _ _ _ fun c c' _ same => { same with ceil := fun own y hy => ?_ }
    by_cases e : y = x
    · subst e
      simpa using SameCeiling.zero _ _
    · simpa [e] using same.ceil own y hy
  · exact sim.objects

lemma Sim.receive (r : Ref) :
    Sim v log { s with hub := { s.hub with objects := s.hub.objects.modify r HubClient.receive } }
      { t with state := { t.state with
          hub := { t.state.hub with objects := t.state.hub.objects.modify r HubClient.receive } } } := by
  refine sim.hubs (.modify r fun _ => rfl) sim.clients sim.subs ?_ rfl
  refine sim.objects.modify r _ _ fun c c' _ same =>
    ⟨same.id, same.scope, same.closed, fun own => ?_, fun own => ?_, same.ceil⟩
  · have hhead := congrArg List.head? (same.queue own)
    rw [head?_map, head?_map] at hhead
    have htoList : ∀ e : Option Envelope, e.toList.map Envelope.anon = (e.map Envelope.anon).toList := by
      intro e
      cases e <;> rfl
    simp only [HubClient.receive, map_append, same.received own, htoList, hhead]
  · simp only [HubClient.receive, map_tail, same.queue own]

lemma Sim.join (logs : ∀ x, (s.hub.rings x).Logs (log x)) (id x : String) (r : Ref) :
    SameClients v log t.log (s.hub.join id x r).objects (t.state.hub.join id x r).objects := by
  have hmem : t.state.hub.member id x = s.hub.member id x := by simp only [Hub.member, sim.subs]
  simp only [Hub.join, hmem]
  split
  · exact sim.objects
  refine sim.objects.modify r _ _ fun c c' _ same => { same with ceil := fun own y hy => ?_ }
  by_cases e : y = x
  · subst e
    simpa [(logs y).head, (sim.numbered y).head] using SameCeiling.full (sim.logs y hy)
  · simpa [e] using same.ceil own y hy

end

lemma SameClient.queues {c c' : HubClient}
    (same : SameClient v log log' c c') (hs : c.scope ≠ v.scope) (q q' : List Envelope) :
    SameClient v log log' { c with queue := q } { c' with queue := q' } :=
  { same with
    received := fun own => absurd own hs
    queue := fun own => absurd own hs
    ceil := fun own => absurd own hs }

lemma SameClients.offer_hidden {k : Hub} {cs' : List HubClient}
    {r : Ref} (hobj : SameClients v log log' h.objects cs')
    (hidden : Hidden v ⟨h.objects, log, log'⟩ r env) (ho : h.offer v.o r env = some k) :
    SameClients v log log' k.objects cs' := by
  unfold Hub.offer at ho
  split at ho
  · cases ho
    exact hobj
  rename_i c hc
  split at ho
  · cases ho
    exact hobj
  rename_i hallows
  split at ho
  · cases ho
  split at ho
  · cases ho
    have hs : c.scope ≠ v.scope := by
      rcases hidden with ⟨c', hc', hs⟩ | hunseen
      · obtain rfl := Option.some.inj (hc.symm.trans hc')
        exact hs
      · intro own
        rw [own] at hallows
        exact hallows (by simpa [Viewer.sees] using hunseen)
    refine hobj.modify_left r _ fun d d' hd same => ?_
    obtain rfl := Option.some.inj (hc.symm.trans hd)
    exact same.queues hs _ d'.queue
  · cases ho
    exact hobj

lemma SameClients.offer {j : Hub} {env' : Envelope}
    (hobj : SameClients v log log' h.objects j.objects) (r : Ref) (henv : env'.anon = env.anon) :
    (h.offer v.o r env = none ∧ j.offer v.o r env' = none) ∨
    ∃ k k', h.offer v.o r env = some k ∧ j.offer v.o r env' = some k' ∧
    SameClients v log log' k.objects k'.objects := by
  unfold Hub.offer
  cases hc : h.objects[r]? with
  | none =>
    have hc' : j.objects[r]? = none := by
      rw [List.getElem?_eq_none_iff] at hc ⊢
      rwa [hobj.length]
    rw [hc']
    exact .inr ⟨h, j, rfl, rfl, hobj⟩
  | some c =>
    obtain ⟨c', hc', same⟩ := hobj.get hc
    rw [hc']
    dsimp only
    rw [same.scope, Scope.allows_of_anon henv, same.closed]
    split
    · exact .inr ⟨h, j, rfl, rfl, hobj⟩
    split
    · exact .inl ⟨rfl, rfl⟩
    right
    by_cases own : c.scope = v.scope
    · have hlen : c'.queue.length = c.queue.length := by
        simpa only [length_map] using congrArg List.length (same.queue own)
      rw [hlen]
      split
      · refine ⟨_, _, rfl, rfl, hobj.modify r _ _ fun d d' _ same' => { same' with queue := fun own' => ?_ }⟩
        simp only [map_append, same'.queue own', map_singleton, henv]
      · exact ⟨h, j, rfl, rfl, hobj⟩
    · have hother : ∀ f f' : HubClient → HubClient,
          (∀ d, ∃ q, f d = { d with queue := q }) → (∀ d, ∃ q, f' d = { d with queue := q }) →
          SameClients v log log' (h.objects.modify r f) (j.objects.modify r f') := by
        intro f f' hf hf'
        refine hobj.modify r f f' fun d d' hd same' => ?_
        obtain rfl := Option.some.inj (hc.symm.trans hd)
        obtain ⟨q, hq⟩ := hf c
        obtain ⟨q', hq'⟩ := hf' d'
        rw [hq, hq']
        exact same'.queues own q q'
      split <;> split
      · exact ⟨_, _, rfl, rfl, hother _ _ (fun _ => ⟨_, rfl⟩) fun _ => ⟨_, rfl⟩⟩
      · refine ⟨_, _, rfl, rfl, ?_⟩
        simpa using hother _ id (fun _ => ⟨_, rfl⟩) fun d => ⟨d.queue, rfl⟩
      · refine ⟨_, _, rfl, rfl, ?_⟩
        simpa using hother id _ (fun d => ⟨d.queue, rfl⟩) fun _ => ⟨_, rfl⟩
      · exact ⟨h, j, rfl, rfl, hobj⟩

end

section
variable {v : Viewer} {log : String → List Envelope} {s : State} {t : Ideal} {i : Nat}
  {order : List (String × Ref)} {l : Label}

def grown (log : String → List Envelope) (s : State) (l : Label) : String → List Envelope :=
  fun x => log x ++ adds x s l

lemma grown_eq (h : ∀ env, s.takes l ≠ some (.add env)) : grown log s l = log := by
  funext x
  have hadds : adds x s l = [] := by
    unfold adds
    split
    · rename_i env htakes
      exact absurd htakes (h env)
    · rfl
  rw [grown, hadds, append_nil]

variable {env : Envelope} {x : String} {r : Ref} {p : Payload} {a : Section} {h : Hub}

lemma grown_add (hn : Pool.next? s.running i = some (.add env)) : grown log s (.advance i order) = fun x =>
      if env.subject = x then log x ++ [(s.hub.rings x).number env] else log x := by
  funext x
  simp only [grown, adds, State.takes, hn]
  split
  · rfl
  · exact append_nil _

lemma sees_buildEnvelope {owner : String} (hb : buildEnvelope v.o x p (some owner) = some env) :
    v.sees env = v.o.ownerMatches owner v.owner := by
  obtain ⟨raw, -, rfl⟩ := Option.map_eq_some_iff.mp hb
  simp [Viewer.sees, Scope.allows, Viewer.scope, Options.ownerMatches]

lemma publish_foreign {m : Moment} {always : Bool}
    {scopedTo : Option String} (hf : Foreign v m (.publish always x p scopedTo)) :
    ∀ b ∈ h.publish v.o always x p scopedTo, Foreign v m b := by
  intro b hb
  unfold Hub.publish at hb
  split at hb
  · split at hb
    · rename_i env hbuild
      obtain rfl := mem_singleton.mp hb
      rcases hf with hx | ⟨owner, rfl, howner⟩
      · obtain ⟨raw, -, rfl⟩ := Option.map_eq_some_iff.mp hbuild
        exact .inl hx
      · exact .inr ((sees_buildEnvelope hbuild).trans howner)
    · cases hb
  · cases hb

lemma copy_foreign {log' : String → List Envelope} (lk : Linked False s)
    (g : Gated v s) (perm : order.Perm (s.hub.subs env.subject))
    (hf : ¬ v.Observable env.subject ∨ v.sees env = false) :
    ∀ b ∈ order.map (fun m => Section.offer m.2 env), Foreign v ⟨s.hub.objects, log, log'⟩ b := by
  intro b hb
  obtain ⟨e, he, rfl⟩ := mem_map.mp hb
  rcases hf with hx | hunseen
  · have hmem := perm.subset he
    obtain ⟨c, hc, -⟩ := lk.hub.registered (lk.hub.members hmem)
    exact .inl ⟨c, hc, fun own => hx (g.members hmem hc own)⟩
  · exact .inr hunseen

lemma Sim.hidden (sim : Sim v log s t) {e : Envelope} (hn : Pool.next? s.running i = some (.offer r e))
    (hidden : Hidden v ⟨s.hub.objects, log, t.log⟩ r e)
    (go : ∀ m', Moment.Le ⟨s.hub.objects, log, t.log⟩ m' →
      SameProcs v m' (Pool.resume s.running i []) t.state.running) :
    Sim v log (s.advance v.o i order) t := by
  cases ho : s.hub.offer v.o r e with
  | none =>
    rw [advance_panic hn (by simp [Section.take, ho])]
    exact { sim with crashed := fun _ => rfl }
  | some h =>
    rw [advance_some hn (k := []) (h := h) (by simp [Section.take, ho])]
    obtain ⟨hclients, hsubs, -⟩ := offer_frame ho
    exact sim.moved (sim.clients.trans hclients.symm) (sim.subs.trans hsubs.symm)
      (sim.objects.offer_hidden hidden ho) rfl (go _ (.of_clients (evolves_offer ho).keepsScopes))

lemma Sim.foreign (sim : Sim v log s t) (lk : Linked False s) (g : Gated v s)
    (hn : Pool.next? s.running i = some a) (admits : a.Admits s.hub order)
    (hf : Foreign v ⟨s.hub.objects, log, t.log⟩ a)
    (go : ∀ m', Moment.Le ⟨s.hub.objects, log, t.log⟩ m' → ∀ k, (∀ b ∈ k, Foreign v m' b) →
    SameProcs v m' (Pool.resume s.running i k) t.state.running) :
    Sim v (grown log s (.advance i order)) (s.advance v.o i order) t := by
  have hgrown : (∀ env, a ≠ .add env) → grown log s (.advance i order) = log :=
    fun h => grown_eq fun env htakes => h env (Option.some.inj (hn.symm.trans htakes))
  cases a with
  | publish always x p scopedTo =>
    rw [hgrown (by simp), advance_some hn rfl]
    exact sim.moved sim.clients sim.subs sim.objects rfl (go _ (.refl _) _ (publish_foreign hf))
  | add env =>
    rw [grown_add hn, advance_some hn rfl]
    have le : Moment.Le ⟨s.hub.objects, log, t.log⟩ ⟨s.hub.objects, fun x =>
        if env.subject = x then log x ++ [(s.hub.rings x).number env] else log x, t.log⟩ := by
      refine ⟨.rfl, fun x => ?_, fun x => ⟨[], (append_nil _).symm⟩⟩
      dsimp only
      split
      · exact ⟨_, rfl⟩
      · exact ⟨[], (append_nil _).symm⟩
    refine ⟨sim.clients, sim.subs, sim.objects.later le, fun x hx => ?_, sim.numbered, ?_, sim.crashed⟩
    · split
      · rename_i e
        subst e
        have hunseen : v.sees ((s.hub.rings env.subject).number env) = false :=
          (Scope.allows_of_anon rfl _).trans (hf.resolve_left fun h => h hx)
        simpa using (sim.logs _ hx).append (alike_nil_of_unseen hunseen)
      · exact sim.logs x hx
    · refine go _ le _ fun b hb => ?_
      obtain rfl := mem_singleton.mp hb
      exact hf.imp_right fun hunseen => (Scope.allows_of_anon rfl _).trans hunseen
  | copy env =>
    rw [hgrown (by simp), advance_some hn rfl]
    exact sim.moved sim.clients sim.subs sim.objects rfl
      (go _ (.refl _) _ (copy_foreign lk g admits hf))
  | offer r env =>
    rw [hgrown (by simp)]
    exact sim.hidden hn hf fun m' le => go m' le [] (by simp)
  | enter id x cursor calls => cases hf
  | replay id r x cursor ceil => cases hf

lemma filter_seq_le {r : SubjectRing} {l : List Envelope} (w : r.Logs l) (n : Nat) :
    l.filter (fun e => decide (e.seq ≤ n)) = l.take n := by
  have hnum : ∀ i e, l[i]? = some e → e.seq = 0 + i + 1 := fun i e hi => by rw [w.numbered hi, Nat.zero_add]
  have hpos : l.filter (fun e => decide (0 < e.seq)) = l := by
    refine filter_eq_self.mpr fun e he => ?_
    obtain ⟨i, hi⟩ := mem_iff_getElem?.mp he
    simp [w.numbered hi]
  simpa [hpos] using filter_numbered hnum 0 n

lemma filter_drop (p : Envelope → Bool) (l : List Envelope) (d : Nat) :
    (l.drop d).filter p = (l.filter p).drop ((l.take d).filter p).length := by
  conv_rhs => rw [← take_append_drop d l, filter_append, take_append_drop]
  rw [drop_left]

lemma Sim.replays (sim : Sim v log s t) (logs : ∀ x, (s.hub.rings x).Logs (log x))
    {n n' : Nat} (cursor : Cursor)
    (same : SameReplay v ⟨s.hub.objects, log, t.log⟩ r x n n') :
    ∃ start, SameProc v ⟨s.hub.objects, log, t.log⟩ ((s.hub.replays x cursor n).map fun e => .offer r e)
      ((t.replays v.o r x n' start).map fun e => .offer r e) := by
  obtain ⟨c, hc, hown⟩ := same
  obtain ⟨c', hc', hsame⟩ := sim.objects.get hc
  by_cases own : c.scope = v.scope
  · obtain ⟨hx, hceil⟩ := hown own
    obtain ⟨d, hd⟩ := replays_eq_drop (logs x) cursor n
    refine ⟨(((log x).take n).take d |>.filter v.sees).length, sameProc_offers ?_⟩
    have hfilter : (t.log x).filter (fun e => decide (e.seq ≤ n') && v.sees e) = ((t.log x).take n').filter v.sees := by
      rw [← filter_seq_le (sim.numbered x), filter_filter]
      exact filter_congr fun e _ => Bool.and_comm _ _
    have halike : (((log x).take n).filter v.sees).map Envelope.anon =
        (((t.log x).take n').filter v.sees).map Envelope.anon := hceil.alike
    have hscope : ∀ e, c'.scope.allows v.o e = v.sees e := fun e => by rw [hsame.scope, own, Viewer.sees]
    simp only [Ideal.replays, hc', Option.any_some, hscope]
    rw [hfilter, hd, filter_drop, map_drop, map_drop, halike]
  · refine ⟨(t.log x).length, ?_⟩
    have hnil : t.replays v.o r x n' (t.log x).length = [] := drop_eq_nil_of_le (length_filter_le _ _)
    rw [hnil]
    exact sameProc_hidden hc own _

lemma Section.take_enter {o : Options} {id : String} {cursor : Cursor} {calls : List Cursor}
    (hr : h.clients id = some r) :
    (Section.enter id x cursor calls).take o order h =
    some (.replay id r x cursor ((h.join id x r).ceiling r x) :: subscribes id x calls, h.join id x r) := by
  simp only [Section.take, hr]

lemma Sim.enter (sim : Sim v log s t) (logs : ∀ x, (s.hub.rings x).Logs (log x)) (id : String)
    (hc : ∃ c, s.hub.objects[r]? = some c ∧ (c.scope = v.scope → v.Observable x)) :
    SameReplay v ⟨(s.hub.join id x r).objects, log, t.log⟩ r x
      ((s.hub.join id x r).ceiling r x) ((t.state.hub.join id x r).ceiling r x) := by
  obtain ⟨c, hc, hx⟩ := hc
  obtain ⟨c1, hc1, same⟩ := s.hub.evolves_join id x r r c hc
  obtain ⟨c', hc', hsame⟩ := (sim.join logs id x r).get hc1
  refine ⟨c1, hc1, fun own => ?_⟩
  have hobs := hx (same.scope.symm.trans own)
  simp only [Hub.ceiling, hc1, hc', Option.bind_some]
  exact ⟨hobs, hsame.ceil own x hobs⟩

lemma Sim.same (sim : Sim v log s t) (lk : Linked False s) (g : Gated v s)
    (logs : ∀ x, (s.hub.rings x).Logs (log x)) {a' : Section} {i' : Nat}
    (hn : Pool.next? s.running i = some a) (admits : a.Admits s.hub order)
    (h : SameSection v ⟨s.hub.objects, log, t.log⟩ a a') (hn' : Pool.next? t.state.running i' = some a')
    (go : ∀ m', Moment.Le ⟨s.hub.objects, log, t.log⟩ m' → ∀ k k', SameProc v m' k k' →
    SameProcs v m' (Pool.resume s.running i k) (Pool.resume t.state.running i' k')) :
    a'.Admits t.state.hub order ∧ ∃ start,
    Sim v (grown log s (.advance i order)) (s.advance v.o i order)
    (Ideal.next v.o (.advance i' order, start) t) := by
  have hgrown : (∀ env, a ≠ .add env) → grown log s (.advance i order) = log :=
    fun h => grown_eq fun env htakes => h env (Option.some.inj (hn.symm.trans htakes))
  cases h with
  | publish always x p scopedTo =>
    refine ⟨trivial, 0, ?_⟩
    have hpublish : t.state.hub.publish v.o always x p scopedTo = s.hub.publish v.o always x p scopedTo := by
      have hsubs : t.state.hub.hasSubscribers x = s.hub.hasSubscribers x := by
        simp only [Hub.hasSubscribers, sim.subs]
      rw [Hub.publish, hsubs]
      rfl
    have hsame : SameProc v ⟨s.hub.objects, log, t.log⟩ (s.hub.publish v.o always x p scopedTo)
        (t.state.hub.publish v.o always x p scopedTo) := by
      rw [hpublish]
      refine sameProc_refl fun b hb => ?_
      unfold Hub.publish at hb
      repeat' split at hb
      all_goals simp only [mem_singleton, not_mem_nil] at hb
      subst hb
      exact .add _
    rw [hgrown (by simp), advance_some hn rfl]
    simp only [Ideal.next, Ideal.advance, hn']
    rw [advance_some hn' rfl]
    exact sim.moved sim.clients sim.subs sim.objects rfl (go _ (.refl _) _ _ hsame)
  | add env =>
    refine ⟨trivial, 0, ?_⟩
    rw [grown_add hn, advance_some hn rfl]
    simp only [Ideal.next, Ideal.advance, hn']
    rw [advance_some hn' rfl]
    have hnumber : ((t.state.hub.rings env.subject).number env).anon =
        ((s.hub.rings env.subject).number env).anon := rfl
    have le : Moment.Le ⟨s.hub.objects, log, t.log⟩ ⟨s.hub.objects, fun x =>
        if env.subject = x then log x ++ [(s.hub.rings x).number env] else log x,
        update t.log env.subject
          (t.log env.subject ++ [(t.state.hub.rings env.subject).number env])⟩ := by
      refine ⟨.rfl, fun x => ?_, fun x => ?_⟩
      · dsimp only
        split
        · exact ⟨_, rfl⟩
        · exact ⟨[], (append_nil _).symm⟩
      · by_cases e : x = env.subject
        · subst e
          exact ⟨_, update_self ..⟩
        · exact ⟨[], by simp [e]⟩
    refine ⟨sim.clients, sim.subs, sim.objects.later le, fun x hx => ?_, fun x => ?_,
      go _ le _ _ (.cons (.copy hnumber) .nil), sim.crashed⟩
    · by_cases e : x = env.subject
      · subst e
        simpa using (sim.logs _ hx).append (alike_singleton hnumber)
      · simpa [e, Ne.symm e] using sim.logs x hx
    · by_cases e : x = env.subject
      · subst e
        simpa using (sim.numbered env.subject).add env
      · simpa [e] using sim.numbered x
  | @copy env env' henv =>
    have hsubject := subject_of_anon henv
    refine ⟨?_, 0, ?_⟩
    · show order.Perm (t.state.hub.subs env'.subject)
      rw [sim.subs, hsubject]
      exact admits
    rw [hgrown (by simp), advance_some hn rfl]
    simp only [Ideal.next, Ideal.advance, hn']
    rw [advance_some hn' rfl]
    exact sim.moved sim.clients sim.subs sim.objects rfl
      (go _ (.refl _) _ _ (sameProc_copies henv order))
  | @offer r env env' henv =>
    refine ⟨trivial, 0, ?_⟩
    rw [hgrown (by simp)]
    simp only [Ideal.next, Ideal.advance, hn']
    rcases sim.objects.offer (h := s.hub) (j := t.state.hub) r henv with ⟨ho, ho'⟩ | ⟨k, k', ho, ho', objects⟩
    · rw [advance_panic hn (by simp [Section.take, ho])]
      rw [advance_panic hn' (by simp [Section.take, ho'])]
      exact { sim with crashed := fun _ => rfl }
    rw [advance_some hn (k := []) (h := k) (by simp [Section.take, ho])]
    rw [advance_some hn' (k := []) (h := k') (by simp [Section.take, ho'])]
    obtain ⟨hclients, hsubs, -⟩ := offer_frame ho
    obtain ⟨hclients', hsubs', hrings'⟩ := offer_frame ho'
    refine sim.moved ?_ ?_ objects hrings'
      (go _ (.of_clients (evolves_offer ho).keepsScopes) _ _ .nil)
    · rw [hclients, hclients', sim.clients]
    · rw [hsubs, hsubs', sim.subs]
  | enter id x cursor calls =>
    refine ⟨trivial, 0, ?_⟩
    rw [hgrown (by simp)]
    simp only [Ideal.next, Ideal.advance, hn']
    cases hr : s.hub.clients id with
    | none =>
      have hr' : t.state.hub.clients id = none := by rw [sim.clients, hr]
      rw [advance_some hn (k := []) (h := s.hub) (by simp [Section.take, hr])]
      rw [advance_some hn' (k := []) (h := t.state.hub) (by simp [Section.take, hr'])]
      exact sim.moved sim.clients sim.subs sim.objects rfl (go _ (.refl _) _ _ .nil)
    | some r =>
      have hr' : t.state.hub.clients id = some r := by rw [sim.clients, hr]
      rw [advance_some hn (take_enter hr), advance_some hn' (take_enter hr')]
      have hreplay := sim.enter logs id (g.enter lk (Pool.next?_mem hn) hr)
      refine sim.moved sim.clients ?_ (sim.join logs id x r) rfl
        (go _ (.of_clients (s.hub.evolves_join id x r).keepsScopes) _ _
          (.cons (.replay id cursor hreplay) (subscribes_same id x calls _)))
      simp only [Hub.join, sim.subs]
  | replay id cursor same =>
    obtain ⟨start, hsame⟩ := sim.replays logs cursor same
    refine ⟨trivial, start, ?_⟩
    rw [hgrown (by simp), advance_some hn rfl]
    simp only [Ideal.next, Ideal.advance, hn']
    exact sim.moved sim.clients sim.subs sim.objects rfl (go _ (.refl _) _ _ hsame)

def Follows (v : Viewer) (log : String → List Envelope) (s : State) (t : Ideal) (calls : List Label) : Prop :=
  (calls = [] ∧ Sim v log s t) ∨
    ∃ k : Label × Nat, Enabled t.state k.1 ∧ k.1.call = calls ∧ Sim v log s (Ideal.next v.o k t)

lemma Sim.awake (sim : Sim v log s t) (h : s.crashed = false) : t.state.crashed = false := by
  cases ht : t.state.crashed with
  | false => rfl
  | true => rw [sim.crashed ht] at h; cases h

lemma Sim.advance (sim : Sim v log s t) (lk : Linked False s) (g : Gated v s)
    (logs : ∀ x, (s.hub.rings x).Logs (log x)) (enabled : Enabled s (.advance i order)) :
    Follows v (grown log s (.advance i order)) (s.advance v.o i order) t [] := by
  obtain ⟨awake, hadmits⟩ := enabled
  cases hn : Pool.next? s.running i with
  | none => simp [hn] at hadmits
  | some a =>
    have admits : a.Admits s.hub order := by simpa [hn] using hadmits
    cases sim.running.matched hn with
    | foreign hf go => exact .inl ⟨rfl, sim.foreign lk g hn admits hf go⟩
    | hidden ha hidden go =>
      subst ha
      rw [grown_eq fun env htakes => by cases hn.symm.trans htakes]
      exact .inl ⟨rfl, sim.hidden hn hidden go⟩
    | same i' h hn' go =>
      obtain ⟨admits', start, hsim⟩ := sim.same lk g logs hn admits h hn' go
      refine .inr ⟨(.advance i' order, start), ⟨sim.awake awake, ?_⟩, rfl, hsim⟩
      simpa [hn'] using admits'

lemma Sim.called (sim : Sim v log s t) (hl : ∀ e cached now, l ≠ .notify e cached now)
    (lk : Linked False s) (g : Gated v s) (logs : ∀ x, (s.hub.rings x).Logs (log x))
    (enabled : Enabled s l) : Follows v (grown log s l) (next v.o l s) t l.call := by
  have awake := sim.awake enabled.1
  cases l with
  | advance i order => exact sim.advance lk g logs enabled
  | notify e cached now => exact absurd rfl (hl e cached now)
  | register id scope =>
    rw [grown_eq (by simp [State.takes])]
    exact .inr ⟨(.register id scope, 0), ⟨awake, trivial⟩, rfl, sim.register id scope⟩
  | deregister id =>
    rw [grown_eq (by simp [State.takes])]
    exact .inr ⟨(.deregister id, 0), ⟨awake, trivial⟩, rfl, sim.deregister id⟩
  | unsubscribe id x =>
    rw [grown_eq (by simp [State.takes])]
    exact .inr ⟨(.unsubscribe id x, 0), ⟨awake, trivial⟩, rfl, sim.unsubscribe id x⟩
  | subscribe id x cursor =>
    rw [grown_eq (by simp [State.takes])]
    refine .inr ⟨(.subscribe id x cursor, 0), ⟨awake, trivial⟩, rfl, ?_⟩
    simp only [Push.next, Ideal.next]
    split
    · exact sim.start (subscribes_same id x _ _)
    · exact sim
  | handleSubscribe id x sinceSeq =>
    rw [grown_eq (by simp [State.takes])]
    refine .inr ⟨(.handleSubscribe id x sinceSeq, 0), ⟨awake, trivial⟩, rfl, ?_⟩
    simp only [Push.next, Ideal.next]
    split
    · exact sim.start (subscribes_same id x _ _)
    · exact sim
  | receive r =>
    rw [grown_eq (by simp [State.takes])]
    exact .inr ⟨(.receive r, 0), ⟨awake, trivial⟩, rfl, sim.receive r⟩

lemma Sim.notify (sim : Sim v log s t) (e : Event) (cached : String) (now : Nat) (awake : s.crashed = false) :
    Follows v (grown log s (.notify e cached now)) (next v.o (.notify e cached now) s) t
      [.notify e cached now] := by
  rw [grown_eq (by simp [State.takes])]
  exact .inr ⟨(.notify e cached now, 0), ⟨sim.awake awake, trivial⟩, rfl, sim.start (e.sections_same cached now _)⟩

lemma sim_init (v : Viewer) : Sim v (fun _ => []) (hub v.o).init (ideal v.o).init where
  clients := rfl
  subs := rfl
  objects := ⟨rfl, fun hc => by cases hc⟩
  logs := fun _ _ => rfl
  numbered := fun _ => SubjectRing.logs_empty
  running := .nil
  crashed := fun h => h

end
end Sqi.Push
