import Sqi.Push.Ideal

/-! The gate of a subscription over a whole run.

A connection is asked once, when it subscribes. -/

namespace Sqi.Push
open List Transition

def HubClient.key (c : HubClient) : String × Scope := (c.id, c.scope)
open HubClient (key)

lemma map_key_modify {cs : List HubClient} {f : HubClient → HubClient} (r : Ref)
    (hf : ∀ c, (f c).id = c.id ∧ (f c).scope = c.scope) :
    (cs.modify r f).map key = cs.map key := by
  have hkey : ∀ c, (f c).key = c.key := fun c => Prod.ext (hf c).1 (hf c).2
  apply ext_getElem?
  intro i
  rw [getElem?_map, getElem?_map, getElem?_modify]
  cases hc : cs[i]? with
  | none => rfl
  | some c => by_cases e : r = i <;> simp [e, hkey]

def Gate (v : Viewer) (s : State) : Label → Prop
  | .register id _ => ∀ c ∈ s.hub.objects, c.id ≠ id
  | .subscribe id x _ | .handleSubscribe id x _ => isValidSubject x = true →
    ∃ c ∈ s.hub.objects, c.id = id ∧ (c.scope = v.scope → v.Observable x)
  | .notify e cached _ => (cached = "" ∨ cached = v.dir.ownerOf e.jobID) ∧
    (e.owner = "" ∨ e.owner = v.dir.ownerOf e.jobID)
  | _ => True

structure Gated (v : Viewer) (s : State) : Prop where
  ids : (s.hub.objects.map HubClient.id).Nodup
  members : ∀ {x : String} {e : String × Ref} {c : HubClient}, e ∈ s.hub.subs x →
    s.hub.objects[e.2]? = some c → c.scope = v.scope → v.Observable x
  entering : ∀ {id x : String} {cursor : Cursor} {calls : List Cursor},
    .enter id x cursor calls ∈ Pool.pending s.running →
      ∃ c ∈ s.hub.objects, c.id = id ∧ (c.scope = v.scope → v.Observable x)

section
variable {v : Viewer} {s s' : State} {id : String} {o : Options} {order : List (String × Ref)} {r : Ref}
  {x : String} {calls : List Cursor} {cursor : Cursor} {c' : HubClient} {c : HubClient}

lemma exists_of_map_key {cs cs' : List HubClient} (h : cs'.map key = cs.map key)
    (hc : cs'[r]? = some c') :
    ∃ c, cs[r]? = some c ∧ c'.id = c.id ∧ c'.scope = c.scope := by
  have hget : (cs'.map key)[r]? = (cs.map key)[r]? := by rw [h]
  rw [getElem?_map, getElem?_map, hc] at hget
  obtain ⟨c, hc', e⟩ := Option.map_eq_some_iff.mp hget.symm
  obtain ⟨hid, hscope⟩ := Prod.mk.inj e
  exact ⟨c, hc', hid.symm, hscope.symm⟩

lemma mem_of_map_key {cs cs' : List HubClient} (h : cs'.map key = cs.map key)
    (hc : c ∈ cs) : ∃ c' ∈ cs', c'.id = c.id ∧ c'.scope = c.scope := by
  obtain ⟨r, hr⟩ := mem_iff_getElem?.mp hc
  obtain ⟨c', hc', hid, hscope⟩ := exists_of_map_key h.symm hr
  exact ⟨c', mem_of_getElem? hc', hid.symm, hscope.symm⟩

section
variable (g : Gated v s)
include g

lemma Gated.still (hk : s'.hub.objects.map key = s.hub.objects.map key)
    (hsubs : ∀ x e, e ∈ s'.hub.subs x → e ∈ s.hub.subs x)
    (hpending : ∀ id x cursor calls, .enter id x cursor calls ∈ Pool.pending s'.running →
      ∃ cursor' calls', .enter id x cursor' calls' ∈ Pool.pending s.running) : Gated v s' where
  ids := by
    have e : s'.hub.objects.map HubClient.id = s.hub.objects.map HubClient.id := by
      have hids := congrArg (List.map Prod.fst) hk
      simpa only [map_map, Function.comp_def, key] using hids
    rw [e]
    exact g.ids
  members he hc own := by
    obtain ⟨c, hc', -, hscope⟩ := exists_of_map_key hk hc
    exact g.members (hsubs _ _ he) hc' (hscope.symm.trans own)
  entering ha := by
    obtain ⟨cursor', calls', ha'⟩ := hpending _ _ _ _ ha
    obtain ⟨c, hc, hid, hx⟩ := g.entering ha'
    obtain ⟨c', hc', hid', hscope⟩ := mem_of_map_key hk hc
    exact ⟨c', hc', hid'.trans hid, fun own => hx (hscope.symm.trans own)⟩

lemma Gated.start {p : List Section} (hp : ∀ id x cursor calls, .enter id x cursor calls ∈ p →
      ∃ c ∈ s.hub.objects, c.id = id ∧ (c.scope = v.scope → v.Observable x)) : Gated v (s.start p) where
  ids := g.ids
  members := g.members
  entering ha := by
    rcases mem_append.mp (Pool.pending_spawn p ▸ ha) with ha | ha
    · exact g.entering ha
    · exact hp _ _ _ _ ha

lemma Gated.subscribes {cs : List Cursor}
    (h : ∃ c ∈ s.hub.objects, c.id = id ∧ (c.scope = v.scope → v.Observable x)) :
    Gated v (s.start (subscribes id x cs)) := by
  refine g.start fun id' x' cursor calls ha => ?_
  cases cs with
  | nil => cases ha
  | cons c cs =>
    obtain ⟨rfl, rfl, -, -⟩ := Section.enter.inj (mem_singleton.mp ha)
    exact h

lemma Gated.register (lk : Linked False s) {scope : Scope}
    (hnew : ∀ c ∈ s.hub.objects, c.id ≠ id) :
    Gated v { s with hub := s.hub.register id scope } := by
  unfold Hub.register
  split
  · exact g
  refine ⟨?_, ?_, ?_⟩
  · dsimp only
    rw [map_append]
    refine List.Nodup.append g.ids (nodup_singleton _) ?_
    intro i hi hi'
    obtain ⟨c, hc, rfl⟩ := mem_map.mp hi
    exact hnew c hc (mem_singleton.mp hi')
  · intro x e c he hc own
    obtain ⟨c0, hc0, -⟩ := lk.hub.registered (lk.hub.members he)
    dsimp only at hc
    rw [getElem?_append_left (List.getElem?_eq_some_iff.mp hc0).1] at hc
    exact g.members he hc own
  · intro id' x cursor calls ha
    obtain ⟨c, hc, h⟩ := g.entering ha
    exact ⟨c, mem_append_left _ hc, h⟩

lemma Gated.unique (hc : s.hub.objects[r]? = some c)
    (hc' : c' ∈ s.hub.objects) (h : c'.id = c.id) : c' = c :=
  inj_on_of_nodup_map g.ids hc' (mem_of_getElem? hc) h

lemma Gated.enter (lk : Linked False s)
    (hp : .enter id x cursor calls ∈ Pool.pending s.running)
    (hr : s.hub.clients id = some r) :
    ∃ c, s.hub.objects[r]? = some c ∧ (c.scope = v.scope → v.Observable x) := by
  obtain ⟨c, hc, hid, -⟩ := lk.hub.registered hr
  obtain ⟨c', hc', hid', hx⟩ := g.entering hp
  obtain rfl := g.unique hc hc' (hid'.trans hid.symm)
  exact ⟨c', hc, hx⟩

end

lemma map_key_join (h : Hub) (id x : String) (r : Ref) :
    (h.join id x r).objects.map key = h.objects.map key := by
  simp only [Hub.join]
  split
  · rfl
  · exact map_key_modify r fun _ => ⟨rfl, rfl⟩

lemma map_key_offer {h h' : Hub} {env : Envelope}
    (ho : h.offer o r env = some h') : h'.objects.map key = h.objects.map key := by
  unfold Hub.offer at ho
  repeat' split at ho
  all_goals cases ho
  all_goals first
    | rfl
    | exact map_key_modify r fun _ => ⟨rfl, rfl⟩

lemma Section.enter_of_take {h h' : Hub} {a : Section}
    {k : List Section} (ht : a.take o order h = some (k, h'))
    (hk : .enter id x cursor calls ∈ k) :
    ∃ cursor' calls', a = .enter id x cursor' calls' := by
  cases a with
  | publish always y payload scopedTo =>
    cases ht
    unfold Hub.publish at hk
    repeat' split at hk
    all_goals simp at hk
  | add env =>
    cases ht
    simp at hk
  | copy env =>
    cases ht
    simp at hk
  | offer r env =>
    obtain ⟨h1, -, e⟩ := Option.map_eq_some_iff.mp ht
    cases e
    cases hk
  | enter id' y cursor' calls' =>
    simp only [Section.take] at ht
    split at ht
    · cases ht
      cases hk
    cases ht
    rcases mem_cons.mp hk with e | hk
    · cases e
    cases calls' with
    | nil => cases hk
    | cons c cs =>
      obtain ⟨rfl, rfl, -, -⟩ := Section.enter.inj (mem_singleton.mp hk)
      exact ⟨_, _, rfl⟩
  | replay id' r y cursor' ceil =>
    cases ht
    simp at hk

lemma Gated.advance {i : Nat} (g : Gated v s) (lk : Linked False s) : Gated v (s.advance o i order) := by
  rcases s.advance_cases o i order with ⟨ha, w⟩ | ⟨r, env, c, ha, -, w⟩ | ⟨a, k, h', ha, ht, w⟩ <;> rw [w]
  · exact g
  · exact ⟨g.ids, g.members, g.entering⟩
  have hpending : ∀ id x cursor calls, .enter id x cursor calls ∈ Pool.pending (Pool.resume s.running i k) →
      ∃ cursor' calls', .enter id x cursor' calls' ∈ Pool.pending s.running := by
    intro id x cursor calls hb
    rcases Pool.mem_pending_resume ha hb with hb | hb
    · obtain ⟨cursor', calls', rfl⟩ := Section.enter_of_take ht hb
      exact ⟨cursor', calls', Pool.next?_mem ha⟩
    · exact ⟨cursor, calls, hb⟩
  cases a with
  | enter id x cursor calls =>
    simp only [Section.take] at ht
    split at ht
    · cases ht
      exact g.still rfl (fun _ _ h => h) hpending
    rename_i r hr
    cases ht
    have key := map_key_join s.hub id x r
    obtain ⟨c, hc, hx⟩ := g.enter lk (Pool.next?_mem ha) hr
    have g' : Gated v { s with
        hub := { s.hub.join id x r with subs := s.hub.subs }, running := Pool.resume s.running i _ } :=
      g.still key (fun _ _ h => h) hpending
    refine ⟨g'.ids, ?_, g'.entering⟩
    intro y e d he hd own
    by_cases hy : y = x
    · subst hy
      have he : e ∈ without (s.hub.subs y) id ∨ e = (id, r) := by simpa [Hub.join] using he
      rcases he with he | rfl
      · exact g'.members (mem_without.mp he).1 hd own
      · obtain ⟨c', hc', -, hscope⟩ := exists_of_map_key key hd
        obtain rfl := Option.some.inj (hc.symm.trans hc')
        exact hx (hscope.symm.trans own)
    · exact g'.members (x := y) (by simpa [Hub.join, hy] using he) hd own
  | offer r env =>
    obtain ⟨h1, ho, e⟩ := Option.map_eq_some_iff.mp ht
    cases e
    exact g.still (map_key_offer ho) (fun x e he => (Hub.offer_frame ho).2.1 ▸ he) hpending
  | _ =>
    cases ht
    exact g.still rfl (fun _ _ h => h) hpending

lemma Gated.next {l : Label} (g : Gated v s) (lk : Linked False s) (gate : Gate v s l) :
    Gated v (next o l s) := by
  have pending : ∀ id x cursor calls, Section.enter id x cursor calls ∈ Pool.pending s.running →
      ∃ cursor' calls', Section.enter id x cursor' calls' ∈ Pool.pending s.running :=
    fun _ _ cursor calls h => ⟨cursor, calls, h⟩
  cases l with
  | register id scope => exact g.register lk gate
  | deregister id =>
    refine g.still ?_ ?_ pending
    · simp only [Push.next, Hub.deregister]
      split
      · rfl
      · exact map_key_modify _ fun _ => ⟨rfl, rfl⟩
    · intro x e he
      simp only [Push.next, Hub.deregister] at he
      split at he
      · exact he
      · exact (mem_without.mp he).1
  | unsubscribe id x =>
    refine g.still ?_ ?_ pending
    · simp only [Push.next, Hub.unsubscribe]
      split
      · rfl
      · split
        · exact map_key_modify _ fun _ => ⟨rfl, rfl⟩
        · rfl
    · intro y e he
      by_cases hy : y = x
      · subst hy
        exact (mem_without.mp (by simpa [Push.next, Hub.unsubscribe] using he)).1
      · simpa [Push.next, Hub.unsubscribe, hy] using he
  | subscribe id x cursor =>
    simp only [Push.next]
    split
    · exact g.subscribes (gate ‹_›)
    · exact g
  | handleSubscribe id x sinceSeq =>
    simp only [Push.next]
    split
    · exact g.subscribes (gate ‹_›)
    · exact g
  | notify e cached now =>
    refine g.start fun id x cursor calls ha => ?_
    cases e <;> simp [Event.sections] at ha
  | advance i order => exact g.advance lk
  | receive r => exact g.still (map_key_modify r fun _ => ⟨rfl, rfl⟩) (fun _ _ h => h) pending

end
end Sqi.Push
