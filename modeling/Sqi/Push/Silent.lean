import Sqi.Push.Sequence

/-! Steps that bring a client nothing. -/

namespace Sqi.Push
open Function List Pool Section Transition

/-! ## What concerns the client -/

def Section.Concerns (h : Hub) (id x : String) : Section → Prop
  | .copy env => env.subject = x
  | .offer r env => env.subject = x ∧ h.clients id = some r
  | .replay id' _ x' _ _ => id' = id ∧ x' = x
  | _ => False

structure Silent (id x : String) (s s' : State) : Prop where
  client : s'.hub.clients id = s.hub.clients id
  member : s'.hub.member id x = s.hub.member id x
  object : ∀ {r c'}, s.hub.clients id = some r → s'.hub.objects[r]? = some c' →
    ∃ c, s.hub.objects[r]? = some c ∧ c'.scope = c.scope ∧ c'.replayCeil x = c.replayCeil x ∧
      ∀ e, e.subject = x → c'.sent.count e = c.sent.count e
  pending : ∀ a, a.Concerns s.hub id x → (Pool.pending s'.running).count a = (Pool.pending s.running).count a

section
variable {o : Options} {id x : String} {s s' : State}

lemma Silent.start {p : List Section} (hp : ∀ a ∈ p, ¬ a.Concerns s.hub id x) :
    Silent id x s (s.start p) where
  client := rfl
  member := rfl
  object hc ho := ⟨_, ho, rfl, rfl, fun _ _ => rfl⟩
  pending a ha := by
    have hn : a ∉ p := fun hm => hp a hm ha
    simp [State.start, count_eq_zero_of_not_mem hn]

variable {id' : String} {a : Section} {k : List Section} {x' : String} {h : Hub} {r : Ref} {i : Nat}

lemma subs_concerns (h : Hub) (id x : String) {cs : List Cursor}
    (ha : a ∈ subscribes id' x' cs) : ¬ a.Concerns h id x := by
  cases cs with
  | nil => cases ha
  | cons c cs =>
    obtain rfl := mem_singleton.mp ha
    exact not_false

lemma Event.sections_concerns {cached : String} {now : Nat} {e : Event}
    (ha : a ∈ e.sections o cached now) : ¬ a.Concerns h id x := by
  obtain ⟨_, _, _, _, rfl⟩ := Event.mem_sections ha
  exact not_false

lemma Silent.modify (r' : Ref) (f : HubClient → HubClient)
    (hf : ∀ c, s.hub.objects[r']? = some c → s.hub.clients id = some r' →
      (f c).scope = c.scope ∧ (f c).replayCeil x = c.replayCeil x ∧
        ∀ e, e.subject = x → (f c).sent.count e = c.sent.count e)
    (ho : s'.hub.objects = s.hub.objects.modify r' f) (hc : s'.hub.clients id = s.hub.clients id)
    (hm : s'.hub.member id x = s.hub.member id x)
    (hp : ∀ a, a.Concerns s.hub id x →
      (Pool.pending s'.running).count a = (Pool.pending s.running).count a) : Silent id x s s' where
  client := hc
  member := hm
  object {r c'} hr hc' := by
    rw [ho, getElem?_modify] at hc'
    obtain ⟨c, hcr, e⟩ := Option.map_eq_some_iff.mp hc'
    refine ⟨c, hcr, ?_⟩
    by_cases hrr : r' = r
    · subst hrr
      obtain rfl : f c = c' := by simpa using e
      exact hf c hcr hr
    · obtain rfl : c = c' := by simpa [hrr] using e
      exact ⟨rfl, rfl, fun _ _ => rfl⟩
  pending := hp

lemma Hub.Linked.ref_inj {q : Prop} (w : h.Linked q)
    (hr : h.clients id = some r) (hr' : h.clients id' = some r) : id = id' := by
  obtain ⟨c, hc, hid, -⟩ := w.registered hr
  obtain ⟨c', hc', hid', -⟩ := w.registered hr'
  obtain rfl := Option.some.inj (hc.symm.trans hc')
  exact hid.symm.trans hid'

lemma any_without {ms : List (String × Ref)} (hn : id' ≠ id) :
    (without ms id').any (fun m => m.1 = id) = ms.any fun m => m.1 = id := by
  rw [without, any_filter]
  congr 1
  funext m
  by_cases e : m.1 = id <;> simp [e, hn.symm]

lemma Silent.register {scope : Scope} (w : s.hub.Linked False) (hn : id' ≠ id ∨ (s.hub.clients id).isSome) :
    Silent id x s { s with hub := s.hub.register id' scope } := by
  have hs := (s.hub.register_frame id' scope).1
  refine ⟨?_, by simp only [Hub.member, hs], fun {r c'} hr hc => ?_, fun _ _ => rfl⟩
  · simp only [Hub.register]
    split
    · rfl
    next fresh =>
      rcases hn with hn | hn
      · exact update_of_ne hn.symm _ _
      by_cases e : id' = id
      · rw [← e, fresh] at hn
        cases hn
      · exact update_of_ne (Ne.symm e) _ _
  · obtain ⟨c, hobj, -⟩ := w.registered hr
    have same : (s.hub.register id' scope).objects[r]? = s.hub.objects[r]? := by
      simp only [Hub.register]
      split
      · rfl
      · exact getElem?_append_left (List.getElem?_eq_some_iff.mp hobj).1
    exact ⟨c', same ▸ hc, rfl, rfl, fun _ _ => rfl⟩

lemma Silent.deregister (hn : id' ≠ id) : Silent id x s { s with hub := s.hub.deregister id' } := by
  cases hr : s.hub.clients id' with
  | none =>
    simp only [Hub.deregister, hr]
    exact ⟨rfl, rfl, fun _ hc => ⟨_, hc, rfl, rfl, fun _ _ => rfl⟩, fun _ _ => rfl⟩
  | some r' =>
    simp only [Hub.deregister, hr]
    refine Silent.modify r' (fun c => { c with closed := true })
      (fun _ _ _ => ⟨rfl, rfl, fun _ _ => rfl⟩) rfl ?_ ?_ fun _ _ => rfl
    · exact update_of_ne hn.symm _ _
    · exact any_without hn

lemma Silent.unsubscribe (w : s.hub.Linked False) (hn : ¬ (id' = id ∧ x' = x)) :
    Silent id x s { s with hub := s.hub.unsubscribe id' x' } := by
  have hm : (s.hub.unsubscribe id' x').member id x = s.hub.member id x := by
    simp only [Hub.member, Hub.unsubscribe]
    by_cases e : x = x'
    · subst e
      rw [update_self]
      exact any_without fun h => hn ⟨h, rfl⟩
    · rw [update_of_ne e]
  cases hr : s.hub.clients id' with
  | none =>
    refine ⟨rfl, hm, fun _ hc => ⟨_, ?_, rfl, rfl, fun _ _ => rfl⟩, fun _ _ => rfl⟩
    simpa [Hub.unsubscribe, hr] using hc
  | some r' =>
    by_cases hs : s.hub.hasSubscribers x' = true
    · refine Silent.modify r'
        (fun c => { c with replayCeil := update c.replayCeil x' none })
        (fun c _ hc => ⟨rfl, ?_, fun _ _ => rfl⟩) (by simp [Hub.unsubscribe, hr, hs]) rfl hm
        fun _ _ => rfl
      have e : x ≠ x' := fun e => hn ⟨w.ref_inj hr hc, e.symm⟩
      exact update_of_ne e _ _
    · refine ⟨rfl, hm, fun _ hc => ⟨_, ?_, rfl, rfl, fun _ _ => rfl⟩, fun _ _ => rfl⟩
      simpa [Hub.unsubscribe, hr, hs] using hc

lemma Silent.receive : Silent id x s
    { s with hub := { s.hub with objects := s.hub.objects.modify r HubClient.receive } } :=
  Silent.modify r HubClient.receive
    (fun c _ _ => ⟨rfl, rfl, fun e _ => by rw [c.receive_sent]⟩) rfl rfl rfl fun _ _ => rfl

lemma count_resume_silent (ha : Pool.next? s.running i = some a) (hn : ¬ a.Concerns s.hub id x)
    (hk : ∀ b ∈ k, ¬ b.Concerns s.hub id x) (b : Section) (hb : b.Concerns s.hub id x) :
    (Pool.pending (Pool.resume s.running i k)).count b = (Pool.pending s.running).count b := by
  have e := count_pending_resume (k := k) ha b
  rw [if_neg (by rintro rfl; exact hn hb), count_eq_zero_of_not_mem fun hm => hk b hm hb] at e
  omega

lemma Silent.resume {h' : Hub} (ha : Pool.next? s.running i = some a) (hn : ¬ a.Concerns s.hub id x)
    (hk : ∀ b ∈ k, ¬ b.Concerns s.hub id x) (hc : h'.clients = s.hub.clients)
    (hs : h'.subs = s.hub.subs) (ho : h'.objects = s.hub.objects) :
    Silent id x s { s with hub := h', running := Pool.resume s.running i k } where
  client := by rw [hc]
  member := by simp only [Hub.member, hs]
  object _ hr := ⟨_, ho ▸ hr, rfl, rfl, fun _ _ => rfl⟩
  pending := count_resume_silent ha hn hk

end

/-! ## Replays know their client -/

def Addressed (s : State) : Prop :=
  ∀ id r x cursor ceil, .replay id r x cursor ceil ∈ Pool.pending s.running →
    ∃ c, s.hub.objects[r]? = some c ∧ c.id = id

variable {s : State} {o : Options} {s' : State}

lemma Addressed.still (w : Addressed s) (ev : ∀ (r : Ref) (c : HubClient), s.hub.objects[r]? = some c →
    ∃ c', s'.hub.objects[r]? = some c' ∧ c'.id = c.id)
    (hp : ∀ id r x cursor ceil, .replay id r x cursor ceil ∈ Pool.pending s'.running →
    .replay id r x cursor ceil ∈ Pool.pending s.running) : Addressed s' := by
  intro id r x cursor ceil hm
  obtain ⟨c, hc, hid⟩ := w _ _ _ _ _ (hp _ _ _ _ _ hm)
  obtain ⟨c', hc', e⟩ := ev r c hc
  exact ⟨c', hc', e.trans hid⟩

lemma Addressed.evolves (w : Addressed s) (ev : Evolves s.hub.objects s'.hub.objects)
    (hp : ∀ id r x cursor ceil, .replay id r x cursor ceil ∈ Pool.pending s'.running →
    .replay id r x cursor ceil ∈ Pool.pending s.running) : Addressed s' :=
  w.still (fun r c hc => (ev r c hc).imp fun _ h => ⟨h.1, h.2.id⟩) hp

lemma Addressed.start (w : Addressed s) {p : List Section}
    (hp : ∀ a ∈ p, ∀ r, ¬ a.Holds r) : Addressed (s.start p) := by
  refine w.evolves .rfl fun id r x cursor ceil hm => ?_
  rcases mem_append.mp (pending_spawn p ▸ hm) with hm | hm
  · exact hm
  · exact absurd rfl (hp _ hm r)

lemma Section.take_replay {order : List (String × Ref)} {a : Section} {h h' : Hub}
    {k : List Section} (ht : a.take o order h = some (k, h')) {id x : String} {r : Ref}
    {cursor : Cursor} {ceil : Nat} (hm : .replay id r x cursor ceil ∈ k) : h.clients id = some r := by
  cases a with
  | publish always y payload scopedTo =>
    cases ht
    unfold Hub.publish at hm
    repeat' split at hm
    all_goals simp at hm
  | enter id' x' cursor' calls =>
    simp only [Section.take] at ht
    split at ht
    · cases ht
      cases hm
    next r' hr' =>
      cases ht
      rcases mem_cons.mp hm with e | hm
      · cases e
        exact hr'
      · exact absurd rfl (subscribes_holds hm r)
  | offer r' env =>
    obtain ⟨h1, -, e⟩ := Option.map_eq_some_iff.mp ht
    cases e
    cases hm
  | _ => cases ht; simp at hm

lemma Addressed.next {l : Label} (w : Addressed s) (lk : Linked False s)
    (en : Enabled s l) : Addressed (next o l s) := by
  cases l with
  | register id scope => exact w.evolves (s.hub.evolves_register id scope) fun _ _ _ _ _ hm => hm
  | deregister id =>
    refine w.still (fun r c hc => ?_) fun _ _ _ _ _ hm => hm
    simp only [Push.next, Hub.deregister]
    split
    · exact ⟨c, hc, rfl⟩
    · exact ⟨_, getElem?_modify_some _ hc, by split <;> rfl⟩
  | unsubscribe id x => exact w.evolves (s.hub.evolves_unsubscribe id x) fun _ _ _ _ _ hm => hm
  | subscribe id x cursor =>
    simp only [Push.next]
    split
    · exact w.start fun a ha r => subscribes_holds ha r
    · exact w
  | handleSubscribe id x sinceSeq =>
    simp only [Push.next]
    split
    · exact w.start fun a ha r => subscribes_holds ha r
    · exact w
  | notify e cached now => exact w.start fun a ha r => e.sections_holds ha r
  | receive r => exact w.evolves (.modify r fun _ => ⟨rfl, rfl, rfl⟩) fun _ _ _ _ _ hm => hm
  | advance i order =>
    have ad := en.2
    dsimp only at ad
    simp only [Push.next]
    rcases s.advance_cases o i order with ⟨ha, -⟩ | ⟨r, env, c, ha, -, e⟩ | ⟨a, k, h, ha, ht, e⟩ <;> rw [ha] at ad
    · exact ad.elim
    · rw [e]
      exact w
    rw [e]
    have ev := (take_linked lk.hub (fun r hr => lk.held (Pool.next?_mem ha) hr) ad ht).2.1
    intro id r x cursor ceil hm
    rcases mem_pending_resume ha hm with hm | hm
    · obtain ⟨c, hc, hid, -⟩ := lk.hub.registered (take_replay ht hm)
      exact (ev r c hc).imp fun _ h => ⟨h.1, h.2.id.trans hid⟩
    · obtain ⟨c, hc, hid⟩ := w _ _ _ _ _ hm
      exact (ev r c hc).imp fun _ h => ⟨h.1, h.2.id.trans hid⟩

lemma addressed_run {hist : List (State × Label)} (run : Run (hub o) hist s) : Addressed s :=
  run.safe (P := Addressed) (fun _ _ _ _ _ hm => by cases hm) fun _ _ _ r w en => w.next (linked_run r) en

section
variable {o : Options} {id x : String} {hist : List (State × Label)} {s : State} {i : Nat}
  {order : List (String × Ref)} {a : Section} {k : List Section} {h' : Hub}

def Section.Brings (h : Hub) (id x : String) : Section → Prop
  | .add env => env.subject = x
  | .enter id' x' _ _ => id' = id ∧ x' = x ∧ (h.clients id).isSome
  | a => a.Concerns h id x

lemma Section.take_silent (run : Run (hub o) hist s) (ha : Pool.next? s.running i = some a)
    (ht : a.take o order s.hub = some (k, h')) (hn : ¬ a.Brings s.hub id x) :
    Silent id x s { s with hub := h', running := Pool.resume s.running i k } := by
  have lk := (linked_run run).hub
  cases a with
  | publish always y payload scopedTo =>
    cases ht
    refine .resume ha hn (fun b hb => ?_) rfl rfl rfl
    unfold Hub.publish at hb
    repeat' split at hb
    all_goals first
      | exact absurd hb not_mem_nil
      | (obtain rfl := mem_singleton.mp hb; exact not_false)
  | add env =>
    cases ht
    refine .resume ha not_false (fun b hb => ?_) rfl rfl rfl
    obtain rfl := mem_singleton.mp hb
    exact hn
  | copy env =>
    cases ht
    refine .resume ha hn (fun b hb => ?_) rfl rfl rfl
    obtain ⟨m, -, rfl⟩ := mem_map.mp hb
    exact fun hc => hn hc.1
  | offer r env =>
    obtain ⟨h1, ho, e⟩ := Option.map_eq_some_iff.mp ht
    cases e
    have hp := count_resume_silent (k := []) ha hn fun b hb => absurd hb not_mem_nil
    unfold Hub.offer at ho
    repeat' split at ho
    all_goals cases ho
    case h_2.isFalse.isFalse.isTrue =>
      refine Silent.modify r (fun c => { c with queue := c.queue ++ [env] })
        (fun c _ hc => ⟨rfl, rfl, fun e he => ?_⟩) rfl rfl rfl hp
      have ne : env ≠ e := by rintro rfl; exact hn ⟨he, hc⟩
      simp [HubClient.sent, count_append, ne]
    all_goals exact ⟨rfl, rfl, fun _ hc => ⟨_, hc, rfl, rfl, fun _ _ => rfl⟩, hp⟩
  | enter id' x' cursor calls =>
    simp only [Section.take] at ht
    split at ht
    · cases ht
      exact .resume ha not_false (fun b hb => absurd hb not_mem_nil) rfl rfl rfl
    next r' hr' =>
      cases ht
      have ne : ¬ (id' = id ∧ x' = x) := fun e => hn ⟨e.1, e.2, by rw [← e.1, hr']; rfl⟩
      have hk : ∀ b ∈ .replay id' r' x' cursor ((s.hub.join id' x' r').ceiling r' x') ::
          subscribes id' x' calls, ¬ b.Concerns s.hub id x := by
        intro b hb
        rcases mem_cons.mp hb with rfl | hb
        · exact ne
        · exact subs_concerns _ _ _ hb
      have hp := count_resume_silent ha not_false hk
      have hm : (s.hub.join id' x' r').member id x = s.hub.member id x := by
        simp only [Hub.member, Hub.join]
        by_cases e : x = x'
        · subst e
          have nid : id' ≠ id := fun e => ne ⟨e, rfl⟩
          simp only [update_self, any_append, any_without nid]
          simp [nid]
        · rw [update_of_ne e]
      by_cases hin : s.hub.member id' x' = true
      · refine ⟨rfl, hm, fun _ hc => ⟨_, ?_, rfl, rfl, fun _ _ => rfl⟩, hp⟩
        simpa [Hub.join, hin] using hc
      refine Silent.modify r'
        (fun c => { c with
          replayCeil := update c.replayCeil x' (some (s.hub.rings x').headSeq) })
        (fun c _ hc => ⟨rfl, ?_, fun _ _ => rfl⟩) (by simp [Hub.join, hin]) rfl hm hp
      have e : x ≠ x' := fun e => ne ⟨lk.ref_inj hr' hc, e.symm⟩
      exact update_of_ne e _ _
  | replay id' r' x' cursor ceil =>
    cases ht
    refine .resume ha hn (fun b hb => ?_) rfl rfl rfl
    obtain ⟨e, he, rfl⟩ := mem_map.mp hb
    rintro ⟨hx, hc⟩
    have hx' : e.subject = x' := published_subject ((rings_log run x').mem (mem_of_mem_filter he))
    obtain ⟨c, hobj, hid⟩ := addressed_run run _ _ _ _ _ (Pool.next?_mem ha)
    obtain ⟨c', hobj', hid', -⟩ := lk.registered hc
    obtain rfl := Option.some.inj (hobj.symm.trans hobj')
    exact hn ⟨hid.symm.trans hid', hx'.symm.trans hx⟩

lemma adds_of_not_brings (ha : Pool.next? s.running i = some a) (hn : ¬ a.Brings s.hub id x) :
    adds x s (.advance i order) = [] := by
  simp only [adds, State.takes, ha]
  cases a with
  | add env => exact if_neg hn
  | _ => rfl

lemma replaysOf_of_not_brings (ha : Pool.next? s.running i = some a) (hn : ¬ a.Brings s.hub id x) :
    replaysOf id x s (.advance i order) = [] := by
  simp only [replaysOf, State.takes, ha]
  cases a with
  | replay id' r x' cursor ceil => exact if_neg hn
  | _ => rfl

end
end Sqi.Push
