import Sqi.Push.Silent

/-! Exactly once. -/

namespace Sqi.Push
open Function List Pool Section Transition Option

structure Fresh (id x : String) (hist : List (State × Label)) (s : State) : Prop where
  out : s.hub.member id x = false
  unsent : ∀ {r c e}, s.hub.clients id = some r → s.hub.objects[r]? = some c → e.subject = x →
    c.sent.count e = 0
  idle : ∀ a, a.Concerns s.hub id x → ¬ a.Copies x → a ∉ pending s.running
  unreplayed : replayed id x hist = []

structure Joined (o : Options) (id x : String) (r : Ref) (ceil : Nat) (hist : List (State × Label))
    (s : State) : Prop where
  client : s.hub.clients id = some r
  inside : s.hub.member id x = true
  frozen : ∀ {c}, s.hub.objects[r]? = some c → c.replayCeil x = some ceil
  reading : ∀ {r' cursor ceil'}, .replay id r' x cursor ceil' ∈ pending s.running → r' = r ∧ ceil' = ceil
  old : ceil ≤ (published x hist).length
  below : ∀ e ∈ replayed id x hist, e.seq ≤ ceil
  balance : ∀ {c e}, s.hub.objects[r]? = some c → e.subject = x → c.scope.allows o e = true →
    c.sent.count e + (pending s.running).count (.offer r e) +
        (pending s.running).count (.copy e) =
      ((published x hist).drop ceil).count e + (replayed id x hist).count e

section
variable {o : Options} {id x : String} {hist : List (State × Label)} {s s' : State} {l : Label}

lemma Fresh.silent (w : Fresh id x hist s) (q : Silent id x s s') (hr : replaysOf id x s l = []) :
    Fresh id x ((s, l) :: hist) s' where
  out := q.member.trans w.out
  unsent hc ho he := by
    rw [q.client] at hc
    obtain ⟨c, hc', -, -, hs⟩ := q.object hc ho
    rw [hs _ he, w.unsent hc hc' he]
  idle a ha hn := by
    have ha : a.Concerns s.hub id x := by
      cases a <;> simp only [Section.Concerns, q.client] at ha ⊢ <;> exact ha
    rw [← count_eq_zero, q.pending a ha, count_eq_zero]
    exact w.idle a ha hn
  unreplayed := by simp [replayed, hr, w.unreplayed]

lemma Joined.silent {r : Ref} {ceil : Nat} (w : Joined o id x r ceil hist s) (q : Silent id x s s')
    (hr : replaysOf id x s l = []) (ha : adds x s l = []) :
    Joined o id x r ceil ((s, l) :: hist) s' where
  client := q.client.trans w.client
  inside := q.member.trans w.inside
  frozen hc := by
    obtain ⟨c, hc', -, hf, -⟩ := q.object w.client hc
    rw [hf, w.frozen hc']
  reading {r' cursor ceil'} hm := by
    have hc : 0 < (pending s.running).count (.replay id r' x cursor ceil') := by
      rw [← q.pending (.replay id r' x cursor ceil') ⟨rfl, rfl⟩]
      exact count_pos_iff.mpr hm
    exact w.reading (count_pos_iff.mp hc)
  old := by simpa [published, ha] using w.old
  below := by simpa [replayed, hr] using w.below
  balance {c' e} hc he al := by
    obtain ⟨c, hc', hs, -, hn⟩ := q.object w.client hc
    have b := w.balance hc' he (hs ▸ al)
    rw [hn e he, q.pending (.offer r e) ⟨he, w.client⟩, q.pending (.copy e) he]
    simpa [published, replayed, hr, ha] using b

end

/-! ## Sections that bring pushes -/

section
variable {o : Options} {id x : String} {hist : List (State × Label)} {s : State} {i : Nat}
  {order : List (String × Ref)} {h' : Hub}
variable {env : Envelope} {cursor : Cursor}

lemma Fresh.add (w : Fresh id x hist s)
    (ha : Pool.next? s.running i = some (.add env)) (rings : String → SubjectRing) (e : Envelope) :
    Fresh id x ((s, .advance i order) :: hist)
      { s with hub := { s.hub with rings }, running := resume s.running i [.copy e] } where
  out := w.out
  unsent := w.unsent
  idle b hb hn hm := by
    rcases mem_pending_resume ha hm with hm | hm
    · obtain rfl := mem_singleton.mp hm
      exact hn hb
    · exact w.idle b hb hn hm
  unreplayed := by simp [replayed, replaysOf, State.takes, ha, w.unreplayed]

lemma Fresh.copy (w : Fresh id x hist s) (lk : s.hub.Linked False)
    (ha : Pool.next? s.running i = some (.copy env)) (hx : env.subject = x)
    (hp : order.Perm (s.hub.subs env.subject)) :
    Fresh id x ((s, .advance i order) :: hist)
      { s with running := resume s.running i (order.map fun m => .offer m.2 env) } where
  out := w.out
  unsent := w.unsent
  idle b hb hn hm := by
    rcases mem_pending_resume ha hm with hm | hm
    · obtain ⟨m, hmo, rfl⟩ := mem_map.mp hm
      have hms : m ∈ s.hub.subs x := hx ▸ hp.subset hmo
      have e := lk.ref_inj (lk.members hms) hb.2
      have out := w.out
      rw [Hub.member, List.any_eq_false] at out
      exact out m hms (by simpa using e)
    · exact w.idle b hb hn hm
  unreplayed := by simp [replayed, replaysOf, State.takes, ha, w.unreplayed]

lemma Hub.member_join (h : Hub) (id x : String) (r : Ref) : (h.join id x r).member id x = true := by
  simp [Hub.member, Hub.join]

lemma Fresh.join {calls : List Cursor} {r : Ref} (w : Fresh id x hist s)
    (run : Run (hub o) hist s) (ha : Pool.next? s.running i = some (.enter id x cursor calls))
    (hr : s.hub.clients id = some r) (apart : ∀ b ∈ pending s.running, ¬ b.Copies x) :
    Joined o id x r (published x hist).length ((s, .advance i order) :: hist)
      { s with
        hub := s.hub.join id x r
        running := resume s.running i (.replay id r x cursor
          ((s.hub.join id x r).ceiling r x) :: subscribes id x calls) } := by
  have lk := (linked_run run).hub
  obtain ⟨c, hc, hid, -⟩ := lk.registered hr
  have objects : (s.hub.join id x r).objects[r]? = some { c with
      replayCeil := update c.replayCeil x (some (s.hub.rings x).headSeq) } := by
    simp [Hub.join, w.out, getElem?_modify_some _ hc]
  have ceiling : (s.hub.join id x r).ceiling r x = (published x hist).length := by
    simp [Hub.ceiling, objects, (rings_log run x).head]
  refine { client := hr, inside := s.hub.member_join id x r, frozen := ?_, reading := ?_, old := ?_,
           below := ?_, balance := ?_ }
  · intro c' hc'
    obtain rfl := some.inj (objects.symm.trans hc')
    simp [(rings_log run x).head]
  · intro r' cursor' ceil' hm
    rcases mem_pending_resume ha hm with hm | hm
    · rcases mem_cons.mp hm with e | hm
      · cases e
        exact ⟨rfl, ceiling⟩
      · exact absurd ⟨rfl, rfl⟩ (subs_concerns s.hub id x hm)
    · exact absurd hm (w.idle _ ⟨rfl, rfl⟩ not_false)
  · simp [published, adds, State.takes, ha]
  · simp [replayed, replaysOf, State.takes, ha, w.unreplayed]
  intro c' e hc' he al
  obtain rfl := some.inj (objects.symm.trans hc')
  have hoffer := count_pending_resume (k := .replay id r x cursor
    ((s.hub.join id x r).ceiling r x) :: subscribes id x calls) ha (.offer r e)
  have hcopy := count_pending_resume (k := .replay id r x cursor
    ((s.hub.join id x r).ceiling r x) :: subscribes id x calls) ha (.copy e)
  have h1 : (pending s.running).count (.offer r e) = 0 := count_eq_zero.mpr (w.idle _ ⟨he, hr⟩ not_false)
  have h2 : (pending s.running).count (.copy e) = 0 := count_eq_zero.mpr fun hm => apart _ hm he
  have h3 : (subscribes id x calls).count (.offer r e) = 0 :=
    count_eq_zero.mpr fun hm => subs_concerns s.hub id x hm ⟨he, hr⟩
  have h4 : (subscribes id x calls).count (.copy e) = 0 := count_eq_zero.mpr fun hm => subs_concerns s.hub id x hm he
  have h₅ : c.sent.count e = 0 := w.unsent hr hc he
  simp only [count_cons, h1, h2, h3, h4, reduceCtorEq, beq_iff_eq, if_false] at hoffer hcopy
  have h₆ : ((published x ((s, .advance i order) :: hist)).drop
      (published x hist).length).count e = 0 := by
    simp [published, adds, State.takes, ha]
  have h₇ : (replayed id x ((s, .advance i order) :: hist)).count e = 0 := by
    simp [replayed, replaysOf, State.takes, ha, w.unreplayed]
  rw [h₆, h₇]
  dsimp only
  change c.sent.count e + _ + _ = 0
  omega

variable {r : Ref} {ceil : Nat}

lemma Joined.resumed {a : Section} {k : List Section} (w : Joined o id x r ceil hist s)
    (ha : Pool.next? s.running i = some a) (client : h'.clients id = some r)
    (inside : h'.member id x = true)
    (reading : ∀ {r' cursor ceil'}, .replay id r' x cursor ceil' ∈ k → r' = r ∧ ceil' = ceil)
    (below : ∀ e ∈ replaysOf id x s (.advance i order), e.seq ≤ ceil)
    (object : ∀ {c'}, h'.objects[r]? = some c' → ∃ c, s.hub.objects[r]? = some c ∧
      c'.scope = c.scope ∧ c'.replayCeil x = c.replayCeil x ∧
      ∀ e, e.subject = x → c.scope.allows o e = true → c'.sent.count e + k.count (.offer r e) + k.count (.copy e) =
          c.sent.count e + (if a = .offer r e then 1 else 0) + (if a = .copy e then 1 else 0) +
            (adds x s (.advance i order)).count e + (replaysOf id x s (.advance i order)).count e) :
    Joined o id x r ceil ((s, .advance i order) :: hist)
      { s with hub := h', running := resume s.running i k } where
  client := client
  inside := inside
  frozen hc := by
    obtain ⟨c, hc', -, hf, -⟩ := object hc
    exact hf.trans (w.frozen hc')
  reading hm := (mem_pending_resume ha hm).elim reading w.reading
  old := by
    rw [published, length_append]
    exact w.old.trans (Nat.le_add_right _ _)
  below := by
    rw [replayed]
    exact forall_mem_append.mpr ⟨w.below, below⟩
  balance {c' e} hc he al := by
    obtain ⟨c, hc', hs, -, hb⟩ := object hc
    have b := w.balance hc' he (hs ▸ al)
    have hb := hb e he (hs ▸ al)
    have hoffer := count_pending_resume (k := k) ha (.offer r e)
    have hcopy := count_pending_resume (k := k) ha (.copy e)
    rw [published, replayed, drop_append_of_le_length w.old, count_append, count_append]
    dsimp only
    omega

lemma Joined.add (w : Joined o id x r ceil hist s)
    (ha : Pool.next? s.running i = some (.add env)) (hx : env.subject = x)
    (rings : String → SubjectRing) :
    Joined o id x r ceil ((s, .advance i order) :: hist)
      { s with
        hub := { s.hub with rings }
        running := resume s.running i [.copy ((s.hub.rings x).number env)] } := by
  refine w.resumed ha w.client w.inside (by simp) (by simp [replaysOf, State.takes, ha])
    fun hc => ⟨_, hc, rfl, rfl, fun e _ _ => ?_⟩
  simp [adds, replaysOf, State.takes, ha, hx, count_singleton]

lemma count_offers {e : Envelope} (lk : s.hub.Linked False) (hr : s.hub.clients id = some r)
    (hm : s.hub.member id x = true) (hp : order.Perm (s.hub.subs x)) :
    (order.map fun m => Section.offer m.2 env).count (.offer r e) = if env = e then 1 else 0 := by
  rw [(hp.map _).count_eq]
  by_cases he : env = e
  · subst he
    have hid : id ∈ (s.hub.subs x).map Prod.fst := by
      obtain ⟨m, hms, hid⟩ := any_eq_true.mp hm
      exact mem_map.mpr ⟨m, hms, by simpa using hid⟩
    have hone := count_eq_one_of_mem (lk.keys x) hid
    rw [if_pos rfl, ← hone, List.count, List.count, countP_map, countP_map]
    refine countP_congr fun m hms => ?_
    have hmr := lk.members hms
    simp only [Function.comp, beq_iff_eq, Section.offer.injEq, and_true]
    constructor
    · rintro e
      exact lk.ref_inj (e ▸ hmr) hr
    · rintro e
      rw [e, hr] at hmr
      exact (some.inj hmr).symm
  · rw [if_neg he, count_eq_zero]
    intro hmem
    obtain ⟨m, -, e⟩ := mem_map.mp hmem
    cases e
    exact he rfl

section
variable (w : Joined o id x r ceil hist s)
include w

lemma Joined.copy (lk : s.hub.Linked False)
    (ha : Pool.next? s.running i = some (.copy env)) (hx : env.subject = x)
    (hp : order.Perm (s.hub.subs env.subject)) :
    Joined o id x r ceil ((s, .advance i order) :: hist)
      { s with running := resume s.running i (order.map fun m => .offer m.2 env) } := by
  refine w.resumed ha w.client w.inside (by simp) (by simp [replaysOf, State.takes, ha])
    fun hc => ⟨_, hc, rfl, rfl, fun e _ _ => ?_⟩
  have hcopy : (order.map fun m => Section.offer m.2 env).count (.copy e) = 0 := by simp [count_eq_zero]
  rw [count_offers lk w.client w.inside (hx ▸ hp), hcopy]
  simp [adds, replaysOf, State.takes, ha]

lemma Joined.offer (lk : s.hub.Linked False)
    (ha : Pool.next? s.running i = some (.offer r env)) (ho : s.hub.offer o r env = some h')
    (room : ∀ c, s.hub.objects[r]? = some c → c.queue.length < clientSendBuf) :
    Joined o id x r ceil ((s, .advance i order) :: hist)
      { s with hub := h', running := resume s.running i [] } := by
  obtain ⟨c, hc, -⟩ := lk.registered w.client
  obtain ⟨hcl, hsub, -⟩ := Hub.offer_frame ho
  refine w.resumed ha (hcl ▸ w.client) (by simpa only [Hub.member, hsub] using w.inside) (by simp)
    (by simp [replaysOf, State.takes, ha]) fun {c'} hc' => ⟨c, hc, ?_⟩
  unfold Hub.offer at ho
  rw [hc] at ho
  dsimp only at ho
  split at ho
  next na =>
    cases ho
    obtain rfl := some.inj (hc.symm.trans hc')
    refine ⟨rfl, rfl, fun e _ al => ?_⟩
    have ne : env ≠ e := by rintro rfl; simp [al] at na
    simp [adds, replaysOf, State.takes, ha, ne]
  next =>
    split at ho
    · cases ho
    rw [if_pos (room c hc)] at ho
    cases ho
    rw [getElem?_modify_some _ hc] at hc'
    obtain rfl := some.inj hc'
    refine ⟨by simp, by simp, fun e _ _ => ?_⟩
    simp [adds, replaysOf, State.takes, ha, HubClient.sent, count_append, count_singleton, Nat.add_assoc]

lemma Joined.enter {calls : List Cursor}
    (lk : s.hub.Linked False) (ha : Pool.next? s.running i = some (.enter id x cursor calls)) :
    Joined o id x r ceil ((s, .advance i order) :: hist)
      { s with
        hub := s.hub.join id x r
        running := resume s.running i (.replay id r x cursor
          ((s.hub.join id x r).ceiling r x) :: subscribes id x calls) } := by
  have objects : (s.hub.join id x r).objects = s.hub.objects := by simp [Hub.join, w.inside]
  obtain ⟨c, hc, -⟩ := lk.registered w.client
  have ceiling : (s.hub.join id x r).ceiling r x = ceil := by simp [Hub.ceiling, objects, hc, w.frozen hc]
  refine w.resumed ha w.client (s.hub.member_join id x r) (fun hm => ?_)
    (by simp [replaysOf, State.takes, ha]) fun hc => ⟨_, objects ▸ hc, rfl, rfl, fun e he _ => ?_⟩
  · rcases mem_cons.mp hm with e | hm
    · cases e
      exact ⟨rfl, ceiling⟩
    · exact absurd ⟨rfl, rfl⟩ (subs_concerns s.hub id x hm)
  · have hoffer : (subscribes id x calls).count (.offer r e) = 0 :=
      count_eq_zero.mpr fun hm => subs_concerns s.hub id x hm ⟨he, w.client⟩
    have hcopy : (subscribes id x calls).count (.copy e) = 0 :=
      count_eq_zero.mpr fun hm => subs_concerns s.hub id x hm he
    simp [adds, replaysOf, State.takes, ha, hoffer, hcopy]

lemma Joined.replay
    (ha : Pool.next? s.running i = some (.replay id r x cursor ceil)) :
    Joined o id x r ceil ((s, .advance i order) :: hist)
      { s with
        running := resume s.running i
          ((s.hub.replays x cursor ceil).map fun e => .offer r e) } := by
  have hrep : replaysOf id x s (.advance i order) = s.hub.replays x cursor ceil := by
    simp [replaysOf, State.takes, ha]
  refine w.resumed ha w.client w.inside (by simp)
    (fun e he => ?_) fun hc => ⟨_, hc, rfl, rfl, fun e _ _ => ?_⟩
  · rw [hrep] at he
    exact of_decide_eq_true (mem_filter.mp he).2
  have hcopy : ((s.hub.replays x cursor ceil).map fun e => Section.offer r e).count (.copy e) = 0 := by
    simp [count_eq_zero]
  rw [hrep, hcopy, count_map_of_injective _ _ (fun _ _ e => (Section.offer.inj e).2)]
  simp [adds, State.takes, ha]

end

lemma Fresh.advance (w : Fresh id x hist s) (run : Run (hub o) hist s)
    (en : Enabled s (.advance i order)) (apart : Apart id x s (.advance i order)) :
    Fresh id x ((s, .advance i order) :: hist) (s.advance o i order) ∨
      ∃ r, Joined o id x r (published x hist).length ((s, .advance i order) :: hist)
        (s.advance o i order) := by
  have lk := (linked_run run).hub
  have ad := en.2
  dsimp only at ad
  rcases s.advance_cases o i order with ⟨ha, -⟩ | ⟨r, env, c, ha, -, e⟩ | ⟨a, k, h, ha, ht, e⟩ <;> rw [ha] at ad
  · exact ad.elim
  · rw [e]
    refine .inl ⟨w.out, w.unsent, w.idle, ?_⟩
    simp [replayed, replaysOf, State.takes, ha, w.unreplayed]
  rw [e]
  by_cases hb : a.Brings s.hub id x
  · cases a with
    | publish always y payload scopedTo => exact hb.elim
    | add env =>
      cases ht
      exact .inl (w.add ha _ _)
    | copy env =>
      cases ht
      exact .inl (w.copy lk ha hb ad)
    | offer r env => exact absurd (Pool.next?_mem ha) (w.idle _ hb not_false)
    | enter id' x' cursor calls =>
      obtain ⟨rfl, rfl, hs⟩ := hb
      obtain ⟨r, hr⟩ := isSome_iff_exists.mp hs
      simp only [Section.take, hr, some.injEq] at ht
      cases ht
      simp only [Apart, State.takes, ha] at apart
      exact .inr ⟨r, w.join run ha hr (apart trivial trivial w.out)⟩
    | replay id' r x' cursor ceil => exact absurd (Pool.next?_mem ha) (w.idle _ hb not_false)
  · exact .inl (w.silent (take_silent run ha ht hb) (replaysOf_of_not_brings ha hb))

lemma Joined.advance (w : Joined o id x r ceil hist s) (run : Run (hub o) hist s)
    (en : Enabled s (.advance i order)) (room : HasRoom id s (.advance i order)) :
    Joined o id x r ceil ((s, .advance i order) :: hist) (s.advance o i order) := by
  have lk := (linked_run run).hub
  have ad := en.2
  dsimp only at ad
  rcases s.advance_cases o i order with ⟨ha, -⟩ | ⟨r', env, c, ha, -, e⟩ | ⟨a, k, h, ha, ht, e⟩ <;> rw [ha] at ad
  · exact ad.elim
  · rw [e]
    have hrep : replayed id x ((s, .advance i order) :: hist) = replayed id x hist := by
      simp [replayed, replaysOf, State.takes, ha]
    have hpub : published x ((s, .advance i order) :: hist) = published x hist := by
      simp [published, adds, State.takes, ha]
    refine ⟨w.client, w.inside, w.frozen, w.reading, hpub ▸ w.old, hrep ▸ w.below, ?_⟩
    rw [hrep, hpub]
    exact w.balance
  rw [e]
  by_cases hb : a.Brings s.hub id x
  · cases a with
    | publish always y payload scopedTo => exact hb.elim
    | add env =>
      cases ht
      obtain rfl : env.subject = x := hb
      exact w.add ha rfl _
    | copy env =>
      cases ht
      exact w.copy lk ha hb ad
    | offer r' env =>
      obtain ⟨h1, ho, e⟩ := map_eq_some_iff.mp ht
      cases e
      obtain rfl : r = r' := some.inj (w.client.symm.trans hb.2)
      simp only [HasRoom, State.takes, ha] at room
      exact w.offer lk ha ho fun c hc => room w.client c hc
    | enter id' x' cursor calls =>
      obtain ⟨rfl, rfl, -⟩ := hb
      simp only [Section.take, w.client, some.injEq] at ht
      cases ht
      exact w.enter lk ha
    | replay id' r' x' cursor ceil' =>
      obtain ⟨rfl, rfl⟩ := hb
      obtain ⟨rfl, rfl⟩ := w.reading (Pool.next?_mem ha)
      cases ht
      exact w.replay ha
  · exact w.silent (take_silent run ha ht hb) (replaysOf_of_not_brings ha hb)
      (adds_of_not_brings ha hb)

end

section
variable {o : Options} {id x : String} {sinceSeq : Nat} {hist : List (State × Label)} {s : State}
  {l : Label} {r : Ref} {ceil : Nat}

lemma silent_call (lk : s.hub.Linked False) (own : OwnCalls id x sinceSeq hist l)
    (hl : ¬ ∃ i order, l = .advance i order)
    (hreg : ¬ ∃ scope, l = .register id scope ∧ s.hub.clients id = none) :
    Silent id x s (next o l s) := by
  have none : Silent id x s s := ⟨rfl, rfl, fun _ hc => ⟨_, hc, rfl, rfl, fun _ _ => rfl⟩, fun _ _ => rfl⟩
  cases l with
  | register id' scope =>
    refine Silent.register lk ?_
    by_cases e : id' = id
    · exact .inr (isSome_iff_ne_none.mpr fun hc => hreg ⟨scope, by rw [e], hc⟩)
    · exact .inl e
  | deregister id' => exact Silent.deregister own
  | unsubscribe id' x' => exact Silent.unsubscribe lk own
  | subscribe id' x' cursor =>
    simp only [Push.next]
    split
    · exact .start fun a ha => subs_concerns _ _ _ ha
    · exact none
  | handleSubscribe id' x' n =>
    simp only [Push.next]
    split
    · exact .start fun a ha => subs_concerns _ _ _ ha
    · exact none
  | notify e cached now => exact .start fun a ha => e.sections_concerns ha
  | advance i order => exact absurd ⟨i, order, rfl⟩ hl
  | receive r => exact Silent.receive

lemma call_publishes_nothing (hl : ¬ ∃ i order, l = .advance i order) : adds x s l = [] := by
  cases l with
  | advance i order => exact absurd ⟨i, order, rfl⟩ hl
  | _ => rfl
lemma call_replays_nothing (hl : ¬ ∃ i order, l = .advance i order) : replaysOf id x s l = [] := by
  cases l with
  | advance i order => exact absurd ⟨i, order, rfl⟩ hl
  | _ => rfl

lemma Fresh.register (w : Fresh id x hist s) (lk : Linked False s) (scope : Scope)
    (hc : s.hub.clients id = none) :
    Fresh id x ((s, .register id scope) :: hist) { s with hub := s.hub.register id scope } := by
  have key : ∀ r, (s.hub.register id scope).clients id = some r → r = s.hub.objects.length := by
    intro r hr
    simp only [Hub.register, hc, update_self, some.injEq] at hr
    exact hr.symm
  refine ⟨?_, ?_, ?_, by simp [replayed, replaysOf, State.takes, w.unreplayed]⟩
  · simpa only [Hub.member, (s.hub.register_frame id scope).1] using w.out
  · intro r c e hr ho he
    obtain rfl := key r hr
    simp only [Hub.register, hc, getElem?_concat_length, some.injEq] at ho
    subst ho
    rfl
  · intro a ha hn hm
    cases a with
    | offer r env =>
      -- Nobody holds a client that is only now made.
      obtain ⟨c, ho, -⟩ := lk.held hm rfl
      obtain rfl := key r ha.2
      simp at ho
    | copy env => exact hn ha
    | replay id' r x' cursor ceil => exact w.idle (.replay id' r x' cursor ceil) ha hn hm
    | _ => exact ha

lemma Fresh.next (w : Fresh id x hist s) (run : Run (hub o) hist s) (en : Enabled s l)
    (own : OwnCalls id x sinceSeq hist l) (apart : Apart id x s l) :
    Fresh id x ((s, l) :: hist) (next o l s) ∨
      ∃ r, Joined o id x r (published x hist).length ((s, l) :: hist) (next o l s) := by
  by_cases hl : ∃ i order, l = .advance i order
  · obtain ⟨i, order, rfl⟩ := hl
    exact w.advance run en apart
  left
  by_cases hreg : ∃ scope, l = .register id scope ∧ s.hub.clients id = none
  · obtain ⟨scope, rfl, hc⟩ := hreg
    exact w.register (linked_run run) scope hc
  · exact w.silent (silent_call (linked_run run).hub own hl hreg) (call_replays_nothing hl)

lemma Joined.next (w : Joined o id x r ceil hist s) (run : Run (hub o) hist s)
    (en : Enabled s l) (own : OwnCalls id x sinceSeq hist l) (room : HasRoom id s l) :
    Joined o id x r ceil ((s, l) :: hist) (next o l s) := by
  by_cases hl : ∃ i order, l = .advance i order
  · obtain ⟨i, order, rfl⟩ := hl
    exact w.advance run en room
  have q : Silent id x s (Push.next o l s) := silent_call (linked_run run).hub own hl (by
    rintro ⟨scope, -, hc⟩
    rw [w.client] at hc
    cases hc)
  exact w.silent q (call_replays_nothing hl) (call_publishes_nothing hl)

lemma accounted (run : Run (apartSubscribing o id x sinceSeq) hist s) :
    Fresh id x hist s ∨ ∃ r ceil, Joined o id x r ceil hist s := by
  refine run.invariant
    (P := fun hist s => Fresh id x hist s ∨ ∃ r ceil, Joined o id x r ceil hist s) ?_ ?_
  · refine .inl ⟨rfl, ?_, ?_, rfl⟩
    · intro r c e hr
      cases hr
    · intro a _ _ hm
      cases hm
  · rintro hist s l run w ⟨⟨en, own, room⟩, apart⟩
    have run' := run.of_guarded.of_guarded
    rcases w with w | ⟨r, ceil, w⟩
    · exact (w.next run' en own apart).imp_right fun ⟨r, w⟩ => ⟨r, _, w⟩
    · exact .inr ⟨r, ceil, w.next run' en own room⟩

def Joins (id x : String) (r : Ref) (s : State) (l : Label) : Prop :=
  (∃ cursor calls, s.takes l = some (.enter id x cursor calls)) ∧ s.hub.clients id = some r ∧
    s.hub.member id x = false

lemma joined_since {later : List (State × Label)} {s1 : State} {l1 : Label}
    (joins : Joins id x r s1 l1)
    (run : Run (apartSubscribing o id x sinceSeq) (later ++ (s1, l1) :: hist) s) :
    Joined o id x r (published x hist).length (later ++ (s1, l1) :: hist) s := by
  induction later generalizing s with
  | nil =>
    obtain ⟨⟨cursor, calls, ht⟩, hr, out⟩ := joins
    cases run with
    | step l run en =>
      obtain ⟨⟨en, own, room⟩, apart⟩ := en
      have run' := run.of_guarded.of_guarded
      cases l1 with
      | advance i order =>
        simp only [Apart, ht] at apart
        have take : (Section.enter id x cursor calls).take o order s1.hub = some
            (.replay id r x cursor ((s1.hub.join id x r).ceiling r x) :: subscribes id x calls,
              s1.hub.join id x r) := by
          simp [Section.take, hr]
        have next : (apartSubscribing o id x sinceSeq).next (.advance i order) s1 = _ := State.advance_some ht take
        rcases accounted run with w | ⟨r', ceil, w⟩
        · rw [nil_append, next]
          exact w.join run' ht hr (apart trivial trivial out)
        · rw [w.inside] at out
          cases out
      | _ => cases ht
  | cons e later ih =>
    cases run with
    | step l run en =>
      obtain ⟨⟨en, own, room⟩, -⟩ := en
      exact (ih run).next run.of_guarded.of_guarded en own room

lemma Joined.count_le_one (w : Joined o id x r ceil hist s)
    (run : Run (hub o) hist s) (once : Once id x sinceSeq hist s) (e : Envelope) :
    ((published x hist).drop ceil).count e + (replayed id x hist).count e ≤ 1 := by
  have log := rings_log run x
  have h1 : ((published x hist).drop ceil).count e ≤ 1 :=
    nodup_iff_count_le_one.mp (log.nodup.sublist (drop_sublist _ _)) e
  have h2 : (replayed id x hist).count e ≤ 1 := nodup_iff_count_le_one.mp once.nodup e
  by_cases hr : e ∈ replayed id x hist
  · -- Replayed, so at or below the ceiling and not among the later ones.
    have hn : e ∉ (published x hist).drop ceil := by
      intro hd
      have := (log.mem_drop (mem_of_mem_drop hd) ceil).mp hd
      have := w.below e hr
      omega
    rw [count_eq_zero_of_not_mem hn]
    omega
  · rw [count_eq_zero_of_not_mem hr]
    omega

lemma State.takes_mem {a : Section} (ht : s.takes l = some a) : a ∈ pending s.running := by
  cases l with
  | advance i order => exact Pool.next?_mem ht
  | _ => cases ht

lemma replayed_append (id x : String) (later hist : List (State × Label)) :
    replayed id x (later ++ hist) = replayed id x hist ++ replayed id x later := by
  induction later with
  | nil => simp [replayed]
  | cons e later ih => simp only [cons_append, replayed, ih, append_assoc]

lemma mem_drop_of_published {before later : List (State × Label)} {s1 : State} {l1 : Label} {e : Envelope}
    (joins : Joins id x r s1 l1) (he : e ∈ published x later) :
    e ∈ (published x (later ++ (s1, l1) :: before)).drop (published x before).length := by
  obtain ⟨cursor, calls, enters⟩ := joins.1
  rw [published_append, published]
  simpa [adds, enters] using he

lemma mem_account {before mid after : List (State × Label)} {s1 s2 : State} {l1 l2 : Label}
    {e : Envelope}
    (run : Run (apartSubscribing o id x sinceSeq) (after ++ (s2, l2) :: (mid ++ (s1, l1) :: before)) s)
    (joins : Joins id x r s1 l1) (reads : s2.takes l2 = some (.replay id r x (.since sinceSeq) ceil))
    (lt : sinceSeq < e.seq)
    (source : e ∈ (s2.hub.rings x).entries.toList ∨ e ∈ published x (after ++ (s2, l2) :: mid)) :
    e ∈ (published x (after ++ (s2, l2) :: (mid ++ (s1, l1) :: before))).drop
    (published x before).length ∨
    e ∈ replayed id x (after ++ (s2, l2) :: (mid ++ (s1, l1) :: before)) := by
  rcases source with buffered | later
  · have run2 := run.at_split.1
    have log2 := (rings_log run2.of_guarded.of_guarded x).entries.mem buffered
    have pub : e ∈ published x (after ++ (s2, l2) :: (mid ++ (s1, l1) :: before)) := by
      rw [published_append, published]
      simp [log2]
    by_cases above : (published x before).length < e.seq
    · exact .inl (((rings_log run.of_guarded.of_guarded x).mem_drop pub _).mpr above)
    right
    obtain ⟨-, rfl⟩ := (joined_since joins run2).reading (State.takes_mem reads)
    have hm : e ∈ replaysOf id x s2 l2 := by
      simp only [replaysOf, reads, Hub.replays, SubjectRing.since, and_self, if_true, mem_filter]
      exact ⟨⟨buffered, by simpa [Cursor.before] using lt⟩, by simpa using above⟩
    rw [replayed_append, replayed]
    simp [hm]
  · left
    have hist_eq : after ++ (s2, l2) :: (mid ++ (s1, l1) :: before) =
        (after ++ (s2, l2) :: mid) ++ (s1, l1) :: before := by simp
    exact hist_eq ▸ mem_drop_of_published joins later

def underWay (s : State) (r : Ref) (e : Envelope) : Nat :=
  (pending s.running).count (.offer r e) + (pending s.running).count (.copy e)

/-- A connection that joins apart from the fan-outs is sent every push of the subject exactly once. -/
theorem subscribe_replay_exactly_once {r : Ref} {c : HubClient}
    (run : Run (apartSubscribing o id x sinceSeq) hist s) (hr : s.hub.clients id = some r)
    (hc : s.hub.objects[r]? = some c) :
    (∀ e, e.subject = x → c.sent.count e ≤ 1) ∧
    ∀ before mid after s₁ l₁ s₂ l₂ ceil,
      hist = after ++ (s₂, l₂) :: (mid ++ (s₁, l₁) :: before) → Joins id x r s₁ l₁ →
      s₂.takes l₂ = some (.replay id r x (.since sinceSeq) ceil) →
      ∀ e, e.subject = x → c.scope.allows o e = true → sinceSeq < e.seq →
        e ∈ (s₂.hub.rings x).entries.toList ∨ e ∈ published x (after ++ (s₂, l₂) :: mid) →
        c.sent.count e + underWay s r e = 1 := by
  have run' := run.of_guarded.of_guarded
  have once := once_run run.of_guarded
  refine ⟨fun e he => ?_, ?_⟩
  · by_cases al : c.scope.allows o e = true
    · rcases accounted run with w | ⟨r', ceil, w⟩
      · rw [w.unsent hr hc he]
        exact Nat.zero_le _
      obtain rfl : r' = r := Option.some.inj (w.client.symm.trans hr)
      have b := w.balance hc he al
      have := w.count_le_one run' once e
      omega
    · have hn : e ∉ c.sent := fun hm => al (scoped_run run' c (mem_of_getElem? hc) e hm)
      rw [count_eq_zero_of_not_mem hn]
      exact Nat.zero_le _
  · rintro before mid after s₁ l₁ s₂ l₂ ceil rfl joins reads e he al lt source
    have hist_eq : after ++ (s₂, l₂) :: (mid ++ (s₁, l₁) :: before) =
        (after ++ (s₂, l₂) :: mid) ++ (s₁, l₁) :: before := by simp
    have w : Joined o id x r (published x before).length _ s := joined_since joins (hist_eq ▸ run)
    rw [← hist_eq] at w
    have le := w.count_le_one run' once e
    have b := w.balance hc he al
    unfold underWay
    rcases mem_account run joins reads lt source with h | h <;>
      have := count_pos_iff.mpr h <;> omega

end

/-! ## One connection and two job events -/

def scopedOptions : Options := { plainOptions with ownerScoping := true }

abbrev jobsConnection : System State Label := apartSubscribing scopedOptions "c" subjectJobs 0

def untilJoin : List (State × Label) × State :=
  jobsConnection.exec [.register "c" { owner := "", all := true }, .notify jobRunning "" 0,
    .advance 0 [], .advance 0 [], .advance 0 [], .handleSubscribe "c" subjectJobs 0] []
    jobsConnection.init
def untilReplay : List (State × Label) × State :=
  jobsConnection.exec [.advance 1 [], .advance 1 [], .notify jobRunning "" 0,
    .advance 2 [], .advance 2 [], .advance 2 [("c", 0)], .advance 2 []] []
    (jobsConnection.next (.advance 1 []) untilJoin.2)

def untilSent : List (State × Label) × State :=
  jobsConnection.exec [.advance 1 []] [] (jobsConnection.next (.advance 1 []) untilReplay.2)
def firstPush : Envelope :=
  { subject := subjectJobs, payload := runningText, seq := 1, ownerScoped := true, owner := "" }

theorem subscribe_replay_exactly_once_jobs :
    ∃ c, untilSent.2.hub.objects[0]? = some c ∧ c.sent.count firstPush = 1 := by
  have run₁ : Run jobsConnection untilJoin.1 untilJoin.2 := Run.start.exec (by decide +kernel)
  have run₂ : Run jobsConnection (untilReplay.1 ++ (untilJoin.2, .advance 1 []) :: untilJoin.1)
      untilReplay.2 := (Run.step _ run₁ (by decide +kernel)).exec_since (by decide +kernel)
  have run₃ : Run jobsConnection (untilSent.1 ++ (untilReplay.2, .advance 1 []) ::
      (untilReplay.1 ++ (untilJoin.2, .advance 1 []) :: untilJoin.1)) untilSent.2 :=
    (Run.step _ run₂ (by decide +kernel)).exec_since (by decide +kernel)
  have isSome : untilSent.2.hub.objects[0]?.isSome = true := by decide +kernel
  obtain ⟨c, hc⟩ := Option.isSome_iff_exists.mp isSome
  have scope : untilSent.2.hub.objects[0]?.map HubClient.scope = some { owner := "", all := true } := by
    decide +kernel
  have allowed : c.scope.allows scopedOptions firstPush = true := by
    rw [hc, Option.map_some, Option.some.injEq] at scope
    rw [scope]
    decide +kernel
  have once := (subscribe_replay_exactly_once run₃ (by decide +kernel) hc).2
    untilJoin.1 untilReplay.1 untilSent.1 untilJoin.2 (.advance 1 []) untilReplay.2 (.advance 1 []) 1 rfl
    ⟨⟨.noReplay, [.since 0], by decide +kernel⟩, by decide +kernel, by decide +kernel⟩
    (by decide +kernel) firstPush rfl allowed (by decide) (.inl (by decide +kernel))
  have settled : underWay untilSent.2 0 firstPush = 0 := by decide +kernel
  exact ⟨c, hc, by omega⟩

def joinDuringFanout : List Label :=
  [.register "c" { owner := "", all := true }, .notify jobRunning "" 0, .advance 0 [], .advance 0 [],
    .handleSubscribe "c" subjectJobs 0, .advance 1 [], .advance 0 [("c", 0)], .advance 0 [],
    .advance 1 [], .advance 1 [], .advance 1 [], .advance 1 []]

theorem join_during_fanout_sends_twice :
    ∃ hist s c, Run (subscribing scopedOptions "c" subjectJobs 0) hist s ∧
      s.hub.clients "c" = some 0 ∧ s.hub.objects[0]? = some c ∧ c.sent.count firstPush = 2 := by
  have run := Run.start.exec (show (subscribing scopedOptions "c" subjectJobs 0).Permits joinDuringFanout
    [] _ by decide +kernel)
  have sent : (((subscribing scopedOptions "c" subjectJobs 0).exec joinDuringFanout []
      (subscribing scopedOptions "c" subjectJobs 0).init).2.hub.objects[0]?.map
        fun c => c.sent.count firstPush) = some 2 := by
    decide +kernel
  obtain ⟨c, hc, twice⟩ := Option.map_eq_some_iff.mp sent
  exact ⟨_, _, c, run, by decide +kernel, hc, twice⟩

end Sqi.Push
