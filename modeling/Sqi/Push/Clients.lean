import Mathlib.Data.List.Nodup
import Sqi.Push.Hub

/-! References to clients. -/

namespace Sqi.Push
open Function Hub List Section Transition

/-! ## Client objects -/

structure HubClient.Same (c c' : HubClient) : Prop where
  id : c'.id = c.id
  scope : c'.scope = c.scope
  closed : c'.closed = c.closed

lemma HubClient.Same.rfl {c : HubClient} : c.Same c := ⟨Eq.refl _, Eq.refl _, Eq.refl _⟩

def Evolves (cs cs' : List HubClient) : Prop :=
  ∀ (r : Ref) (c : HubClient), cs[r]? = some c → ∃ c', cs'[r]? = some c' ∧ c.Same c'

variable {cs : List HubClient} {o : Options} {order : List (String × Ref)} {a : Section} {r : Ref}
  {f : HubClient → HubClient} {env : Envelope}

lemma Evolves.rfl : Evolves cs cs := fun _ _ hc => ⟨_, hc, .rfl⟩
lemma getElem?_modify_some {r' : Ref} {c : HubClient} (f : HubClient → HubClient) (hc : cs[r']? = some c) :
    (cs.modify r f)[r']? = some (if r = r' then f c else c) := by
  rw [getElem?_modify, hc]
  by_cases e : r = r' <;> simp [e]

lemma Evolves.modify (r : Ref) (hf : ∀ c : HubClient, c.Same (f c)) : Evolves cs (cs.modify r f) := by
  intro r' c hc
  refine ⟨_, getElem?_modify_some f hc, ?_⟩
  split
  · exact hf c
  · exact .rfl

lemma Evolves.append (cs new : List HubClient) : Evolves cs (cs ++ new) := fun _ _ hc =>
  ⟨_, (getElem?_append_left (List.getElem?_eq_some_iff.mp hc).1).trans hc, .rfl⟩

lemma Hub.evolves_register (h : Hub) (id : String) (scope : Scope) :
    Evolves h.objects (h.register id scope).objects := by
  unfold Hub.register
  split
  · exact .rfl
  · exact .append _ _

lemma Hub.evolves_unsubscribe (h : Hub) (id x : String) : Evolves h.objects (h.unsubscribe id x).objects := by
  simp only [Hub.unsubscribe]
  split
  · exact .rfl
  · split
    · exact .modify _ fun _ => ⟨rfl, rfl, rfl⟩
    · exact .rfl

lemma Hub.evolves_join (h : Hub) (id x : String) (r : Ref) : Evolves h.objects (h.join id x r).objects := by
  simp only [Hub.join]
  split
  · exact .rfl
  · exact .modify _ fun _ => ⟨rfl, rfl, rfl⟩

lemma Hub.evolves_offer {h h' : Hub} (ho : h.offer o r env = some h') : Evolves h.objects h'.objects := by
  unfold Hub.offer at ho
  split at ho
  · cases ho; exact .rfl
  split at ho
  · cases ho; exact .rfl
  split at ho
  · cases ho
  · split at ho
    · cases ho; exact .modify _ fun _ => ⟨rfl, rfl, rfl⟩
    · cases ho; exact .rfl

lemma Hub.offer_frame {h h' : Hub} (ho : h.offer o r env = some h') :
    h'.clients = h.clients ∧ h'.subs = h.subs ∧ h'.rings = h.rings := by
  unfold Hub.offer at ho
  repeat' split at ho
  all_goals cases ho
  all_goals exact ⟨rfl, rfl, rfl⟩

def Section.Holds (r : Ref) : Section → Prop
  | .offer r' _ => r' = r
  | .replay _ r' _ _ _ => r' = r
  | _ => False

instance (r : Ref) : (a : Section) → Decidable (a.Holds r)
  | .offer .. | .replay .. => inferInstanceAs (Decidable (_ = _))
  | .publish .. | .add _ | .copy _ | .enter .. => isFalse id

def Hub.Live (q : Prop) (h : Hub) (r : Ref) : Prop :=
  ∃ c, h.objects[r]? = some c ∧ (q → c.closed = false)

structure Hub.Linked (q : Prop) (h : Hub) : Prop where
  registered : ∀ {id r}, h.clients id = some r →
    ∃ c, h.objects[r]? = some c ∧ c.id = id ∧ (q → c.closed = false)
  members : ∀ {x m}, m ∈ h.subs x → h.clients m.1 = some m.2
  keys : ∀ x, ((h.subs x).map Prod.fst).Nodup

structure Linked (q : Prop) (s : State) : Prop where
  hub : s.hub.Linked q
  held : ∀ {a r}, a ∈ Pool.pending s.running → a.Holds r → s.hub.Live q r

variable {q : Prop} {h h' : Hub} {r : Ref} {s : State} {hist : List (State × Label)}
  {ms : List (String × Ref)} {k : List Section} {l : Label}

lemma Hub.Linked.live (w : h.Linked q) {id : String} (hr : h.clients id = some r) : h.Live q r := by
  obtain ⟨c, hc, -, ho⟩ := w.registered hr
  exact ⟨c, hc, ho⟩
lemma Hub.Live.evolves (l : h.Live q r) (e : Evolves h.objects h'.objects) : h'.Live q r := by
  obtain ⟨c, hc, ho⟩ := l
  obtain ⟨c', hc', same⟩ := e _ _ hc
  exact ⟨c', hc', fun hq => by rw [same.closed, ho hq]⟩

lemma Hub.Linked.evolves (w : h.Linked q) (e : Evolves h.objects h'.objects)
    (hc : h'.clients = h.clients) (hm : ∀ {x m}, m ∈ h'.subs x → h.clients m.1 = some m.2)
    (hk : ∀ x, ((h'.subs x).map Prod.fst).Nodup) : h'.Linked q where
  registered hr := by
    obtain ⟨c, hobj, hid, ho⟩ := w.registered (hc ▸ hr)
    obtain ⟨c', hobj', same⟩ := e _ _ hobj
    exact ⟨c', hobj', same.id.trans hid, fun hq => by rw [same.closed, ho hq]⟩
  members hx := by rw [hc]; exact hm hx
  keys := hk

lemma Hub.linked_new : Hub.new.Linked q where
  registered hr := by simp [Hub.new] at hr
  members hm := by simp [Hub.new] at hm
  keys _ := by simp [Hub.new]

lemma mem_without {id : String} {m : String × Ref} :
    m ∈ without ms id ↔ m ∈ ms ∧ m.1 ≠ id := by simp [without]
lemma nodup_without (id : String) (hn : (ms.map Prod.fst).Nodup) : ((without ms id).map Prod.fst).Nodup :=
  hn.sublist (List.filter_sublist.map _)

lemma Hub.Linked.register (w : h.Linked q) (id : String) (scope : Scope) :
    (h.register id scope).Linked q := by
  unfold Hub.register
  split
  case h_1 => exact w
  case h_2 fresh =>
    refine { registered := ?_, members := ?_, keys := w.keys }
    · intro id' r hr
      by_cases e : id' = id
      · obtain rfl : h.objects.length = r := by simpa [e] using hr
        exact ⟨_, getElem?_concat_length, e.symm, fun _ => rfl⟩
      · obtain ⟨c, hc, hid, ho⟩ := w.registered (by simpa [update_of_ne e] using hr)
        exact ⟨c, (getElem?_append_left (List.getElem?_eq_some_iff.mp hc).1).trans hc, hid, ho⟩
    · intro x m hm
      have hr := w.members hm
      have e : m.1 ≠ id := by rintro e; rw [e, fresh] at hr; cases hr
      simpa only [update_of_ne e] using hr

lemma Hub.Linked.unsubscribe (w : h.Linked q) (id x : String) : (h.unsubscribe id x).Linked q := by
  refine w.evolves (h.evolves_unsubscribe id x) rfl (fun {y m} hm => ?_) (fun y => ?_)
  · by_cases e : y = x
    · subst e
      exact w.members (mem_without.mp (by simpa [Hub.unsubscribe] using hm)).1
    · exact w.members (x := y) (by simpa [Hub.unsubscribe, e] using hm)
  · by_cases e : y = x
    · subst e
      simpa [Hub.unsubscribe] using nodup_without id (w.keys y)
    · simpa [Hub.unsubscribe, e] using w.keys y

lemma Hub.Linked.join (w : h.Linked q) {id : String} (hr : h.clients id = some r) (x : String) :
    (h.join id x r).Linked q := by
  refine w.evolves (h.evolves_join id x r) rfl (fun {y m} hm => ?_) (fun y => ?_)
  · by_cases e : y = x
    · subst e
      have hm : m ∈ without (h.subs y) id ∨ m = (id, r) := by simpa [Hub.join] using hm
      rcases hm with hm | rfl
      · exact w.members (mem_without.mp hm).1
      · exact hr
    · exact w.members (x := y) (by simpa [Hub.join, e] using hm)
  · by_cases e : y = x
    · subst e
      have hn : id ∉ (without (h.subs y) id).map Prod.fst := by
        rintro hi
        obtain ⟨m, hm, e⟩ := mem_map.mp hi
        exact (mem_without.mp hm).2 e
      have hn' := nodup_append.mpr ⟨nodup_without id (w.keys y), nodup_singleton id,
        fun a ha b hb e => hn (by rwa [e, mem_singleton.mp hb] at ha)⟩
      simpa [Hub.join] using hn'
    · simpa [Hub.join, e] using w.keys y

lemma Hub.Linked.deregister (w : h.Linked q) (id : String) : (h.deregister id).Linked q := by
  unfold Hub.deregister
  split
  case h_1 => exact w
  case h_2 r hr =>
    refine { registered := ?_, members := ?_, keys := fun x => nodup_without id (w.keys x) }
    · intro id' r' hr'
      by_cases e : id' = id
      · simp [e] at hr'
      obtain ⟨c, hc, hid, ho⟩ := w.registered (by simpa [update_of_ne e] using hr')
      obtain ⟨d, hd, hid', -⟩ := w.registered hr
      have ne : r ≠ r' := by
        rintro rfl
        obtain rfl := Option.some.inj (hc.symm.trans hd)
        exact e (hid.symm.trans hid')
      exact ⟨c, by rw [getElem?_modify_some _ hc, if_neg ne], hid, ho⟩
    · intro x m hm
      obtain ⟨hm, e⟩ := mem_without.mp hm
      simpa [update_of_ne e] using w.members hm

lemma Hub.Live.deregister (l : h.Live q r) {id : String} (open_ : q → h.clients id ≠ some r) :
    (h.deregister id).Live q r := by
  obtain ⟨c, hc, ho⟩ := l
  unfold Hub.deregister
  split
  case h_1 => exact ⟨c, hc, ho⟩
  case h_2 r' hr' =>
    refine ⟨_, getElem?_modify_some _ hc, fun hq => ?_⟩
    rw [if_neg (by rintro rfl; exact open_ hq hr')]
    exact ho hq

lemma Section.take_linked (w : h.Linked q) (held : ∀ r, a.Holds r → h.Live q r) (ad : a.Admits h order)
    (ht : a.take o order h = some (k, h')) :
    h'.Linked q ∧ Evolves h.objects h'.objects ∧ ∀ b ∈ k, ∀ r, b.Holds r → h'.Live q r := by
  cases a with
  | publish always x payload scopedTo =>
    cases ht
    refine ⟨w, .rfl, fun b hb r hr => ?_⟩
    unfold Hub.publish at hb
    repeat' split at hb
    all_goals first
      | exact absurd hb not_mem_nil
      | (obtain rfl := mem_singleton.mp hb; exact hr.elim)
  | add env =>
    cases ht
    refine ⟨⟨w.registered, w.members, w.keys⟩, .rfl, fun b hb r hr => ?_⟩
    obtain rfl := mem_singleton.mp hb
    exact hr.elim
  | copy env =>
    cases ht
    refine ⟨w, .rfl, fun b hb r hr => ?_⟩
    obtain ⟨m, hm, rfl⟩ := mem_map.mp hb
    obtain rfl : m.2 = r := hr
    exact w.live (w.members (ad.subset hm))
  | offer r env =>
    obtain ⟨h1, ho, e⟩ := Option.map_eq_some_iff.mp ht
    cases e
    obtain ⟨hc, hs, -⟩ := offer_frame ho
    refine ⟨w.evolves (evolves_offer ho) hc (fun hm => w.members (hs ▸ hm)) (hs ▸ w.keys),
      evolves_offer ho, fun b hb => absurd hb not_mem_nil⟩
  | enter id x cursor calls =>
    simp only [Section.take] at ht
    split at ht
    · cases ht
      exact ⟨w, .rfl, fun b hb => absurd hb not_mem_nil⟩
    next r hr =>
      cases ht
      refine ⟨w.join hr x, h.evolves_join id x r, fun b hb r' hr' => ?_⟩
      rcases mem_cons.mp hb with rfl | hb
      · obtain rfl : r = r' := hr'
        exact (w.live hr).evolves (h.evolves_join id x r)
      cases calls with
      | nil => cases hb
      | cons c cs =>
        obtain rfl := mem_singleton.mp hb
        exact hr'.elim
  | replay id r x cursor ceil =>
    cases ht
    refine ⟨w, .rfl, fun b hb r' hr' => ?_⟩
    obtain ⟨e, -, rfl⟩ := mem_map.mp hb
    obtain rfl : r = r' := hr'
    exact held r rfl

lemma Linked.start (w : Linked q s) {p : List Section} (hp : ∀ a ∈ p, ∀ r, ¬ a.Holds r) :
    Linked q (s.start p) where
  hub := w.hub
  held ha hr := by
    rcases mem_append.mp (Pool.pending_spawn p ▸ ha) with ha | ha
    · exact w.held ha hr
    · exact absurd hr (hp _ ha _)

lemma subscribes_holds {id x : String} {cs : List Cursor} (ha : a ∈ subscribes id x cs)
    (r : Ref) : ¬ a.Holds r := by
  cases cs with
  | nil => cases ha
  | cons c cs =>
    obtain rfl := mem_singleton.mp ha
    exact not_false

lemma Event.sections_holds {cached : String} {now : Nat} {e : Event}
    (ha : a ∈ e.sections o cached now) (r : Ref) : ¬ a.Holds r := by
  obtain ⟨_, _, _, _, rfl⟩ := Event.mem_sections ha
  exact id

lemma Linked.advance {i : Nat} (w : Linked q s)
    (en : Enabled s (.advance i order)) : Linked q (s.advance o i order) := by
  have ad := en.2
  dsimp only at ad
  rcases s.advance_cases o i order with ⟨ha, -⟩ | ⟨r, env, c, ha, -, e⟩ | ⟨a, k, h, ha, ht, e⟩ <;> rw [ha] at ad
  · exact ad.elim
  · rw [e]
    exact ⟨w.hub, w.held⟩
  rw [e]
  obtain ⟨wh, ev, hk⟩ := take_linked w.hub (fun r hr => w.held (Pool.next?_mem ha) hr) ad ht
  refine ⟨wh, fun {b r} hb hr => ?_⟩
  rcases Pool.mem_pending_resume ha hb with hb | hb
  · exact hk b hb r hr
  · exact (w.held hb hr).evolves ev

lemma Linked.next (w : Linked q s) (en : Enabled s l)
    (released : q → ∀ id, l = .deregister id → ∀ r, s.hub.clients id = some r →
    ∀ a ∈ Pool.pending s.running, ¬ a.Holds r) : Linked q (next o l s) := by
  cases l with
  | register id scope =>
    exact ⟨w.hub.register id scope, fun ha hr => (w.held ha hr).evolves (s.hub.evolves_register id scope)⟩
  | deregister id =>
    refine ⟨w.hub.deregister id, fun {a r} ha hr => (w.held ha hr).deregister fun hq hc => ?_⟩
    exact released hq id rfl r hc a ha hr
  | unsubscribe id x =>
    exact ⟨w.hub.unsubscribe id x, fun ha hr => (w.held ha hr).evolves (s.hub.evolves_unsubscribe id x)⟩
  | subscribe id x cursor =>
    simp only [Push.next]
    split
    · exact w.start fun a ha r => subscribes_holds ha r
    · exact w
  | handleSubscribe id x sinceSeq =>
    simp only [Push.next]
    split
    · exact w.start fun a ha r => subscribes_holds ha r
    · exact w
  | notify e cached now => exact w.start fun a ha r => e.sections_holds ha r
  | advance i order => exact w.advance en
  | receive r =>
    have ev : Evolves s.hub.objects (s.hub.objects.modify r HubClient.receive) := .modify r fun _ => ⟨rfl, rfl, rfl⟩
    exact ⟨w.hub.evolves ev rfl w.hub.members w.hub.keys, fun ha hr => (w.held ha hr).evolves ev⟩

def HubClient.Scoped (o : Options) (c : HubClient) : Prop := ∀ e ∈ c.sent, c.scope.allows o e = true

lemma HubClient.receive_sent (c : HubClient) : c.receive.sent = c.sent := by
  cases hq : c.queue with
  | nil => simp [HubClient.receive, HubClient.sent, hq]
  | cons e q => simp [HubClient.receive, HubClient.sent, hq]

lemma forall_mem_modify {P : HubClient → Prop}
    (hf : ∀ c, cs[r]? = some c → P c → P (f c)) (hP : ∀ c ∈ cs, P c) :
    ∀ c ∈ cs.modify r f, P c := by
  intro c' hc'
  obtain ⟨i, hi⟩ := mem_iff_getElem?.mp hc'
  rw [getElem?_modify] at hi
  obtain ⟨c, hc, e⟩ := Option.map_eq_some_iff.mp hi
  have hPc := hP c (mem_of_getElem? hc)
  by_cases er : r = i
  · subst er
    obtain rfl : f c = c' := by simpa using e
    exact hf c hc hPc
  · obtain rfl : c = c' := by simpa [er] using e
    exact hPc

lemma Section.take_scoped (ht : a.take o order h = some (k, h')) (w : ∀ c ∈ h.objects, c.Scoped o) :
    ∀ c ∈ h'.objects, c.Scoped o := by
  cases a with
  | offer r env =>
    obtain ⟨h1, ho, e⟩ := Option.map_eq_some_iff.mp ht
    cases e
    unfold Hub.offer at ho
    split at ho
    · cases ho; exact w
    next c hc =>
      split at ho
      · cases ho; exact w
      next al =>
        split at ho
        · cases ho
        split at ho
        · cases ho
          refine forall_mem_modify (fun c' hc' hw e he => ?_) w
          obtain rfl := Option.some.inj (hc.symm.trans hc')
          have he : e ∈ c.sent ∨ e = env := by simpa [HubClient.sent, or_assoc] using he
          rcases he with he | rfl
          · exact hw e he
          · simpa using al
        · cases ho; exact w
  | enter id x cursor calls =>
    simp only [Section.take] at ht
    split at ht
    · cases ht; exact w
    cases ht
    simp only [Hub.join]
    split
    · exact w
    · exact forall_mem_modify (fun _ _ hw => hw) w
  | _ => cases ht; exact w

lemma scoped_run (run : Run (hub o) hist s) : ∀ c ∈ s.hub.objects, c.Scoped o := by
  refine run.safe (P := fun s => ∀ c ∈ s.hub.objects, c.Scoped o) (by simp [Push.hub, Hub.new]) ?_
  intro hist s l _ w _
  cases l with
  | register id scope =>
    intro c hc
    simp only [Push.hub, Push.next, Hub.register] at hc
    split at hc
    · exact w c hc
    rcases mem_append.mp hc with hc | hc
    · exact w c hc
    · obtain rfl := mem_singleton.mp hc
      exact fun e he => by cases he
  | deregister id =>
    simp only [Push.hub, Push.next, Hub.deregister]
    split
    · exact w
    · exact forall_mem_modify (fun _ _ hw => hw) w
  | unsubscribe id x =>
    simp only [Push.hub, Push.next, Hub.unsubscribe]
    split
    · exact w
    · split
      · exact forall_mem_modify (fun _ _ hw => hw) w
      · exact w
  | subscribe id x cursor =>
    simp only [Push.hub, Push.next]
    split <;> exact w
  | handleSubscribe id x sinceSeq =>
    simp only [Push.hub, Push.next]
    split <;> exact w
  | notify e cached now => exact w
  | receive r => exact forall_mem_modify (fun c _ hw e he => hw e (c.receive_sent ▸ he)) w
  | advance i order =>
    simp only [Push.hub, Push.next]
    rcases s.advance_cases o i order with ⟨-, e⟩ | ⟨r, env, c, -, -, e⟩ | ⟨a, k, h, -, ht, e⟩ <;> rw [e]
    · exact w
    · exact w
    · exact take_scoped ht w

/-! ## Closed channels -/

def SendsOnClosed (o : Options) (s : State) (l : Label) : Prop :=
  ∃ r env c, s.takes l = some (.offer r env) ∧ s.hub.objects[r]? = some c ∧
    c.scope.allows o env = true ∧ c.closed = true
def Released (s : State) : Label → Prop
  | .deregister id => ∀ r ∈ s.hub.clients id, ∀ a ∈ Pool.pending s.running, ¬ a.Holds r
  | _ => True

instance (s : State) : (l : Label) → Decidable (Released s l)
  | .deregister id =>
    inferInstanceAs (Decidable (∀ r ∈ s.hub.clients id, ∀ a ∈ Pool.pending s.running, ¬ a.Holds r))
  | .register .. | .unsubscribe .. | .subscribe .. | .handleSubscribe .. | .notify .. | .advance ..
  | .receive _ => isTrue trivial

lemma linked_released (run : Run ((hub o).guarded fun _ => Released) hist s) : Linked True s := by
  refine run.safe ⟨linked_new, fun ha => by cases ha⟩ fun _ s l _ w en => ?_
  exact w.next en.1 fun _ id e => by subst e; exact en.2

lemma Linked.not_sendsOnClosed (w : Linked True s) (l : Label) : ¬ SendsOnClosed o s l := by
  rintro ⟨r, env, c, ht, hc, -, closed⟩
  cases l with
  | advance i order =>
    obtain ⟨d, hd, open_⟩ := w.held (Pool.next?_mem ht) rfl
    obtain rfl := Option.some.inj (hc.symm.trans hd)
    rw [open_ trivial] at closed
    cases closed
  | _ => cases ht

lemma crashed_next (hs : s.crashed = false) (hn : (next o l s).crashed = true) : SendsOnClosed o s l := by
  cases l with
  | advance i order =>
    simp only [Push.next] at hn
    rcases s.advance_cases o i order with ⟨-, e⟩ | ⟨r, env, c, ha, hc, -⟩ | ⟨a, k, h, -, -, e⟩
    · exact absurd (hs.symm.trans (e ▸ hn)) (by decide)
    · exact ⟨r, env, c, ha, hc⟩
    · exact absurd (hs.symm.trans (e ▸ hn)) (by decide)
  | subscribe id x cursor =>
    simp only [Push.next] at hn
    split at hn <;> exact absurd (hs.symm.trans hn) (by decide)
  | handleSubscribe id x sinceSeq =>
    simp only [Push.next] at hn
    split at hn <;> exact absurd (hs.symm.trans hn) (by decide)
  | _ => exact absurd (hs.symm.trans hn) (by decide)

/-- If every `Deregister` waits for the goroutines that hold its client, no step
of any run sends on a closed channel, and the server never panics. -/
theorem no_send_on_closed_channel {o : Options} {hist : List (State × Label)}
    (run : Run ((hub o).guarded fun _ => Released) hist s) :
    s.crashed = false ∧ ∀ e ∈ hist, ¬ SendsOnClosed o e.1 e.2 := by
  refine ⟨?_, fun e he => ?_⟩
  · refine run.safe (P := fun s => s.crashed = false) rfl fun _ s l r hs en => ?_
    by_contra hn
    exact (linked_released r).not_sendsOnClosed l (crashed_next hs (Bool.eq_true_of_not_eq_false hn))
  · obtain ⟨h', r, -⟩ := run.at_entry he
    exact (linked_released r).not_sendsOnClosed e.2

def runningText : String :=
  "\x7b\"job_id\":\"j\",\"status\":\"running\",\"updated_at\":\"1970-01-01T00:00:00Z\"\x7d"
def plainOptions : Options := { ownerScoping := false, marshal := fun _ => some runningText, foldRune := id }
def jobRunning : Event :=
  .job { jobID := "j", name := "", owner := "", queueID := "", status := "running", updatedAt := none }
def joinJobs : List Label :=
  [.register "c" { owner := "", all := true }, .subscribe "c" subjectJobs .noReplay,
    .advance 0 [], .advance 0 []]
def pushJob : List Label :=
  [.notify jobRunning "" 0, .advance 1 [], .advance 1 [], .advance 1 [("c", 0)]]

theorem no_send_on_closed_channel_joinJobs :
    let steps := joinJobs ++ pushJob ++ [.advance 1 [], .deregister "c"]
    let e := ((hub plainOptions).guarded fun _ => Released).exec steps [] (hub plainOptions).init
    e.2.crashed = false ∧ ∀ step ∈ e.1, ¬ SendsOnClosed plainOptions step.1 step.2 :=
  no_send_on_closed_channel (Run.start.exec (by decide +kernel))

def cutShort : List Label := joinJobs ++ pushJob ++ [.deregister "c"]

/-- The fan-out then sends on the closed channel and the server panics. -/
theorem deregister_during_fanout_panics :
    ∃ hist s l, Run (hub plainOptions) hist s ∧ (hub plainOptions).enabled hist s l ∧
      SendsOnClosed plainOptions s l ∧ (next plainOptions l s).crashed = true := by
  have run := Run.start.exec (show (hub plainOptions).Permits cutShort [] _ by decide +kernel)
  have panics : (next plainOptions (.advance 1 [])
      ((hub plainOptions).exec cutShort [] (hub plainOptions).init).2).crashed = true := by
    decide +kernel
  exact ⟨_, _, _, run, by decide +kernel, crashed_next (by decide +kernel) panics, panics⟩

end Sqi.Push
