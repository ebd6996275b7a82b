import Sqi.Push.Log

/-! A connection's subscribe sequence. -/

namespace Sqi.Push
open Function List Pool Transition

/-! ## The scenario -/

def OwnCalls (id x : String) (sinceSeq : Nat) (hist : List (State × Label)) : Label → Prop
  | .deregister id' => id' ≠ id
  | .unsubscribe id' x' => ¬ (id' = id ∧ x' = x)
  | .subscribe id' x' _ => ¬ (id' = id ∧ x' = x)
  | .handleSubscribe id' x' n =>
    id' = id ∧ x' = x → n = sinceSeq ∧ (hist.map Prod.snd).count (.handleSubscribe id x sinceSeq) = 0
  | _ => True

instance (id x : String) (sinceSeq : Nat) (hist : List (State × Label)) :
    (l : Label) → Decidable (OwnCalls id x sinceSeq hist l)
  | .deregister _ => inferInstanceAs (Decidable (_ ≠ _))
  | .unsubscribe .. | .subscribe .. => inferInstanceAs (Decidable (¬ _))
  | .handleSubscribe .. => inferInstanceAs (Decidable (_ → _))
  | .register .. | .notify .. | .advance .. | .receive _ => isTrue trivial

def HasRoom (id : String) (s : State) (l : Label) : Prop :=
  match s.takes l with
  | some (.offer r _) =>
    s.hub.clients id = some r → ∀ c ∈ s.hub.objects[r]?, c.queue.length < clientSendBuf
  | _ => True

instance (id : String) (s : State) (l : Label) : Decidable (HasRoom id s l) := by
  unfold HasRoom
  split <;> infer_instance

def Section.Copies (x : String) : Section → Prop
  | .copy env => env.subject = x
  | _ => False

instance (x : String) : (a : Section) → Decidable (a.Copies x)
  | .copy _ => inferInstanceAs (Decidable (_ = _))
  | .publish .. | .add _ | .offer .. | .enter .. | .replay .. => isFalse id

def Apart (id x : String) (s : State) (l : Label) : Prop :=
  match s.takes l with
  | some (.enter id' x' _ _) =>
    id' = id → x' = x → s.hub.member id x = false → ∀ a ∈ Pool.pending s.running, ¬ a.Copies x
  | _ => True

instance (id x : String) (s : State) (l : Label) : Decidable (Apart id x s l) := by
  unfold Apart
  split <;> infer_instance

def subscribing (o : Options) (id x : String) (sinceSeq : Nat) : System State Label :=
  (hub o).guarded fun hist s l => OwnCalls id x sinceSeq hist l ∧ HasRoom id s l

instance (o : Options) (id x : String) (sinceSeq : Nat) (hist : List (State × Label)) (s : State)
    (l : Label) : Decidable ((subscribing o id x sinceSeq).enabled hist s l) :=
  inferInstanceAs (Decidable (((hub o).guarded _).enabled hist s l))

def apartSubscribing (o : Options) (id x : String) (sinceSeq : Nat) : System State Label :=
  (subscribing o id x sinceSeq).guarded fun _ => Apart id x

instance (o : Options) (id x : String) (sinceSeq : Nat) (hist : List (State × Label)) (s : State)
    (l : Label) : Decidable ((apartSubscribing o id x sinceSeq).enabled hist s l) :=
  inferInstanceAs (Decidable (((subscribing o id x sinceSeq).guarded _).enabled hist s l))

/-! ## What a run replays -/

def replaysOf (id x : String) (s : State) (l : Label) : List Envelope :=
  match s.takes l with
  | some (.replay id' _ x' cursor ceil) =>
    if id' = id ∧ x' = x then s.hub.replays x cursor ceil else []
  | _ => []

def replayed (id x : String) : List (State × Label) → List Envelope
  | [] => []
  | (s, l) :: hist => replayed id x hist ++ replaysOf id x s l

def Section.reads (id x : String) : Section → Nat
  | .enter id' x' cursor calls =>
    if id' = id ∧ x' = x then ((cursor :: calls).filter fun c => c ≠ .noReplay).length else 0
  | .replay id' _ x' cursor _ => if id' = id ∧ x' = x ∧ cursor ≠ .noReplay then 1 else 0
  | _ => 0

section
variable {o : Options} {id x : String} {sinceSeq : Nat} {hist : List (State × Label)} {s : State}
  {order : List (String × Ref)} {a : Section} {l : Label} {i : Nat}

lemma sum_reads_subscribes (id' x' : String) (cs : List Cursor) :
    ((subscribes id' x' cs).map (Section.reads id x)).sum =
      if id' = id ∧ x' = x then (cs.filter fun c => c ≠ .noReplay).length else 0 := by
  cases cs <;> simp [subscribes, Section.reads]

lemma sum_reads_eq_zero {p : List Section} (hp : ∀ a ∈ p, a.reads id x = 0) :
    (p.map (Section.reads id x)).sum = 0 :=
  sum_eq_zero fun n hn => by
    obtain ⟨a, ha, rfl⟩ := mem_map.mp hn
    exact hp a ha

lemma Event.sections_reads {cached : String} {now : Nat} {e : Event}
    (ha : a ∈ e.sections o cached now) : a.reads id x = 0 := by
  obtain ⟨_, _, _, _, rfl⟩ := Event.mem_sections ha
  rfl
lemma Section.take_reads (id x : String) {k : List Section}
    {h' : Hub} (ha : Pool.next? s.running i = some a) (ht : a.take o order s.hub = some (k, h')) :
    (k.map (Section.reads id x)).sum + min 1 (replaysOf id x s (.advance i order)).length ≤
    a.reads id x := by
  simp only [replaysOf, State.takes, ha]
  cases a with
  | publish always y payload scopedTo =>
    cases ht
    simp only [length_nil, Nat.min_zero, Nat.add_zero, Section.reads, Nat.le_zero]
    refine sum_reads_eq_zero fun b hb => ?_
    unfold Hub.publish at hb
    repeat' split at hb
    all_goals first
      | exact absurd hb not_mem_nil
      | (obtain rfl := mem_singleton.mp hb; rfl)
  | add env =>
    cases ht
    simp [Section.reads]
  | copy env =>
    cases ht
    simp [Section.reads, comp_def]
  | offer r env =>
    obtain ⟨h1, -, e⟩ := Option.map_eq_some_iff.mp ht
    cases e
    simp
  | enter id' x' cursor calls =>
    simp only [Section.take] at ht
    split at ht
    · cases ht
      simp
    cases ht
    rw [map_cons, sum_cons, sum_reads_subscribes]
    by_cases e : id' = id ∧ x' = x
    · by_cases hc : cursor = .noReplay <;> simp [Section.reads, e, hc, Nat.add_comm]
    · have e' : ¬ (id' = id ∧ x' = x ∧ cursor ≠ .noReplay) := fun h => e ⟨h.1, h.2.1⟩
      simp only [Section.reads, if_neg e, if_neg e', length_nil, Nat.min_zero, Nat.le_refl]
  | replay id' r x' cursor ceil =>
    cases ht
    by_cases e : id' = id ∧ x' = x
    · by_cases hc : cursor = .noReplay
      · simp [Section.reads, hc, Hub.replays, SubjectRing.since, Cursor.before, e]
      · simp [Section.reads, hc, e, comp_def]
    · simp [Section.reads, e, comp_def]

structure Once (id x : String) (sinceSeq : Nat) (hist : List (State × Label)) (s : State) : Prop where
  reads : ((Pool.pending s.running).map (Section.reads id x)).sum + min 1 (replayed id x hist).length ≤
    (hist.map Prod.snd).count (.handleSubscribe id x sinceSeq)
  started : (hist.map Prod.snd).count (.handleSubscribe id x sinceSeq) ≤ 1
  nodup : (replayed id x hist).Nodup

section
variable (w : Once id x sinceSeq hist s)
include w

lemma Once.still {s' : State}
    (hl : l ≠ .handleSubscribe id x sinceSeq) (hr : replaysOf id x s l = [])
    (hp : ((Pool.pending s'.running).map (Section.reads id x)).sum ≤
    ((Pool.pending s.running).map (Section.reads id x)).sum) :
    Once id x sinceSeq ((s, l) :: hist) s' := by
  have hc : (((s, l) :: hist).map Prod.snd).count (.handleSubscribe id x sinceSeq) =
      (hist.map Prod.snd).count (.handleSubscribe id x sinceSeq) := by
    rw [map_cons, count_cons_of_ne hl]
  have he : replayed id x ((s, l) :: hist) = replayed id x hist := by simp [replayed, hr]
  refine ⟨?_, hc ▸ w.started, he ▸ w.nodup⟩
  rw [hc, he]
  exact (Nat.add_le_add_right hp _).trans w.reads

lemma Once.advance (run : Run (hub o) hist s) :
    Once id x sinceSeq ((s, .advance i order) :: hist) (s.advance o i order) := by
  have hl : Label.advance i order ≠ .handleSubscribe id x sinceSeq := by simp
  rcases s.advance_cases o i order with ⟨ha, e⟩ | ⟨r, env, c, ha, -, e⟩ | ⟨a, k, h, ha, ht, e⟩
  · exact w.still hl (by simp [replaysOf, State.takes, ha]) (by rw [e])
  · exact w.still hl (by simp [replaysOf, State.takes, ha]) (by rw [e])
  have hk := Section.take_reads id x ha ht
  have hs := sum_pending_resume (k := k) ha (Section.reads id x)
  have wr := w.reads
  have ws := w.started
  rw [e]
  refine ⟨?_, ?_, ?_⟩
  · simp only [replayed, length_append, map_cons, count_cons_of_ne hl]
    omega
  · rw [map_cons, count_cons_of_ne hl]
    exact ws
  simp only [replayed]
  by_cases hn : replaysOf id x s (.advance i order) = []
  · rw [hn, append_nil]
    exact w.nodup
  -- The step makes the one replay, so none was made before it.
  have none_before : replayed id x hist = [] := by
    have := length_pos_iff.mpr hn
    refine length_eq_zero_iff.mp ?_
    omega
  rw [none_before, nil_append]
  unfold replaysOf
  split
  · split
    · exact ((rings_log run x).since_nodup _).filter _
    · exact nodup_nil
  · exact nodup_nil

lemma Once.next (run : Run (hub o) hist s)
    (own : OwnCalls id x sinceSeq hist l) : Once id x sinceSeq ((s, l) :: hist) (next o l s) := by
  cases l with
  | advance i order => exact w.advance run
  | subscribe id' x' cursor =>
    refine w.still (by simp) rfl ?_
    simp only [Push.next]
    split
    · simp only [State.start, pending_spawn, map_append, sum_append,
        sum_reads_subscribes, if_neg own, Nat.add_zero, Nat.le_refl]
    · exact Nat.le_refl _
  | handleSubscribe id' x' n =>
    by_cases e : id' = id ∧ x' = x
    · obtain ⟨rfl, zero⟩ := own e
      obtain ⟨rfl, rfl⟩ := e
      have wr := w.reads
      rw [zero] at wr
      refine ⟨?_, ?_, by simpa [replayed, replaysOf, State.takes] using w.nodup⟩
      · simp only [Push.next, replayed, replaysOf, State.takes, append_nil, map_cons, count_cons_self, zero]
        split
        · simp only [State.start, pending_spawn, map_append, sum_append, sum_reads_subscribes]
          simp
          omega
        · omega
      · simp [zero]
    · refine w.still (fun h => e ?_) rfl ?_
      · cases h
        exact ⟨rfl, rfl⟩
      simp only [Push.next]
      split
      · simp only [State.start, pending_spawn, map_append, sum_append,
          sum_reads_subscribes, if_neg e, Nat.add_zero, Nat.le_refl]
      · exact Nat.le_refl _
  | notify ev cached now =>
    refine w.still (by simp) rfl ?_
    simp only [Push.next, State.start, pending_spawn, map_append, sum_append]
    rw [sum_reads_eq_zero fun a ha => ev.sections_reads ha]
    exact Nat.le_refl _
  | _ => exact w.still (by simp) rfl (Nat.le_refl _)

end

lemma once_run (run : Run (subscribing o id x sinceSeq) hist s) : Once id x sinceSeq hist s := by
  have init : Once id x sinceSeq [] (subscribing o id x sinceSeq).init :=
    ⟨by simp [replayed, Pool.pending, subscribing, System.guarded, hub], by simp, by simp [replayed]⟩
  refine run.invariant init ?_
  intro hist s l run w en
  exact w.next run.of_guarded en.2.1

end
end Sqi.Push
