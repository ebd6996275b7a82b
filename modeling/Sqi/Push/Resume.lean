import Sqi.Push.Replay

/-! A sequence number as a cursor. -/

namespace Sqi.Push
open List Option Pool Transition

def Section.brings (r : Ref) (x : String) : Section → Option Envelope
  | .copy env => if env.subject = x then some env else none
  | .offer r' env => if r' = r ∧ env.subject = x then some env else none
  | _ => none

def Idle (r : Ref) (x : String) (s : State) : Prop :=
  ∀ a ∈ Pool.pending s.running, a.brings r x = none
deriving Decidable

def OneByOne (r : Ref) (x : String) (s : State) (l : Label) : Prop :=
  match s.takes l with
  | some (.add env) => env.subject = x → Idle r x s
  | some (.replay _ r' x' _ _) => ¬ (r' = r ∧ x' = x)
  | _ => True

instance (r : Ref) (x : String) (s : State) (l : Label) : Decidable (OneByOne r x s l) :=
  decidable_of_iff ((match s.takes l with
    | some (.add env) => decide (env.subject = x → Idle r x s)
    | some (.replay _ r' x' _ _) => decide (¬ (r' = r ∧ x' = x))
    | _ => true) = true) (by unfold OneByOne; split <;> grind)

/-- What is under way to the client is the newest of the subject. -/
def Newest (r : Ref) (x : String) (hist : List (State × Label)) (s : State) : Prop :=
  ∀ a ∈ Pool.pending s.running, ∀ e, a.brings r x = some e → e.seq = (published x hist).length

section
variable {o : Options} {r : Ref} {x : String} {hist : List (State × Label)} {s : State} {l : Label}

lemma Newest.more {s' : State} (w : Newest r x hist s) (ha : adds x s l = [])
    (hp : ∀ a ∈ Pool.pending s'.running, a ∈ Pool.pending s.running ∨ ∀ e, a.brings r x = some e →
      e.seq = (published x hist).length) : Newest r x ((s, l) :: hist) s' := by
  intro a ham e he
  rw [published, ha, append_nil]
  rcases hp a ham with h | h
  · exact w a h e he
  · exact h e he

lemma Newest.start (w : Newest r x hist s) (ha : adds x s l = []) {p : List Section}
    (hp : ∀ a ∈ p, a.brings r x = none) : Newest r x ((s, l) :: hist) (s.start p) :=
  w.more ha fun a ham => by
    simp only [State.start, pending_spawn, mem_append] at ham
    exact ham.imp_right fun hm e he => by simp [hp a hm] at he

lemma subscribes_brings (id y : String) (cs : List Cursor) : ∀ a ∈ subscribes id y cs, a.brings r x = none := by
  cases cs <;> simp [subscribes, Section.brings]

lemma Newest.advance {i : Nat} {order : List (String × Ref)} (w : Newest r x hist s) (run : Run (hub o) hist s)
    (one : OneByOne r x s (.advance i order)) :
    Newest r x ((s, .advance i order) :: hist) (s.advance o i order) := by
  rcases s.advance_cases o i order with ⟨ha, e⟩ | ⟨r', env, c, ha, -, e⟩ | ⟨a, k, h, ha, ht, e⟩ <;> rw [e]
  · exact w.more (by simp [adds, State.takes, ha]) fun b hb => .inl hb
  · exact w.more (by simp [adds, State.takes, ha]) fun b hb => .inl hb
  simp only [OneByOne, State.takes, ha] at one
  have resumed : adds x s (.advance i order) = [] →
      (∀ b ∈ k, ∀ e, b.brings r x = some e → e.seq = (published x hist).length) →
      Newest r x ((s, .advance i order) :: hist) { s with hub := h, running := Pool.resume s.running i k } :=
    fun hn hk => w.more hn fun b hb => (mem_pending_resume ha hb).symm.imp_right fun hb => hk b hb
  cases a with
  | add env =>
    cases ht
    by_cases hx : env.subject = x
    swap
    · exact resumed (by simp [adds, State.takes, ha, hx]) (by simp [Section.brings, SubjectRing.number, hx])
    subst hx
    have hseq := (s.hub.rings env.subject).assigns_eq
    rw [(rings_log run env.subject).head] at hseq
    intro b hb e he
    rcases mem_pending_resume ha hb with hb | hb
    · obtain rfl := mem_singleton.mp hb
      obtain rfl : (s.hub.rings env.subject).number env = e := by
        simpa [Section.brings, SubjectRing.number] using he
      simp [published, adds, State.takes, ha, SubjectRing.number, hseq]
    · simp [one rfl b hb] at he
  | copy env =>
    cases ht
    refine resumed (by simp [adds, State.takes, ha]) ?_
    rintro b hb e he
    obtain ⟨m, -, rfl⟩ := mem_map.mp hb
    obtain ⟨⟨-, hx⟩, rfl⟩ : (m.2 = r ∧ env.subject = x) ∧ env = e := by simpa [Section.brings] using he
    exact w _ (Pool.next?_mem ha) env (by simp [Section.brings, hx])
  | replay id r' y cursor ceil =>
    cases ht
    refine resumed (by simp [adds, State.takes, ha]) ?_
    rintro b hb e he
    obtain ⟨e', he', rfl⟩ := mem_map.mp hb
    obtain ⟨⟨hr, hx⟩, rfl⟩ : (r' = r ∧ e'.subject = x) ∧ e' = e := by simpa [Section.brings] using he
    have hy := published_subject ((rings_log run y).mem (mem_of_mem_filter he'))
    exact absurd ⟨hr, hy.symm.trans hx⟩ one
  | publish always y payload scopedTo =>
    cases ht
    refine resumed (by simp [adds, State.takes, ha]) ?_
    unfold Hub.publish
    split
    · split <;> simp [Section.brings]
    · simp
  | offer r' env =>
    obtain ⟨h', -, e⟩ := map_eq_some_iff.mp ht
    cases e
    exact resumed (by simp [adds, State.takes, ha]) (by simp)
  | enter id y cursor calls =>
    refine resumed (by simp [adds, State.takes, ha]) ?_
    simp only [Section.take] at ht
    split at ht
    · cases ht
      simp
    · cases ht
      exact forall_mem_cons.mpr ⟨by simp [Section.brings], fun b hb e he => by
        simp [subscribes_brings id y calls b hb] at he⟩

lemma Newest.next (w : Newest r x hist s) (run : Run (hub o) hist s) (one : OneByOne r x s l) :
    Newest r x ((s, l) :: hist) (next o l s) := by
  cases l with
  | advance i order => exact w.advance run one
  | notify e cached now =>
    refine w.start rfl fun a ha => ?_
    obtain ⟨_, _, _, _, rfl⟩ := Event.mem_sections ha
    rfl
  | subscribe id y cursor =>
    simp only [Push.next]
    split
    · exact w.start rfl (subscribes_brings _ _ _)
    · exact w.more rfl fun a ha => .inl ha
  | handleSubscribe id y n =>
    simp only [Push.next]
    split
    · exact w.start rfl (subscribes_brings _ _ _)
    · exact w.more rfl fun a ha => .inl ha
  | _ => exact w.more rfl fun a ha => .inl ha

end
section
variable {o : Options} {id x : String} {sinceSeq : Nat} {before later : List (State × Label)} {s s₀ : State}
  {l₀ : Label} {r : Ref} {ceil : Nat}

lemma newest_since (run : Run (apartSubscribing o id x sinceSeq) (later ++ (s₀, l₀) :: before) s)
    (idle : Idle r x s₀) (one : ∀ st ∈ later ++ [(s₀, l₀)], OneByOne r x st.1 st.2)
    (w : Joined o id x r ceil before s₀) :
    Newest r x (later ++ (s₀, l₀) :: before) s ∧ Joined o id x r ceil (later ++ (s₀, l₀) :: before) s := by
  induction later generalizing s with
  | nil =>
    cases run with
    | step l run en =>
      obtain ⟨⟨en, own, room⟩, -⟩ := en
      have none : Newest r x before s₀ := fun a ha e he => by simp [idle a ha] at he
      exact ⟨none.next run.of_guarded.of_guarded (one _ mem_cons_self), w.next run.of_guarded.of_guarded en own room⟩
  | cons st later ih =>
    cases run with
    | step l run en =>
      obtain ⟨⟨en, own, room⟩, -⟩ := en
      obtain ⟨hnew, hjoined⟩ := ih run fun st hst => one st (mem_cons_of_mem _ hst)
      exact ⟨hnew.next run.of_guarded.of_guarded (one _ mem_cons_self),
        hjoined.next run.of_guarded.of_guarded en own room⟩

/-- What a client was sent leaves out nothing numbered below it that its replay found in the ring above the
cursor or that was published since it joined. -/
theorem cursor_skips_nothing {early mid : List (State × Label)} {s₁ : State} {l₁ : Label}
    (run : Run (apartSubscribing o id x sinceSeq) (later ++ (s₀, l₀) :: (mid ++ (s₁, l₁) :: early)) s)
    (joins : Joins id x r s₁ l₁) (idle : Idle r x s₀)
    (one : ∀ st ∈ later ++ [(s₀, l₀)], OneByOne r x st.1 st.2) {c : HubClient} (hc : s.hub.objects[r]? = some c)
    {e e' : Envelope} (source : e ∈ published x (later ++ (s₀, l₀) :: mid) ∨
      ∃ after s₂ l₂ mid' ceil, mid = after ++ (s₂, l₂) :: mid' ∧
        s₂.takes l₂ = some (.replay id r x (.since sinceSeq) ceil) ∧ sinceSeq < e.seq ∧
        e ∈ (s₂.hub.rings x).entries.toList)
    (hx : e.subject = x) (al : c.scope.allows o e = true)
    (he' : e' ∈ c.sent) (hx' : e'.subject = x) (lt : e.seq < e'.seq) : e ∈ c.sent := by
  have run' := run.of_guarded.of_guarded
  obtain ⟨hnew, hjoined⟩ := newest_since run idle one (joined_since joins run.at_split.1)
  -- what was sent is numbered no higher than what was published
  have hle : e'.seq ≤ (published x (later ++ (s₀, l₀) :: (mid ++ (s₁, l₁) :: early))).length := by
    have b := hjoined.balance hc hx' (scoped_run run' c (mem_of_getElem? hc) e' he')
    have := count_pos_iff.mpr he'
    rcases Nat.eq_zero_or_pos ((replayed id x (later ++ (s₀, l₀) :: (mid ++ (s₁, l₁) :: early))).count e') with h | h
    · have hd := mem_of_mem_drop (count_pos_iff.mp (show 0 < ((published x
        (later ++ (s₀, l₀) :: (mid ++ (s₁, l₁) :: early))).drop (published x early).length).count e' by omega))
      obtain ⟨i, hi⟩ := mem_iff_getElem?.mp hd
      have := (rings_log run' x).numbered hi
      have := (List.getElem?_eq_some_iff.mp hi).1
      omega
    · have := hjoined.below e' (count_pos_iff.mp h)
      have := hjoined.old
      omega
  -- so what is numbered lower is no longer on its way
  have hgone : ∀ a, a.brings r x = some e → (Pool.pending s.running).count a = 0 := by
    intro a ha
    refine count_eq_zero.mpr fun hm => ?_
    have := hnew a hm e ha
    omega
  have b := hjoined.balance hc hx al
  rw [hgone _ (by simp [Section.brings, hx]), hgone _ (by simp [Section.brings, hx])] at b
  have account : e ∈ (published x (later ++ (s₀, l₀) :: (mid ++ (s₁, l₁) :: early))).drop (published x early).length ∨
      e ∈ replayed id x (later ++ (s₀, l₀) :: (mid ++ (s₁, l₁) :: early)) := by
    rcases source with he | ⟨after, s₂, l₂, mid', ceil, rfl, reads, above, buffered⟩
    · have hist_eq : later ++ (s₀, l₀) :: (mid ++ (s₁, l₁) :: early) = (later ++ (s₀, l₀) :: mid) ++
        (s₁, l₁) :: early := by
        simp
      exact .inl (hist_eq ▸ mem_drop_of_published joins he)
    · have hist_eq : later ++ (s₀, l₀) :: ((after ++ (s₂, l₂) :: mid') ++ (s₁, l₁) :: early) =
          (later ++ (s₀, l₀) :: after) ++ (s₂, l₂) :: (mid' ++ (s₁, l₁) :: early) := by simp
      rw [hist_eq] at run ⊢
      exact mem_account run joins reads above (.inl buffered)
  rcases account with h | h <;>
    have := count_pos_iff.mpr h <;> exact count_pos_iff.mp (by omega)

end

/-! ## Two job events -/

def secondPush : Envelope := { firstPush with seq := 2 }
def subscribed : List (State × Label) × State :=
  jobsConnection.exec [.register "c" { owner := "", all := true }, .handleSubscribe "c" subjectJobs 0] []
    jobsConnection.init
def connected : List (State × Label) × State :=
  jobsConnection.exec [.advance 0 [], .advance 0 [], .advance 0 []] []
    (jobsConnection.next (.advance 0 []) subscribed.2)

lemma connected_run :
    Run jobsConnection (connected.1 ++ (subscribed.2, .advance 0 []) :: subscribed.1) connected.2 := by
  have run : Run jobsConnection subscribed.1 subscribed.2 := Run.start.exec (by decide +kernel)
  exact (Run.step _ run (by decide +kernel)).exec_since (by decide +kernel)

def inOrder : List (State × Label) × State :=
  jobsConnection.exec [.notify jobRunning "" 0, .advance 1 [], .advance 1 [], .advance 1 [("c", 0)], .advance 1 [],
    .advance 2 [], .advance 2 [], .advance 2 [("c", 0)], .advance 2 []] []
    (jobsConnection.next (.notify jobRunning "" 0) connected.2)

theorem cursor_skips_nothing_jobs :
    ∃ c, inOrder.2.hub.objects[0]? = some c ∧ secondPush ∈ c.sent ∧ firstPush ∈ c.sent := by
  have run : Run jobsConnection (inOrder.1 ++ (connected.2, .notify jobRunning "" 0) ::
      (connected.1 ++ (subscribed.2, .advance 0 []) :: subscribed.1)) inOrder.2 :=
    (Run.step _ connected_run (by decide +kernel)).exec_since (by decide +kernel)
  have sent : inOrder.2.hub.objects[0]?.map (fun c => (c.scope.allows scopedOptions firstPush, c.sent)) =
      some (true, [firstPush, secondPush]) := by
    decide +kernel
  obtain ⟨c, hc, e⟩ := map_eq_some_iff.mp sent
  obtain ⟨al, hsent⟩ := Prod.mk.inj e
  have hm : secondPush ∈ c.sent := by simp [hsent]
  exact ⟨c, hc, hm, cursor_skips_nothing run
    ⟨⟨.noReplay, [.since 0], by decide +kernel⟩, by decide +kernel, by decide +kernel⟩ (by decide +kernel)
    (by decide +kernel) hc (.inl (by decide +kernel)) rfl al hm rfl (by decide)⟩

def overtaken : List (State × Label) × State :=
  jobsConnection.exec [.notify jobRunning "" 0, .notify jobRunning "" 0, .advance 1 [], .advance 1 [], .advance 2 [],
    .advance 2 [], .advance 2 [("c", 0)], .advance 2 []]
    (connected.1 ++ (subscribed.2, .advance 0 []) :: subscribed.1) connected.2

/-- The connection has been sent number 2, and a replay from there would leave out number 1,
which is buffered and was not sent. -/
theorem overtaken_fanout_skips :
    Run jobsConnection overtaken.1 overtaken.2 ∧ overtaken.2.hub.clients "c" = some 0 ∧
      (overtaken.2.hub.objects[0]?.map fun c => (c.scope.allows scopedOptions firstPush, c.sent)) =
        some (true, [secondPush]) ∧
      firstPush ∈ (overtaken.2.hub.rings subjectJobs).entries.toList ∧
      firstPush ∉ (overtaken.2.hub.rings subjectJobs).since (.since secondPush.seq) := by
  exact ⟨connected_run.exec (by decide +kernel), by decide +kernel, by decide +kernel,
    by decide +kernel, by decide +kernel⟩

end Sqi.Push
