import Sqi.Push.Clients

/-! What was published on a subject. -/

namespace Sqi.Push
open Function List Transition

def adds (x : String) (s : State) (l : Label) : List Envelope :=
  match s.takes l with
  | some (.add env) => if env.subject = x then [(s.hub.rings x).number env] else []
  | _ => []
def published (x : String) : List (State × Label) → List Envelope
  | [] => []
  | (s, l) :: hist => published x hist ++ adds x s l

lemma published_append (x : String) (later hist : List (State × Label)) :
    published x (later ++ hist) = published x hist ++ published x later := by
  induction later with
  | nil => simp [published]
  | cons e later ih => simp only [cons_append, published, ih, append_assoc]

variable {s : State} {e : Envelope} {hist : List (State × Label)} {r : SubjectRing}
  {log : List Envelope} {o : Options} {x : String}

lemma adds_subject {l : Label} (he : e ∈ adds x s l) : e.subject = x := by
  unfold adds at he
  split at he
  · split at he
    next hx =>
      obtain rfl := mem_singleton.mp he
      exact hx
    · cases he
  · cases he

lemma published_subject (he : e ∈ published x hist) : e.subject = x := by
  induction hist with
  | nil => cases he
  | cons step hist ih =>
    rcases mem_append.mp he with he | he
    · exact ih he
    · exact adds_subject he

structure SubjectRing.Logs (r : SubjectRing) (log : List Envelope) : Prop where
  entries : r.entries.Holds log
  head : r.headSeq = log.length
  numbered : ∀ {i e}, log[i]? = some e → e.seq = i + 1

lemma SubjectRing.logs_empty : SubjectRing.empty.Logs [] := ⟨RingBuffer.holds_empty, rfl, by simp⟩
lemma SubjectRing.assigns_eq (r : SubjectRing) : r.assigns = r.headSeq + 1 := by
  unfold SubjectRing.assigns SubjectRing.headSeq
  split <;> omega

section
variable (w : r.Logs log)
include w

lemma SubjectRing.Logs.add (env : Envelope) : (r.add env).Logs (log ++ [r.number env]) where
  entries := w.entries.push _
  head := by
    have he : (r.add env).headSeq = r.assigns := rfl
    rw [he, r.assigns_eq, w.head, length_append, length_singleton]
  numbered {i e} hi := by
    rcases Nat.lt_trichotomy i log.length with lt | rfl | gt
    · exact w.numbered (by rwa [getElem?_append_left lt] at hi)
    · obtain rfl : r.number env = e := by simpa using hi
      simp [SubjectRing.number, r.assigns_eq, w.head]
    · rw [getElem?_eq_none (by simp; omega)] at hi
      cases hi

lemma SubjectRing.Logs.nodup : log.Nodup := by
  refine nodup_iff_getElem?_ne_getElem?.mpr fun i j hij hj e => ?_
  have hi : i < log.length := by omega
  rw [getElem?_eq_getElem hi, getElem?_eq_getElem hj, Option.some.injEq] at e
  have ei := w.numbered (getElem?_eq_getElem hi)
  have ej := w.numbered (getElem?_eq_getElem hj)
  rw [e] at ei
  omega

lemma SubjectRing.Logs.mem_drop (he : e ∈ log) (k : Nat) : e ∈ log.drop k ↔ k < e.seq := by
  obtain ⟨i, hi⟩ := mem_iff_getElem?.mp he
  have seq := w.numbered hi
  constructor
  · intro hd
    obtain ⟨j, hj⟩ := mem_iff_getElem?.mp hd
    rw [getElem?_drop] at hj
    have := w.numbered hj
    omega
  · intro lt
    refine mem_iff_getElem?.mpr ⟨i - k, ?_⟩
    rw [getElem?_drop, show k + (i - k) = i by omega, hi]

lemma SubjectRing.Logs.mem {cursor : Cursor} (he : e ∈ r.since cursor) : e ∈ log :=
  w.entries.mem (mem_of_mem_filter he)
lemma SubjectRing.Logs.since_nodup (cursor : Cursor) : (r.since cursor).Nodup := by
  refine List.Nodup.filter _ ?_
  rw [show r.entries.toList = _ from w.entries]
  exact w.nodup.sublist (drop_sublist _ _)

end

lemma Section.take_rings {order : List (String × Ref)} {a : Section} {h h' : Hub}
    {k : List Section} (ht : a.take o order h = some (k, h')) :
    h'.rings = match a with
      | .add env => update h.rings env.subject ((h.rings env.subject).add env)
      | _ => h.rings := by
  cases a with
  | offer r env =>
    obtain ⟨h1, ho, e⟩ := Option.map_eq_some_iff.mp ht
    cases e
    exact (Hub.offer_frame ho).2.2
  | enter id x cursor calls =>
    simp only [Section.take] at ht
    split at ht <;> cases ht <;> rfl
  | _ => cases ht; rfl

lemma Hub.register_frame (h : Hub) (id : String) (scope : Scope) :
    (h.register id scope).subs = h.subs ∧ (h.register id scope).rings = h.rings := by
  unfold Hub.register
  split <;> exact ⟨rfl, rfl⟩

lemma next_rings (o : Options) (l : Label) (s : State) (x : String)
    (w : (s.hub.rings x).Logs log) : ((next o l s).hub.rings x).Logs (log ++ adds x s l) := by
  -- Away from `advance` nothing is published and no ring is written.
  have still : adds x s l = [] → (next o l s).hub.rings x = s.hub.rings x →
      ((next o l s).hub.rings x).Logs (log ++ adds x s l) := by
    intro ha hr
    rwa [ha, hr, append_nil]
  cases l with
  | advance i order =>
    simp only [Push.next, adds, State.takes]
    rcases s.advance_cases o i order with ⟨ha, e⟩ | ⟨r, env, c, ha, -, e⟩ | ⟨a, k, h, ha, ht, e⟩ <;> rw [e]
    · simpa [ha] using w
    · simpa [ha] using w
    have hr := Section.take_rings ht
    rw [ha]
    cases a with
    | add env =>
      by_cases e : env.subject = x
      · subst e
        simpa [hr] using w.add env
      · simpa [hr, e, update_of_ne (Ne.symm e)] using w
    | _ => simpa [hr] using w
  | register id scope => exact still rfl (congrFun (s.hub.register_frame id scope).2 x)
  | deregister id =>
    refine still rfl ?_
    simp only [Push.next, Hub.deregister]
    split <;> rfl
  | subscribe id y cursor =>
    refine still rfl ?_
    simp only [Push.next]
    split <;> rfl
  | handleSubscribe id y sinceSeq =>
    refine still rfl ?_
    simp only [Push.next]
    split <;> rfl
  | _ => exact still rfl rfl

lemma rings_log (run : Run (hub o) hist s) (x : String) : (s.hub.rings x).Logs (published x hist) := by
  induction run with
  | start => exact SubjectRing.logs_empty
  | step l _ _ ih => exact next_rings o l _ x ih
lemma linked_run (run : Run (hub o) hist s) : Linked False s :=
  run.safe ⟨Hub.linked_new, fun ha => by cases ha⟩ fun _ _ _ _ w en => w.next en fun q => q.elim

/-- A replay keeps the order of the pushes, and misses none if the ring reaches back to the cursor. -/
theorem replay_complete (run : Run (hub o) hist s) (n : Nat) :
    (s.hub.rings x).since (.since n) <+ published x hist ∧
      ((published x hist).length ≤ n + ringBufSize → ∀ e ∈ published x hist,
        e ∈ (s.hub.rings x).since (.since n) ↔ n < e.seq) := by
  have w := rings_log run x
  have kept : (s.hub.rings x).entries.toList = (published x hist).drop _ := w.entries
  refine ⟨filter_sublist.trans (kept ▸ drop_sublist ..), fun near e he => ?_⟩
  rw [SubjectRing.since, kept, mem_filter, w.mem_drop he]
  simp only [Cursor.before, decide_eq_true_eq]
  omega

theorem replay_complete_joinJobs :
    let r := (hub plainOptions).exec (joinJobs ++ pushJob) [] (hub plainOptions).init
    ∃ e ∈ published subjectJobs r.1, e ∈ (r.2.hub.rings subjectJobs).since (.since 0) := by
  intro r
  obtain ⟨e, he, lt⟩ : ∃ e ∈ published subjectJobs r.1, 0 < e.seq := by decide +kernel
  exact ⟨e, he, ((replay_complete (Run.start.exec (by decide +kernel)) 0).2 (by decide +kernel) e he).mpr lt⟩

end Sqi.Push
