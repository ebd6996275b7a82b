import Sqi.Store.Types

/-! Attempts a live worker has stopped reporting (`attemptreconcile.go`). -/

namespace Sqi
open List

/-! ## The reconciler -/

structure WorkerReport where
  workerAt : Int
  receivedAt : Int
  attempts : List ID
deriving DecidableEq

structure OpenAttempt where
  attemptID : ID
  taskID : ID
  workerID : ID
  createdAt : Int
deriving DecidableEq

structure Reconciler where
  grace : Int
  skew : Int
  reports : ID → Option WorkerReport
  lastSeen : ID → Option Int
  warned : ID → Bool

def newReconciler (grace skew : Int) : Reconciler := ⟨grace, skew, fun _ => none, fun _ => none, fun _ => false⟩

namespace Reconciler

def fresh (r : Reconciler) (rep : WorkerReport) (now : Int) : Bool := now - rep.receivedAt ≤ r.skew

def record (r : Reconciler) (workerID : ID) (rep : WorkerReport) : Bool × Reconciler :=
  let d := rep.receivedAt - rep.workerAt
  if r.skew < d ∨ d < -r.skew then
    (!r.warned workerID, { r with warned := fun w => if w = workerID then true else r.warned w })
  else
    let r := { r with warned := fun w => if w = workerID then false else r.warned w }
    if (r.reports workerID).any fun prev => rep.workerAt < prev.workerAt then (false, r)
    else
      (false, { r with
        lastSeen := fun id => if id ∈ rep.attempts then some rep.receivedAt else r.lastSeen id
        reports := fun w => if w = workerID then some rep else r.reports w })

def prune (r : Reconciler) (now : Int) : Reconciler :=
  { r with
    lastSeen := fun id => (r.lastSeen id).filter fun seen => ¬ 2 * r.grace < now - seen
    reports := fun w => (r.reports w).filter fun rep => ¬ 2 * r.grace < now - rep.receivedAt }
def since (r : Reconciler) (a : OpenAttempt) : Int :=
  match r.lastSeen a.attemptID with
  | some seen => if a.createdAt < seen then seen else a.createdAt
  | none => a.createdAt

def isDue (r : Reconciler) (now : Int) (a : OpenAttempt) : Bool :=
  match r.reports a.workerID with
  | none => false
  | some rep =>
    if !r.fresh rep now then false
    else if a.attemptID ∈ rep.attempts then false
    else r.grace ≤ rep.receivedAt - r.since a

def due (r : Reconciler) (openAttempts : List OpenAttempt) (now : Int) : List OpenAttempt × Reconciler :=
  (openAttempts.filter (r.isDue now), r.prune now)

end Reconciler

inductive ReconcileEvent where
  | record (workerID : ID) (rep : WorkerReport)
  | due (openAttempts : List OpenAttempt) (now : Int)

def ReconcileEvent.time : ReconcileEvent → Int
  | .record _ rep => rep.receivedAt
  | .due _ now => now
def Reconciler.step (r : Reconciler) : ReconcileEvent → Reconciler
  | .record workerID rep => (r.record workerID rep).2
  | .due openAttempts now => (r.due openAttempts now).2
def Reconciler.run (r : Reconciler) (events : List ReconcileEvent) : Reconciler := events.foldl Reconciler.step r

abbrev ReportHistory := List (ID × WorkerReport)

namespace ReportHistory

def Accepts (skew : Int) (h : ReportHistory) (workerID : ID) (rep : WorkerReport) : Prop :=
  (-skew ≤ rep.receivedAt - rep.workerAt ∧ rep.receivedAt - rep.workerAt ≤ skew) ∧
    ∀ prev ∈ h.lookup workerID, prev.workerAt ≤ rep.workerAt
deriving Decidable

def step (skew : Int) (h : ReportHistory) : ReconcileEvent → ReportHistory
  | .record workerID rep => if Accepts skew h workerID rep then (workerID, rep) :: h else h
  | .due _ _ => h
def of (skew : Int) (events : List ReconcileEvent) : ReportHistory := events.foldl (step skew) []
def Due (grace skew : Int) (h : ReportHistory) (now : Int) (a : OpenAttempt) : Prop :=
  ∃ rep, h.lookup a.workerID = some rep ∧ now - rep.receivedAt ≤ skew ∧ a.attemptID ∉ rep.attempts ∧
    grace ≤ rep.receivedAt - a.createdAt ∧
    ∀ e ∈ h, a.attemptID ∈ e.2.attempts → grace ≤ rep.receivedAt - e.2.receivedAt

lemma mem_of_lookup {h : ReportHistory} {w : ID} {rep : WorkerReport} (hrep : h.lookup w = some rep) :
    (w, rep) ∈ h := by
  obtain ⟨newer, older, rfl, -⟩ := lookup_eq_some_iff.mp hrep
  exact mem_append_right newer mem_cons_self

def lastNamed (h : ReportHistory) (id : ID) : Option Int :=
  (h.find? fun e => id ∈ e.2.attempts).map fun e => e.2.receivedAt

lemma forall_named_iff {h : ReportHistory}
    (sorted : h.Pairwise fun newer older => older.2.receivedAt ≤ newer.2.receivedAt)
    (id : ID) (grace latest : Int) :
    (∀ e ∈ h, id ∈ e.2.attempts → grace ≤ latest - e.2.receivedAt) ↔
      ∀ t, lastNamed h id = some t → grace ≤ latest - t := by
  induction h with
  | nil =>
    refine ⟨fun _ t ht => ?_, fun _ e he => absurd he not_mem_nil⟩
    cases ht
  | cons e h ih =>
    obtain ⟨hnewest, sorted⟩ := pairwise_cons.mp sorted
    rw [forall_mem_cons]
    unfold lastNamed at ih ⊢
    rw [find?_cons]
    by_cases hid : id ∈ e.2.attempts
    · rw [decide_eq_true hid]
      constructor
      · rintro ⟨hfirst, -⟩ t ht
        rw [← Option.some.inj ht]
        exact hfirst hid
      intro hlast
      have hfirst : grace ≤ latest - e.2.receivedAt := hlast _ rfl
      refine ⟨fun _ => hfirst, fun e' he' _ => ?_⟩
      have := hnewest e' he'
      omega
    · rw [decide_eq_false hid, ← ih sorted]
      exact ⟨fun hall => hall.2, fun hrest => ⟨fun hid' => absurd hid' hid, hrest⟩⟩

end ReportHistory

/-! ## What is forgotten -/

def Remembers {α : Type} (old now : Int) (time : α → Int) (kept full : Option α) : Prop :=
  kept = full ∨ kept = none ∧ ∃ x, full = some x ∧ old < now - time x

namespace Remembers
variable {α : Type} {old now now' : Int} {time : α → Int} {kept full : Option α}

lemma later (h : Remembers old now time kept full) (hle : now ≤ now') : Remembers old now' time kept full := by
  rcases h with h | ⟨h, x, hx, hold⟩
  · exact .inl h
  · exact .inr ⟨h, x, hx, by omega⟩

lemma filter (h : Remembers old now time kept full) :
    Remembers old now time (kept.filter fun x => ¬ old < now - time x) full := by
  rcases h with rfl | ⟨rfl, hold⟩
  · cases kept with
    | none => exact .inl rfl
    | some x =>
      by_cases hx : old < now - time x
      · exact .inr ⟨by simp [Option.filter, hx], x, rfl, hx⟩
      · exact .inl (by simp [Option.filter, hx])
  · exact .inr ⟨rfl, hold⟩

end Remembers

structure Tracks (grace skew : Int) (r : Reconciler) (h : ReportHistory) (now : Int) : Prop where
  grace_eq : r.grace = grace
  skew_eq : r.skew = skew
  reports : ∀ w, Remembers (2 * grace) now WorkerReport.receivedAt (r.reports w) (h.lookup w)
  lastSeen : ∀ a, Remembers (2 * grace) now id (r.lastSeen a) (ReportHistory.lastNamed h a)
  near : ∀ e ∈ h, -skew ≤ e.2.receivedAt - e.2.workerAt ∧ e.2.receivedAt - e.2.workerAt ≤ skew
  received : ∀ e ∈ h, e.2.receivedAt ≤ now
  sorted : h.Pairwise fun newer older => older.2.receivedAt ≤ newer.2.receivedAt

namespace Tracks
variable {grace skew now : Int} {r : Reconciler} {h : ReportHistory}

lemma start (grace skew now : Int) : Tracks grace skew (newReconciler grace skew) [] now where
  grace_eq := rfl
  skew_eq := rfl
  reports _ := .inl rfl
  lastSeen _ := .inl rfl
  near _ he := absurd he not_mem_nil
  received _ he := absurd he not_mem_nil
  sorted := .nil

section
variable (t : Tracks grace skew r h now)
include t

lemma later {now' : Int} (hle : now ≤ now') : Tracks grace skew r h now' :=
  { t with
    reports := fun w => (t.reports w).later hle
    lastSeen := fun a => (t.lastSeen a).later hle
    received := fun e he => Int.le_trans (t.received e he) hle }

lemma prune : Tracks grace skew (r.prune now) h now :=
  { t with
    reports := fun w => by
      have := (t.reports w).filter
      rwa [← t.grace_eq] at this ⊢
    lastSeen := fun a => by
      have := (t.lastSeen a).filter
      rwa [← t.grace_eq] at this ⊢ }

lemma accepts_iff (hgrace : skew ≤ grace) (w : ID) {rep : WorkerReport}
    (hnow : now ≤ rep.receivedAt)
    (hnear : -skew ≤ rep.receivedAt - rep.workerAt ∧ rep.receivedAt - rep.workerAt ≤ skew) :
    h.Accepts skew w rep ↔ ¬ ((r.reports w).any fun prev => rep.workerAt < prev.workerAt) = true := by
  have current : h.Accepts skew w rep ↔ ¬ ((h.lookup w).any fun prev => rep.workerAt < prev.workerAt) = true := by
    unfold ReportHistory.Accepts
    cases h.lookup w with
    | none => simp [hnear]
    | some prev => simp [hnear]
  rw [current]
  rcases t.reports w with hkept | ⟨hnone, prev, hprev, hold⟩
  · rw [hkept]
  have hlast := t.near (w, prev) (ReportHistory.mem_of_lookup hprev)
  have hahead : ¬ rep.workerAt < prev.workerAt := by
    dsimp only at hlast
    omega
  rw [hnone, hprev]
  simp [hahead]

lemma accept (w : ID) {rep : WorkerReport} (hnow : now = rep.receivedAt)
    (hnear : -skew ≤ rep.receivedAt - rep.workerAt ∧ rep.receivedAt - rep.workerAt ≤ skew) (warned : ID → Bool) :
    Tracks grace skew
      { r with
        warned
        lastSeen := fun id => if id ∈ rep.attempts then some rep.receivedAt else r.lastSeen id
        reports := fun w' => if w' = w then some rep else r.reports w' }
      ((w, rep) :: h) now where
  grace_eq := t.grace_eq
  skew_eq := t.skew_eq
  reports w' := by
    dsimp only
    rw [lookup_cons]
    by_cases hw : w' = w
    · rw [if_pos hw, beq_iff_eq.mpr hw]
      exact .inl rfl
    · rw [if_neg hw, beq_eq_false_iff_ne.mpr hw]
      exact t.reports w'
  lastSeen a := by
    dsimp only
    unfold ReportHistory.lastNamed
    rw [find?_cons]
    by_cases ha : a ∈ rep.attempts
    · rw [if_pos ha, decide_eq_true ha]
      exact .inl rfl
    · rw [if_neg ha, decide_eq_false ha]
      exact t.lastSeen a
  near := forall_mem_cons.mpr ⟨hnear, t.near⟩
  received := forall_mem_cons.mpr ⟨Int.le_of_eq hnow.symm, t.received⟩
  sorted := pairwise_cons.mpr ⟨fun e he => hnow ▸ t.received e he, t.sorted⟩

section
variable (hgrace : skew ≤ grace)
include hgrace

lemma step {e : ReconcileEvent} (hnow : now ≤ e.time) :
    Tracks grace skew (r.step e) (h.step skew e) e.time := by
  cases e with
  | due openAttempts now' => exact (t.later hnow).prune
  | record w rep =>
    have t := t.later hnow
    obtain rfl := t.skew_eq
    unfold Reconciler.step Reconciler.record ReportHistory.step
    dsimp only
    by_cases hnear : -r.skew ≤ rep.receivedAt - rep.workerAt ∧ rep.receivedAt - rep.workerAt ≤ r.skew
    · rw [if_neg (by omega)]
      by_cases haccept : h.Accepts r.skew w rep
      · rw [if_pos haccept, if_neg ((t.accepts_iff hgrace w (Int.le_refl _) hnear).mp haccept)]
        exact t.accept w rfl hnear _
      · rw [if_neg haccept, if_pos (not_not.mp fun hn =>
          haccept ((t.accepts_iff hgrace w (Int.le_refl _) hnear).mpr hn))]
        exact { t with }
    · rw [if_pos (by omega), if_neg fun haccept => hnear haccept.1]
      exact { t with }

lemma run {events : List ReconcileEvent} {last : Int}
    (hsorted : (now :: (events.map ReconcileEvent.time ++ [last])).IsChain (· ≤ ·)) :
    Tracks grace skew (r.run events) (events.foldl (ReportHistory.step skew) h) last := by
  induction events generalizing r h now with
  | nil => exact t.later (isChain_cons_cons.mp hsorted).1
  | cons e events ih =>
    obtain ⟨hnow, hrest⟩ := isChain_cons_cons.mp hsorted
    exact ih (t.step hgrace hnow) hrest

lemma since_iff {rep : WorkerReport}
    (hfresh : now - rep.receivedAt ≤ skew) (a : OpenAttempt) :
    grace ≤ rep.receivedAt - r.since a ↔ grace ≤ rep.receivedAt - a.createdAt ∧
      ∀ e ∈ h, a.attemptID ∈ e.2.attempts → grace ≤ rep.receivedAt - e.2.receivedAt := by
  rw [h.forall_named_iff t.sorted]
  unfold Reconciler.since
  rcases t.lastSeen a.attemptID with hkept | ⟨hnone, seen, hseen, hold⟩
  · rw [hkept]
    cases h.lastNamed a.attemptID with
    | none => simp
    | some seen =>
      simp only [Option.some.injEq, forall_eq']
      split <;> omega
  · rw [hnone, hseen]
    simp only [Option.some.injEq, forall_eq', id] at hold ⊢
    omega

lemma isDue_iff (a : OpenAttempt) :
    r.isDue now a = true ↔ h.Due grace skew now a := by
  unfold Reconciler.isDue ReportHistory.Due
  rcases t.reports a.workerID with hkept | ⟨hnone, rep, hrep, hold⟩
  · rw [hkept]
    cases h.lookup a.workerID with
    | none => simp
    | some rep =>
      simp only [Option.some.injEq, exists_eq_left']
      unfold Reconciler.fresh
      rw [t.skew_eq, t.grace_eq]
      by_cases hfresh : now - rep.receivedAt ≤ skew
      · rw [← t.since_iff hgrace hfresh]
        simp [hfresh]
      · simp [hfresh]
  · -- the report forgotten is not fresh
    have hnear := t.near (a.workerID, rep) (ReportHistory.mem_of_lookup hrep)
    rw [hnone, hrep]
    simp only [Option.some.injEq, exists_eq_left', Bool.false_eq_true, false_iff]
    rintro ⟨hfresh, -⟩
    dsimp only at hnear
    omega

end
end
end Tracks

/-- Forgetting is harmless: the attempts found due are those the full history makes due. -/
theorem due_eq_history {grace skew : Int} (hgrace : skew ≤ grace) (events : List ReconcileEvent)
    (openAttempts : List OpenAttempt) (now : Int)
    (hsorted : (events.map ReconcileEvent.time ++ [now]).IsChain (· ≤ ·)) :
    ∀ a, (a ∈ (((newReconciler grace skew).run events).due openAttempts now).1 ↔
        a ∈ openAttempts ∧ (ReportHistory.of skew events).Due grace skew now a) ∧
      ((∃ rep, (ReportHistory.of skew events).lookup a.workerID = some rep ∧ a.attemptID ∈ rep.attempts) →
        a ∉ (((newReconciler grace skew).run events).due openAttempts now).1) ∧
      ((∃ e ∈ ReportHistory.of skew events, a.attemptID ∈ e.2.attempts ∧ now - e.2.receivedAt < grace) →
        a ∉ (((newReconciler grace skew).run events).due openAttempts now).1) := by
  have t : Tracks grace skew ((newReconciler grace skew).run events) (ReportHistory.of skew events) now := by
    cases events with
    | nil => exact Tracks.start grace skew now
    | cons e events =>
      exact (Tracks.start grace skew e.time).run hgrace (isChain_cons_cons.mpr ⟨Int.le_refl _, hsorted⟩)
  intro a
  have hdue : a ∈ (((newReconciler grace skew).run events).due openAttempts now).1 ↔
      a ∈ openAttempts ∧ (ReportHistory.of skew events).Due grace skew now a := by
    rw [← t.isDue_iff hgrace a]
    exact mem_filter
  refine ⟨hdue, ?_, ?_⟩
  · rintro ⟨rep, hrep, hnamed⟩ hmem
    obtain ⟨-, rep', hrep', -, homits, -⟩ := hdue.mp hmem
    rw [hrep] at hrep'
    rw [← Option.some.inj hrep'] at homits
    exact homits hnamed
  · rintro ⟨e, he, hnamed, hrecent⟩ hmem
    obtain ⟨-, rep, hrep, -, -, -, hall⟩ := hdue.mp hmem
    have hgap := hall e he hnamed
    have hreceived := t.received (a.workerID, rep) (ReportHistory.mem_of_lookup hrep)
    dsimp only at hreceived
    omega

def silentRun : List ReconcileEvent :=
  [.record 1 ⟨0, 0, [7]⟩, .record 1 ⟨40, 41, []⟩, .due [⟨7, 3, 1, 0⟩] 45, .due [] 250, .record 1 ⟨249, 251, [8]⟩]

theorem due_eq_history_silent :
    ∃ a, a ∈ (((newReconciler 100 30).run silentRun).due [⟨7, 3, 1, 0⟩, ⟨8, 4, 1, 5⟩] 252).1 ∧
      (ReportHistory.of 30 silentRun).Due 100 30 252 a :=
  ⟨⟨7, 3, 1, 0⟩, by decide, ((due_eq_history (by decide) silentRun [⟨7, 3, 1, 0⟩, ⟨8, 4, 1, 5⟩] 252 (by decide) _).1.mp
    (by decide)).2⟩

end Sqi
