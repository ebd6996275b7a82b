import Mathlib.Data.List.Basic
import Sqi.Lib.Run

/-! Cancels on one worker (`executor.go`, `runTask`). -/

namespace Sqi.Executor
open List Transition

inductive Stage where
  | created
  | stored (early : Bool)
  | ready
  | running
  | exited
  | removed
  | released
deriving DecidableEq

structure TaskRun where
  taskID : String
  attemptID : String
  cancelRequested : Bool
  canceled : Bool
  stage : Stage
deriving DecidableEq

def TaskRun.cancelFunc (run : TaskRun) : Bool := run.stage ≠ .created

structure State where
  held : List String
  activeTasks : String → Option Nat
  runs : List TaskRun
  sessions : List (String × String)
  stops : List Nat

def applies (taskID attemptID runTaskID runAttemptID : String) : Bool :=
  if taskID = "" ∧ attemptID = "" then false
  else (taskID = "" ∨ taskID = runTaskID) ∧ (attemptID = "" ∨ attemptID = runAttemptID)
def State.hold (s : State) (attemptID : String) : State :=
  { s with held := if attemptID ∈ s.held then s.held else s.held ++ [attemptID] }
def State.release (s : State) (attemptID : String) : State :=
  { s with held := s.held.filter (· ≠ attemptID) }
def State.update (s : State) (r : Nat) (f : TaskRun → TaskRun) : State := { s with runs := s.runs.modify r f }
def State.addActiveTask (s : State) (taskID attemptID : String) : State :=
  { s with
    activeTasks := Function.update s.activeTasks attemptID (some s.runs.length)
    runs := s.runs ++ [⟨taskID, attemptID, false, false, .created⟩] }
def State.removeActiveTask (s : State) (r : Nat) (attemptID : String) : State :=
  if s.activeTasks attemptID = some r then
    { s with activeTasks := Function.update s.activeTasks attemptID none }
  else s
def State.stopsBy (s : State) (taskID attemptID : String) (r : Nat) (run : TaskRun) : Bool :=
  s.activeTasks run.attemptID = some r ∧ applies taskID attemptID run.taskID run.attemptID

def State.cancel (s : State) (taskID attemptID : String) : State :=
  { s with
    runs := s.runs.mapIdx fun r run =>
      if s.stopsBy taskID attemptID r run ∧ ¬ run.cancelFunc then { run with cancelRequested := true } else run
    stops := s.stops ++ (s.runs.zipIdx.filter fun (run, r) =>
      s.stopsBy taskID attemptID r run ∧ run.cancelFunc).map Prod.snd }

inductive Label where
  | hold (attemptID : String)
  | dispatch (taskID attemptID : String)
  | createFailed (taskID attemptID : String)
  | addActiveTask (taskID attemptID : String)
  | applyCancelFunc (r : Nat)
  | early (r : Nat)
  | start (r : Nat)
  /-- `runTask` returns before it has started a process. -/
  | skip (r : Nat)
  /-- The process exits on its own. -/
  | exit (r : Nat)
  /-- The process is killed, for its context or its timeout. -/
  | kill (r : Nat)
  | removeActiveTask (r : Nat)
  | release (r : Nat)
  | cancel (taskID attemptID : String)
  | stop (r : Nat)
  /-- `openjd_fail`, or the worker shuts down. -/
  | taskCancel (r : Nat)
deriving DecidableEq

def State.attempt (s : State) (r : Nat) : String := (s.runs[r]?.map TaskRun.attemptID).getD ""

def State.next : Label → State → State
  | .hold a, s => s.hold a
  | .dispatch t a, s => { s.hold a with sessions := s.sessions ++ [(t, a)] }
  | .createFailed t a, s => { s.release a with sessions := s.sessions.erase (t, a) }
  | .addActiveTask t a, s => { s.addActiveTask t a with sessions := s.sessions.erase (t, a) }
  | .applyCancelFunc r, s => s.update r fun run => { run with stage := .stored run.cancelRequested }
  | .early r, s => s.update r fun run =>
    { run with stage := .ready, canceled := run.canceled || run.stage = .stored true }
  | .start r, s => s.update r fun run => { run with stage := .running }
  | .skip r, s => s.update r fun run => { run with stage := .exited }
  | .exit r, s => s.update r fun run => { run with stage := .exited }
  | .kill r, s => s.update r fun run => { run with stage := .exited }
  | .removeActiveTask r, s =>
    (s.removeActiveTask r (s.attempt r)).update r fun run => { run with stage := .removed }
  | .release r, s =>
    (s.release (s.attempt r)).update r fun run => { run with stage := .released, canceled := true }
  | .cancel t a, s => s.cancel t a
  | .stop r, s => { s.update r fun run => { run with canceled := true } with stops := s.stops.erase r }
  | .taskCancel r, s => s.update r fun run => { run with canceled := true }

def State.at_ (s : State) (r : Nat) (stages : List Stage) : Bool := s.runs[r]?.any (·.stage ∈ stages)

def Enabled (s : State) : Label → Bool
  | .createFailed t a | .addActiveTask t a => (t, a) ∈ s.sessions
  | .applyCancelFunc r => s.at_ r [.created]
  | .early r => s.at_ r [.stored true, .stored false]
  | .start r | .skip r => s.at_ r [.ready]
  | .exit r | .kill r => s.at_ r [.running]
  | .removeActiveTask r => s.at_ r [.exited]
  | .release r => s.at_ r [.removed]
  | .stop r => r ∈ s.stops
  | .hold _ | .dispatch .. | .cancel .. | .taskCancel _ => true

def executor : System State Label where
  init := ⟨[], fun _ => none, [], [], []⟩
  enabled _ s l := Enabled s l
  next := State.next

instance (h : List (State × Label)) (s : State) (l : Label) : Decidable (executor.enabled h s l) :=
  inferInstanceAs (Decidable (_ = true))

/-! ## What a cancel leaves in a run -/

def TaskRun.Told (run : TaskRun) : Prop :=
  run.canceled = true ∨ run.cancelRequested = true ∧ run.stage = .created ∨ run.stage = .stored true
def State.Reached (s : State) (r : Nat) : Prop := ∃ run ∈ s.runs[r]?, r ∈ s.stops ∨ run.Told

variable {s s₀ s₁ : State} {r : Nat} {tr : TaskRun} {f : TaskRun → TaskRun} {stages : List Stage} {r' : Nat}

lemma State.Reached.of_runs (h : s.Reached r) (hstops : r ∈ s.stops → r ∈ s₁.stops)
    (hruns : ∀ run ∈ s.runs[r]?, ∃ run' ∈ s₁.runs[r]?, run.Told → run'.Told) : s₁.Reached r := by
  obtain ⟨run, hrun, told⟩ := h
  obtain ⟨run', hrun', keep⟩ := hruns run hrun
  exact ⟨run', hrun', told.imp hstops keep⟩

lemma State.runs_update (h : s.runs[r]? = some tr) :
    (s.update r' f).runs[r]? = some (if r' = r then f tr else tr) := by
  simp only [State.update, getElem?_modify, h]
  split <;> rfl

lemma State.Reached.update (h : s.Reached r)
    (hruns : s₁.runs = (s.update r' f).runs) (hstops : s₁.stops = s.stops)
    (hf : r' = r → ∀ run, s.runs[r]? = some run → run.Told → (f run).Told) : s₁.Reached r := by
  refine h.of_runs (hstops ▸ id) fun run hrun => ⟨_, hruns ▸ State.runs_update hrun, ?_⟩
  split
  next e => exact hf e run hrun
  · exact id

lemma State.runs_cancel {taskID attemptID : String} (h : s.runs[r]? = some tr) :
    (s.cancel taskID attemptID).runs[r]? = some (if s.stopsBy taskID attemptID r tr ∧ ¬ tr.cancelFunc then
      { tr with cancelRequested := true } else tr) := by
  simp only [State.cancel, getElem?_mapIdx, h]
  rfl

lemma State.stage_mem (en : s.at_ r stages = true) (h : s.runs[r]? = some tr) : tr.stage ∈ stages := by
  simpa [State.at_, h] using en

lemma TaskRun.Told.canceled (told : tr.Told) (h : tr.stage ∈ stages)
    (late : .created ∉ stages ∧ .stored true ∉ stages) : tr.canceled = true := by
  rcases told with told | ⟨_, e⟩ | e
  · exact told
  · exact absurd (e ▸ h) late.1
  · exact absurd (e ▸ h) late.2

lemma State.Reached.late (h : s.Reached r)
    (en : s.at_ r' stages = true) (late : .created ∉ stages ∧ .stored true ∉ stages)
    (hf : ∀ run, (f run).canceled = run.canceled) : (s.update r' f).Reached r := by
  refine h.update rfl rfl fun e run hrun told => .inl ?_
  subst e
  rw [hf]
  exact told.canceled (State.stage_mem en hrun) late

lemma State.Reached.next (h : s.Reached r) {l : Label} (en : Enabled s l = true) :
    (State.next l s).Reached r := by
  cases l with
  | hold | dispatch | createFailed => exact h
  | addActiveTask t a =>
    refine h.of_runs id fun run hrun => ⟨run, ?_, id⟩
    exact (getElem?_append_left (List.getElem?_eq_some_iff.mp hrun).1).trans hrun
  | applyCancelFunc r' =>
    refine h.update rfl rfl fun e run hrun told => ?_
    subst e
    have stage := State.stage_mem en hrun
    rcases told with told | ⟨requested, _⟩ | e
    · exact .inl told
    · exact .inr (.inr (congrArg _ requested))
    · simp [e] at stage
  | early r' =>
    refine h.update rfl rfl fun e run hrun told => .inl ?_
    subst e
    have stage := State.stage_mem en hrun
    rcases told with told | ⟨_, e⟩ | e
    · simp [told]
    · simp [e] at stage
    · simp [e]
  | start r' | skip r' | exit r' | kill r' => exact h.late en (by decide) fun _ => rfl
  | removeActiveTask r' =>
    have h' : (s.removeActiveTask r' (s.attempt r')).Reached r := by
      unfold State.removeActiveTask
      split <;> exact h
    have en' : (s.removeActiveTask r' (s.attempt r')).at_ r' [.exited] = true := by
      unfold State.removeActiveTask
      split <;> exact en
    exact h'.late en' (by decide) fun _ => rfl
  | release r' | taskCancel r' => exact h.update rfl rfl fun _ _ _ _ => .inl rfl
  | cancel t a =>
    refine h.of_runs (mem_append_left _) fun run hrun => ⟨_, State.runs_cancel hrun, fun told => ?_⟩
    split
    · exact told.imp_right (.imp_left fun requested => ⟨rfl, requested.2⟩)
    · exact told
  | stop r' =>
    obtain ⟨run, hrun, told⟩ := h
    by_cases e : r' = r
    · subst e
      exact ⟨_, State.runs_update hrun, .inr (.inl (by simp))⟩
    · refine ⟨run, (State.runs_update hrun).trans (by rw [if_neg e]), told.imp_left fun hr => ?_⟩
      exact (mem_erase_of_ne (Ne.symm e)).mpr hr

lemma State.reached_cancel {taskID attemptID : String} (hrun : s.runs[r]? = some tr)
    (active : s.activeTasks tr.attemptID = some r) (names : applies taskID attemptID tr.taskID tr.attemptID = true) :
    (s.cancel taskID attemptID).Reached r := by
  have hit : s.stopsBy taskID attemptID r tr = true := by simp [State.stopsBy, active, names]
  refine ⟨_, State.runs_cancel hrun, ?_⟩
  cases hf : tr.cancelFunc with
  | true =>
    refine .inl (mem_append_right _ (mem_map.mpr ⟨(tr, r), mem_filter.mpr ⟨?_, ?_⟩, rfl⟩))
    · exact mem_zipIdx_iff_getElem?.mpr hrun
    · simp [hit, hf]
  | false =>
    have created : tr.stage = .created := by simpa [TaskRun.cancelFunc] using hf
    exact .inr (.inr (.inl (by simp [hit, created])))

/-- A cancel that names a recorded run has canceled it when its process exits on its own. -/
theorem cancel_reaches_process {earlier between : List (State × Label)} {taskID attemptID : String}
    (hrun : s₀.runs[r]? = some tr) (active : s₀.activeTasks tr.attemptID = some r)
    (names : applies taskID attemptID tr.taskID tr.attemptID = true)
    (run : Run executor (between ++ (s₀, .cancel taskID attemptID) :: earlier) s₁)
    (exits : Enabled s₁ (.exit r) = true) (returned : r ∉ s₁.stops) :
    ∃ run, s₁.runs[r]? = some run ∧ run.canceled = true := by
  have reached : s₁.Reached r := by
    refine (run.since (P := (State.Reached · r)) (fun s h => ?_) fun _ _ _ _ _ en h => h.next en).1
    cases h with
    | step => exact State.reached_cancel hrun active names
  obtain ⟨run, hrun', told⟩ := reached
  refine ⟨run, hrun', ?_⟩
  exact (told.resolve_left returned).canceled (State.stage_mem exits hrun') (by decide)

/-- The attempt waits for its session when the cancel comes: nothing is found, and nothing is left. -/
theorem held_cancel_is_lost : ∃ s₀ s₁ earlier between run, Run executor earlier s₀ ∧ "a" ∈ s₀.held ∧
    Run executor (between ++ (s₀, .cancel "t" "a") :: earlier) s₁ ∧ Enabled s₁ (.exit 0) = true ∧
    s₁.stops = [] ∧ s₁.runs[0]? = some run ∧ run.attemptID = "a" ∧ run.canceled = false := by
  have held := Run.start.exec (show executor.Permits [.hold "a", .dispatch "t" "a"] [] _ by decide +kernel)
  have run := (Run.step (Label.cancel "t" "a") held (by decide +kernel)).exec_since
    (show executor.Permits [.addActiveTask "t" "a", .applyCancelFunc 0, .early 0, .start 0] _ _ by decide +kernel)
  refine ⟨_, _, _, _, ⟨"t", "a", false, false, .running⟩, held, ?_, run, ?_, ?_, ?_, rfl, rfl⟩ <;> decide +kernel

theorem cancel_reaches_process_early : ∃ s₁ run, s₁.runs[0]? = some run ∧ run.canceled = true ∧
    Enabled s₁ (.exit 0) = true := by
  have recorded := Run.start.exec (show executor.Permits
    [.hold "a", .dispatch "t" "a", .addActiveTask "t" "a"] [] _ by decide +kernel)
  have run := (Run.step (Label.cancel "t" "a") recorded (by decide +kernel)).exec_since
    (show executor.Permits [.applyCancelFunc 0, .early 0, .start 0] _ _ by decide +kernel)
  obtain ⟨r, hr, canceled⟩ := cancel_reaches_process (r := 0)
    (show _ = some (⟨"t", "a", false, false, .created⟩ : TaskRun) by decide +kernel) (by decide +kernel)
      (by decide +kernel) run (by decide +kernel) (by decide +kernel)
  exact ⟨_, r, hr, canceled, by decide +kernel⟩

end Sqi.Executor
