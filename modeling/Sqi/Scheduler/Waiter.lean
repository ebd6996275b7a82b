import Mathlib.Data.List.Perm.Basic
import Sqi.Lib.Run

/-! Lease requests parked until their queue is notified (`waiter.go`). -/

namespace Sqi.Waiter
open List Transition

/-- The parked channels, those that a `notify` took and has still to close, and the closed ones. -/
structure State where
  waiters : List (String × Nat)
  closing : List Nat
  closed : List Nat

inductive Label where
  | wait (queueID : String) (ch : Nat)
  /-- The context of a waiter is done, or its timer fires. -/
  | remove (queueID : String) (ch : Nat)
  | notify (queueID : String)
  | notifyAll
  | close (ch : Nat)

def Label.wakes : Label → String → Bool
  | .notify queueID, q => q = queueID
  | .notifyAll, _ => true
  | _, _ => false

def State.take (s : State) (p : String → Bool) : State :=
  { s with
    waiters := s.waiters.filter fun w => !p w.1
    closing := (s.waiters.filter fun w => p w.1).map Prod.snd ++ s.closing }

def State.next : Label → State → State
  | .wait queueID ch, s => { s with waiters := (queueID, ch) :: s.waiters }
  | .remove queueID ch, s => { s with waiters := s.waiters.filter (· ≠ (queueID, ch)) }
  | .close ch, s => { s with closing := s.closing.erase ch, closed := ch :: s.closed }
  | l@(.notify _), s | l@.notifyAll, s => s.take l.wakes

def State.channels (s : State) : List Nat := s.waiters.map Prod.snd ++ (s.closing ++ s.closed)

/-- The channel of a `wait` is a new one. -/
def Enabled (s : State) : Label → Prop
  | .wait _ ch => ch ∉ s.channels
  | .close ch => ch ∈ s.closing
  | _ => True

def registry : System State Label := ⟨⟨[], [], []⟩, fun _ => Enabled, State.next⟩

variable {s : State} {h : List (State × Label)} {l : Label} {ch : Nat}

lemma State.take_channels (s : State) (p : String → Bool) : (s.take p).channels ~ s.channels := by
  refine perm_iff_count.mpr fun x => ?_
  have split := ((filter_append_perm (fun w => p w.1) s.waiters).map Prod.snd).count_eq x
  simp only [map_append, count_append, State.channels, State.take] at split ⊢
  omega

lemma close_perm (hch : ch ∈ s.closing) :
    s.closing.erase ch ++ ch :: s.closed ~ s.closing ++ s.closed :=
  perm_middle.trans ((perm_cons_erase hch).symm.append_right s.closed)

lemma channels_nodup (run : Run registry h s) : s.channels.Nodup := by
  refine run.safe (P := fun s => s.channels.Nodup) nodup_nil ?_
  intro _ s l _ once en
  cases l with
  | wait => exact nodup_cons.mpr ⟨en, once⟩
  | remove => exact once.sublist ((filter_sublist.map _).append_right _)
  | close => exact ((close_perm en).append_left _).nodup_iff.mpr once
  | notify | notifyAll => exact (s.take_channels _).nodup_iff.mpr once

lemma mem_next (en : Enabled s l) : ch ∈ (s.next l).closing ++ (s.next l).closed ↔
    (∃ q, l.wakes q = true ∧ (q, ch) ∈ s.waiters) ∨ ch ∈ s.closing ++ s.closed := by
  cases l with
  | close => simpa [State.next, Label.wakes] using (close_perm en).mem_iff
  | notify | notifyAll => simp [State.next, State.take, and_comm]
  | _ => simp [State.next, Label.wakes]

/-- No channel is closed twice, and those closed or about to be are the ones that
were parked on a queue when it was notified. -/
def WokenOnce (h : List (State × Label)) (s : State) : Prop :=
  (s.closing ++ s.closed).Nodup ∧ ∀ ch, ch ∈ s.closing ++ s.closed ↔
    ∃ e ∈ h, ∃ q, e.2.wakes q = true ∧ (q, ch) ∈ e.1.waiters

/-- However waiters, timeouts and notifiers interleave. -/
theorem parked_woken_once (run : Run registry h s) : WokenOnce h s := by
  refine ⟨(channels_nodup run).sublist (sublist_append_right ..), ?_⟩
  induction run with
  | start => simp [registry]
  | step l _ en ih =>
    intro ch
    rw [exists_mem_cons_iff, ← ih ch]
    exact mem_next en

def timeoutDuringNotify : List Label :=
  [.wait "q" 0, .wait "r" 1, .wait "q" 2, .notify "q", .remove "q" 0, .close 2, .notifyAll, .close 0]

theorem parked_woken_once_timeout :
    let r := registry.exec timeoutDuringNotify [] registry.init
    r.2.closed = [0, 2] ∧ WokenOnce r.1 r.2 :=
  ⟨by decide, parked_woken_once (Run.start.exec (by simp [timeoutDuringNotify, System.Permits, registry,
    Enabled, State.next, State.take, State.channels, Label.wakes]))⟩

end Sqi.Waiter
