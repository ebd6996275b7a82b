import Mathlib.Logic.Basic

/-! Runs of a labelled system whose guards may look back. -/

namespace Transition
open List
variable {S L : Type*}

structure System (S L : Type*) where
  init : S
  enabled : List (S × L) → S → L → Prop
  next : L → S → S

inductive Run (M : System S L) : List (S × L) → S → Prop where
  | start : Run M [] M.init
  | step {h : List (S × L)} {s : S} (l : L) :
      Run M h s → M.enabled h s l → Run M ((s, l) :: h) (M.next l s)

def Visited (h : List (S × L)) (s s' : S) : Prop := s' = s ∨ ∃ l, (s', l) ∈ h

variable {M : System S L} {h : List (S × L)} {s : S} {P : S → Prop}

lemma Run.invariant {P : List (S × L) → S → Prop} (init : P [] M.init)
    (step : ∀ h s l, Run M h s → P h s → M.enabled h s l → P ((s, l) :: h) (M.next l s))
    (run : Run M h s) : P h s := by
  induction run with
  | start => exact init
  | step l r e ih => exact step _ _ l r ih e

lemma Run.safe (init : P M.init) (step : ∀ h s l, Run M h s → P s → M.enabled h s l → P (M.next l s))
    (run : Run M h s) : P s :=
  run.invariant (P := fun _ s => P s) init step
lemma Visited.now : Visited h s s := .inl rfl

variable {s' : S} {l : L} {ls : List L} {C : List (S × L) → S → L → Prop} {Q : S → Prop} {s'' : S}

lemma Visited.later (v : Visited h s s') : Visited ((s, l) :: h) s'' s' := by
  rcases v with rfl | ⟨l', hl⟩
  · exact .inr ⟨l, mem_cons_self⟩
  · exact .inr ⟨l', mem_cons_of_mem _ hl⟩

lemma Visited.cases_later (v : Visited ((s, l) :: h) s'' s') : s' = s'' ∨ Visited h s s' := by
  rcases v with rfl | ⟨l', hl⟩
  · exact .inl rfl
  · rcases mem_cons.mp hl with e | hl
    · exact .inr (.inl (Prod.mk.inj e).1)
    · exact .inr (.inr ⟨l', hl⟩)

lemma Run.at_split {later earlier : List (S × L)}
    (run : Run M (later ++ (s', l) :: earlier) s) : Run M earlier s' ∧ M.enabled earlier s' l := by
  induction later generalizing s with
  | nil =>
    cases run with
    | step _ r e => exact ⟨r, e⟩
  | cons _ later ih =>
    cases run with
    | step _ r _ => exact ih r

lemma Run.at_entry (run : Run M h s) (hl : (s', l) ∈ h) : ∃ h', Run M h' s' ∧ M.enabled h' s' l := by
  obtain ⟨later, earlier, rfl⟩ := append_of_mem hl
  exact ⟨earlier, run.at_split⟩

lemma Run.stable (keep : ∀ h s l, Run M h s → M.enabled h s l → Q s → Q (M.next l s))
    (run : Run M h s) (v : Visited h s s') (hQ : Q s') : Q s := by
  induction run with
  | start =>
    rcases v with rfl | ⟨l, hl⟩
    · exact hQ
    · cases hl
  | step l r e ih =>
    rcases v.cases_later with rfl | v
    · exact hQ
    · exact keep _ _ l r e (ih v)

lemma Run.stable_after (keep : ∀ h s l, Run M h s → M.enabled h s l → Q s → Q (M.next l s))
    (run : Run M h s) (hl : (s', l) ∈ h) (hQ : Q (M.next l s')) : Q s := by
  induction run with
  | start => cases hl
  | step l0 r e ih =>
    rcases mem_cons.mp hl with he | hl
    · obtain ⟨rfl, rfl⟩ := Prod.mk.inj he
      exact hQ
    · exact keep _ _ l0 r e (ih hl)

lemma Run.since {later h : List (S × L)} (run : Run M (later ++ h) s) (start : ∀ s0, Run M h s0 → P s0)
    (keep : ∀ h1 s1 l, (s1, l) ∈ later → Run M h1 s1 → M.enabled h1 s1 l → P s1 → P (M.next l s1)) :
    P s ∧ ∀ e ∈ later, P e.1 := by
  induction later generalizing s with
  | nil => exact ⟨start s run, by simp⟩
  | cons e later ih =>
    cases run with
    | step l run' he =>
      have past := ih run' fun h1 s1 l' hl => keep h1 s1 l' (mem_cons_of_mem _ hl)
      refine ⟨keep _ _ l mem_cons_self run' he past.1, fun e' he' => ?_⟩
      rcases mem_cons.mp he' with rfl | he'
      · exact past.1
      · exact past.2 e' he'

def System.exec (M : System S L) : List L → List (S × L) → S → List (S × L) × S
  | [], h, s => (h, s)
  | l :: ls, h, s => M.exec ls ((s, l) :: h) (M.next l s)
def System.Permits (M : System S L) : List L → List (S × L) → S → Prop
  | [], _, _ => True
  | l :: ls, h, s => M.enabled h s l ∧ M.Permits ls ((s, l) :: h) (M.next l s)

instance System.decidablePermits (M : System S L) [∀ h s l, Decidable (M.enabled h s l)] :
    ∀ ls h s, Decidable (M.Permits ls h s)
  | [], _, _ => isTrue trivial
  | l :: ls, h, s =>
    have := M.decidablePermits ls ((s, l) :: h) (M.next l s)
    inferInstanceAs (Decidable (_ ∧ _))

lemma Run.exec (run : Run M h s) (p : M.Permits ls h s) : Run M (M.exec ls h s).1 (M.exec ls h s).2 := by
  induction ls generalizing h s with
  | nil => exact run
  | cons l ls ih => exact ih (.step l run p.1) p.2
lemma Visited.exec (v : Visited h s s') : Visited (M.exec ls h s).1 (M.exec ls h s).2 s' := by
  induction ls generalizing h s with
  | nil => exact v
  | cons l ls ih => exact ih v.later

lemma System.exec_append (M : System S L) (ls : List L) (h0 h : List (S × L)) (s : S) :
    M.exec ls (h ++ h0) s = ((M.exec ls h s).1 ++ h0, (M.exec ls h s).2) := by
  induction ls generalizing h s with
  | nil => rfl
  | cons l ls ih => exact ih ((s, l) :: h) (M.next l s)

lemma Run.exec_since (run : Run M h s) (p : M.Permits ls h s) :
    Run M ((M.exec ls [] s).1 ++ h) (M.exec ls [] s).2 := by
  have e := M.exec_append ls h [] s
  have run' := run.exec p
  rw [nil_append] at e
  rwa [e] at run'

def System.guarded (M : System S L) (C : List (S × L) → S → L → Prop) : System S L :=
  { M with enabled := fun h s l => M.enabled h s l ∧ C h s l }

instance System.decidableGuarded (M : System S L) (C : List (S × L) → S → L → Prop)
    [∀ h s l, Decidable (M.enabled h s l)] [∀ h s l, Decidable (C h s l)] (h : List (S × L)) (s : S)
    (l : L) : Decidable ((M.guarded C).enabled h s l) :=
  inferInstanceAs (Decidable (_ ∧ _))

lemma Run.of_guarded (run : Run (M.guarded C) h s) : Run M h s := by
  induction run with
  | start => exact .start
  | step l _ e ih => exact .step l ih e.1

lemma System.exec_guarded (C : List (S × L) → S → L → Prop) (ls : List L) (h : List (S × L))
    (s : S) : (M.guarded C).exec ls h s = M.exec ls h s := by
  induction ls generalizing h s with
  | nil => rfl
  | cons l ls ih => exact ih _ _

lemma System.Permits.imp {D : List (S × L) → S → L → Prop}
    (p : (M.guarded C).Permits ls h s) (hCD : ∀ h s l, C h s l → D h s l) :
    (M.guarded D).Permits ls h s := by
  induction ls generalizing h s with
  | nil => trivial
  | cons l ls ih => exact ⟨⟨p.1.1, hCD h s l p.1.2⟩, ih p.2⟩

lemma System.Permits.guarded
    (p : M.Permits ls h s) (hC : ∀ l ∈ ls, ∀ h s, C h s l) : (M.guarded C).Permits ls h s := by
  induction ls generalizing h s with
  | nil => trivial
  | cons l ls ih =>
    exact ⟨⟨p.1, hC l mem_cons_self h s⟩, ih p.2 fun l' hl' => hC l' (mem_cons_of_mem _ hl')⟩

end Transition
