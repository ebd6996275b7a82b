import Mathlib.Data.List.Infix

/-! Replacing the occurrences of a text in another, over any alphabet. -/

namespace Replace
open List
variable {α : Type*} {old new s t v w : List α} {c : α} {k : Nat}

/-! ## Where two texts can meet -/

def BeginsIn (v w : List α) (k : Nat) : Prop :=
  k < w.length ∧ (w.drop k <+: v ∨ v <+: w.drop k)
def Apart (v w : List α) : Prop := ∀ k, ¬ BeginsIn v w k ∧ ¬ BeginsIn w v k

lemma beginsIn_of_front (hk : k < w.length) (h : v <+: w.drop k ++ t) : BeginsIn v w k :=
  ⟨hk, Or.symm <| prefix_or_prefix_of_prefix h (prefix_append _ _)⟩

lemma infix_append_cases (h : v <:+: w ++ s) : (∃ k < w.length, v <+: w.drop k ++ s) ∨ v <:+: s := by
  induction w with
  | nil => exact .inr h
  | cons c w ih =>
    rcases infix_cons_iff.mp h with h | h
    · exact .inl ⟨0, by simp, h⟩
    · rcases ih h with ⟨k, hk, h⟩ | h
      · exact .inl ⟨k + 1, by simpa using hk, by simpa using h⟩
      · exact .inr h

lemma infix_of_infix_append (apart : ∀ k, ¬ BeginsIn v w k) (h : v <:+: w ++ s) : v <:+: s := by
  rcases infix_append_cases h with ⟨k, hk, h⟩ | h
  · exact absurd (beginsIn_of_front hk h) (apart k)
  · exact h

lemma infix_of_infix_append_right (hv : v ≠ []) (apart : Apart v w) (h : v <:+: s ++ w) : v <:+: s := by
  rcases infix_append_cases h with ⟨k, hk, h⟩ | h
  · rcases prefix_or_prefix_of_prefix h (prefix_append _ _) with hs | ⟨u, hu⟩
    · exact hs.isInfix.trans (drop_suffix _ _).isInfix
    -- `v` runs over the end of `s` into `w`
    rw [← hu, prefix_append_right_inj] at h
    by_cases hu' : u = []
    · subst hu'
      rw [append_nil] at hu
      rw [← hu]
      exact (drop_suffix _ _).isInfix
    · have hlt : (s.drop k).length < v.length := by
        rw [← hu, length_append]
        exact Nat.lt_add_of_pos_right (length_pos_of_ne_nil hu')
      have hdrop : v.drop (s.drop k).length = u := by rw [← hu, drop_left]
      exact absurd ⟨hlt, .inl (hdrop ▸ h)⟩ (apart _).2
  · rw [← append_nil w] at h
    have := infix_of_infix_append (fun k => (apart k).1) h
    exact absurd (infix_nil.mp this) hv

lemma drop_prefix_cons (ih : v.drop (k + 1) <+: t → v.drop (k + 1) <+: s)
    (h : v.drop k <+: c :: t) : v.drop k <+: c :: s := by
  cases hv : v.drop k with
  | nil => exact nil_prefix
  | cons d u =>
    have hu : u = v.drop (k + 1) := by rw [← tail_drop, hv, tail_cons]
    rw [hv] at h
    obtain ⟨rfl, hrest⟩ := cons_prefix_cons.mp h
    rw [hu] at hrest ⊢
    exact cons_prefix_cons.mpr ⟨rfl, ih hrest⟩

lemma drop_eq_nil_of_apart (apart : ¬ BeginsIn new v k) (h : v.drop k <+: new ++ t) : v.drop k = [] := by
  by_cases hk : k < v.length
  · exact absurd ⟨hk, prefix_or_prefix_of_prefix h (prefix_append _ _)⟩ apart
  · exact drop_of_length_le (by omega)

variable [DecidableEq α] {vals done : List (List α)}

instance (v w : List α) : DecidablePred (BeginsIn v w) := fun _ => inferInstanceAs (Decidable (_ ∧ _))

instance (v w : List α) : Decidable (Apart v w) :=
  decidable_of_iff
    ((∀ k < w.length, ¬ BeginsIn v w k) ∧ ∀ k < v.length, ¬ BeginsIn w v k)
    ⟨fun h k => ⟨fun b => h.1 k b.1 b, fun b => h.2 k b.1 b⟩,
      fun h => ⟨fun k _ => (h k).1, fun k _ => (h k).2⟩⟩

def replaceFrom (old new : List α) : Nat → List α → List α
  | _, [] => []
  | k + 1, _ :: s => replaceFrom old new k s
  | 0, c :: s =>
    if old <+: c :: s then new ++ replaceFrom old new (old.length - 1) s
    else c :: replaceFrom old new 0 s

def replaceAll (old new s : List α) : List α := replaceFrom old new 0 s

lemma replaceFrom_eq_drop (k : Nat) (s : List α) :
    replaceFrom old new k s = replaceAll old new (s.drop k) := by
  induction s generalizing k with
  | nil => cases k <;> rfl
  | cons c s ih =>
    cases k with
    | zero => rfl
    | succ k => exact ih k

@[simp] lemma replaceAll_nil : replaceAll old new [] = [] := rfl
lemma replaceAll_cons_keep (h : ¬ old <+: c :: s) :
    replaceAll old new (c :: s) = c :: replaceAll old new s := by
  simp only [replaceAll, replaceFrom, if_neg h]

lemma replaceAll_append (hold : old ≠ []) (s : List α) :
    replaceAll old new (old ++ s) = new ++ replaceAll old new s := by
  cases old with
  | nil => exact absurd rfl hold
  | cons c old =>
    rw [cons_append]
    simp only [replaceAll, replaceFrom]
    rw [if_pos (by simp), replaceFrom_eq_drop]
    simp [replaceAll]

lemma replaceAll_self (hold : old ≠ []) (s : List α) : replaceAll old old s = s := by
  induction h : s.length using Nat.strong_induction_on generalizing s with
  | h n ih =>
    by_cases hp : old <+: s
    · obtain ⟨rest, rfl⟩ := hp
      rw [replaceAll_append hold, ih rest.length (by simp [← h, length_pos_iff.mpr hold]) rest rfl]
    · cases s with
      | nil => rfl
      | cons c s => rw [replaceAll_cons_keep hp, ih s.length (by simp [← h]) s rfl]

lemma replaceAll_singleton (c : α) (s : List α) :
    replaceAll [c] new s = s.flatMap fun d => if d = c then new else [d] := by
  induction s with
  | nil => rfl
  | cons d s ih =>
    by_cases h : d = c
    · subst h
      have front : replaceAll [d] new ([d] ++ s) = new ++ replaceAll [d] new s := replaceAll_append (cons_ne_nil d []) s
      rw [singleton_append] at front
      rw [front, ih, flatMap_cons, if_pos rfl]
    · have first : ¬ [c] <+: d :: s := by simp [Ne.symm h]
      rw [replaceAll_cons_keep first, ih, flatMap_cons, if_neg h, singleton_append]

section
variable (hold : old ≠ [])
include hold

lemma replaceAll_induction {P : List α → Prop} (nil : P [])
    (cut : ∀ s, P s → P (old ++ s)) (keep : ∀ c s, ¬ old <+: c :: s → P s → P (c :: s)) :
    ∀ s, P s := by
  intro s
  induction hn : s.length using Nat.strong_induction_on generalizing s with
  | _ n ih =>
    subst hn
    cases s with
    | nil => exact nil
    | cons c s =>
      by_cases h : old <+: c :: s
      · obtain ⟨t, ht⟩ := h
        have hlen : t.length < (c :: s).length := by
          have := length_pos_of_ne_nil hold
          rw [← ht, length_append]
          omega
        rw [← ht]
        exact cut t (ih _ hlen t rfl)
      · exact keep c s h (ih _ (by simp) s rfl)

lemma prefix_of_prefix_replaceAll (apart : ∀ k, ¬ BeginsIn new v k) (s : List α) :
    ∀ k, v.drop k <+: replaceAll old new s → v.drop k <+: s := by
  induction s using replaceAll_induction hold with
  | nil => intro k h; exact h
  | cut s _ =>
    intro k h
    rw [replaceAll_append hold] at h
    rw [drop_eq_nil_of_apart (apart k) h]
    exact nil_prefix
  | keep c s hc ih =>
    intro k h
    rw [replaceAll_cons_keep hc] at h
    exact drop_prefix_cons (ih (k + 1)) h

lemma infix_of_infix_replaceAll (apart : Apart v new) (s : List α)
    (h : v <:+: replaceAll old new s) : v <:+: s := by
  induction s using replaceAll_induction hold with
  | nil => exact h
  | cut s ih =>
    rw [replaceAll_append hold] at h
    have rest := infix_of_infix_append (fun k => (apart k).1) h
    exact (ih rest).trans (suffix_append _ _).isInfix
  | keep c s hc ih =>
    rw [replaceAll_cons_keep hc] at h
    rcases infix_cons_iff.mp h with h | h
    · rw [← replaceAll_cons_keep hc] at h
      have front := prefix_of_prefix_replaceAll hold (fun k => (apart k).2) (c :: s) 0 h
      exact front.isInfix
    · exact (ih h).trans (suffix_cons c s).isInfix

lemma not_infix_replaceAll (apart : Apart old new) (s : List α) :
    ¬ old <:+: replaceAll old new s := by
  induction s using replaceAll_induction hold with
  | nil => simpa using hold
  | cut s ih =>
    rw [replaceAll_append hold]
    exact fun h => ih (infix_of_infix_append (fun k => (apart k).1) h)
  | keep c s hc ih =>
    intro h
    rw [replaceAll_cons_keep hc] at h
    rcases infix_cons_iff.mp h with h | h
    · rw [← replaceAll_cons_keep hc] at h
      exact hc (prefix_of_prefix_replaceAll hold (fun k => (apart k).2) (c :: s) 0 h)
    · exact ih h

end

inductive Piece (α : Type*) where
  | keep (c : α)
  | cut (v : List α)
deriving DecidableEq

def render (new : List α) (done : List (List α)) : List (Piece α) → List α
  | [] => []
  | .keep c :: ps => c :: render new done ps
  | .cut v :: ps => (if v ∈ done then new else v) ++ render new done ps
def source : List (Piece α) → List α
  | [] => []
  | .keep c :: ps => c :: source ps
  | .cut v :: ps => v ++ source ps
def piecesFrom (vals : List (List α)) : Nat → List α → List (Piece α)
  | _, [] => []
  | k + 1, _ :: s => piecesFrom vals k s
  | 0, c :: s =>
    match vals.find? (· <+: c :: s) with
    | some v => .cut v :: piecesFrom vals (v.length - 1) s
    | none => .keep c :: piecesFrom vals 0 s

def pieces (vals : List (List α)) (s : List α) : List (Piece α) := piecesFrom vals 0 s
end Replace
