import Mathlib.Algebra.BigOperators.Group.List.Basic
import Mathlib.Algebra.Ring.Int.Defs
import Mathlib.Data.List.Forall2
import Mathlib.Data.List.Nodup
import Mathlib.Data.List.Count
import Mathlib.Data.List.Perm.Subperm

/-! Tables as lists of rows. -/

namespace Table
open List
variable {α β : Type*}

def update (p : α → Prop) [DecidablePred p] (f : α → α) (rows : List α) : List α :=
  rows.map fun r => if p r then f r else r
def returning (p : α → Prop) [DecidablePred p] (f : α → α) (rows : List α) : List α :=
  (rows.filter fun r => p r).map f

lemma mem_map_returning {p : α → Prop} [DecidablePred p] {f : α → α} {key : α → β} {rows : List α}
    {r : α} (hk : key (f r) = key r) (hr : r ∈ rows) (h : p r) :
    key r ∈ (returning p f rows).map key := by
  refine mem_map.mpr ⟨f r, ?_, hk⟩
  exact mem_map_of_mem (mem_filter.mpr ⟨hr, by simpa using h⟩)

section
variable {p : α → Prop} [DecidablePred p] {f : α → α} {rows : List α} {P : α → Prop}

@[simp] lemma update_nil : update p f [] = [] := rfl
@[simp] lemma update_cons (r : α) :
    update p f (r :: rows) = (if p r then f r else r) :: update p f rows := rfl
lemma mem_update {r' : α} : r' ∈ update p f rows ↔ ∃ r ∈ rows, (if p r then f r else r) = r' := mem_map
lemma forall_mem_update : (∀ r' ∈ update p f rows, P r') ↔ ∀ r ∈ rows, P (if p r then f r else r) :=
  forall_mem_map

lemma forall_update (hw : ∀ r ∈ rows, p r → P (f r))
    (hl : ∀ r ∈ rows, ¬ p r → P r) : ∀ r' ∈ update p f rows, P r' := by
  refine forall_mem_update.mpr fun r hr => ?_
  split
  · exact hw r hr ‹_›
  · exact hl r hr ‹_›

lemma exists_mem_update : (∃ r' ∈ update p f rows, P r') ↔ ∃ r ∈ rows, P (if p r then f r else r) := by
  constructor
  · rintro ⟨_, hr', hP⟩
    obtain ⟨r, hr, rfl⟩ := mem_update.mp hr'
    exact ⟨r, hr, hP⟩
  · rintro ⟨r, hr, hP⟩
    exact ⟨_, mem_update.mpr ⟨r, hr, rfl⟩, hP⟩

lemma map_update (g : α → β) (hg : ∀ r, p r → g (f r) = g r) : (update p f rows).map g = rows.map g := by
  simp only [update, map_map]
  apply map_congr_left
  intro r _
  by_cases h : p r <;> simp [h, hg]

lemma map_update_comm {q : β → Prop} [DecidablePred q] {g : β → β} (view : α → β)
    (hp : ∀ r, q (view r) ↔ p r) (hf : ∀ r, p r → view (f r) = g (view r)) :
    (update p f rows).map view = update q g (rows.map view) := by
  simp only [update, map_map]
  apply map_congr_left
  intro r _
  by_cases h : p r <;> simp [h, hp, hf]

variable {q : α → Prop} {g : α → α} {R : α → α → Prop}

lemma map_filter_update [DecidablePred q] (g : α → β)
    (hq : ∀ r, p r → (q (f r) ↔ q r)) (hg : ∀ r, p r → g (f r) = g r) :
    ((update p f rows).filter fun r => q r).map g = (rows.filter fun r => q r).map g := by
  rw [update, filter_map, map_map]
  have same : ((fun r => decide (q r)) ∘ fun r => if p r then f r else r) = fun r => decide (q r) := by
    funext r
    by_cases h : p r <;> simp [h, hq]
  rw [same]
  apply map_congr_left
  intro r _
  by_cases h : p r <;> simp [h, hg]

lemma find?_update_key [DecidableEq β] {key : α → β} (hk : ∀ r, p r → key (f r) = key r) (k : β) :
    (update p f rows).find? (fun r => key r = k) =
      (rows.find? (fun r => key r = k)).map fun r => if p r then f r else r := by
  have same : ((fun r => decide (key r = k)) ∘ fun r => if p r then f r else r) = fun r => decide (key r = k) := by
    funext r
    by_cases h : p r <;> simp [h, hk]
  rw [update, find?_map, same]

lemma update_eq_self (h : ∀ r ∈ rows, p r → f r = r) : update p f rows = rows := by
  conv_rhs => rw [← map_id rows]
  apply map_congr_left
  intro r hr
  by_cases hp : p r
  · simp [hp, h r hr hp]
  · simp [hp]

lemma update_update [DecidablePred q] (h : ∀ r, p r → ¬ q (f r)) :
    update q f (update p f rows) = update (fun r => p r ∨ q r) f rows := by
  simp only [update, map_map]
  apply map_congr_left
  intro r _
  by_cases hp : p r <;> simp [hp, h]

lemma update_congr [DecidablePred q] (h : ∀ r ∈ rows, p r ↔ q r) : update p f rows = update q f rows :=
  map_congr_left fun r hr => if_congr (h r hr) rfl rfl

lemma update_congr_right (h : ∀ r ∈ rows, p r → f r = g r) : update p f rows = update p g rows :=
  map_congr_left fun r hr => by
    by_cases hp : p r
    · rw [if_pos hp, if_pos hp, h r hr hp]
    · rw [if_neg hp, if_neg hp]

lemma update_comp (h : ∀ r, p r → p (f r)) :
    update p g (update p f rows) = update p (fun r => g (f r)) rows := by
  simp only [update, map_map]
  apply map_congr_left
  intro r _
  by_cases hp : p r <;> simp [hp, h]

lemma forall₂_update_iff : Forall₂ R rows (update p f rows) ↔ ∀ r ∈ rows, R r (if p r then f r else r) := by
  rw [update, forall₂_map_right_iff, forall₂_same]

lemma forall₂_update_mem (refl : ∀ r, R r r)
    (hf : ∀ r ∈ rows, p r → R r (f r)) : Forall₂ R rows (update p f rows) := by
  rw [forall₂_update_iff]
  intro r hr
  split
  · exact hf r hr ‹_›
  · exact refl r

lemma forall₂_update (refl : ∀ r, R r r) (hf : ∀ r, p r → R r (f r)) :
    Forall₂ R rows (update p f rows) := forall₂_update_mem refl fun r _ => hf r
lemma returning_congr [DecidablePred q] (h : ∀ r, p r ↔ q r) : returning p f rows = returning q f rows := by
  rw [returning, returning, filter_congr fun r _ => decide_eq_decide.mpr (h r)]

lemma filter_update [DecidablePred q] (h : ∀ r ∈ rows, p r → ¬ q r ∧ ¬ q (f r)) :
    (update p f rows).filter (fun r => q r) = rows.filter (fun r => q r) := by
  induction rows with
  | nil => rfl
  | cons r rows ih =>
    rw [update_cons, filter_cons, filter_cons, ih fun r' hr' => h r' (mem_cons_of_mem _ hr')]
    by_cases hp : p r
    · simp [hp, (h r mem_cons_self hp).1, (h r mem_cons_self hp).2]
    · simp [hp]

lemma returning_update [DecidablePred q]
    (h : ∀ r, p r → ¬ q r ∧ ¬ q (f r)) : returning q g (update p f rows) = returning q g rows := by
  rw [returning, filter_update fun r _ => h r, returning]

lemma returning_append_perm [DecidablePred q] (h : ∀ r, p r → ¬ q r) :
    (returning p f rows ++ returning q f rows).Perm (returning (fun r => p r ∨ q r) f rows) := by
  rw [returning, returning, ← map_append]
  refine List.Perm.map f ?_
  induction rows with
  | nil => exact .nil
  | cons r rows ih =>
    by_cases hp : p r
    · rw [filter_cons_of_pos (by simpa using hp), filter_cons_of_neg (by simpa using h r hp),
        filter_cons_of_pos (by simpa using Or.inl hp)]
      exact ih.cons r
    by_cases hq : q r
    · rw [filter_cons_of_neg (by simpa using hp), filter_cons_of_pos (by simpa using hq),
        filter_cons_of_pos (by simpa using Or.inr hq)]
      exact perm_middle.trans (ih.cons r)
    · rw [filter_cons_of_neg (by simpa using hp), filter_cons_of_neg (by simpa using hq),
        filter_cons_of_neg (by simpa using ⟨hp, hq⟩)]
      exact ih

end

variable {xs rows : List α} {R : α → α → Prop} {key : α → β} {r : α} {p q : α → Prop} {f : α → α}
  {ys : List β}

lemma of_mem_right {R : α → β → Prop}
    (h : Forall₂ R xs ys) {y : β} (hy : y ∈ ys) : ∃ x ∈ xs, R x y := by
  induction h with
  | nil => cases hy
  | cons hxy _ ih =>
    rcases mem_cons.mp hy with rfl | hy
    · exact ⟨_, mem_cons_self, hxy⟩
    · obtain ⟨x, hx, hr⟩ := ih hy
      exact ⟨x, mem_cons_of_mem _ hx, hr⟩

lemma of_mem_left {R : α → β → Prop} (h : Forall₂ R xs ys) {x : α} (hx : x ∈ xs) : ∃ y ∈ ys, R x y :=
  of_mem_right (R := fun y x => R x y) h.flip hx
lemma forall₂_refl (refl : ∀ r, R r r) (rows : List α) : Forall₂ R rows rows :=
  forall₂_same.mpr fun r _ => refl r

lemma forall₂_trans {S T : α → α → Prop} (hRS : ∀ a b c, R a b → S b c → T a c)
    {ys zs : List α} (h1 : Forall₂ R xs ys) (h2 : Forall₂ S ys zs) :
    Forall₂ T xs zs := by
  induction h1 generalizing zs with
  | nil => cases h2; exact .nil
  | cons hab _ ih =>
    cases h2 with
    | cons hbc hrest => exact .cons (hRS _ _ _ hab hbc) (ih hrest)

lemma map_eq_of_forall₂ {ys : List α} (g : α → β)
    (hg : ∀ x y, R x y → g y = g x) (h : Forall₂ R xs ys) : ys.map g = xs.map g := by
  induction h with
  | nil => rfl
  | cons hxy _ ih => rw [map_cons, map_cons, hg _ _ hxy, ih]

def Keyed (key : α → β) (rows : List α) : Prop := (rows.map key).Nodup

lemma Keyed.eq_of_mem (h : Keyed key rows)
    {a b : α} (ha : a ∈ rows) (hb : b ∈ rows) (hab : key a = key b) : a = b :=
  inj_on_of_nodup_map h ha hb hab

lemma Keyed.find?_eq [DecidableEq β] (h : Keyed key rows)
    (hr : r ∈ rows) : rows.find? (fun r' => key r' = key r) = some r := by
  have hsome : (rows.find? fun r' => key r' = key r).isSome := find?_isSome.mpr ⟨r, hr, by simp⟩
  obtain ⟨r', h'⟩ := Option.isSome_iff_exists.mp hsome
  have hkey : key r' = key r := by simpa using find?_some h'
  rw [h', h.eq_of_mem (mem_of_find?_eq_some h') hr hkey]

lemma Keyed.append_singleton
    (h : Keyed key rows) (hr : ∀ a ∈ rows, key a ≠ key r) : Keyed key (rows ++ [r]) := by
  unfold Keyed
  rw [map_append, map_singleton]
  refine List.Nodup.append h (nodup_singleton _) ?_
  intro k hk hk'
  obtain ⟨a, ha, rfl⟩ := mem_map.mp hk
  exact hr a ha (mem_singleton.mp hk')

lemma filter_update_out [DecidablePred p] [DecidablePred q] (h : ∀ r, p r → ¬ q (f r)) (rows : List α) :
    (update p f rows).filter (fun r => q r) = rows.filter (fun r => q r ∧ ¬ p r) := by
  induction rows with
  | nil => rfl
  | cons r rows ih =>
    rw [update_cons, filter_cons, filter_cons, ih]
    by_cases hp : p r
    · simp [hp, h r hp]
    · simp [hp]

lemma filter_update_key [DecidableEq β] [DecidablePred p] [DecidablePred q]
    {k : β} (hkey : ∀ r, key (f r) = key r)
    (h : ∀ r ∈ rows, key r = k → (p r ↔ q r)) :
    (update p f rows).filter (fun r => key r = k) = update q f (rows.filter fun r => key r = k) := by
  induction rows with
  | nil => rfl
  | cons r rows ih =>
    specialize ih fun r' hr' => h r' (mem_cons_of_mem _ hr')
    by_cases hk : key r = k
    · have hpq := h r mem_cons_self hk
      by_cases hp : p r
      · simp [hp, hpq.mp hp, hk, hkey, ih]
      · have hq : ¬ q r := mt hpq.mpr hp
        simp [hp, hq, hk, ih]
    · have hk' : ¬ key (if p r then f r else r) = k := by
        split
        · rwa [hkey]
        · exact hk
      rw [update_cons, filter_cons_of_neg (by simpa using hk'), filter_cons_of_neg (by simpa using hk), ih]

lemma countP_update_lt [DecidablePred p] [DecidablePred q]
    (h : ∀ r, p r → q r ∧ ¬ q (f r)) (hex : ∃ r ∈ rows, p r) :
    (update p f rows).countP (fun r => q r) < rows.countP (fun r => q r) := by
  have hle : ∀ rows : List α, (update p f rows).countP (fun r => q r) ≤ rows.countP (fun r => q r) := by
    intro rows
    rw [update, countP_map]
    refine countP_mono_left fun r _ hr => ?_
    by_cases hp : p r
    · simp [hp, (h r hp).2] at hr
    · simpa [hp] using hr
  obtain ⟨r, hr, hp⟩ := hex
  obtain ⟨before, after, rfl⟩ := append_of_mem hr
  have hb := hle before
  have ha := hle after
  have split : update p f (before ++ r :: after) = update p f before ++ f r :: update p f after := by
    simp [update, hp]
  rw [split]
  simp only [countP_append, countP_cons, (h r hp).1, (h r hp).2, decide_true, decide_false,
    if_true, Bool.false_eq_true, if_false]
  omega

lemma countP_le_of_keyed {p' : α → Prop} [DecidablePred p] [DecidablePred p']
    {rows' : List α} (keyed : Keyed key rows')
    (h : ∀ r' ∈ rows', p' r' → ∃ r ∈ rows, key r = key r' ∧ p r) :
    rows'.countP (fun r => p' r) ≤ rows.countP (fun r => p r) := by
  have nodup : ((rows'.filter fun r => p' r).map key).Nodup := keyed.sublist (List.Sublist.map key filter_sublist)
  have sub : (rows'.filter fun r => p' r).map key ⊆ (rows.filter fun r => p r).map key := by
    intro k hk
    obtain ⟨r', hr', rfl⟩ := mem_map.mp hk
    simp only [mem_filter, decide_eq_true_eq] at hr'
    obtain ⟨r, hr, e, hp⟩ := h r' hr'.1 hr'.2
    exact mem_map.mpr ⟨r, mem_filter.mpr ⟨hr, decide_eq_true hp⟩, e⟩
  have := (subperm_of_subset nodup sub).length_le
  simpa only [length_map, ← countP_eq_length_filter] using this

lemma sum_update_of_keyed [DecidablePred p] (keyed : Keyed key rows) (g : α → Int) (hr : r ∈ rows) (hp : p r)
    (honly : ∀ r' ∈ rows, p r' → key r' = key r) :
    ((update p f rows).map g).sum = (rows.map g).sum - g r + g (f r) := by
  obtain ⟨before, after, rfl⟩ := append_of_mem hr
  have hnodup : (before.map key ++ key r :: after.map key).Nodup := by
    simpa only [Keyed, map_append, map_cons] using keyed
  have hmiddle := nodup_middle.mp hnodup
  have hothers : ∀ r' ∈ before ++ after, ¬ p r' := by
    intro r' hr' hp'
    have hmem : r' ∈ before ++ r :: after := by
      rcases mem_append.mp hr' with h | h
      · exact mem_append_left _ h
      · exact mem_append_right _ (mem_cons_of_mem _ h)
    refine (nodup_cons.mp hmiddle).1 ?_
    rw [← map_append, ← honly r' hmem hp']
    exact mem_map_of_mem hr'
  have hb : update p f before = before := update_eq_self fun r' h hp' => absurd hp' (hothers r' (mem_append_left _ h))
  have ha : update p f after = after := update_eq_self fun r' h hp' => absurd hp' (hothers r' (mem_append_right _ h))
  have split : update p f (before ++ r :: after) = update p f before ++ f r :: update p f after := by
    simp [update, hp]
  rw [split, hb, ha]
  simp only [map_append, map_cons, sum_append, sum_cons]
  omega

end Table
