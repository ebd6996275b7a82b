import Mathlib.Data.List.Infix

/-! Texts cut at the occurrences of a separator, from either end. -/

namespace Split
open List Option
variable {α : Type*}

inductive Leftmost (sep : List α) : List (List α) → Prop
  | uncut (s : List α) : Leftmost sep [s]
  | cut {p ps} (first : ∀ x y, sep.intercalate (p :: ps) = x ++ sep ++ y → p.length ≤ x.length)
      (rest : Leftmost sep ps) : Leftmost sep (p :: ps)

inductive Rightmost (sep : List α) : List (List α) → Prop
  | uncut (s : List α) : Rightmost sep [s]
  | cut {ps q} (last : ∀ x y, sep.intercalate (ps ++ [q]) = x ++ sep ++ y → q.length ≤ y.length)
      (rest : Rightmost sep ps) : Rightmost sep (ps ++ [q])

variable {sep s : List α} {ps : List (List α)}

lemma Leftmost.ne_nil (h : Leftmost sep ps) : ps ≠ [] := by cases h <;> simp
lemma Rightmost.ne_nil (h : Rightmost sep ps) : ps ≠ [] := by cases h <;> simp

lemma intercalate_concat (h : ps ≠ []) (q : List α) :
    sep.intercalate (ps ++ [q]) = sep.intercalate ps ++ sep ++ q := by
  induction ps with
  | nil => exact absurd rfl h
  | cons p ps ih =>
    cases ps with
    | nil => simp [intercalate_cons_cons]
    | cons p' ps => simpa [intercalate_cons_cons] using ih (cons_ne_nil _ _)

lemma Leftmost.not_infix (hsep : sep ≠ []) (h : Leftmost sep ps) : ∀ p ∈ ps.dropLast, ¬ sep <:+: p := by
  have hpos := length_pos_of_ne_nil hsep
  induction h with
  | uncut s => simp
  | @cut p ps first rest ih =>
    rw [dropLast_cons_of_ne_nil rest.ne_nil]
    refine forall_mem_cons.mpr ⟨?_, ih⟩
    rintro ⟨x, y, rfl⟩
    have hle := first x (y ++ sep ++ sep.intercalate ps) (by simp [intercalate_cons_of_ne_nil rest.ne_nil])
    simp only [length_append] at hle
    omega

lemma Rightmost.not_infix (hsep : sep ≠ []) (h : Rightmost sep ps) : ∀ p ∈ ps.tail, ¬ sep <:+: p := by
  have hpos := length_pos_of_ne_nil hsep
  induction h with
  | uncut s => simp
  | @cut ps q last rest ih =>
    rw [tail_append_of_ne_nil rest.ne_nil, forall_mem_append, forall_mem_singleton]
    refine ⟨ih, ?_⟩
    rintro ⟨x, y, rfl⟩
    have hle := last (sep.intercalate ps ++ sep ++ x) y (by simp [intercalate_concat rest.ne_nil])
    simp only [length_append] at hle
    omega

variable [DecidableEq α] {r : List α × List α}

def cutFirst (sep : List α) : List α → Option (List α × List α)
  | [] => none
  | c :: s =>
    if sep <+: c :: s then some ([], (c :: s).drop sep.length)
    else (cutFirst sep s).map fun r => (c :: r.1, r.2)

def cutLast (sep : List α) : List α → Option (List α × List α)
  | [] => none
  | c :: s =>
    match cutLast sep s with
    | some r => some (c :: r.1, r.2)
    | none => if sep <+: c :: s then some ([], (c :: s).drop sep.length) else none

lemma cutFirst_some (h : cutFirst sep s = some r) :
    s = r.1 ++ sep ++ r.2 ∧ ∀ x y, s = x ++ sep ++ y → r.1.length ≤ x.length := by
  induction s generalizing r with
  | nil => cases h
  | cons c s ih =>
    rw [cutFirst] at h
    split at h
    next hp =>
      cases h
      exact ⟨(prefix_iff_eq_append.mp hp).symm, fun x y _ => Nat.zero_le _⟩
    next hn =>
      obtain ⟨r, hr, rfl⟩ := map_eq_some_iff.mp h
      obtain ⟨e, first⟩ := ih hr
      refine ⟨congrArg (c :: ·) e, fun x y e' => ?_⟩
      cases x with
      | nil => exact absurd ⟨y, e'.symm⟩ hn
      | cons d x => exact Nat.succ_le_succ (first x y (cons_eq_cons.mp e').2)

lemma cutLast_none (hsep : sep ≠ []) (h : cutLast sep s = none) : ¬ sep <:+: s := by
  induction s with
  | nil => simpa using hsep
  | cons c s ih =>
    rw [cutLast] at h
    split at h
    · cases h
    next hn =>
      rw [infix_cons_iff]
      exact not_or.mpr ⟨fun hp => by simp [hp] at h, ih hn⟩

lemma cutLast_some (hsep : sep ≠ []) (h : cutLast sep s = some r) :
    s = r.1 ++ sep ++ r.2 ∧ ∀ x y, s = x ++ sep ++ y → r.2.length ≤ y.length := by
  induction s generalizing r with
  | nil => cases h
  | cons c s ih =>
    rw [cutLast] at h
    split at h
    next r' hr =>
      cases h
      obtain ⟨e, last⟩ := ih hr
      refine ⟨congrArg (c :: ·) e, fun x y e' => ?_⟩
      cases x with
      | nil =>
        have hlen := congrArg length e'
        simp only [e, length_cons, length_append, length_nil] at hlen ⊢
        omega
      | cons d x => exact last x y (cons_eq_cons.mp e').2
    next hn =>
      obtain ⟨hp, e⟩ := ite_none_right_eq_some.mp h
      cases e
      have e := (prefix_iff_eq_append.mp hp).symm
      refine ⟨e, fun x y e' => ?_⟩
      cases x with
      | nil => rw [append_cancel_left (e.symm.trans e')]
      | cons d x => exact absurd ⟨x, y, (cons_eq_cons.mp e').2.symm⟩ (cutLast_none hsep hn)

def splitN (sep : List α) : Nat → List α → List (List α)
  | 0, s => [s]
  | n + 1, s =>
    match cutFirst sep s with
    | some r => r.1 :: splitN sep n r.2
    | none => [s]

def rsplitN (sep : List α) : Nat → List α → List (List α)
  | 0, s => [s]
  | n + 1, s =>
    match cutLast sep s with
    | some r => rsplitN sep n r.1 ++ [r.2]
    | none => [s]

def count (sep : List α) : Nat → List α → Nat
  | 0, _ => 0
  | fuel + 1, s =>
    match cutFirst sep s with
    | some r => count sep fuel r.2 + 1
    | none => 0

lemma splitN_spec (sep : List α) (n : Nat) (s : List α) :
    sep.intercalate (splitN sep n s) = s ∧ Leftmost sep (splitN sep n s) := by
  induction n generalizing s with
  | zero => exact ⟨intercalate_singleton, .uncut s⟩
  | succ n ih =>
    rw [splitN]
    split
    next r hr =>
      obtain ⟨hjoin, hleft⟩ := ih r.2
      obtain ⟨e, first⟩ := cutFirst_some hr
      have hs : sep.intercalate (r.1 :: splitN sep n r.2) = s := by
        rw [intercalate_cons_of_ne_nil hleft.ne_nil, hjoin, ← e]
      exact ⟨hs, .cut (hs ▸ first) hleft⟩
    · exact ⟨intercalate_singleton, .uncut s⟩

lemma rsplitN_spec (hsep : sep ≠ []) (n : Nat) (s : List α) :
    sep.intercalate (rsplitN sep n s) = s ∧ Rightmost sep (rsplitN sep n s) := by
  induction n generalizing s with
  | zero => exact ⟨intercalate_singleton, .uncut s⟩
  | succ n ih =>
    rw [rsplitN]
    split
    next r hr =>
      obtain ⟨hjoin, hright⟩ := ih r.1
      obtain ⟨e, last⟩ := cutLast_some hsep hr
      have hs : sep.intercalate (rsplitN sep n r.1 ++ [r.2]) = s := by
        rw [intercalate_concat hright.ne_nil, hjoin, ← e]
      exact ⟨hs, .cut (hs ▸ last) hright⟩
    · exact ⟨intercalate_singleton, .uncut s⟩

lemma length_splitN (hsep : sep ≠ []) (n : Nat) {fuel : Nat} (hfuel : s.length ≤ fuel) :
    (splitN sep n s).length = min n (count sep fuel s) + 1 := by
  have hpos := length_pos_of_ne_nil hsep
  induction n generalizing s fuel with
  | zero => simp [splitN]
  | succ n ih =>
    cases fuel with
    | zero => simp [length_eq_zero_iff.mp (Nat.le_zero.mp hfuel), splitN, cutFirst, count]
    | succ fuel =>
      rw [splitN, count]
      cases hr : cutFirst sep s with
      | none => simp
      | some r =>
        have hlen := congrArg length (cutFirst_some hr).1
        simp only [length_append] at hlen
        dsimp only
        rw [length_cons, ih (show r.2.length ≤ fuel by omega)]
        omega

lemma length_rsplitN (hsep : sep ≠ []) {n : Nat} (hs : sep.intercalate ps = s) (hn : ps.length = n + 1) :
    (rsplitN sep n s).length = n + 1 := by
  induction n generalizing s ps with
  | zero => rfl
  | succ n ih =>
    obtain ⟨qs, q, rfl⟩ := (eq_nil_or_concat' ps).resolve_left (by rintro rfl; simp at hn)
    rw [length_append, length_singleton, Nat.add_right_cancel_iff] at hn
    obtain ⟨qs, p, rfl⟩ := (eq_nil_or_concat' qs).resolve_left (by rintro rfl; simp at hn)
    rw [intercalate_concat (by simp)] at hs
    rw [rsplitN]
    cases hr : cutLast sep s with
    | none => exact absurd ⟨_, _, hs⟩ (cutLast_none hsep hr)
    | some r =>
      obtain ⟨e, last⟩ := cutLast_some hsep hr
      have hle := last _ _ hs.symm
      have hlen := congrArg length (hs.trans e)
      simp only [length_append] at hlen hle
      obtain ⟨z, hz⟩ : sep.intercalate (qs ++ [p]) <+: r.1 :=
        prefix_of_prefix_length_le ⟨sep ++ q, by simpa using hs⟩ ⟨sep ++ r.2, by simpa using e.symm⟩ (by omega)
      have hjoin : sep.intercalate (qs ++ [p ++ z]) = r.1 := by
        rcases eq_or_ne qs [] with rfl | hqs
        · simpa using hz
        · simpa [intercalate_concat hqs] using hz
      simp [ih hjoin (by simpa using hn)]

end Split
