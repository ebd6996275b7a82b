import Mathlib.Data.List.TakeDrop
import Mathlib.Data.List.TakeWhile
import Sqi.Lib.Text

/-! Numbers in texts: what trimming and cutting leave of a text, and that a printed
integer is read back. -/

namespace GoText
open List Option Word

/-! ## Trimming and cutting -/

variable {s before after : Text} {c : Char} {n : Int} {sep : Text} {sign : Int} {cs : Text}

lemma mem_trimSpace_or_isSpace (h : c ∈ s) : c ∈ trimSpace s ∨ isSpace c := by
  have drop : ∀ {l : Text}, c ∈ l → c ∈ l.dropWhile (fun r => isSpace r) ∨ isSpace c := by
    intro l hl
    rw [← takeWhile_append_dropWhile (p := fun r => isSpace r) (l := l)] at hl
    rcases mem_append.mp hl with hl | hl
    · exact .inr (by simpa using mem_takeWhile_imp hl)
    · exact .inl hl
  rcases drop h with h | h
  · rcases drop (mem_reverse.mpr h) with h | h
    · exact .inl (mem_reverse.mpr h)
    · exact .inr h
  · exact .inr h

lemma trimSpace_eq_self (h : ∀ c ∈ s, ¬ isSpace c) : trimSpace s = s := by
  have drop : ∀ {l : Text}, (∀ c ∈ l, ¬ isSpace c) → l.dropWhile (fun r => isSpace r) = l := by
    intro l hl
    cases l with
    | nil => rfl
    | cons c l => rw [dropWhile_cons_of_neg (by simpa using hl c mem_cons_self)]
  rw [trimSpace, drop h, drop fun c hc => h c (mem_reverse.mp hc), reverse_reverse]

lemma span_append {p : Char → Bool} {a b : Text} (ha : ∀ c ∈ a, p c = true) (hb : ∀ c, b.head? = some c → p c = false) :
    (a ++ b).span p = (a, b) := by
  rw [span_eq_takeWhile_dropWhile, takeWhile_append_of_pos ha, dropWhile_append_of_pos ha]
  cases b with
  | nil => simp
  | cons c b => simp [hb c rfl]

lemma span_ne_append (h : c ∉ before) : (before ++ c :: after).span (· ≠ c) = (before, c :: after) := by
  refine span_append (fun d hd => decide_eq_true fun e => h (e ▸ hd)) fun d hd => ?_
  obtain rfl := some.inj hd
  simp
lemma span_ne_of_not_mem (h : c ∉ s) : s.span (· ≠ c) = (s, []) := by
  have hall : ∀ d ∈ s, (decide (d ≠ c)) = true := fun d hd => decide_eq_true fun e => h (e ▸ hd)
  rw [span_eq_takeWhile_dropWhile, takeWhile_eq_self_iff.mpr hall, dropWhile_eq_nil_iff.mpr hall]
lemma cutLast_append (h : c ∉ after) : cutLast c (before ++ c :: after) = some (before, after) := by
  unfold cutLast
  rw [reverse_append, reverse_cons, append_assoc, singleton_append, span_ne_append (by simpa using h)]
  simp
lemma cutLast_of_not_mem (h : c ∉ s) : cutLast c s = none := by
  unfold cutLast
  rw [span_ne_of_not_mem (by simpa using h)]

lemma eq_of_cutLast (h : cutLast c s = some (before, after)) : s = before ++ c :: after := by
  unfold cutLast at h
  rw [span_eq_takeWhile_dropWhile] at h
  have hjoin := takeWhile_append_dropWhile (p := fun r => decide (r ≠ c)) (l := s.reverse)
  cases hdrop : s.reverse.dropWhile (fun r => decide (r ≠ c)) with
  | nil =>
    rw [hdrop] at h
    cases h
  | cons d rest =>
    rw [hdrop] at h hjoin
    cases h
    -- the character that stopped the scan is the one looked for
    have hd : d = c := by
      have hhead := head?_dropWhile_not (fun r => decide (r ≠ c)) s.reverse
      rw [hdrop] at hhead
      simpa using hhead
    conv_lhs => rw [← reverse_reverse s, ← hjoin]
    simp [hd]

lemma mem_of_mem_intercalate {parts : List Text} (h : c ∈ sep.intercalate parts) :
    c ∈ sep ∨ ∃ part ∈ parts, c ∈ part := by
  induction parts with
  | nil => simp at h
  | cons part parts ih =>
    cases parts with
    | nil => exact .inr ⟨part, mem_cons_self, by simpa using h⟩
    | cons part' parts =>
      have split : sep.intercalate (part :: part' :: parts) = part ++ (sep ++ sep.intercalate (part' :: parts)) := by
        simp [List.intercalate]
      rw [split, mem_append, mem_append] at h
      rcases h with h | h | h
      · exact .inr ⟨part, mem_cons_self, h⟩
      · exact .inl h
      · rcases ih h with h | ⟨q, hq, h⟩
        · exact .inl h
        · exact .inr ⟨q, mem_cons_of_mem part hq, h⟩

/-! ## Printed integers -/

lemma digitsValue_eq (h : ∀ c ∈ cs, c.isDigit = true) (n : Nat) :
    digitsValue n cs = some (Nat.ofDigitChars 10 cs n) := by
  induction cs generalizing n with
  | nil => rfl
  | cons c cs ih =>
    rw [digitsValue, if_pos (h c mem_cons_self), ih fun d hd => h d (mem_cons_of_mem c hd)]
    rfl

lemma isDigit_of_digitsValue {n v : Nat} (h : digitsValue n cs = some v) : ∀ c ∈ cs, c.isDigit = true := by
  induction cs generalizing n with
  | nil => nofun
  | cons c cs ih =>
    rw [digitsValue] at h
    split at h
    · exact forall_mem_cons.mpr ⟨‹_›, ih h⟩
    · cases h

lemma isDigit_repr (n : Nat) : ∀ c ∈ n.repr.toList, c.isDigit = true := by
  intro c hc
  rw [Nat.repr, String.toList_ofList] at hc
  exact Nat.isDigit_of_mem_toDigits (by decide) (by decide) hc
lemma repr_ne_nil (n : Nat) : n.repr.toList ≠ [] := by
  rw [Nat.repr, String.toList_ofList]
  exact Nat.toDigits_ne_nil

lemma head_repr_ne_zero (n : Nat) (hn : 0 < n) : n.repr.toList.head? ≠ some '0' := by
  rw [Nat.repr, String.toList_ofList]
  induction n using Nat.strongRecOn with
  | ind n ih =>
    by_cases hlt : n < 10
    · have hdigit : ∀ d < 10, 0 < d → [Nat.digitChar d].head? ≠ some '0' := by decide
      rw [Nat.toDigits_of_lt_base hlt]
      exact hdigit n hlt hn
    have hhead := ih (n / 10) (by omega) (by omega)
    rw [Nat.toDigits_of_base_le (by decide) (by omega), head?_append]
    cases hdigits : Nat.toDigits 10 (n / 10) with
    | nil => exact absurd hdigits Nat.toDigits_ne_nil
    | cons c cs => rwa [hdigits] at hhead

lemma unsignedValue_repr (n : Nat) : unsignedValue n.repr.toList = some n := by
  have hvalue : digitsValue 0 n.repr.toList = some n := by
    rw [digitsValue_eq (isDigit_repr n), Nat.repr, String.toList_ofList,
      Nat.ofDigitChars_toDigits (by decide) (by decide)]
  cases hs : n.repr.toList with
  | nil => exact absurd hs (repr_ne_nil n)
  | cons c cs => rwa [hs] at hvalue

lemma toList_toString (n : Int) :
    (toString n).toList = if 0 ≤ n then n.toNat.repr.toList else '-' :: (-n).toNat.repr.toList := by
  rw [Int.toString_eq_repr, Int.repr_eq_if]
  split
  · rfl
  · rw [String.toList_append]
    rfl

lemma isDigit_ne {d : Char} (h : c.isDigit = true) (hd : d.isDigit = false) : c ≠ d := by
  rintro rfl
  rw [h] at hd
  cases hd

def signedValue (sign : Int) (ds : Text) : Option Int :=
  ((unsignedValue ds).map fun n : Nat => sign * n).filter fun n => decide (IsInt n)

lemma atoi_minus (ds : Text) : atoi ('-' :: ds) = signedValue (-1) ds := by
  simp only [atoi, signedValue]
  cases unsignedValue ds <;> simp
lemma atoi_plus (ds : Text) : atoi ('+' :: ds) = signedValue 1 ds := by
  simp only [atoi, signedValue]
  cases unsignedValue ds <;> simp

lemma atoi_unsigned (h : ∀ ds, s ≠ '-' :: ds ∧ s ≠ '+' :: ds) : atoi s = signedValue 1 s := by
  simp only [atoi, signedValue]
  split
  · exact absurd rfl (h _).1
  · exact absurd rfl (h _).2
  · cases unsignedValue s <;> simp

lemma signedValue_repr {m : Nat} (h : IsInt n) (hn : sign * m = n) :
    signedValue sign m.repr.toList = some n := by
  rw [signedValue, unsignedValue_repr, map_some, hn, filter_some, if_pos (decide_eq_true h)]

lemma atoi_toString (h : IsInt n) : atoi (toString n).toList = some n := by
  rw [toList_toString]
  split
  · rw [atoi_unsigned, signedValue_repr h (by omega)]
    intro ds
    constructor <;> intro e
    · exact isDigit_ne (isDigit_repr n.toNat '-' (e ▸ mem_cons_self)) (by decide) rfl
    · exact isDigit_ne (isDigit_repr n.toNat '+' (e ▸ mem_cons_self)) (by decide) rfl
  · rw [atoi_minus, signedValue_repr h (by omega)]

lemma isInt_of_atoi (h : atoi s = some n) : IsInt n := by
  unfold atoi at h
  simpa using (filter_eq_some_iff.mp h).2

lemma isDigit_of_signedValue {ds : Text} (h : signedValue sign ds = some n) : ∀ c ∈ ds, c.isDigit = true := by
  obtain ⟨v, hv, -⟩ := map_eq_some_iff.mp (filter_eq_some_iff.mp h).1
  cases ds with
  | nil => cases hv
  | cons d ds => exact isDigit_of_digitsValue hv

lemma chars_of_atoi (h : atoi s = some n) : ∀ c ∈ s, c.isDigit = true ∨ c = '-' ∨ c = '+' := by
  by_cases hm : ∃ ds, s = '-' :: ds
  · obtain ⟨ds, rfl⟩ := hm
    rw [atoi_minus] at h
    exact forall_mem_cons.mpr ⟨.inr (.inl rfl), fun c hc => .inl (isDigit_of_signedValue h c hc)⟩
  by_cases hp : ∃ ds, s = '+' :: ds
  · obtain ⟨ds, rfl⟩ := hp
    rw [atoi_plus] at h
    exact forall_mem_cons.mpr ⟨.inr (.inr rfl), fun c hc => .inl (isDigit_of_signedValue h c hc)⟩
  · rw [atoi_unsigned fun ds => ⟨fun e => hm ⟨ds, e⟩, fun e => hp ⟨ds, e⟩⟩] at h
    exact fun c hc => .inl (isDigit_of_signedValue h c hc)

lemma not_isSpace_of_isDigit (h : c.isDigit = true) : ¬ isSpace c := by
  simp only [Char.isDigit, Bool.and_eq_true, decide_eq_true_eq] at h
  obtain ⟨hlo, hhi⟩ := h
  have lo : 48 ≤ c.val.toNat := hlo
  have hi : c.val.toNat ≤ 57 := hhi
  rintro (⟨_, hle⟩ | ⟨hge, _⟩ | hmem)
  · have : c.val.toNat ≤ 13 := hle
    omega
  · have : 0x2000 ≤ c.val.toNat := hge
    omega
  · have others : ∀ v ∈ ([0x20, 0x85, 0xA0, 0x1680, 0x2028, 0x2029, 0x202F, 0x205F, 0x3000] : List UInt32),
        ¬ (48 ≤ v.toNat ∧ v.toNat ≤ 57) := by simp
    exact others _ hmem ⟨lo, hi⟩

end GoText
