import Mathlib.Algebra.Order.BigOperators.Group.List
import Sqi.Expr.Value
import Sqi.Lib.Program
import Sqi.Lib.Split

/-! `split`, `rsplit` and `join` with a separator (`funcsstrsplit.go`). -/

namespace Sqi.Expr
open List GoText Split

inductive SplitError where
  | emptySeparator
  | tooLarge (bound : TooLarge)
deriving DecidableEq

def stringList (parts : List Text) : Except SplitError (List Text) := do
  (checkElementCount parts.length).mapError .tooLarge
  return parts

def lastParts (sep : Text) : Nat → Text → List Text
  | 0, s => [s]
  | maxsplit + 1, s =>
    match cutLast sep s with
    | some r => r.2 :: lastParts sep maxsplit r.1
    | none => [s]

def occurrences (s sep : Text) : Nat := count sep s.length s

def splitSep (s sep : Text) (maxsplit : Int) (fromRight : Bool) : Except SplitError (List Text) :=
  if sep = [] then .error .emptySeparator
  else
    let total : Int := occurrences s sep
    let maxsplit := if maxsplit < 0 ∨ total < maxsplit then total else maxsplit
    if fromRight then stringList (lastParts sep maxsplit.toNat s).reverse
    else stringList (splitN sep maxsplit.toNat s)

lemma reverse_lastParts (sep : Text) (n : Nat) (s : Text) : (lastParts sep n s).reverse = rsplitN sep n s := by
  induction n generalizing s with
  | zero => rfl
  | succ n ih =>
    rw [lastParts, rsplitN]
    cases cutLast sep s with
    | none => rfl
    | some r => simp [ih]

def cutsMade (s sep : Text) (maxsplit : Int) : Nat :=
  if maxsplit < 0 then occurrences s sep else min maxsplit.toNat (occurrences s sep)

lemma splitSep_eq (s : Text) {sep : Text} (hsep : sep ≠ []) (maxsplit : Int) (fromRight : Bool) :
    splitSep s sep maxsplit fromRight = stringList
      (if fromRight then rsplitN sep (cutsMade s sep maxsplit) s else splitN sep (cutsMade s sep maxsplit) s) := by
  have hcuts : (if maxsplit < 0 ∨ (occurrences s sep : Int) < maxsplit then (occurrences s sep : Int)
      else maxsplit).toNat = cutsMade s sep maxsplit := by
    rw [cutsMade]
    split_ifs <;> omega
  rw [splitSep, if_neg hsep]
  dsimp only
  rw [hcuts, reverse_lastParts]
  cases fromRight <;> rfl

variable {parts : List Text}

lemma stringList_ok (h : (parts.length : Int) ≤ maxElements) : stringList parts = .ok parts := by
  rw [stringList, checkElementCount, if_neg (by omega)]
  rfl
lemma byteLen_append (a b : Text) : byteLen (a ++ b) = byteLen a + byteLen b := by simp [byteLen, utf8Len]
lemma byteLen_nonneg (s : Text) : 0 ≤ byteLen s := Int.natCast_nonneg _
lemma sum_byteLen_nonneg (ps : List Text) : 0 ≤ (ps.map byteLen).sum :=
  sum_nonneg (forall_mem_map.mpr fun p _ => byteLen_nonneg p)

lemma byteLen_intercalate (sep p : Text) (ps : List Text) :
    byteLen (sep.intercalate (p :: ps)) = byteLen sep * ps.length + ((p :: ps).map byteLen).sum := by
  induction ps generalizing p with
  | nil => simp
  | cons q ps ih =>
    rw [intercalate_cons_cons, byteLen_append, byteLen_append, ih]
    simp only [map_cons, sum_cons, length_cons, Nat.cast_add, Nat.cast_one, mul_add, mul_one]
    omega

lemma checkParts_ok {total : Int} (h0 : 0 ≤ total)
    (h : total + (parts.map byteLen).sum ≤ maxStringBytes) : checkParts total parts = .ok () := by
  induction parts generalizing total with
  | nil => rfl
  | cons p parts ih =>
    have hp := byteLen_nonneg p
    have hparts := sum_byteLen_nonneg parts
    rw [map_cons, sum_cons] at h
    rw [checkParts, checkStringBytes, if_neg (by omega)]
    exact ih (by omega) (by omega)

lemma joinValues_bounded (sep : Text) (hne : parts ≠ [])
    (h : byteLen (sep.intercalate parts) ≤ maxStringBytes) :
    joinValues parts sep id = .ok (sep.intercalate parts) := by
  obtain ⟨p, ps, rfl⟩ := exists_cons_of_ne_nil hne
  rw [byteLen_intercalate] at h
  have hsum := sum_byteLen_nonneg (p :: ps)
  have hsep := byteLen_nonneg sep
  have hrepeat : checkRepeat (byteLen sep) ((p :: ps).length - 1) maxStringBytes = .ok (byteLen sep * ps.length) := by
    rw [checkRepeat, length_cons, Nat.cast_add, Nat.cast_one, add_sub_cancel_right]
    split_ifs with h0 hdiv
    · have : byteLen sep = 0 ∨ (ps.length : Int) = 0 := by omega
      rw [mul_eq_zero.mpr this]
    · rw [Int.tdiv_eq_ediv_of_nonneg (by decide), Int.ediv_lt_iff_lt_mul (by omega), mul_comm] at hdiv
      omega
    · rfl
  rw [joinValues, if_neg hne, hrepeat, map_id]
  change (checkParts (byteLen sep * ps.length) (p :: ps) >>= fun _ => .ok (sep.intercalate (p :: ps))) = _
  rw [checkParts_ok (mul_nonneg hsep (Int.natCast_nonneg _)) h]
  rfl

/-- `split` cuts at first and `rsplit` at last occurrences, equally often, and both join back. -/
theorem split_rsplit_join (s sep : Text) (hsep : sep ≠ []) (maxsplit : Int)
    (hlimit : (cutsMade s sep maxsplit : Int) + 1 ≤ maxElements) :
    ∃ left right, splitSep s sep maxsplit false = .ok left ∧ splitSep s sep maxsplit true = .ok right ∧
      (∀ pieces ∈ [left, right], pieces.length = cutsMade s sep maxsplit + 1 ∧ sep.intercalate pieces = s ∧
        (byteLen s ≤ maxStringBytes → joinValues pieces sep id = .ok s)) ∧
      Leftmost sep left ∧ (∀ p ∈ left.dropLast, ¬ sep <:+: p) ∧
      Rightmost sep right ∧ ∀ p ∈ right.tail, ¬ sep <:+: p := by
  have hle : cutsMade s sep maxsplit ≤ occurrences s sep := by
    rw [cutsMade]
    split_ifs <;> omega
  obtain ⟨hjoin, hleft⟩ := splitN_spec sep (cutsMade s sep maxsplit) s
  obtain ⟨hrjoin, hright⟩ := rsplitN_spec hsep (cutsMade s sep maxsplit) s
  have hlen : (splitN sep (cutsMade s sep maxsplit) s).length = cutsMade s sep maxsplit + 1 := by
    rw [length_splitN hsep _ le_rfl, ← occurrences, min_eq_left hle]
  have hrlen := length_rsplitN hsep hjoin hlen
  have hjoins : ∀ {pieces : List Text}, pieces ≠ [] → sep.intercalate pieces = s →
      byteLen s ≤ maxStringBytes → joinValues pieces sep id = .ok s := by
    rintro pieces hne rfl
    exact joinValues_bounded sep hne
  refine ⟨_, _, (splitSep_eq s hsep maxsplit false).trans (stringList_ok ?_),
    (splitSep_eq s hsep maxsplit true).trans (stringList_ok ?_), ?_, hleft, hleft.not_infix hsep, hright,
    hright.not_infix hsep⟩
  · simpa [hlen] using hlimit
  · simpa [hrlen] using hlimit
  · simpa using ⟨⟨hlen, hjoin, hjoins hleft.ne_nil hjoin⟩, hrlen, hrjoin, hjoins hright.ne_nil hrjoin⟩

/-- A separator that overlaps itself: one direction leaves `a` behind it, the other before. -/
theorem split_rsplit_join_aaa :
    splitSep "aaa".toList "aa".toList 1 false = .ok [[], ['a']] ∧
      splitSep "aaa".toList "aa".toList 1 true = .ok [['a'], []] ∧
      ∃ left, splitSep "aaa".toList "aa".toList 1 false = .ok left ∧ left.length = 2 := by
  refine ⟨by decide +kernel, by decide +kernel, ?_⟩
  obtain ⟨left, _, hleft, -, h, -⟩ := split_rsplit_join "aaa".toList "aa".toList (by decide) 1 (by decide +kernel)
  exact ⟨left, hleft, (h left mem_cons_self).1⟩

end Sqi.Expr
