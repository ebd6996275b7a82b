import Mathlib.Data.List.Basic

/-! Subjects of a publish-subscribe broker: dot-separated tokens, and patterns in which
`*` stands for one token and a last `>` for one or more. -/

namespace Subject
open List

def tokens (s : String) : List String := (s.toList.splitOn '.').map String.ofList
def join (ts : List String) : String := ".".intercalate ts
def Plain (t : String) : Prop := '.' ∉ t.toList

variable {ts : List String}

lemma tokens_join (hplain : ∀ t ∈ ts, Plain t) (hne : ts ≠ []) : tokens (join ts) = ts := by
  unfold tokens join
  rw [String.toList_intercalate]
  have hdots : ∀ l ∈ ts.map String.toList, '.' ∉ l := by
    intro l hl
    obtain ⟨t, ht, rfl⟩ := mem_map.mp hl
    exact hplain t ht
  have hsplit := splitOn_intercalate '.' hdots (by simpa using hne)
  rw [show ".".toList = ['.'] from rfl, hsplit, map_map]
  simp

def matchTokens : List String → List String → Bool
  | [], [] => true
  | p :: ps, t :: ts => if p = ">" ∧ ps = [] then true else (p = "*" || p = t) && matchTokens ps ts
  | _, _ => false

def Matches (pattern subject : String) : Prop := matchTokens (tokens pattern) (tokens subject) = true
deriving Decidable

def Literal (t : String) : Prop := t ≠ "*" ∧ t ≠ ">"

lemma matchTokens_literal {p : String} (hp : Literal p) {ps : List String} :
    matchTokens (p :: ps) ts = true ↔ ∃ rest, ts = p :: rest ∧ matchTokens ps rest = true := by
  cases ts with
  | nil => simp [matchTokens]
  | cons t ts =>
    rw [matchTokens, if_neg fun h => hp.2 h.1]
    simp only [Bool.and_eq_true, Bool.or_eq_true, decide_eq_true_eq]
    constructor
    · rintro ⟨h, hrest⟩
      rcases h with h | rfl
      · exact absurd h hp.1
      · exact ⟨ts, rfl, hrest⟩
    · rintro ⟨rest, h, hrest⟩
      cases h
      exact ⟨.inr rfl, hrest⟩

lemma matchTokens_nil : matchTokens [] ts = true ↔ ts = [] := by cases ts <;> simp [matchTokens]
lemma matchTokens_star : matchTokens ["*"] ts = true ↔ ∃ t, ts = [t] := by
  cases ts with
  | nil => simp [matchTokens]
  | cons t ts => simp [matchTokens, matchTokens_nil]
lemma matchTokens_rest : matchTokens [">"] ts = true ↔ ts ≠ [] := by cases ts <;> simp [matchTokens]

lemma matchTokens_append {ps qs : List String} (hps : ∀ p ∈ ps, Literal p) :
    matchTokens (ps ++ qs) ts = true ↔ ∃ rest, ts = ps ++ rest ∧ matchTokens qs rest = true := by
  induction ps generalizing ts with
  | nil => simp
  | cons p ps ih =>
    obtain ⟨hp, hps⟩ := forall_mem_cons.mp hps
    rw [cons_append, matchTokens_literal hp]
    constructor
    · rintro ⟨rest, rfl, h⟩
      obtain ⟨rest', rfl, hrest⟩ := (ih hps).mp h
      exact ⟨rest', rfl, hrest⟩
    · rintro ⟨rest, rfl, h⟩
      exact ⟨ps ++ rest, rfl, (ih hps).mpr ⟨rest, rfl, h⟩⟩

end Subject
