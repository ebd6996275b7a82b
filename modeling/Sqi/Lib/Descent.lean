import Mathlib.Data.List.Basic

/-! Recursive descent over a list of tokens. -/

namespace Descent
variable {τ ε α β : Type}

abbrev Parser (τ ε α : Type) := List τ → Except ε (α × List τ)

def loop (step : α → List τ → Option (Except ε (α × List τ))) : Nat → α → Parser τ ε α
  | 0, a, toks => .ok (a, toks)
  | n + 1, a, toks =>
    match step a toks with
    | none => .ok (a, toks)
    | some result => do
      let (a, rest) ← result
      loop step n a rest

def Reads (p : Parser τ ε α) (Ends : List τ → Prop) (toks : List τ) (a : α) : Prop :=
  ∀ rest, Ends rest → p (toks ++ rest) = .ok (a, rest)
def Reaches (p : Parser τ ε α) (step : α → List τ → Option (Except ε (α × List τ))) (Ends : List τ → Prop)
    (toks : List τ) (a : α) : Prop :=
  ∀ rest, Ends rest → ∃ n, rest.length ≤ n ∧ p (toks ++ rest) = loop step n a rest

variable {p : Parser τ ε α} {step : α → List τ → Option (Except ε (α × List τ))} {Ends Ends' : List τ → Prop}
  {toks more : List τ} {a b : α}

lemma Reads.reaches {first : Parser τ ε β} {b : β} (h : Reads first Ends toks b) (start : β → α)
    (hp : ∀ toks, p toks = (do
      let (b, rest) ← first toks
      loop step rest.length (start b) rest)) : Reaches p step Ends toks (start b) := by
  intro rest hrest
  refine ⟨rest.length, Nat.le_refl _, ?_⟩
  rw [hp, h rest hrest]
  rfl

lemma Reaches.turn (h : Reaches p step Ends toks a) (hmore : more ≠ [])
    (hends : ∀ rest, Ends' rest → Ends (more ++ rest))
    (hstep : ∀ rest, Ends' rest → step a (more ++ rest) = some (.ok (b, rest))) :
    Reaches p step Ends' (toks ++ more) b := by
  intro rest hrest
  obtain ⟨n, hn, hp⟩ := h (more ++ rest) (hends rest hrest)
  have hlen : 0 < more.length := List.length_pos_iff.mpr hmore
  rw [List.length_append] at hn
  obtain ⟨n, rfl⟩ : ∃ m, n = m + 1 := ⟨n - 1, by omega⟩
  refine ⟨n, by omega, ?_⟩
  rw [List.append_assoc, hp, loop, hstep rest hrest]
  rfl

lemma Reaches.reads (h : Reaches p step Ends toks a) (hends : ∀ rest, Ends' rest → Ends rest)
    (hstep : ∀ rest, Ends' rest → step a rest = none) : Reads p Ends' toks a := by
  intro rest hrest
  obtain ⟨n, -, hp⟩ := h rest (hends rest hrest)
  rw [hp]
  cases n with
  | zero => rfl
  | succ n => rw [loop, hstep rest hrest]

end Descent
