import Sqi.Lib.Program
import Sqi.Expr.Printer

/-! What each level of the grammar makes of tokens that a tighter level reads. -/

namespace Sqi.Expr
open GoText Descent Program

section
variable {F : Type} {toks rest : List (Token F)} {t : Node F}

@[simp] lemma keyword_word (v w : String) : keyword v (word w :: rest) = decide (w = v) := by
  simp [keyword, word, String.toList_inj]
@[simp] lemma keyword_symbol (v : String) (s : Symbol) : keyword v (.symbol s :: rest) = false := rfl
@[simp] lemma accept_symbol (s s' : Symbol) : accept s (.symbol s' :: rest) = if s' = s then some rest else none :=
  rfl
@[simp] lemma accept_word (s : Symbol) (w : String) : accept s (word w :: rest) = none := rfl
@[simp] lemma tableOperator_symbol (ops : Symbol → Option Op) (s : Symbol) :
    tableOperator ops (.symbol s :: rest) = (ops s).map fun op => (op, rest) := rfl
@[simp] lemma tableOperator_word (ops : Symbol → Option Op) (w : String) :
    tableOperator ops (word w :: rest) = none := rfl

def Symbol.opens : Symbol → Option Nat
  | .lBracket | .lParen | .dot => some 9
  | .doubleStar => some 8
  | .star | .slash | .doubleSlash | .percent => some 6
  | .plus | .minus => some 5
  | .lt | .gt | .le | .ge | .eq | .ne => some 4
  | _ => none

def opens : List (Token F) → Option Nat
  | .symbol s :: _ => s.opens
  | .ident text :: rest =>
    if text = "if".toList then some 0
    else if text = "or".toList then some 1
    else if text = "and".toList then some 2
    else if text = "in".toList ∨ (text = "not".toList ∧ keyword "in" rest) then some 4
    else none
  | _ => none

def Stops (level : Nat) (rest : List (Token F)) : Prop := ∀ m, opens rest = some m → m < level

variable {m level frames : Nat} {Ends : List (Token F) → Prop} {ops : Symbol → Option Op} {w : String}
  {k : Nat} {n : Nat}

lemma Stops.mono (h : Stops k rest) (hkm : k ≤ m) : Stops m rest :=
  fun i hi => Nat.lt_of_lt_of_le (h i hi) hkm
lemma Stops.ne (h : Stops level rest) (hm : level ≤ m) : opens rest ≠ some m :=
  fun e => absurd (h m e) (Nat.not_lt.mpr hm)
lemma stops_of_opens_none (h : opens rest = none) (level : Nat) : Stops level rest := by
  intro m hm
  rw [h] at hm
  cases hm

lemma stops_of_opens (h : opens rest = some m) (hm : m < level) : Stops level rest := by
  intro m' hm'
  rw [h] at hm'
  cases hm'
  exact hm

lemma stops_symbol {s : Symbol} (h : s.opens = none) (level : Nat) : Stops level (.symbol s :: rest) := by
  intro m hm
  rw [opens, h] at hm
  cases hm
lemma opens_symbol (s : Symbol) : opens (.symbol s :: rest) = s.opens := rfl
lemma opens_word (w : String) : opens (word w :: rest) =
    if w = "if" then some 0 else if w = "or" then some 1 else if w = "and" then some 2
    else if w = "in" ∨ (w = "not" ∧ keyword "in" rest) then some 4 else none := by
  simp only [opens, word, String.toList_inj]

lemma eq_word_of_keyword (h : keyword w toks = true) : ∃ rest, toks = word w :: rest := by
  cases toks with
  | nil => cases h
  | cons tok rest =>
    cases tok with
    | ident text =>
      obtain rfl : text = w.toList := by simpa [keyword] using h
      exact ⟨rest, rfl⟩
    | _ => cases h

lemma eq_symbol_of_tableOperator {op : Op} {rest : List (Token F)}
    (h : tableOperator ops toks = some (op, rest)) : ∃ s, toks = .symbol s :: rest ∧ ops s = some op := by
  cases toks with
  | nil => cases h
  | cons tok toks =>
    cases tok with
    | symbol s =>
      obtain ⟨op', hop, e⟩ := Option.map_eq_some_iff.mp h
      cases e
      exact ⟨s, rfl, hop⟩
    | _ => cases h

lemma Stops.tableOperator_eq (h : Stops level rest)
    (hops : ∀ s op, ops s = some op → s.opens = some level) : tableOperator ops rest = none := by
  cases hop : tableOperator ops rest with
  | none => rfl
  | some found =>
    obtain ⟨s, rfl, hs⟩ := eq_symbol_of_tableOperator hop
    exact absurd (hops s found.1 hs) (h.ne le_rfl)

lemma Stops.keyword_eq (h : Stops level rest)
    (hw : ∀ rest : List (Token F), opens (word w :: rest) = some level) : keyword w rest = false := by
  cases hk : keyword w rest with
  | false => rfl
  | true =>
    obtain ⟨rest, rfl⟩ := eq_word_of_keyword hk
    exact absurd (hw rest) (h.ne le_rfl)

lemma Stops.compareOperator_eq (h : Stops 4 rest) : compareOperator rest = none := by
  have htable : tableOperator compareOps rest = none := h.tableOperator_eq fun s op hs => by
    cases s <;> first | rfl | cases hs
  have hin : keyword "in" rest = false := h.keyword_eq fun rest => by simp [opens_word]
  have hnot : ¬ (keyword "not" rest = true ∧ keyword "in" rest.tail = true) := by
    rintro ⟨hk, hk'⟩
    obtain ⟨rest, rfl⟩ := eq_word_of_keyword hk
    exact h.ne le_rfl (by simpa [opens_word] using hk')
  rw [compareOperator, htable]
  simp [hin, hnot]

lemma Stops.trailer_eq (h : Stops 9 rest) (g : Grammar F) (x : Node F) : parseTrailer g x rest = none := by
  unfold parseTrailer
  split
  · exact absurd rfl (h.ne le_rfl)
  · exact absurd rfl (h.ne le_rfl)
  · exact absurd rfl (h.ne le_rfl)
  · rfl

lemma Stops.power_eq (h : Stops 8 rest) : accept .doubleStar rest = none := by
  unfold accept
  split
  · rename_i s rest
    refine if_neg ?_
    rintro rfl
    exact h.ne le_rfl rfl
  · rfl

def below : Nat → Option (Grammar F)
  | 0 => none
  | n + 1 => some (grammar n)

lemma grammar_eq (n : Nat) : (grammar n : Grammar F) = .above (below n) := by cases n <;> rfl

def levelParser (n : Nat) : Nat → Production F
  | 0 => parseConditional (below n)
  | 1 => parseOr (grammar n)
  | 2 => parseAnd (grammar n)
  | 3 => parseNot (below n)
  | 4 => parseCompare (below n)
  | 5 => parseAdd (below n)
  | 6 => parseMul (below n)
  | 7 => parseUnary (below n)
  | 8 => parsePower (below n)
  | _ => parsePostfix (below n)

lemma grammar_expr (n : Nat) : (grammar n : Grammar F).expr = levelParser n 0 := by
  rw [grammar_eq]
  rfl
lemma grammar_notExpr (n : Nat) : (grammar n : Grammar F).notExpr = levelParser n 3 := by
  rw [grammar_eq]
  rfl
lemma grammar_unaryExpr (n : Nat) : (grammar n : Grammar F).unaryExpr = levelParser n 7 := by
  rw [grammar_eq]
  rfl
lemma grammar_postfixExpr (n : Nat) : (grammar n : Grammar F).postfixExpr = levelParser n 9 := by
  rw [grammar_eq]
  rfl

def levelOperator : Nat → List (Token F) → Option (Op × List (Token F))
  | 1 => fun toks => if keyword "or" toks then some (.or, toks.tail) else none
  | 2 => fun toks => if keyword "and" toks then some (.and, toks.tail) else none
  | 5 => tableOperator addOps
  | _ => tableOperator mulOps

def levelNode : Nat → Op → Node F → Node F → Node F
  | 1 | 2 => .logical
  | _ => .binary
def leftLevels : List Nat := [1, 2, 5, 6]

lemma levelParser_left (n : Nat) (h : level ∈ leftLevels) :
    levelParser n level = parseLevel (levelOperator level) (levelNode level) (levelParser (F := F) n (level + 1)) := by
  simp only [leftLevels, List.mem_cons, List.not_mem_nil, or_false] at h
  rcases h with rfl | rfl | rfl | rfl
  · rfl
  · rw [levelParser, parseAnd, grammar_notExpr]
    rfl
  · rfl
  · rfl

def levelStep (n level : Nat) (left : Node F) (toks : List (Token F)) :
    Option (Except ParseError (Node F × List (Token F))) :=
  (levelOperator level toks).map fun (op, toks) => do
    let (right, rest) ← levelParser n (level + 1) toks
    .ok (levelNode level op left right, rest)

def ReadsAt (level frames : Nat) (toks : List (Token F)) (t : Node F) : Prop :=
  ∀ n, frames ≤ n → Reads (levelParser n level) (Stops level) toks t
def ReachesAt (level frames : Nat) (toks : List (Token F)) (t : Node F) : Prop :=
  ∀ n, frames ≤ n → Reaches (levelParser n level) (levelStep n level) (Stops (level + 1)) toks t

lemma ReadsAt.mono (h : ReadsAt level k toks t) (hkm : k ≤ m) : ReadsAt level m toks t :=
  fun n hn => h n (hkm.trans hn)

section
variable (hlevel : level ∈ leftLevels)
include hlevel

lemma ReadsAt.reaches (h : ReadsAt (level + 1) frames toks t) :
    ReachesAt level frames toks t := by
  intro n hn
  refine (h n hn).reaches id fun toks => ?_
  rw [levelParser_left n hlevel]
  rfl

lemma Stops.levelOperator_eq (h : Stops level rest) :
    levelOperator level rest = none := by
  simp only [leftLevels, List.mem_cons, List.not_mem_nil, or_false] at hlevel
  rcases hlevel with rfl | rfl | rfl | rfl
  · have hor : keyword "or" rest = false := h.keyword_eq fun rest => by simp [opens_word]
    simp [levelOperator, hor]
  · have hand : keyword "and" rest = false := h.keyword_eq fun rest => by simp [opens_word]
    simp [levelOperator, hand]
  · exact h.tableOperator_eq fun s op hs => by cases s <;> first | rfl | cases hs
  · exact h.tableOperator_eq fun s op hs => by cases s <;> first | rfl | cases hs

lemma ReachesAt.reads (h : ReachesAt level frames toks t) :
    ReadsAt level frames toks t := by
  intro n hn
  refine (h n hn).reads (fun rest hrest => hrest.mono (Nat.le_succ _)) fun rest hrest => ?_
  rw [levelStep, hrest.levelOperator_eq hlevel]
  rfl

end

/-! ## What a production does not start with -/

section
variable {g : Grammar F} {r : Node F × List (Token F)} {n : Nat}

def Opening (toks : List (Token F)) : Prop :=
  ∀ s ∈ [Symbol.rBracket, .rParen, .colon, .comma], accept s toks = none
def PrimaryHead (toks : List (Token F)) : Prop :=
  Opening toks ∧ tableOperator signOp toks = none ∧ keyword "not" toks = false

lemma head_of_parsePrimary (h : parsePrimary g toks = .ok r) : PrimaryHead toks := by
  unfold parsePrimary at h
  split at h
  · exact ⟨fun _ _ => rfl, rfl, rfl⟩
  · exact ⟨fun _ _ => rfl, rfl, rfl⟩
  · exact ⟨fun _ _ => rfl, rfl, rfl⟩
  · rename_i text rest
    refine ⟨fun _ _ => rfl, rfl, ?_⟩
    cases hk : keyword "not" (.ident text :: rest) with
    | false => rfl
    | true =>
      obtain rfl : text = "not".toList := by simpa [keyword] using hk
      cases h
  · exact ⟨by simp [Opening], rfl, rfl⟩
  · exact ⟨by simp [Opening], rfl, rfl⟩
  · cases h

lemma head_of_postfix (h : levelParser n 9 toks = .ok r) : PrimaryHead toks := by
  cases n with
  | zero => cases h
  | succ n =>
    obtain ⟨x, hx, -⟩ := except_bind_eq_ok.mp h
    exact head_of_parsePrimary hx

lemma head_of_power (h : levelParser n 8 toks = .ok r) : PrimaryHead toks := by
  cases n with
  | zero => cases h
  | succ n =>
    obtain ⟨x, hx, -⟩ := except_bind_eq_ok.mp h
    rw [grammar_postfixExpr] at hx
    exact head_of_postfix hx

lemma head_of_unary (h : levelParser n 7 toks = .ok r) : Opening toks ∧ keyword "not" toks = false := by
  change parseUnary (below n) toks = .ok r at h
  unfold parseUnary at h
  split at h
  · exact ⟨(head_of_power h).1, (head_of_power h).2.2⟩
  rename_i op rest hop
  obtain ⟨s, rfl, hs⟩ := eq_symbol_of_tableOperator hop
  refine ⟨?_, rfl⟩
  cases s <;> cases hs <;> simp [Opening]

lemma head_of_compare (h : levelParser n 4 toks = .ok r) : Opening toks ∧ keyword "not" toks = false := by
  -- the productions in between start with a sign's
  obtain ⟨x, hx, -⟩ := except_bind_eq_ok.mp h
  obtain ⟨x, hx, -⟩ := except_bind_eq_ok.mp hx
  obtain ⟨x, hx, -⟩ := except_bind_eq_ok.mp hx
  obtain ⟨x, hx, -⟩ := except_bind_eq_ok.mp hx
  exact head_of_unary hx

lemma head_of_not (h : levelParser n 3 toks = .ok r) : Opening toks := by
  change parseNot (below n) toks = .ok r at h
  unfold parseNot at h
  split at h
  · rename_i hk
    obtain ⟨rest, rfl⟩ := eq_word_of_keyword hk
    exact fun _ _ => rfl
  · exact (head_of_compare h).1

lemma head_of_expr (h : levelParser n 0 toks = .ok r) : Opening toks := by
  cases n with
  | zero => cases h
  | succ n =>
    obtain ⟨x, hx, -⟩ := except_bind_eq_ok.mp h
    obtain ⟨x, hx, -⟩ := except_bind_eq_ok.mp hx
    obtain ⟨x, hx, -⟩ := except_bind_eq_ok.mp hx
    rw [grammar_notExpr] at hx
    exact head_of_not hx

end

/-! ## From a level to the looser ones -/

def levelFrame (level : Nat) : Nat := if level = 0 ∨ level = 8 then 1 else 0

lemma ReadsAt.conditional (h : ReadsAt 1 frames toks t) : ReadsAt 0 (frames + 1) toks t := by
  intro n hn rest hrest
  obtain ⟨n, rfl⟩ : ∃ m, n = m + 1 := ⟨n - 1, by omega⟩
  have hor : parseOr (grammar n) (toks ++ rest) = .ok (t, rest) := h n (by omega) rest (hrest.mono (by omega))
  have hif : keyword "if" rest = false := hrest.keyword_eq fun rest => by simp [opens_word]
  change parseConditional (some (grammar n)) (toks ++ rest) = _
  simp [parseConditional, enter, hor, hif, bind, Except.bind]

lemma ReadsAt.negation (h : ReadsAt 4 frames toks t) : ReadsAt 3 frames toks t := by
  intro n hn rest hrest
  have hcompare : levelParser n 4 (toks ++ rest) = .ok (t, rest) := h n hn rest (hrest.mono (by omega))
  change parseNot (below n) (toks ++ rest) = _
  rw [parseNot, (head_of_compare hcompare).2]
  exact hcompare

def compareStep (n : Nat) (acc : List Op × List (Node F)) (toks : List (Token F)) :
    Option (Except ParseError ((List Op × List (Node F)) × List (Token F))) :=
  (compareOperator toks).map fun (op, toks) => do
    let (operand, rest) ← parseAdd (below n) toks
    .ok ((acc.1 ++ [op], acc.2 ++ [operand]), rest)

lemma ReadsAt.operand (h : ReadsAt 5 frames toks t) (hn : frames ≤ n) :
    Reaches (parseComparison (below n)) (compareStep n) (Stops 5) toks ([], [t]) :=
  (h n hn).reaches (fun t => ([], [t])) fun _ => rfl

lemma reads_comparison {ops : List Op} {operands : List (Node F)}
    (h : Reaches (parseComparison (below n)) (compareStep n) (Stops 5) toks (ops, operands)) :
    Reads (levelParser n 4) (Stops 4) toks (comparison ops operands) := by
  intro rest hrest
  have hread : Reads (parseComparison (below n)) (Stops 4) toks (ops, operands) := by
    refine h.reads (fun rest hrest => hrest.mono (by omega)) fun rest hrest => ?_
    rw [compareStep, hrest.compareOperator_eq]
    rfl
  change parseCompare (below n) (toks ++ rest) = _
  rw [parseCompare, hread rest hrest]
  rfl

lemma ReadsAt.comparison (h : ReadsAt 5 frames toks t) : ReadsAt 4 frames toks t :=
  fun _ hn => reads_comparison (h.operand hn)

lemma ReadsAt.sign (h : ReadsAt 8 frames toks t) : ReadsAt 7 frames toks t := by
  intro n hn rest hrest
  have hpower : levelParser n 8 (toks ++ rest) = .ok (t, rest) := h n hn rest (hrest.mono (by omega))
  change parseUnary (below n) (toks ++ rest) = _
  rw [parseUnary, (head_of_power hpower).2.1]
  exact hpower

lemma ReadsAt.power (h : ReadsAt 9 frames toks t) : ReadsAt 8 (frames + 1) toks t := by
  intro n hn rest hrest
  obtain ⟨n, rfl⟩ : ∃ m, n = m + 1 := ⟨n - 1, by omega⟩
  have hpostfix : (grammar n).postfixExpr (toks ++ rest) = .ok (t, rest) := by
    rw [grammar_postfixExpr]
    exact h n (by omega) rest (hrest.mono (by omega))
  change parsePower (some (grammar n)) (toks ++ rest) = _
  simp [parsePower, enter, hpostfix, hrest.power_eq, bind, Except.bind]

lemma ReadsAt.step (hlevel : level ≤ 8) (h : ReadsAt (level + 1) frames toks t) :
    ReadsAt level (frames + levelFrame level) toks t := by
  match level, hlevel with
  | 0, _ => exact h.conditional
  | 1, _ => exact (h.reaches (by decide)).reads (by decide)
  | 2, _ => exact (h.reaches (by decide)).reads (by decide)
  | 3, _ => exact h.negation
  | 4, _ => exact h.comparison
  | 5, _ => exact (h.reaches (by decide)).reads (by decide)
  | 6, _ => exact (h.reaches (by decide)).reads (by decide)
  | 7, _ => exact h.sign
  | 8, _ => exact h.power

lemma between_step : ∀ level ≤ 9, ∀ place < level,
    between place level = between (place + 1) level + levelFrame place := by
  decide

lemma ReadsAt.descend {place : Nat} (hplace : place ≤ level) (hlevel : level ≤ 9)
    (h : ReadsAt level frames toks t) : ReadsAt place (frames + between place level) toks t := by
  induction hplace using Nat.decreasingInduction with
  | self => refine h.mono (Nat.le_add_right _ _)
  | of_succ place hlt ih =>
    rw [between_step level hlevel place hlt, ← Nat.add_assoc]
    exact ih.step (by omega)

lemma ReadsAt.paren (h : ReadsAt 0 frames toks t) :
    ∀ n, frames ≤ n → Reads (parsePrimary (grammar n)) (fun _ => True)
      (.symbol .lParen :: (toks ++ [.symbol .rParen])) t := by
  intro n hn rest _
  have hexpr : (grammar n).expr (toks ++ .symbol .rParen :: rest) = .ok (t, .symbol .rParen :: rest) := by
    rw [grammar_expr]
    exact h n hn _ (stops_of_opens_none rfl 0)
  simp [parsePrimary, hexpr, expect, bind, Except.bind]

def TrailsAt (frames : Nat) (Ends : List (Token F) → Prop) (toks : List (Token F)) (t : Node F) : Prop :=
  ∀ n, frames ≤ n + 1 → Reaches (levelParser (n + 1) 9) (parseTrailer (grammar n)) Ends toks t

lemma trails_of_primary
    (h : ∀ n, frames ≤ n → Reads (parsePrimary (grammar n)) Ends toks t) : TrailsAt (frames + 1) Ends toks t :=
  fun n hn => (h n (by omega)).reaches id fun _ => rfl

lemma TrailsAt.reads (h : TrailsAt frames Ends toks t)
    (hpos : 0 < frames) (hends : ∀ rest, Stops 9 rest → Ends rest) : ReadsAt 9 frames toks t := by
  intro n hn
  obtain ⟨n, rfl⟩ : ∃ m, n = m + 1 := ⟨n - 1, by omega⟩
  exact (h n hn).reads hends fun rest hrest => hrest.trailer_eq _ _

lemma ReadsAt.pos (h : ReadsAt 9 frames toks t) : 0 < frames := by
  by_contra hzero
  have hread := h 0 (by omega) [] (stops_of_opens_none rfl 9)
  cases hread

end
end Sqi.Expr
