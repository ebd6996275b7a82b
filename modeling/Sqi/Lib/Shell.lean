import Mathlib.Data.List.Basic

/-! How three command languages read a text, as far as words and literals go. -/

namespace Shell
open List

/-! ## The words of a POSIX shell -/

namespace Posix

def active : List Char :=
  ['\x00', '\n', '|', '&', ';', '<', '>', '(', ')', '$', '`', '*', '?', '[', '~']

inductive Mode where
  | unquoted (word : Option (List Char))
  | single (word : List Char)
  | double (word : List Char)
  | escape (word : List Char)
  | doubleEscape (word : List Char)

def read : Mode → List Char → Option (List (List Char))
  | .unquoted none, [] => some []
  | .unquoted (some w), [] => some [w]
  | _, [] => none
  | .unquoted w, c :: s =>
    if c = ' ' ∨ c = '\t' then
      match w with
      | none => read (.unquoted none) s
      | some w => (read (.unquoted none) s).map (w :: ·)
    else if c = '\'' then read (.single (w.getD [])) s
    else if c = '"' then read (.double (w.getD [])) s
    else if c = '\\' then read (.escape (w.getD [])) s
    else if c ∈ active ∨ (c = '#' ∧ w = none) then none
    else read (.unquoted (some (w.getD [] ++ [c]))) s
  | .single w, c :: s =>
    if c = '\'' then read (.unquoted (some w)) s
    else if c = '\x00' then none
    else read (.single (w ++ [c])) s
  | .double w, c :: s =>
    if c = '"' then read (.unquoted (some w)) s
    else if c = '\\' then read (.doubleEscape w) s
    else if c ∈ ['\x00', '$', '`'] then none
    else read (.double (w ++ [c])) s
  | .escape w, c :: s =>
    if c ∈ ['\x00', '\n'] then none else read (.unquoted (some (w ++ [c]))) s
  | .doubleEscape w, c :: s =>
    if c ∈ ['\x00', '\n'] then none
    else if c ∈ ['$', '`', '"', '\\'] then read (.double (w ++ [c])) s
    else read (.double (w ++ ['\\', c])) s

def words (s : List Char) : Option (List (List Char)) := read (.unquoted none) s

variable {w s : List Char} {c : Char}

lemma read_space : read (.unquoted (some w)) (' ' :: s) = (read (.unquoted none) s).map (w :: ·) := rfl
lemma read_quote {o : Option (List Char)} : read (.unquoted o) ('\'' :: s) = read (.single (o.getD [])) s := by
  cases o <;> simp [read]
lemma read_single_close : read (.single w) ('\'' :: s) = read (.unquoted (some w)) s := by simp [read]
lemma read_single (hc : c ≠ '\'') (h0 : c ≠ '\x00') :
    read (.single w) (c :: s) = read (.single (w ++ [c])) s := by
  simp [read, hc, h0]

end Posix

/-! ## The quotes of `cmd.exe` -/

namespace Cmd

inductive State where
  | outside
  /-- Behind a caret that makes the next character literal. -/
  | escaped
  | inside
deriving DecidableEq

def step : State → Char → State
  | .outside, c => if c = '^' then .escaped else if c = '"' then .inside else .outside
  | .escaped, _ => .outside
  | .inside, c => if c = '"' then .outside else .inside

def run (st : State) (s : List Char) : State := s.foldl step st
def isOperator (c : Char) : Bool := c ∈ ['&', '|', '<', '>']
def exposed : State → List Char → List Char
  | _, [] => []
  | st, c :: s =>
    (if st = .outside ∧ isOperator c then [c] else []) ++ exposed (step st c) s

lemma run_append (st : State) (s t : List Char) : run st (s ++ t) = run (run st s) t := foldl_append

lemma exposed_append (st : State) (s t : List Char) :
    exposed st (s ++ t) = exposed st s ++ exposed (run st s) t := by
  induction s generalizing st with
  | nil => rfl
  | cons c s ih =>
    rw [cons_append, exposed, exposed, ih, append_assoc]
    rfl

lemma run_inside {s : List Char} (h : '"' ∉ s) : run .inside s = .inside ∧ exposed .inside s = [] := by
  induction s with
  | nil => exact ⟨rfl, rfl⟩
  | cons c s ih =>
    obtain ⟨hc, hs⟩ := List.ne_and_not_mem_of_not_mem_cons h
    have stay : step .inside c = .inside := by simp [step, Ne.symm hc]
    obtain ⟨hr, he⟩ := ih hs
    refine ⟨?_, ?_⟩
    · show run (step .inside c) s = .inside
      rw [stay, hr]
    · rw [exposed, stay, he]
      rfl

lemma run_outside {s : List Char} (h : ∀ c ∈ s, c ≠ '"' ∧ c ≠ '^' ∧ isOperator c = false) :
    run .outside s = .outside ∧ exposed .outside s = [] := by
  induction s with
  | nil => exact ⟨rfl, rfl⟩
  | cons c s ih =>
    obtain ⟨hq, hcaret, hop⟩ := h c mem_cons_self
    have stay : step .outside c = .outside := by simp [step, hq, hcaret]
    obtain ⟨hr, he⟩ := ih fun d hd => h d (mem_cons_of_mem _ hd)
    refine ⟨?_, ?_⟩
    · show run (step .outside c) s = .outside
      rw [stay, hr]
    · rw [exposed, stay, he, hop]
      rfl

end Cmd

/-! ## The literals of PowerShell -/

namespace PowerShell

def isSingleQuote (c : Char) : Bool := c ∈ ['\'', '\u2018', '\u2019', '\u201A', '\u201B']

inductive Token where
  | str (s : List Char)
  | openArray
  | closeArray
  | comma
  /-- A character that is part of no literal. -/
  | other (c : Char)
deriving DecidableEq

def tokens : Option (List Char) → List Char → Option (List Token)
  | none, [] => some []
  | some _, [] => none
  | some w, c :: s =>
    if isSingleQuote c then
      match s with
      | [] => some [.str w]
      | d :: s =>
        if isSingleQuote d then tokens (some (w ++ [d])) s
        else (tokens none (d :: s)).map (.str w :: ·)
    else tokens (some (w ++ [c])) s
  | none, c :: s =>
    if c = ' ' then tokens none s
    else if isSingleQuote c then tokens (some []) s
    else if c = ',' then (tokens none s).map (.comma :: ·)
    else if c = ')' then (tokens none s).map (.closeArray :: ·)
    else
      match c, s with
      | '@', '(' :: s => (tokens none s).map (.openArray :: ·)
      | c, s => (tokens none s).map (.other c :: ·)

def NoQuoteHead (s : List Char) : Prop := ∀ c ∈ s.head?, isSingleQuote c = false

section
variable {w s : List Char} {c d : Char}

lemma tokens_space : tokens none (' ' :: s) = tokens none s := rfl
lemma tokens_comma : tokens none (',' :: s) = (tokens none s).map (.comma :: ·) := rfl
lemma tokens_close : tokens none (')' :: s) = (tokens none s).map (.closeArray :: ·) := rfl
lemma tokens_open : tokens none ('@' :: '(' :: s) = (tokens none s).map (.openArray :: ·) := rfl
lemma tokens_quote : tokens none ('\'' :: s) = tokens (some []) s := rfl
lemma tokens_char (hc : isSingleQuote c = false) : tokens (some w) (c :: s) = tokens (some (w ++ [c])) s := by
  rw [tokens.eq_def]
  simp [hc]
lemma tokens_doubled (hc : isSingleQuote c = true) (hd : isSingleQuote d = true) :
    tokens (some w) (c :: d :: s) = tokens (some (w ++ [d])) s := by
  rw [tokens.eq_def]
  simp [hc, hd]

lemma tokens_end (hc : isSingleQuote c = true) (hs : NoQuoteHead s) :
    tokens (some w) (c :: s) = (tokens none s).map (.str w :: ·) := by
  cases s with
  | nil =>
    rw [tokens.eq_def]
    simp [hc, tokens]
  | cons d s =>
    have hd := hs d rfl
    rw [tokens.eq_def]
    simp [hc, hd]

end

/-- Single quotes of any form. The lexer takes two for each one in a string and two around it. -/
def quotes (s : List Char) : Nat := s.countP isSingleQuote
def openQuotes : Option (List Char) → Nat
  | none => 0
  | some w => 1 + 2 * quotes w
def tokenQuotes : List Token → Nat
  | [] => 0
  | .str s :: ts => 2 + 2 * quotes s + tokenQuotes ts
  | _ :: ts => tokenQuotes ts

@[simp] lemma quotes_nil : quotes [] = 0 := rfl
@[simp] lemma quotes_cons (c : Char) (s : List Char) :
    quotes (c :: s) = quotes s + if isSingleQuote c then 1 else 0 := countP_cons
@[simp] lemma quotes_append (s t : List Char) : quotes (s ++ t) = quotes s + quotes t := countP_append

lemma tokenQuotes_append (ts us : List Token) : tokenQuotes (ts ++ us) = tokenQuotes ts + tokenQuotes us := by
  induction ts with
  | nil => simp [tokenQuotes]
  | cons t ts ih => cases t <;> simp [tokenQuotes, ih, Nat.add_assoc]

lemma quotes_of_tokens (o : Option (List Char)) (s : List Char) {ts : List Token} (h : tokens o s = some ts) :
    quotes s + openQuotes o = tokenQuotes ts := by
  fun_induction tokens o s generalizing ts with
  | case1 =>
    cases h
    rfl
  | case2 => cases h
  | case3 w c hc =>
    cases h
    simp only [quotes_cons, quotes_nil, openQuotes, tokenQuotes, hc, if_true]
    omega
  | case4 w c hc d s hd ih =>
    have rest := ih h
    simp only [quotes_cons, quotes_append, openQuotes, hc, hd, if_true, quotes_nil] at rest ⊢
    omega
  | case6 w c s hc ih => simpa [openQuotes, hc] using ih h
  | case8 c s _ hc ih => simpa [openQuotes, hc] using ih h
  | case7 s ih => simpa [isSingleQuote] using ih h
  | case5 w c hc d s hd ih =>
    obtain ⟨us, hus, rfl⟩ := Option.map_eq_some_iff.mp h
    have rest := ih hus
    simp_all [openQuotes, tokenQuotes]
    omega
  | case9 s _ hc ih | case10 s _ hc _ ih | case11 s _ hc _ _ ih | case12 c s _ _ hc _ _ ih =>
    obtain ⟨us, hus, rfl⟩ := Option.map_eq_some_iff.mp h
    simpa [tokenQuotes, hc, show isSingleQuote '(' = false from rfl] using ih hus

inductive Tree where
  | str (s : List Char)
  | arr (ts : List Tree)

def collect : Tree → Tree
  | .str s => .arr [.str s]
  | .arr ts => .arr ts

mutual

def parse : Nat → List Token → Option (Tree × List Token)
  | 0, _ => none
  | _ + 1, .str s :: ts => some (.str s, ts)
  | _ + 1, .openArray :: .closeArray :: ts => some (.arr [], ts)
  | n + 1, .openArray :: .comma :: ts =>
    match parse n ts with
    | some (t, .closeArray :: ts) => some (.arr [t], ts)
    | _ => none
  | n + 1, .openArray :: ts =>
    match parse n ts with
    | some (t, .closeArray :: ts) => some (collect t, ts)
    | some (t, .comma :: ts) => parseItems n [t] ts
    | _ => none
  | _ + 1, _ => none

def parseItems : Nat → List Tree → List Token → Option (Tree × List Token)
  | 0, _, _ => none
  | n + 1, done, ts =>
    match parse n ts with
    | some (t, .closeArray :: ts) => some (.arr (done ++ [t]), ts)
    | some (t, .comma :: ts) => parseItems n (done ++ [t]) ts
    | _ => none

end

def literal (s : List Char) : Option Tree :=
  match tokens none s with
  | none => none
  | some ts =>
    match parse ts.length ts with
    | some (t, []) => some t
    | _ => none

end PowerShell
end Shell
