import Sqi.Expr.Value
import Sqi.Lib.Replace
import Sqi.Lib.Shell

/-! The `repr_sh`, `repr_cmd` and `repr_pwsh` functions (`funcsreprshell.go`), which write a value as text
for a command line, and how the shells read that text. -/

namespace Sqi.Expr
open List GoText Replace Shell

/-! ## POSIX shells -/

def shellSafe (r : Char) : Prop :=
  ('a' ≤ r ∧ r ≤ 'z') ∨ ('A' ≤ r ∧ r ≤ 'Z') ∨ ('0' ≤ r ∧ r ≤ '9') ∨ r ∈ "_@%+=:,./-".toList
deriving Decidable

def shellQuote (s : Text) : Text :=
  if s = [] then "''".toList
  else if s.all fun r => shellSafe r then s
  else '\'' :: replaceAll ['\''] "'\"'\"'".toList s ++ ['\'']

def reprSh (s : Text) : Except TooLarge Text := boundedString (shellQuote s)
def reprShList (l : List Text) : Except TooLarge Text := joinValues l [' '] shellQuote

lemma shellSafe_plain {r : Char} (h : shellSafe r) :
    r ∉ [' ', '\t', '\'', '"', '\\', '#'] ∧ r ∉ Posix.active := by
  have bound : r.toNat < 128 := by
    rcases h with ⟨-, h⟩ | ⟨-, h⟩ | ⟨-, h⟩ | h
    · exact Nat.lt_of_le_of_lt (Char.le_def.mp h) (by decide)
    · exact Nat.lt_of_le_of_lt (Char.le_def.mp h) (by decide)
    · exact Nat.lt_of_le_of_lt (Char.le_def.mp h) (by decide)
    · have marks : "_@%+=:,./-".toList.all fun c => c.toNat < 128 := by decide
      exact of_decide_eq_true (List.all_eq_true.mp marks r h)
  have all : ∀ n < 128, shellSafe (Char.ofNat n) →
      Char.ofNat n ∉ [' ', '\t', '\'', '"', '\\', '#'] ∧ Char.ofNat n ∉ Posix.active := by
    decide +kernel
  have := all r.toNat bound
  rw [Char.ofNat_toNat] at this
  exact this h

lemma read_safe {r : Char} (h : shellSafe r) (w : Option Text) (t : Text) :
    Posix.read (.unquoted w) (r :: t) = Posix.read (.unquoted (some (w.getD [] ++ [r]))) t := by
  obtain ⟨plain, inactive⟩ := shellSafe_plain h
  simp only [List.mem_cons, List.not_mem_nil, or_false, not_or] at plain
  cases w <;> simp [Posix.read, plain, inactive]

variable {s : Text} {l : List Text} {rest : Text} {n : Nat}

lemma read_bare (h : ∀ r ∈ s, shellSafe r) (w t : Text) :
    Posix.read (.unquoted (some w)) (s ++ t) = Posix.read (.unquoted (some (w ++ s))) t := by
  induction s generalizing w with
  | nil => simp
  | cons r s ih =>
    rw [List.cons_append, read_safe (h r List.mem_cons_self), ih fun d hd => h d (List.mem_cons_of_mem _ hd)]
    simp

lemma read_escaped (h : '\x00' ∉ s) (w t : Text) :
    Posix.read (.single w) (replaceAll ['\''] "'\"'\"'".toList s ++ '\'' :: t) =
    Posix.read (.unquoted (some (w ++ s))) t := by
  rw [replaceAll_singleton]
  induction s generalizing w with
  | nil => simp [Posix.read_single_close]
  | cons c s ih =>
    obtain ⟨h0, hs⟩ := ne_and_not_mem_of_not_mem_cons h
    have rest := ih hs (w ++ [c])
    rw [append_assoc, singleton_append] at rest
    rw [flatMap_cons, append_assoc, ← rest]
    by_cases hc : c = '\''
    · subst hc
      simp [Posix.read]
    · rw [if_neg hc, singleton_append, Posix.read_single hc (Ne.symm h0)]

lemma read_shellQuote (h : '\x00' ∉ s) (t : Text) :
    Posix.read (.unquoted none) (shellQuote s ++ t) = Posix.read (.unquoted (some s)) t := by
  unfold shellQuote
  split
  · rename_i hs
    subst hs
    simp [Posix.read]
  split
  · rename_i hne hall
    have hsafe : ∀ r ∈ s, shellSafe r := fun r hr => of_decide_eq_true (all_eq_true.mp hall r hr)
    cases s with
    | nil => exact absurd rfl hne
    | cons r s =>
      rw [cons_append, read_safe (hsafe r mem_cons_self),
        read_bare fun d hd => hsafe d (mem_cons_of_mem _ hd)]
      rfl
  · rw [cons_append, cons_append, append_assoc, Posix.read_quote]
    exact read_escaped h [] t

lemma words_intercalate (h : ∀ s ∈ l, '\x00' ∉ s) :
    Posix.words ([' '].intercalate (l.map shellQuote)) = some l := by
  induction l with
  | nil => rfl
  | cons s l ih =>
    have hs := h s mem_cons_self
    have hl := ih fun s hs => h s (mem_cons_of_mem _ hs)
    cases l with
    | nil =>
      have := read_shellQuote hs []
      rw [append_nil] at this
      simp only [map_cons, map_nil, intercalate_singleton]
      exact this
    | cons s' l =>
      have split : [' '].intercalate ((s :: s' :: l).map shellQuote) =
          shellQuote s ++ ' ' :: [' '].intercalate ((s' :: l).map shellQuote) := by
        simp [List.intercalate]
      rw [split, Posix.words, read_shellQuote hs, Posix.read_space]
      rw [Posix.words] at hl
      rw [hl]
      rfl

/-- A POSIX shell reads the text of a string as one word, the string, and the text
of a list as its elements. -/
theorem reprSh_read :
    (∀ s text, '\x00' ∉ s → reprSh s = .ok text → Posix.words text = some [s]) ∧
    ∀ l text, (∀ s ∈ l, '\x00' ∉ s) → reprShList l = .ok text → Posix.words text = some l := by
  refine ⟨fun s text h htext => ?_, fun l text h htext => ?_⟩
  · rw [boundedString_ok htext]
    have := words_intercalate (l := [s]) (by simpa using h)
    simpa using this
  · rw [joinValues_ok htext]
    exact words_intercalate h

theorem reprSh_read_apostrophe :
    (∃ text, reprSh "it's $HOME".toList = .ok text ∧ Posix.words text = some ["it's $HOME".toList]) ∧
    ∃ text, reprShList ["".toList, "a;b".toList, "c".toList] = .ok text ∧
      Posix.words text = some ["".toList, "a;b".toList, "c".toList] := by
  refine ⟨⟨"'it'\"'\"'s $HOME'".toList, by decide +kernel, ?_⟩, ⟨"'' 'a;b' c".toList, by decide +kernel, ?_⟩⟩
  · exact reprSh_read.1 _ _ (by decide) (by decide +kernel)
  · exact reprSh_read.2 _ _ (by decide) (by decide +kernel)

/-! ## `cmd.exe` -/

def stripLines (s : Text) : Text := s.filter fun r => r ≠ '\n' ∧ r ≠ '\r'

def cmdEscape (s : Text) : Text :=
  s.flatMap fun r =>
    match r with
    | '^' => ['^', '^']
    | '"' => ['^', '"']
    | '%' => ['%', '%']
    | '!' => ['^', '^', '!']
    | r => [r]

def cmdQuote (s : Text) : Text :=
  let s := stripLines s
  if s ≠ [] ∧ s.all fun r => r ∉ "&|<>^\"()%! \t".toList then s
  else '"' :: cmdEscape s ++ ['"']

def reprCmd (s : Text) : Except TooLarge Text := boundedString (cmdQuote s)
def reprCmdList (l : List Text) : Except TooLarge Text := joinValues l [' '] cmdQuote

lemma cmdEscape_no_quote (h : '"' ∉ s) : '"' ∉ cmdEscape s := by
  unfold cmdEscape
  rw [mem_flatMap]
  rintro ⟨r, hr, hq⟩
  split at hq
  · simp at hq
  · exact h hr
  · simp at hq
  · simp at hq
  · rw [mem_singleton] at hq
    exact h (hq ▸ hr)

lemma run_cmdQuote (h : '"' ∉ s) :
    Cmd.run .outside (cmdQuote s) = .outside ∧ Cmd.exposed .outside (cmdQuote s) = [] := by
  unfold cmdQuote
  dsimp only
  split
  · rename_i bare
    refine Cmd.run_outside fun c hc => ?_
    have := of_decide_eq_true (List.all_eq_true.mp bare.2 c hc)
    simp only [show "&|<>^\"()%! \t".toList = ['&', '|', '<', '>', '^', '"', '(', ')', '%', '!', ' ', '\t'] from rfl,
      List.mem_cons, List.not_mem_nil, or_false, not_or] at this
    simp [Cmd.isOperator, this]
  · have strip : '"' ∉ stripLines s := fun hq => h (mem_filter.mp hq).1
    obtain ⟨hrun, hexp⟩ := Cmd.run_inside (cmdEscape_no_quote strip)
    have first : Cmd.step .outside '"' = .inside := rfl
    constructor
    · show Cmd.run (Cmd.step .outside '"') (cmdEscape (stripLines s) ++ ['"']) = .outside
      rw [Cmd.run_append, first, hrun]
      rfl
    · rw [List.cons_append, Cmd.exposed, first, Cmd.exposed_append, hrun, hexp]
      rfl

/-- A first double quote closes the quotation, and behind it every caret hides the next one. -/
lemma run_cmdEscape (s : Text) : Cmd.run .outside (cmdEscape s) = .outside ∧
    Cmd.run .inside (cmdEscape s) = if '"' ∈ s then .outside else .inside := by
  induction s with
  | nil => exact ⟨rfl, rfl⟩
  | cons c s ih =>
    have split : cmdEscape (c :: s) = cmdEscape [c] ++ cmdEscape s := by simp [cmdEscape]
    have first : Cmd.run .outside (cmdEscape [c]) = .outside ∧
        Cmd.run .inside (cmdEscape [c]) = if c = '"' then .outside else .inside := by
      unfold cmdEscape
      rw [flatMap_singleton]
      split <;> simp_all [Cmd.run, Cmd.step]
    rw [split, Cmd.run_append, Cmd.run_append, first.1, first.2]
    refine ⟨ih.1, ?_⟩
    by_cases hc : c = '"'
    · simp [hc, ih.1]
    · simp [hc, Ne.symm hc, ih.2]

lemma run_cmdQuote_quote (h : '"' ∈ s) : Cmd.run .outside (cmdQuote s) = .inside := by
  have strip : '"' ∈ stripLines s := mem_filter.mpr ⟨h, by decide⟩
  have special : ¬ (stripLines s ≠ [] ∧ (stripLines s).all fun r => r ∉ "&|<>^\"()%! \t".toList) := fun bare =>
    absurd (List.all_eq_true.mp bare.2 _ strip) (by decide)
  unfold cmdQuote
  dsimp only
  rw [if_neg special]
  show Cmd.run .inside (cmdEscape (stripLines s) ++ ['"']) = .inside
  rw [Cmd.run_append, (run_cmdEscape _).2, if_pos strip]
  rfl

lemma intercalate_cmdQuote (s s' : Text) (l : List Text) : [' '].intercalate ((s :: s' :: l).map cmdQuote) =
    cmdQuote s ++ ' ' :: [' '].intercalate ((s' :: l).map cmdQuote) := by
  simp [List.intercalate]

lemma run_intercalate_cmdQuote (h : ∀ s ∈ l, '"' ∉ s) :
    Cmd.run .outside ([' '].intercalate (l.map cmdQuote)) = .outside ∧
    Cmd.exposed .outside ([' '].intercalate (l.map cmdQuote)) = [] := by
  induction l with
  | nil => exact ⟨rfl, rfl⟩
  | cons s l ih =>
    obtain ⟨hrun, hexp⟩ := run_cmdQuote (h s mem_cons_self)
    obtain ⟨hrun', hexp'⟩ := ih fun s hs => h s (mem_cons_of_mem _ hs)
    cases l with
    | nil => simpa using ⟨hrun, hexp⟩
    | cons s' l =>
      have blank : Cmd.step .outside ' ' = .outside := rfl
      rw [intercalate_cmdQuote, Cmd.run_append, hrun, Cmd.exposed_append, hrun, hexp]
      refine ⟨hrun', ?_⟩
      rw [Cmd.exposed, blank, hexp']
      rfl

lemma exists_run_inside (h : ∃ s ∈ l, '"' ∈ s) :
    ∃ k, Cmd.run .outside ([' '].intercalate ((l.take k).map cmdQuote)) = .inside := by
  induction l with
  | nil => simp at h
  | cons s l ih =>
    by_cases hs : '"' ∈ s
    · exact ⟨1, by simpa using run_cmdQuote_quote hs⟩
    obtain ⟨k, hk⟩ := ih (by simpa [hs] using h)
    refine ⟨k + 1, ?_⟩
    rw [take_succ_cons]
    cases hl : l.take k with
    | nil =>
      rw [hl] at hk
      cases hk
    | cons s' l' =>
      rw [hl] at hk
      rw [intercalate_cmdQuote, Cmd.run_append, (run_cmdQuote hs).1]
      exact hk

/-- The text of a string, or of a list, exposes no operator and leaves the scan outside
of quotes behind every element exactly if there is no double quote in it. -/
theorem reprCmd_neutral (s : Text) (l : List Text) :
    (∀ text, reprCmd s = .ok text →
      (Cmd.exposed .outside text = [] ∧ Cmd.run .outside text = .outside ↔ '"' ∉ s)) ∧
    ∀ text, reprCmdList l = .ok text → (Cmd.exposed .outside text = [] ∧ Cmd.run .outside text = .outside ∧
      (∀ k, Cmd.run .outside ([' '].intercalate ((l.take k).map cmdQuote)) = .outside) ↔ ∀ s ∈ l, '"' ∉ s) := by
  refine ⟨fun text htext => ?_, fun text htext => ?_⟩
  · rw [boundedString_ok htext]
    refine ⟨fun h hs => ?_, fun hs => (run_cmdQuote hs).symm⟩
    rw [run_cmdQuote_quote hs] at h
    cases h.2
  rw [joinValues_ok htext]
  constructor
  · rintro ⟨-, -, hall⟩ s hs hq
    obtain ⟨k, hk⟩ := exists_run_inside ⟨s, hs, hq⟩
    rw [hall k] at hk
    cases hk
  · intro hl
    obtain ⟨hrun, hexp⟩ := run_intercalate_cmdQuote hl
    exact ⟨hexp, hrun, fun k => (run_intercalate_cmdQuote fun s hs => hl s (mem_of_mem_take hs)).1⟩

theorem reprCmd_neutral_operators :
    (∃ text, reprCmd "a & b^c".toList = .ok text ∧
      Cmd.exposed .outside text = [] ∧ Cmd.run .outside text = .outside) ∧
    ∃ text, reprCmdList ["x|y".toList, "z".toList] = .ok text ∧ Cmd.exposed .outside text = [] := by
  refine ⟨⟨"\"a & b^^c\"".toList, by decide +kernel, ?_⟩, ⟨"\"x|y\" z".toList, by decide +kernel, ?_⟩⟩
  · exact ((reprCmd_neutral "a & b^c".toList []).1 _ (by decide +kernel)).mpr (by decide)
  · exact (((reprCmd_neutral [] ["x|y".toList, "z".toList]).2 _ (by decide +kernel)).mpr (by decide)).1

/-- A double quote in the string closes the quotation, carets or not. -/
theorem reprCmd_exposes :
    reprCmd "\"&calc".toList = .ok "\"^\"&calc\"".toList ∧
      Cmd.exposed .outside "\"^\"&calc\"".toList = ['&'] ∧
      Cmd.run .outside "\"^\"&calc\"".toList = .inside := by
  decide +kernel

/-! ## PowerShell -/

def pwshQuote (s : Text) : Text := '\'' :: replaceAll ['\''] ['\'', '\''] s ++ ['\'']

section
variable {F : Type} (formatFloat : F → Text)

def floatText (f : F) (rendered : Text) : Text := if rendered = [] then formatFloat f else rendered
def pwshBool (b : Bool) : Text := if b then "$true".toList else "$false".toList
def pwshUnaryComma : List (Value F) → Text
  | [.list _ _] => [',']
  | _ => []

mutual

def pwshElement : Value F → Text
  | .bool b => pwshBool b
  | .int i => (toString i).toList
  | .float f rendered => floatText formatFloat f rendered
  | .null => "$null".toList
  | .list _ elems => "@(".toList ++ pwshUnaryComma elems ++ pwshElements elems ++ [')']
  | .string s => pwshQuote s
  | .path s _ => pwshQuote s
  | .rangeExpr s => pwshQuote s
  | .unresolved _ => pwshQuote []

def pwshElements : List (Value F) → Text
  | [] => []
  | [v] => pwshElement v
  | v :: w :: vs => pwshElement v ++ ", ".toList ++ pwshElements (w :: vs)

end

def reprPwsh : Value F → Option (Except TooLarge Text)
  | .string s => some (boundedString (pwshQuote s))
  | .path s _ => some (boundedString (pwshQuote s))
  | .rangeExpr s => some (boundedString (pwshQuote s))
  | .int i => some (.ok (toString i).toList)
  | .float f rendered => some (.ok (floatText formatFloat f rendered))
  | .bool b => some (.ok (pwshBool b))
  | .list _ elems =>
    some do
      let body ← joinValues elems ", ".toList (pwshElement formatFloat)
      boundedString ("@(".toList ++ pwshUnaryComma elems ++ body ++ [')'])
  | .null => none
  | .unresolved _ => none

end

/-! ### What PowerShell reads -/

mutual

def stringTree {F : Type} : Value F → Option PowerShell.Tree
  | .string s => some (.str s)
  | .list _ elems => (stringTrees elems).map .arr
  | _ => none

def stringTrees {F : Type} : List (Value F) → Option (List PowerShell.Tree)
  | [] => some []
  | v :: vs =>
    match stringTree v, stringTrees vs with
    | some t, some ts => some (t :: ts)
    | _, _ => none

end

open PowerShell

mutual

def treeTokens : Tree → List Token
  | .str s => [.str s]
  | .arr ts => .openArray :: (unaryComma ts ++ itemTokens ts ++ [.closeArray])
def itemTokens : List Tree → List Token
  | [] => []
  | [t] => treeTokens t
  | t :: u :: ts => treeTokens t ++ .comma :: itemTokens (u :: ts)
def unaryComma : List Tree → List Token
  | [.arr _] => [.comma]
  | _ => []

end

mutual

def treeTexts : Tree → List Text
  | .str s => [s]
  | .arr ts => itemTexts ts
def itemTexts : List Tree → List Text
  | [] => []
  | t :: ts => treeTexts t ++ itemTexts ts

end

def PlainQuotes (s : Text) : Prop := ∀ c ∈ s, c ∉ ['\u2018', '\u2019', '\u201A', '\u201B']

instance (s : Text) : Decidable (PlainQuotes s) := List.decidableBAll _ s

lemma isSingleQuote_of_plain (plain : PlainQuotes s) {c : Char} (hc : c ∈ s) (hq : c ≠ '\'') :
    isSingleQuote c = false := by
  have := plain c hc
  simp only [mem_cons, not_mem_nil, or_false, not_or] at this
  simp [isSingleQuote, hq, this]

lemma tokens_string (plain : PlainQuotes s) (head : NoQuoteHead rest) (w : Text) :
    tokens (some w) (replaceAll ['\''] ['\'', '\''] s ++ '\'' :: rest) =
    (tokens none rest).map (.str (w ++ s) :: ·) := by
  rw [replaceAll_singleton]
  induction s generalizing w with
  | nil =>
    rw [append_nil]
    exact tokens_end (by decide) head
  | cons c s ih =>
    have rest' := ih (fun d hd => plain d (mem_cons_of_mem _ hd)) (w ++ [c])
    rw [append_assoc, singleton_append] at rest'
    rw [flatMap_cons, append_assoc, ← rest']
    by_cases hc : c = '\''
    · subst hc
      exact tokens_doubled (by decide) (by decide)
    · rw [if_neg hc]
      exact tokens_char (isSingleQuote_of_plain plain mem_cons_self hc)

lemma tokens_pwshQuote (plain : PlainQuotes s) (head : NoQuoteHead rest) :
    tokens none (pwshQuote s ++ rest) = (tokens none rest).map (.str s :: ·) := by
  unfold pwshQuote
  rw [cons_append, cons_append, append_assoc, tokens_quote]
  exact tokens_string plain head []

section
variable {F : Type} (formatFloat : F → Text) {elems : List (Value F)} {ts : List Tree}

lemma stringTrees_cons {v : Value F} {vs : List (Value F)} (h : stringTrees (v :: vs) = some ts) :
    ∃ t us, stringTree v = some t ∧ stringTrees vs = some us ∧ ts = t :: us := by
  rw [stringTrees] at h
  split at h
  · rename_i t us ht hus
    cases h
    exact ⟨t, us, ht, hus, rfl⟩
  · cases h

lemma stringTree_list {elem : Ty} {t : Tree}
    (h : stringTree (.list elem elems) = some t) : ∃ ts, stringTrees elems = some ts ∧ t = .arr ts := by
  rw [stringTree, Option.map_eq_some_iff] at h
  obtain ⟨ts, hts, rfl⟩ := h
  exact ⟨ts, hts, rfl⟩

lemma tokens_unaryComma (h : stringTrees elems = some ts) (rest : Text) :
    tokens none (pwshUnaryComma elems ++ rest) = (tokens none rest).map (unaryComma ts ++ ·) := by
  have plain (hc : pwshUnaryComma elems = []) (hu : unaryComma ts = []) :
      tokens none (pwshUnaryComma elems ++ rest) = (tokens none rest).map (unaryComma ts ++ ·) := by
    simp [hc, hu]
  match elems with
  | [] =>
    cases h
    exact plain rfl rfl
  | v :: w :: vs =>
    obtain ⟨t, us, -, hus, rfl⟩ := stringTrees_cons h
    obtain ⟨u, us', -, -, rfl⟩ := stringTrees_cons hus
    exact plain (by cases v <;> rfl) (by cases t <;> rfl)
  | [v] =>
    obtain ⟨t, us, ht, hus, rfl⟩ := stringTrees_cons h
    cases hus
    cases v with
    | list elem elems =>
      obtain ⟨ts, -, rfl⟩ := stringTree_list ht
      rfl
    | string s =>
      cases ht
      exact plain rfl rfl
    | _ => cases ht

mutual

lemma tokens_pwshElement : ∀ (v : Value F) (t : Tree), stringTree v = some t →
    (∀ s ∈ treeTexts t, PlainQuotes s) → ∀ rest, NoQuoteHead rest →
      tokens none (pwshElement formatFloat v ++ rest) = (tokens none rest).map (treeTokens t ++ ·)
  | .string s, t, h, plain, rest, head => by
    cases h
    exact tokens_pwshQuote (plain s (by simp [treeTexts])) head
  | .list elem elems, t, h, plain, rest, head => by
    obtain ⟨ts, hts, rfl⟩ := stringTree_list h
    have close : NoQuoteHead (')' :: rest) := fun c hc => by
      cases hc
      rfl
    have items := tokens_pwshElements elems ts hts plain (')' :: rest) close
    rw [pwshElement, append_assoc, append_assoc, append_assoc]
    show tokens none ('@' :: '(' :: (pwshUnaryComma elems ++ (pwshElements formatFloat elems ++ ([')'] ++ rest)))) = _
    rw [tokens_open, tokens_unaryComma hts, singleton_append, items, tokens_close, treeTokens]
    cases tokens none rest with
    | none => rfl
    | some toks => simp
  | .bool _, _, h, _, _, _ => by cases h
  | .int _, _, h, _, _, _ => by cases h
  | .float _ _, _, h, _, _, _ => by cases h
  | .null, _, h, _, _, _ => by cases h
  | .path _ _, _, h, _, _, _ => by cases h
  | .rangeExpr _, _, h, _, _, _ => by cases h
  | .unresolved _, _, h, _, _, _ => by cases h

lemma tokens_pwshElements : ∀ (vs : List (Value F)) (ts : List Tree), stringTrees vs = some ts →
    (∀ s ∈ itemTexts ts, PlainQuotes s) → ∀ rest, NoQuoteHead rest →
      tokens none (pwshElements formatFloat vs ++ rest) = (tokens none rest).map (itemTokens ts ++ ·)
  | [], ts, h, _, rest, _ => by
    cases h
    simp [pwshElements, itemTokens]
  | [v], ts, h, plain, rest, head => by
    obtain ⟨t, us, ht, hus, rfl⟩ := stringTrees_cons h
    cases hus
    exact tokens_pwshElement v t ht (fun s hs => plain s (by simp [itemTexts, hs])) rest head
  | v :: w :: vs, ts, h, plain, rest, head => by
    obtain ⟨t, us, ht, hus, rfl⟩ := stringTrees_cons h
    have last := tokens_pwshElements (w :: vs) us hus
      (fun s hs => plain s (by simp [itemTexts, hs])) rest head
    obtain ⟨u, us', -, -, rfl⟩ := stringTrees_cons hus
    have comma : NoQuoteHead (", ".toList ++ (pwshElements formatFloat (w :: vs) ++ rest)) := fun c hc => by
      cases hc
      rfl
    have first := tokens_pwshElement v t ht (fun s hs => plain s (by simp [itemTexts, hs])) _ comma
    rw [pwshElements, append_assoc, append_assoc, first]
    show (tokens none (',' :: ' ' :: (pwshElements formatFloat (w :: vs) ++ rest))).map _ = _
    rw [tokens_comma, tokens_space, last, itemTokens]
    cases tokens none rest with
    | none => rfl
    | some toks => simp

end
end

/-! ### What the tokens denote -/

lemma treeTokens_head (t : Tree) (rest : List Token) :
    (∃ s, treeTokens t ++ rest = .str s :: rest) ∨ ∃ ts, treeTokens t ++ rest = .openArray :: ts := by
  cases t with
  | str s => exact .inl ⟨s, rfl⟩
  | arr ts => exact .inr ⟨_, rfl⟩

variable {t : Tree}

lemma parse_array_single {toks rest : List Token}
    (h : parse n (treeTokens t ++ toks) = some (t, .closeArray :: rest)) :
    parse (n + 1) (.openArray :: (treeTokens t ++ toks)) = some (collect t, rest) := by
  rcases treeTokens_head t toks with ⟨s, e⟩ | ⟨ts, e⟩
  · rw [e] at h ⊢
    simp [parse, h]
  · rw [e] at h ⊢
    simp [parse, h]

lemma parse_array_many {toks rest : List Token}
    (h : parse n (treeTokens t ++ toks) = some (t, .comma :: rest)) :
    parse (n + 1) (.openArray :: (treeTokens t ++ toks)) = parseItems n [t] rest := by
  rcases treeTokens_head t toks with ⟨s, e⟩ | ⟨ts, e⟩
  · rw [e] at h ⊢
    simp [parse, h]
  · rw [e] at h ⊢
    simp [parse, h]

mutual

lemma parse_treeTokens : ∀ (t : Tree) (n : Nat) (rest : List Token), (treeTokens t).length ≤ n →
    parse n (treeTokens t ++ rest) = some (t, rest)
  | .str s, n, rest, h => by
    cases n with
    | zero => simp [treeTokens] at h
    | succ n => rfl
  | .arr [], n, rest, h => by
    cases n with
    | zero => simp [treeTokens] at h
    | succ n => rfl
  | .arr [.str s], n, rest, h => by
    cases n with
    | zero => simp [treeTokens] at h
    | succ n =>
      have inner := parse_treeTokens (.str s) n (.closeArray :: rest) (by
        simp [treeTokens, itemTokens, unaryComma] at h ⊢
        omega)
      show parse (n + 1) (.openArray :: (treeTokens (.str s) ++ .closeArray :: rest)) = _
      exact parse_array_single inner
  | .arr [.arr ts], n, rest, h => by
    cases n with
    | zero => simp [treeTokens] at h
    | succ n =>
      have inner := parse_treeTokens (.arr ts) n (.closeArray :: rest) (by
        simp only [treeTokens, itemTokens, unaryComma, length_cons, length_append] at h ⊢
        omega)
      have e : treeTokens (.arr [.arr ts]) ++ rest =
          .openArray :: .comma :: (treeTokens (.arr ts) ++ .closeArray :: rest) := by
        simp [treeTokens, itemTokens, unaryComma]
      rw [e, parse, inner]
  | .arr (t :: u :: ts), n, rest, h => by
    cases n with
    | zero => simp [treeTokens] at h
    | succ n =>
      have hlen : (treeTokens t).length + (itemTokens (u :: ts)).length + 2 ≤ n := by
        have := h
        simp only [treeTokens, itemTokens, length_cons, length_append] at this
        omega
      have first := parse_treeTokens t n (.comma :: (itemTokens (u :: ts) ++ .closeArray :: rest)) (by omega)
      have items := parseItems_itemTokens u ts [t] n rest (by omega)
      have e : treeTokens (.arr (t :: u :: ts)) ++ rest =
          .openArray :: (treeTokens t ++ .comma :: (itemTokens (u :: ts) ++ .closeArray :: rest)) := by
        have hu : unaryComma (t :: u :: ts) = [] := by cases t <;> rfl
        simp [treeTokens, itemTokens, hu]
      rw [e, parse_array_many first]
      exact items

lemma parseItems_itemTokens : ∀ (t : Tree) (ts done : List Tree) (n : Nat) (rest : List Token),
    (itemTokens (t :: ts)).length < n →
      parseItems n done (itemTokens (t :: ts) ++ .closeArray :: rest) = some (.arr (done ++ t :: ts), rest)
  | t, [], done, n, rest, h => by
    cases n with
    | zero => omega
    | succ n =>
      have first := parse_treeTokens t n (.closeArray :: rest) (by simpa [itemTokens, Nat.lt_succ_iff] using h)
      rw [itemTokens, parseItems, first]
  | t, u :: ts, done, n, rest, h => by
    cases n with
    | zero => omega
    | succ n =>
      have hlen : (treeTokens t).length + (itemTokens (u :: ts)).length + 1 ≤ n := by
        have := h
        simp only [itemTokens, length_cons, length_append] at this
        omega
      have first := parse_treeTokens t n (.comma :: (itemTokens (u :: ts) ++ .closeArray :: rest)) (by omega)
      have items := parseItems_itemTokens u ts (done ++ [t]) n rest (by omega)
      rw [itemTokens, append_assoc, cons_append, parseItems, first]
      simpa using items

end
section
variable {F : Type} (formatFloat : F → Text)

lemma pwshElements_eq (vs : List (Value F)) :
    pwshElements formatFloat vs = ", ".toList.intercalate (vs.map (pwshElement formatFloat)) := by
  induction vs with
  | nil => rfl
  | cons v vs ih =>
    cases vs with
    | nil => simp [pwshElements]
    | cons w vs =>
      rw [pwshElements, ih]
      simp [List.intercalate]

lemma reprPwsh_eq {v : Value F} {t : Tree} (hv : stringTree v = some t) {text : Text}
    (h : reprPwsh formatFloat v = some (.ok text)) : text = pwshElement formatFloat v := by
  cases v with
  | string s => exact boundedString_ok (Option.some.inj h)
  | list elem elems =>
    rw [reprPwsh, Option.some.injEq] at h
    cases hj : joinValues elems ", ".toList (pwshElement formatFloat) with
    | error e =>
      rw [hj] at h
      cases h
    | ok body =>
      rw [hj] at h
      rw [boundedString_ok h, joinValues_ok hj, pwshElement, pwshElements_eq]
  | _ => cases hv

/-! ### A typographic quote is never read back -/

def typographic (s : Text) : Nat := s.countP (· ∈ ['\u2018', '\u2019', '\u201A', '\u201B'])

lemma quotes_pwshQuote (s : Text) : quotes (pwshQuote s) + typographic s = 2 + 2 * quotes s := by
  have body : quotes (replaceAll ['\''] ['\'', '\''] s) + typographic s = 2 * quotes s := by
    rw [replaceAll_singleton]
    induction s with
    | nil => rfl
    | cons c s ih =>
      have first : quotes (if c = '\'' then ['\'', '\''] else [c]) + typographic [c] = 2 * quotes [c] := by
        by_cases hc : c = '\''
        · subst hc
          rfl
        · simp only [typographic, quotes, countP_singleton, isSingleQuote, mem_cons, hc, false_or, if_false]
          split <;> rfl
      have hs : typographic ([c] ++ s) = typographic [c] + typographic s := countP_append
      have hq : quotes ([c] ++ s) = quotes [c] + quotes s := countP_append
      rw [singleton_append] at hs hq
      rw [flatMap_cons, quotes_append, hs, hq]
      omega
  have around : quotes (pwshQuote s) = 2 + quotes (replaceAll ['\''] ['\'', '\''] s) := by
    simp [pwshQuote, isSingleQuote]
    omega
  omega

mutual

lemma quotes_pwshElement : ∀ (v : Value F) (t : Tree), stringTree v = some t →
    quotes (pwshElement formatFloat v) + typographic (treeTexts t).flatten = tokenQuotes (treeTokens t)
  | .string s, t, h => by
    cases h
    simpa [treeTexts, treeTokens, tokenQuotes, pwshElement] using quotes_pwshQuote s
  | .list elem elems, t, h => by
    obtain ⟨ts, hts, rfl⟩ := stringTree_list h
    have items := quotes_pwshElements elems ts hts
    have comma : quotes (pwshUnaryComma elems) = 0 := by
      unfold pwshUnaryComma
      split <;> rfl
    have commaToken : tokenQuotes (unaryComma ts) = 0 := by
      unfold unaryComma
      split <;> rfl
    have around : quotes "@(".toList = 0 ∧ quotes [')'] = 0 ∧ tokenQuotes [.closeArray] = 0 := ⟨rfl, rfl, rfl⟩
    rw [pwshElement, treeTokens, treeTexts, tokenQuotes]
    · simp only [quotes_append, tokenQuotes_append]
      omega
    · nofun
  | .bool _, _, h => by cases h
  | .int _, _, h => by cases h
  | .float _ _, _, h => by cases h
  | .null, _, h => by cases h
  | .path _ _, _, h => by cases h
  | .rangeExpr _, _, h => by cases h
  | .unresolved _, _, h => by cases h

lemma quotes_pwshElements : ∀ (vs : List (Value F)) (ts : List Tree), stringTrees vs = some ts →
    quotes (pwshElements formatFloat vs) + typographic (itemTexts ts).flatten = tokenQuotes (itemTokens ts)
  | [], ts, h => by
    cases h
    rfl
  | [v], ts, h => by
    obtain ⟨t, us, ht, hus, rfl⟩ := stringTrees_cons h
    cases hus
    simpa [itemTexts, pwshElements, itemTokens] using quotes_pwshElement v t ht
  | v :: w :: vs, ts, h => by
    obtain ⟨t, us, ht, hus, rfl⟩ := stringTrees_cons h
    have first := quotes_pwshElement v t ht
    have last := quotes_pwshElements (w :: vs) us hus
    obtain ⟨u, us', -, -, rfl⟩ := stringTrees_cons hus
    have texts : typographic (itemTexts (t :: u :: us')).flatten =
        typographic (treeTexts t).flatten + typographic (itemTexts (u :: us')).flatten := by
      rw [itemTexts, flatten_append]
      exact countP_append
    have separator : quotes ", ".toList = 0 := rfl
    rw [pwshElements, itemTokens, quotes_append, quotes_append, separator, texts, tokenQuotes_append, tokenQuotes]
    · omega
    · nofun

end

/-- PowerShell reads the text of a string, or of a list of strings nested in any
way, as one literal that denotes it, with nothing else in the text but brackets and
commas, exactly if no string has a typographic single quote. -/
theorem reprPwsh_literal {v : Value F} {t : Tree} (hv : stringTree v = some t) {text : Text}
    (h : reprPwsh formatFloat v = some (.ok text)) :
    tokens none text = some (treeTokens t) ∧ literal text = some t ↔ ∀ s ∈ treeTexts t, PlainQuotes s := by
  rw [reprPwsh_eq formatFloat hv h]
  constructor
  · rintro ⟨htokens, -⟩ s hs c hc
    have read := quotes_of_tokens none _ htokens
    have written := quotes_pwshElement formatFloat v t hv
    have none : typographic (treeTexts t).flatten = 0 := by
      simp only [openQuotes] at read
      omega
    simpa using countP_eq_zero.mp none c (mem_flatten_of_mem hs hc)
  intro plain
  have toks := tokens_pwshElement formatFloat v t hv plain [] fun c hc => by cases hc
  have parsed := parse_treeTokens t _ [] (Nat.le_refl _)
  rw [append_nil] at toks parsed
  have htokens : tokens none (pwshElement formatFloat v) = some (treeTokens t) := by
    rw [toks]
    simp [tokens]
  refine ⟨htokens, ?_⟩
  rw [literal, htokens]
  dsimp only
  rw [parsed]

end

def nestedList : Value Unit := .list (.list .string) [.list .string [.string "it's".toList, .string "b".toList]]

theorem reprPwsh_literal_nestedList :
    reprPwsh (fun _ => []) nestedList = some (.ok "@(,@('it''s', 'b'))".toList) ∧
      literal "@(,@('it''s', 'b'))".toList = some (.arr [.arr [.str "it's".toList, .str "b".toList]]) := by
  have text : reprPwsh (fun _ => []) nestedList = some (.ok "@(,@('it''s', 'b'))".toList) := by decide +kernel
  have read := (reprPwsh_literal (fun _ => []) (v := nestedList) rfl text).mpr (by decide +kernel)
  exact ⟨text, read.2⟩

/-- A typographic quote ends the string: the command behind it is read as code. -/
theorem reprPwsh_ends_early :
    let input : Text := '\u2019' :: "; calc; ".toList ++ ['\u2019']
    reprPwsh (fun _ => []) (.string input : Value Unit) = some (.ok ('\'' :: input ++ ['\''])) ∧
      tokens none ('\'' :: input ++ ['\'']) =
        some (.str [] :: ";calc;".toList.map Token.other ++ [.str []]) := by
  decide +kernel

end Sqi.Expr
