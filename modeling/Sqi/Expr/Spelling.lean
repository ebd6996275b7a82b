import Sqi.Lib.Numeral
import Sqi.Expr.Printer

/-! The texts of tokens, and that the lexer reads them back. -/

namespace Sqi.Expr
open List GoText Word

section
variable {F : Type}

def escapeChar (c : Char) : Text :=
  if c = '\\' then ['\\', '\\'] else if c = '\'' then ['\\', '\''] else if c = '\n' then ['\\', 'n'] else [c]
def quoteString (s : Text) : Text := '\'' :: (s.flatMap escapeChar ++ ['\''])

def Token.text (spell : F → Text) : Token F → Text
  | .int i => (toString i).toList
  | .float f => spell f
  | .string s => quoteString s
  | .ident text => text
  | .symbol s => s.text

def Symbol.joins : Symbol → Char → Bool
  | .star, c => c = '*'
  | .slash, c => c = '/'
  | .lt, c | .gt, c => c = '='
  | .dot, c => c.isDigit
  | _, _ => false

def Token.joins : Token F → Char → Bool
  | .int _, c => isIdentPart c || c = '.'
  | .float _, c => isIdentPart c
  | .string _, c => isQuote c
  | .ident text, c => isIdentPart c || (isQuote c && (text = ['r'] || text = ['R']))
  | .symbol s, c => s.joins c

def Token.Apart (tok : Token F) (rest : Text) : Prop := ∀ c, rest.head? = some c → tok.joins c = false

inductive Renders (spell : F → Text) : List (Token F) → Text → Prop where
  | nil {gap : Text} (hgap : ∀ c ∈ gap, isBlank c = true) : Renders spell [] gap
  | cons {gap rest : Text} {tok : Token F} {toks : List (Token F)} (hgap : ∀ c ∈ gap, isBlank c = true)
      (hapart : tok.Apart rest) (h : Renders spell toks rest) :
      Renders spell (tok :: toks) (gap ++ (tok.text spell ++ rest))

def IsDigits (ds : Text) : Prop := ∀ c ∈ ds, c.isDigit = true
deriving Decidable

inductive IsFloatLiteral : Text → Prop where
  | fraction {whole digits : Text} (hne : whole ≠ []) (hwhole : IsDigits whole) (hdigits : IsDigits digits) :
      IsFloatLiteral (whole ++ '.' :: digits)
  | exponent {whole fraction sign digits : Text} {e : Char} (hne : whole ≠ []) (hwhole : IsDigits whole)
      (hfraction : fraction = [] ∨ ∃ ds, fraction = '.' :: ds ∧ IsDigits ds) (he : e = 'e' ∨ e = 'E')
      (hsign : sign = [] ∨ sign = ['+'] ∨ sign = ['-']) (hexp : digits ≠ []) (hdigits : IsDigits digits) :
      IsFloatLiteral (whole ++ (fraction ++ e :: (sign ++ digits)))

def Spelled (host : LexHost F) (spell : F → Text) (f : F) : Prop :=
  IsFloatLiteral (spell f) ∧ host.parseFloat (spell f) = .ok f

def Token.Wellformed (IsFloat : F → Prop) : Token F → Prop
  | .int i => 0 ≤ i ∧ IsInt i
  | .float f => IsFloat f
  | .ident text => isIdentifier text
  | .string _ | .symbol _ => True

def EndsBefore (p : Char → Bool) (rest : Text) : Prop := ∀ c, rest.head? = some c → p c = false

variable {p : Char → Bool} {rest text : Text} {c : Char} {host : LexHost F} {spell : F → Text} {q : Char}
  {s : Symbol} {ds : Text} {cs : Text} {d : Char}

lemma EndsBefore.mono {q : Char → Bool} (h : EndsBefore p rest)
    (hq : ∀ c, p c = false → q c = false) : EndsBefore q rest := fun c hc => hq c (h c hc)
lemma endsBefore_cons (h : p c = false) : EndsBefore p (c :: rest) := by
  rintro _ ⟨⟩
  exact h
lemma not_digit_of_not_part (h : isIdentPart c = false) : (c.isDigit || decide (c = '_')) = false := by
  simp only [isIdentPart, isIdentStart, Bool.or_eq_false_iff] at h
  simp [h]

lemma not_basePrefix_of_not_part (h : isIdentPart c = false) : isBasePrefix c = false := by
  cases hbase : isBasePrefix c with
  | false => rfl
  | true =>
    have hall : ∀ c ∈ ['x', 'X', 'o', 'O', 'b', 'B'], isIdentPart c = true := all_eq_true.mp (by decide)
    have hpart := hall c (by simpa [isBasePrefix] using hbase)
    rw [h] at hpart
    cases hpart

lemma not_basePrefix_of_digit (h : c.isDigit = true) : isBasePrefix c = false := by
  cases hbase : isBasePrefix c with
  | false => rfl
  | true =>
    have hall : ∀ c ∈ ['x', 'X', 'o', 'O', 'b', 'B'], c.isDigit = false := by simp
    have hdigit := hall c (by simpa [isBasePrefix] using hbase)
    rw [h] at hdigit
    cases hdigit

lemma scanDigits_append (hds : IsDigits ds)
    (hrest : EndsBefore (fun c => c.isDigit || decide (c = '_')) rest) :
    scanDigits Char.isDigit (ds ++ rest) = (ds, rest) :=
  span_append (fun c hc => by simp [hds c hc]) hrest

lemma scanFraction_none (h : EndsBefore (· = '.') rest) : scanFraction rest = ([], rest) := by
  unfold scanFraction
  split
  · exact absurd (h '.' rfl) (by decide)
  · rfl

lemma scanExponent_none (h : EndsBefore isIdentPart rest) : scanExponent rest = ([], rest) := by
  cases rest with
  | nil => rfl
  | cons c rest =>
    have hc := h c rfl
    rw [scanExponent, if_neg]
    rintro (rfl | rfl) <;> exact absurd hc (by decide)

lemma scanNumber_decimal {whole tail : Text} (hne : whole ≠ []) (hwhole : IsDigits whole)
    (htail : EndsBefore isBasePrefix tail) : scanNumber (whole ++ tail) = scanDecimal (whole ++ tail) := by
  unfold scanNumber
  split
  · rename_i base s heq
    rw [if_neg, heq]
    suffices hbase : isBasePrefix base = false by simp [hbase]
    cases whole with
    | nil => exact absurd rfl hne
    | cons d whole =>
      cases whole with
      | nil => exact htail base (by rw [cons_append, nil_append] at heq; rw [(List.cons.inj heq).2]; rfl)
      | cons d' whole =>
        obtain rfl : d' = base := (List.cons.inj (List.cons.inj heq).2).1
        exact not_basePrefix_of_digit (hwhole d' (by simp))
  · rfl

lemma scanNumber_int (hne : ds ≠ []) (hds : IsDigits ds) (hpart : EndsBefore isIdentPart rest)
    (hdot : EndsBefore (· = '.') rest) : scanNumber (ds ++ rest) = ⟨ds, rest, false, false⟩ := by
  rw [scanNumber_decimal hne hds (hpart.mono fun _ => not_basePrefix_of_not_part), scanDecimal,
    scanDigits_append hds (hpart.mono fun _ => not_digit_of_not_part)]
  simp [scanFraction_none hdot, scanExponent_none hpart]

lemma scanSign_append {sign digits : Text} (hsign : sign = [] ∨ sign = ['+'] ∨ sign = ['-'])
    (hd : d.isDigit = true) : scanSign (sign ++ d :: digits) = (sign, d :: digits) := by
  rcases hsign with rfl | rfl | rfl
  · unfold scanSign
    split
    · rename_i heq
      obtain rfl := (List.cons.inj heq).1
      cases hd
    · rename_i heq
      obtain rfl := (List.cons.inj heq).1
      cases hd
    · rfl
  · rfl
  · rfl

lemma scanExponent_append {sign digits : Text} {e : Char} (he : e = 'e' ∨ e = 'E')
    (hsign : sign = [] ∨ sign = ['+'] ∨ sign = ['-']) (hne : digits ≠ []) (hdigits : IsDigits digits)
    (hrest : EndsBefore isIdentPart rest) :
    scanExponent (e :: (sign ++ (digits ++ rest))) = (e :: (sign ++ digits), rest) := by
  have hrun := scanDigits_append hdigits (hrest.mono fun _ => not_digit_of_not_part)
  cases digits with
  | nil => exact absurd rfl hne
  | cons d digits =>
    have hd : d.isDigit = true := hdigits d mem_cons_self
    rw [cons_append] at hrun ⊢
    simp [scanExponent, he, scanSign_append hsign hd, hd, hrun]

lemma scanNumber_float (h : IsFloatLiteral text) (hrest : EndsBefore isIdentPart rest) :
    scanNumber (text ++ rest) = ⟨text, rest, true, false⟩ := by
  have hends := hrest.mono fun _ => not_digit_of_not_part
  cases h with
  | @fraction whole digits hne hwhole hdigits =>
    have hdot : scanDigits Char.isDigit (whole ++ '.' :: (digits ++ rest)) = (whole, '.' :: (digits ++ rest)) :=
      scanDigits_append hwhole (endsBefore_cons (by decide))
    rw [append_assoc, cons_append, scanNumber_decimal hne hwhole (endsBefore_cons (by decide)), scanDecimal, hdot]
    simp [scanFraction, scanDigits_append hdigits hends, scanExponent_none hrest]
  | @exponent whole fraction sign digits e hne hwhole hfraction he hsign hexp hdigits =>
    have hexponent := scanExponent_append he hsign hexp hdigits hrest
    have hmark : isBasePrefix e = false ∧ (e.isDigit || decide (e = '_')) = false ∧ decide (e = '.') = false := by
      rcases he with rfl | rfl <;> decide
    rcases hfraction with rfl | ⟨ds, rfl, hds⟩
    · have hwholeRun := scanDigits_append hwhole
        (@endsBefore_cons _ (sign ++ (digits ++ rest)) e hmark.2.1)
      have hno := scanFraction_none (@endsBefore_cons (· = '.') (sign ++ (digits ++ rest)) e hmark.2.2)
      have htext : whole ++ ([] ++ e :: (sign ++ digits)) ++ rest = whole ++ e :: (sign ++ (digits ++ rest)) := by simp
      rw [htext, scanNumber_decimal hne hwhole (endsBefore_cons hmark.1), scanDecimal, hwholeRun]
      simp [hno, hexponent]
    · have hwholeRun : scanDigits Char.isDigit (whole ++ '.' :: (ds ++ e :: (sign ++ (digits ++ rest)))) =
          (whole, '.' :: (ds ++ e :: (sign ++ (digits ++ rest)))) :=
        scanDigits_append hwhole (endsBefore_cons (by decide))
      have hrun := scanDigits_append hds (@endsBefore_cons _ (sign ++ (digits ++ rest)) e hmark.2.1)
      have htext : whole ++ ('.' :: ds ++ e :: (sign ++ digits)) ++ rest =
          whole ++ '.' :: (ds ++ e :: (sign ++ (digits ++ rest))) := by simp
      rw [htext, scanNumber_decimal hne hwhole (endsBefore_cons (by decide)), scanDecimal, hwholeRun]
      simp [scanFraction, hrun, hexponent]

lemma le_of_digitsValue {m v : Nat} (h : digitsValue m cs = some v) : m ≤ v := by
  induction cs generalizing m with
  | nil => exact le_of_eq (Option.some.inj h)
  | cons c cs ih =>
    rw [digitsValue] at h
    split at h
    · have := ih h
      omega
    · cases h

lemma parseDigits_of_digitsValue {m v : Nat} (h : digitsValue m cs = some v) (hv : v < 2 ^ 64) :
    parseDigits 10 m cs = .ok v := by
  induction cs generalizing m with
  | nil =>
    obtain rfl := Option.some.inj h
    rfl
  | cons c cs ih =>
    rw [digitsValue] at h
    split at h
    · rename_i hc
      have hle := le_of_digitsValue h
      have hdigit : digitOf c = some (c.toNat - 48) := by rw [digitOf, if_pos hc]; rfl
      have hlt : c.toNat - 48 < 10 := by
        simp only [Char.isDigit, Bool.and_eq_true, decide_eq_true_eq, UInt32.le_iff_toNat_le] at hc
        have : c.toNat ≤ 57 := hc.2
        omega
      rw [parseDigits, if_neg (isDigit_ne hc (by decide)), hdigit]
      simp only
      rw [if_neg (by omega), if_neg (by omega), Nat.mul_comm m 10]
      exact ih h
    · cases h

lemma splitBase_of_head {s : Text} (h : s.head? ≠ some '0') : splitBase s = (10, s) := by
  unfold splitBase
  split
  · exact absurd rfl h
  · exact absurd rfl h
  · rfl

lemma parseInt_repr {n : Nat} (hn : n < 2 ^ 63) : parseInt n.repr.toList = .ok (n : Int) := by
  rcases Nat.eq_zero_or_pos n with rfl | hpos
  · rfl
  have hvalue : digitsValue 0 n.repr.toList = some n := by
    have hunsigned := unsignedValue_repr n
    cases hs : n.repr.toList with
    | nil => exact absurd hs (repr_ne_nil n)
    | cons c cs => rwa [hs] at hunsigned
  have hunder : '_' ∉ n.repr.toList := fun h => absurd (isDigit_repr n '_' h) (by decide)
  rw [parseInt, splitBase_of_head (head_repr_ne_zero n hpos)]
  simp only [parseDigits_of_digitsValue hvalue (by omega), bind, Except.bind]
  rw [if_neg (fun h => hunder h.1), if_neg (by omega)]

lemma hasLeadingZeros_repr (n : Nat) : hasLeadingZeros n.repr.toList = false := by
  rcases Nat.eq_zero_or_pos n with rfl | hpos
  · rfl
  have hall : n.repr.toList.filter (· ≠ '_') = n.repr.toList :=
    filter_eq_self.mpr fun c hc => decide_eq_true (isDigit_ne (isDigit_repr n c hc) (by decide))
  have hhead : decide (n.repr.toList.head? = some '0') = false := decide_eq_false (head_repr_ne_zero n hpos)
  simp only [hasLeadingZeros, hall, hhead, Bool.and_false, Bool.false_and]

lemma lexNumber_int (host : LexHost F) {i : Int} (hi : 0 ≤ i ∧ IsInt i)
    (hrest : (Token.int i : Token F).Apart rest) :
    lexNumber host ((toString i).toList ++ rest) = .ok (.int i, rest) := by
  obtain ⟨n, rfl⟩ := Int.eq_ofNat_of_zero_le hi.1
  have hpart : EndsBefore isIdentPart rest := fun c hc => (Bool.or_eq_false_iff.mp (hrest c hc)).1
  have hdot : EndsBefore (· = '.') rest := fun c hc => (Bool.or_eq_false_iff.mp (hrest c hc)).2
  have htext : (toString (n : Int)).toList = n.repr.toList := by
    rw [toList_toString, if_pos hi.1]
    rfl
  have hlt : n < 2 ^ 63 := by
    have := hi.2.2
    simp only [maxInt] at this
    omega
  rw [htext, lexNumber, scanNumber_int (repr_ne_nil n) (isDigit_repr n) hpart hdot]
  simp only [Bool.false_eq_true, if_false, hasLeadingZeros_repr, Bool.and_false, parseInt_repr hlt]

structure Writes (q : Char) (text : Text) (c : Char) : Prop where
  ne_nil : text ≠ []
  head : text.head? ≠ some q
  scan : ∀ s, scanStringBody [q] (text ++ s) = (scanStringBody [q] s).map fun p => (text ++ p.1, p.2)
  decode : ∀ {F : Type} (host : LexHost F) n s,
    decodeEscapes host (n + 1) (text ++ s) = (decodeEscapes host n s).map (c :: ·)

def Plain (q c : Char) : Prop := c ≠ '\\' ∧ c ≠ q ∧ c ≠ '\n'

lemma scanStringBody_close (q : Char) (rest : Text) : scanStringBody [q] (q :: rest) = .ok ([], rest) := by
  rw [scanStringBody.eq_def]
  simp

lemma scanStringBody_plain (h : Plain q c) (s : Text) :
    scanStringBody [q] (c :: s) = (scanStringBody [q] s).map fun p => (c :: p.1, p.2) := by
  rw [scanStringBody.eq_def]
  simp only [prefix_cons_iff, h.1, h.2.2]
  cases scanStringBody [q] s <;> simp [Ne.symm h.2.1, bind, Except.bind, Except.map]

lemma scanStringBody_plains {text : Text} (h : ∀ c ∈ text, Plain q c) (s : Text) :
    scanStringBody [q] (text ++ s) = (scanStringBody [q] s).map fun p => (text ++ p.1, p.2) := by
  induction text with
  | nil => cases h : scanStringBody [q] s <;> simp [h, Except.map]
  | cons c text ih =>
    obtain ⟨hc, htext⟩ := forall_mem_cons.mp h
    rw [cons_append, scanStringBody_plain hc, ih htext]
    cases scanStringBody [q] s <;> rfl

lemma Writes.plain (h : Plain q c) : Writes q [c] c where
  ne_nil := by simp
  head := by simpa using h.2.1
  scan := scanStringBody_plains (by simpa using h)
  decode host n s := by
    rw [singleton_append, decodeEscapes]
    cases decodeEscapes host n s <;> simp [h.1, bind, Except.bind, Except.map]

lemma Writes.escape {tail : Text} (hq : q ≠ '\\') (htail : ∀ e ∈ tail, Plain q e)
    (hw : ∀ {F : Type} (host : LexHost F) s, writeEscape host (d :: (tail ++ s)) = .ok ([c], s)) :
    Writes q ('\\' :: d :: tail) c where
  ne_nil := by simp
  head := by simpa using Ne.symm hq
  scan s := by
    rw [cons_append, cons_append, scanStringBody.eq_def]
    simp only [scanStringBody_plains htail]
    cases scanStringBody [q] s <;> simp [hq, bind, Except.bind, Except.map]
  decode host n s := by
    rw [cons_append, cons_append, decodeEscapes]
    cases hs : decodeEscapes host n s <;> simp [hw, hs, bind, Except.bind, Except.map]

lemma escapeChar_writes (c : Char) : Writes '\'' (escapeChar c) c := by
  unfold escapeChar
  split_ifs with hslash hquote hline
  · subst hslash
    exact .escape (by decide) (by simp) fun _ _ => rfl
  · subst hquote
    exact .escape (by decide) (by simp) fun _ _ => rfl
  · subst hline
    exact .escape (by decide) (by simp) fun _ _ => rfl
  · exact .plain ⟨hslash, hquote, hline⟩

section
variable {q : Char} {esc : Char → Text} {s : Text}

lemma scanStringBody_written (h : ∀ c ∈ s, Writes q (esc c) c) (rest : Text) :
    scanStringBody [q] (s.flatMap esc ++ q :: rest) = .ok (s.flatMap esc, rest) := by
  induction s with
  | nil => exact scanStringBody_close q rest
  | cons c s ih =>
    obtain ⟨hc, hs⟩ := forall_mem_cons.mp h
    rw [flatMap_cons, append_assoc, hc.scan, ih hs]
    rfl

lemma decodeEscapes_written (host : LexHost F) (h : ∀ c ∈ s, Writes q (esc c) c) (n : Nat)
    (hn : (s.flatMap esc).length ≤ n) : decodeEscapes host n (s.flatMap esc) = .ok s := by
  induction s generalizing n with
  | nil => cases n <;> rfl
  | cons c s ih =>
    obtain ⟨hc, hs⟩ := forall_mem_cons.mp h
    have hpos := length_pos_iff.mpr hc.ne_nil
    rw [flatMap_cons, length_append] at hn
    obtain ⟨n, rfl⟩ : ∃ m, n = m + 1 := ⟨n - 1, by omega⟩
    rw [flatMap_cons, hc.decode, ih hs n (by omega)]
    rfl

lemma lexString_written (host : LexHost F) (hq : isQuote q = true) (h : ∀ c ∈ s, Writes q (esc c) c)
    (hrest : (Token.string s : Token F).Apart rest) :
    lexString host false (q :: (s.flatMap esc ++ q :: rest)) = .ok (.string s, rest) := by
  have hsingle : ¬ ([q, q] <+: s.flatMap esc ++ q :: rest) := by
    rintro ⟨tail, htail⟩
    cases s with
    | nil =>
      -- the quote that closes the empty string is not the second of three
      have hhead : rest = q :: tail := (List.cons.inj htail).2.symm
      have hjoin : isQuote q = false := hrest q (by rw [hhead]; rfl)
      exact absurd hq (by rw [hjoin]; decide)
    | cons c s =>
      obtain ⟨hne, hhead, _, _⟩ := h c mem_cons_self
      rw [flatMap_cons] at htail
      cases hc : esc c with
      | nil => exact hne hc
      | cons d text =>
        rw [hc] at htail hhead
        exact hhead (congrArg some (List.cons.inj htail).1.symm)
  have hvalue := decodeEscapes_written host h _ le_rfl
  rw [lexString, if_neg hsingle, scanStringBody_written h rest]
  simp only [Bool.false_eq_true, if_false, hvalue, bind, Except.bind]

end

lemma isPrefixOf_pair {a b : Char} (h : EndsBefore (· = b) rest) : [a, b].isPrefixOf (a :: rest) = false := by
  cases rest with
  | nil => simp [List.isPrefixOf]
  | cons c rest =>
    have hc : c ≠ b := of_decide_eq_false (h c rfl)
    simp [List.isPrefixOf, hc.symm]

lemma find_operator (hrest : EndsBefore s.joins rest) :
    operators.find? (fun op => op.text.isPrefixOf (s.text ++ rest)) = some s := by
  cases s with
  | star | slash | lt | gt =>
    simp only [operators, Symbol.text, cons_append, nil_append, find?_cons, isPrefixOf_pair hrest]
    rfl
  | _ => rfl

lemma isBlank_of_digit (h : c.isDigit = true) : isBlank c = false := by
  cases hb : isBlank c with
  | false => rfl
  | true =>
    have hall : ∀ c ∈ [' ', '\t', '\r', '\n', '\x0c', '\x0b'], c.isDigit = false := by simp
    have hdigit := hall c (by simpa [isBlank] using hb)
    rw [h] at hdigit
    cases hdigit

lemma lexToken_number (host : LexHost F) (hc : c.isDigit = true) (s : Text) :
    lexToken host c s = lexNumber host (c :: s) := by
  rw [lexToken, if_pos (.inl hc)]
lemma any_head_eq_false (h : EndsBefore p rest) : rest.head?.any p = false := by
  cases rest with
  | nil => rfl
  | cons c rest => exact h c rfl
lemma Symbol.text_head (s : Symbol) : ∃ c text, s.text = c :: text ∧ c.isDigit = false ∧ isQuote c = false ∧
    isIdentStart c = false ∧ isBlank c = false ∧ (c = '.' → s = .dot ∧ text = []) := by
  cases s <;> exact ⟨_, _, rfl, by decide⟩

lemma lexToken_symbol (host : LexHost F) (hrest : EndsBefore s.joins rest) :
    ∃ c text, s.text = c :: text ∧ isBlank c = false ∧ lexToken host c (text ++ rest) = .ok (.symbol s, rest) := by
  obtain ⟨c, text, htext, hdigit, hquote, hident, hblank, hdot⟩ := s.text_head
  refine ⟨c, text, htext, hblank, ?_⟩
  have hnumber : ¬ (c.isDigit = true ∨ (c = '.' ∧ (text ++ rest).head?.any Char.isDigit = true)) := by
    rintro (h | ⟨hc, h⟩)
    · rw [hdigit] at h
      cases h
    obtain ⟨rfl, rfl⟩ := hdot hc
    have hno : rest.head?.any Char.isDigit = false := any_head_eq_false hrest
    rw [nil_append, hno] at h
    cases h
  have hraw : ¬ ((c = 'r' ∨ c = 'R') ∧ (text ++ rest).head?.any isQuote = true) := by
    rintro ⟨rfl | rfl, -⟩ <;> cases hident
  have hfind := find_operator hrest
  rw [htext, cons_append] at hfind
  rw [lexToken, if_neg hnumber, if_neg (by simp [hquote]), if_neg hraw, if_neg (by simp [hident]), hfind]
  simp [htext]

lemma toNat_of_digit (h : c.isDigit = true) : 48 ≤ c.toNat ∧ c.toNat ≤ 57 := by
  simp only [Char.isDigit, Bool.and_eq_true, decide_eq_true_eq, UInt32.le_iff_toNat_le] at h
  exact h

lemma le_toNat_of_start (h : isIdentStart c = true) : 65 ≤ c.toNat := by
  delta isIdentStart Char.isAlpha Char.isUpper Char.isLower at h
  simp only [Bool.or_eq_true, Bool.and_eq_true, decide_eq_true_eq, UInt32.le_iff_toNat_le] at h
  rcases h with rfl | h | h
  · decide
  · exact h.1
  · exact le_trans (by decide) h.1

lemma not_quote_of_part (h : isIdentPart c = true) : isQuote c = false := by
  have hle : 48 ≤ c.toNat := by
    rcases Bool.or_eq_true_iff.mp h with h | h
    · exact le_trans (by decide) (le_toNat_of_start h)
    · exact (toNat_of_digit h).1
  have hne : ∀ d : Char, d.toNat < 48 → c ≠ d := by
    rintro d hd rfl
    omega
  simp [isQuote, hne '\'' (by decide), hne '"' (by decide)]

lemma lexToken_ident (host : LexHost F) (h : isIdentifier (c :: text) = true)
    (hrest : (Token.ident (c :: text) : Token F).Apart rest) :
    isBlank c = false ∧ lexToken host c (text ++ rest) = .ok (.ident (c :: text), rest) := by
  simp only [isIdentifier, Bool.and_eq_true, all_eq_true] at h
  obtain ⟨hstart, hparts⟩ := h
  have hpart : isIdentPart c = true := by rw [isIdentPart, hstart, Bool.true_or]
  have hends : EndsBefore isIdentPart rest := fun d hd => (Bool.or_eq_false_iff.mp (hrest d hd)).1
  have hspan : (c :: (text ++ rest)).span isIdentPart = (c :: text, rest) :=
    span_append (forall_mem_cons.mpr ⟨hpart, hparts⟩) hends
  have hne : ∀ d : Char, d.toNat < 65 → c ≠ d := by
    rintro d hd rfl
    have := le_toNat_of_start hstart
    omega
  have hnumber : ¬ (c.isDigit = true ∨ (c = '.' ∧ (text ++ rest).head?.any Char.isDigit = true)) := by
    rintro (h | ⟨h, -⟩)
    · have := toNat_of_digit h
      exact hne c (by omega) rfl
    · exact hne '.' (by decide) h
  have hraw : ¬ ((c = 'r' ∨ c = 'R') ∧ (text ++ rest).head?.any isQuote = true) := by
    rintro ⟨hr, h⟩
    have hno : EndsBefore isQuote (text ++ rest) := by
      cases text with
      | nil =>
        intro d hd
        have hjoin := (Bool.or_eq_false_iff.mp (hrest d hd)).2
        rcases hr with rfl | rfl <;> simpa using hjoin
      | cons d text => exact endsBefore_cons (not_quote_of_part (hparts d mem_cons_self))
    rw [any_head_eq_false hno] at h
    cases h
  have hblank : ∀ d ∈ [' ', '\t', '\r', '\n', '\x0c', '\x0b'], d.toNat < 65 := by simp
  refine ⟨?_, ?_⟩
  · rw [isBlank, decide_eq_false_iff_not]
    exact fun hmem => hne c (hblank c hmem) rfl
  · rw [lexToken, if_neg hnumber, if_neg (by simp [not_quote_of_part hpart]), if_neg hraw, if_pos hstart, hspan]

lemma IsFloatLiteral.head (h : IsFloatLiteral text) : ∃ c s, text = c :: s ∧ c.isDigit = true := by
  cases h with
  | @fraction whole digits hne hwhole =>
    cases whole with
    | nil => exact absurd rfl hne
    | cons c whole => exact ⟨c, _, rfl, hwhole c mem_cons_self⟩
  | @exponent whole fraction sign digits e hne hwhole =>
    cases whole with
    | nil => exact absurd rfl hne
    | cons c whole => exact ⟨c, _, rfl, hwhole c mem_cons_self⟩

lemma lexToken_text {tok : Token F} (htok : tok.Wellformed (Spelled host spell)) (hrest : tok.Apart rest) :
    ∃ c text, tok.text spell = c :: text ∧ isBlank c = false ∧ lexToken host c (text ++ rest) = .ok (tok, rest) := by
  cases tok with
  | int i =>
    have hlex := lexNumber_int host htok hrest
    have htext : (toString i).toList = i.toNat.repr.toList := by rw [toList_toString, if_pos htok.1]
    cases hs : (toString i).toList with
    | nil => exact absurd (htext.symm.trans hs) (repr_ne_nil _)
    | cons c text =>
      have hc : c.isDigit = true := isDigit_repr i.toNat c (by rw [← htext, hs]; exact mem_cons_self)
      rw [hs] at hlex
      exact ⟨c, text, hs, isBlank_of_digit hc, (lexToken_number host hc _).trans hlex⟩
  | float f =>
    have hlex : lexNumber host (spell f ++ rest) = .ok (.float f, rest) := by
      rw [lexNumber, scanNumber_float htok.1 hrest]
      simp [htok.2]
    obtain ⟨c, text, hs, hc⟩ := htok.1.head
    rw [hs] at hlex
    exact ⟨c, text, hs, isBlank_of_digit hc, (lexToken_number host hc _).trans hlex⟩
  | string s =>
    refine ⟨'\'', s.flatMap escapeChar ++ ['\''], rfl, by decide, ?_⟩
    rw [append_assoc]
    exact lexString_written host (by decide) (fun c _ => escapeChar_writes c) hrest
  | ident text =>
    cases text with
    | nil => cases htok
    | cons c text => exact ⟨c, text, rfl, lexToken_ident host htok hrest⟩
  | symbol s => exact lexToken_symbol host hrest

lemma tokenizeFrom_renders {toks : List (Token F)}
    (h : Renders spell toks text) (htoks : ∀ tok ∈ toks, tok.Wellformed (Spelled host spell)) (n : Nat)
    (hn : text.length ≤ n) : tokenizeFrom host n text = .ok toks := by
  induction h generalizing n with
  | nil hgap =>
    cases n with
    | zero => rfl
    | succ n =>
      rw [tokenizeFrom, nextToken, skipSpace, dropWhile_eq_nil_iff.mpr hgap]
      rfl
  | @cons gap rest tok toks hgap hapart h ih =>
    obtain ⟨htok, htoks⟩ := forall_mem_cons.mp htoks
    obtain ⟨c, text, htext, hblank, hlex⟩ := lexToken_text htok hapart
    rw [htext] at hn ⊢
    simp only [length_append, length_cons, cons_append] at hn
    obtain ⟨n, rfl⟩ : ∃ m, n = m + 1 := ⟨n - 1, by omega⟩
    have hskip : skipSpace (gap ++ (c :: text ++ rest)) = c :: (text ++ rest) := by
      rw [skipSpace, dropWhile_append_of_pos hgap, cons_append, dropWhile_cons_of_neg (by simp [hblank])]
    have hmore := ih htoks n (by omega)
    rw [tokenizeFrom, nextToken, hskip]
    simp [hlex, hmore, bind, Except.bind]

end
end Sqi.Expr
