import Sqi.Expr.Spelling

/-! The literals of `repr_py` and `repr_json` (`funcsreprdata.go`). -/

namespace Sqi.Expr
open GoText List Option

def hexText (width n : Nat) : Text := (Nat.toDigits 16 n).leftpad width '0'

section
variable (isPrint : Char → Bool)

def pyEscape (quote r : Char) : Text :=
  if r = quote then ['\\', r]
  else if r = '\\' then ['\\', '\\']
  else if r = '\n' then ['\\', 'n']
  else if r = '\r' then ['\\', 'r']
  else if r = '\t' then ['\\', 't']
  else if ¬ isPrint r ∧ r.toNat < 0x100 then '\\' :: 'x' :: hexText 2 r.toNat
  else if ¬ isPrint r ∧ r.toNat ≤ 0xFFFF then '\\' :: 'u' :: hexText 4 r.toNat
  else if ¬ isPrint r then '\\' :: 'U' :: hexText 8 r.toNat
  else [r]

def pyQuote (s : Text) : Text :=
  let quote := if '\'' ∈ s ∧ '"' ∉ s then '"' else '\''
  quote :: (s.flatMap (pyEscape isPrint quote) ++ [quote])
def reprPy (s : Text) : Except TooLarge Text := boundedString (pyQuote isPrint s)

end

def unitEscape (n : Nat) : Text := '\\' :: 'u' :: hexText 4 n

def jsonEscape (r : Char) : Text :=
  if r = '"' then ['\\', '"']
  else if r = '\\' then ['\\', '\\']
  else if r = '\x08' then ['\\', 'b']
  else if r = '\x0c' then ['\\', 'f']
  else if r = '\n' then ['\\', 'n']
  else if r = '\r' then ['\\', 'r']
  else if r = '\t' then ['\\', 't']
  else if r.toNat < 0x20 ∨ r.toNat = 0x7f then unitEscape r.toNat
  else if r.toNat < 0x80 then [r]
  else if 0xFFFF < r.toNat then
    unitEscape (0xD800 + ((r.toNat - 0x10000) >>> 10)) ++ unitEscape (0xDC00 + ((r.toNat - 0x10000) &&& 0x3FF))
  else unitEscape r.toNat

def jsonQuote (s : Text) : Text := '"' :: (s.flatMap jsonEscape ++ ['"'])
def reprJson (s : Text) : Except TooLarge Text := boundedString (jsonQuote s)

def jsonEscapes : List (Char × Char) :=
  [('"', '"'), ('\\', '\\'), ('/', '/'), ('b', '\x08'), ('f', '\x0c'), ('n', '\n'), ('r', '\r'), ('t', '\t')]

def jsonUnits : Text → Option (List Nat)
  | [] => none
  | c :: s =>
    if c = '"' then if s = [] then some [] else none
    else if c = '\\' then
      match s with
      | [] => none
      | e :: s =>
        if e = 'u' then
          match s with
          | c₁ :: c₂ :: c₃ :: c₄ :: s => do
            let u ← hexValue 0 [c₁, c₂, c₃, c₄]
            return u :: (← jsonUnits s)
          | _ => none
        else do
          let u ← jsonEscapes.lookup e
          return u.toNat :: (← jsonUnits s)
    else if c.toNat < 0x20 then none
    else return c.toNat :: (← jsonUnits s)

def joinSurrogates : List Nat → Option Text
  | [] => some []
  | u :: us =>
    if 0xD800 ≤ u ∧ u < 0xDC00 then
      match us with
      | [] => none
      | v :: us =>
        if 0xDC00 ≤ v ∧ v < 0xE000 then
          return Char.ofNat (0x10000 + (u - 0xD800) * 0x400 + (v - 0xDC00)) :: (← joinSurrogates us)
        else none
    else if 0xDC00 ≤ u ∧ u < 0xE000 then none
    else return Char.ofNat u :: (← joinSurrogates us)

def jsonString : Text → Option Text
  | '"' :: s => do joinSurrogates (← jsonUnits s)
  | _ => none

/-! ## Hexadecimal digits -/

lemma hexValue_append (n : Nat) (a b : Text) : hexValue n (a ++ b) = (hexValue n a).bind (hexValue · b) := by
  induction a generalizing n with
  | nil => rfl
  | cons c a ih =>
    rw [cons_append, hexValue, hexValue]
    cases digitOf c with
    | none => rfl
    | some d =>
      dsimp only
      split
      · exact ih _
      · rfl

lemma hexValue_digitChar {d : Nat} (hd : d < 16) (n : Nat) : hexValue n [d.digitChar] = some (n * 16 + d) := by
  have digit : ∀ d < 16, digitOf d.digitChar = some d := by decide
  simp [hexValue, digit d hd, hd]

lemma hexValue_toDigits (n : Nat) : hexValue 0 (Nat.toDigits 16 n) = some n := by
  induction n using Nat.strong_induction_on with
  | _ n ih =>
    by_cases h : n < 16
    · rw [Nat.toDigits_of_lt_base h, hexValue_digitChar h]
      simp
    · rw [Nat.toDigits_of_base_le (by decide) (by omega), hexValue_append, ih _ (by omega), bind_some,
        hexValue_digitChar (Nat.mod_lt _ (by decide))]
      exact congrArg some (Nat.div_add_mod' n 16)

lemma hexValue_hexText (width n : Nat) : hexValue 0 (hexText width n) = some n := by
  have zeros : ∀ k, hexValue 0 (replicate k '0') = some 0 := by
    intro k
    induction k with
    | zero => rfl
    | succ k ih => exact ih
  rw [hexText, leftpad, hexValue_append, zeros]
  exact hexValue_toDigits n

lemma length_hexText {width n : Nat} (hw : 0 < width) (hn : n < 16 ^ width) : (hexText width n).length = width := by
  rw [hexText, length_leftpad]
  exact Nat.max_eq_left ((Nat.length_toDigits_le_iff (by decide) hw).mpr hn)

lemma toDigits_all {p : Char → Prop} (hp : ∀ d < 16, p (Nat.digitChar d)) (n : Nat) :
    ∀ c ∈ Nat.toDigits 16 n, p c := by
  induction n using Nat.strong_induction_on with
  | _ n ih =>
    by_cases h : n < 16
    · rw [Nat.toDigits_of_lt_base h]
      simpa using hp n h
    · rw [Nat.toDigits_of_base_le (by decide) (by omega)]
      exact forall_mem_append.mpr ⟨ih _ (by omega), by simpa using hp _ (Nat.mod_lt n (by decide))⟩

lemma hexText_all {p : Char → Prop} (hp : ∀ d < 16, p (Nat.digitChar d)) (width n : Nat) :
    ∀ c ∈ hexText width n, p c := by
  refine forall_mem_append.mpr ⟨fun c hc => ?_, toDigits_all hp n⟩
  rw [eq_of_mem_replicate hc]
  exact hp 0 (by decide)

lemma takeBytes_append {text : Text} (h : ∀ c ∈ text, c.utf8Size = 1) (s : Text) :
    takeBytes text.length (text ++ s) = some text := by
  induction text with
  | nil => simp [takeBytes]
  | cons c text ih =>
    obtain ⟨hc, htext⟩ := forall_mem_cons.mp h
    simp [takeBytes, hc, ih htext]

lemma length_le_byteLen (s : Text) : (s.length : Int) ≤ byteLen s := by
  rw [byteLen, utf8Len, Int.ofNat_le]
  induction s with
  | nil => exact Nat.zero_le _
  | cons c s ih =>
    have := c.utf8Size_pos
    simp only [length_cons, map_cons, sum_cons]
    omega

lemma toNat_lt (c : Char) : c.toNat < 0x110000 ∧ ¬ (0xD800 ≤ c.toNat ∧ c.toNat ≤ 0xDFFF) := by
  have valid := c.valid
  simp only [UInt32.isValidChar, Nat.isValidChar] at valid
  change c.toNat < _ ∨ _ < c.toNat ∧ c.toNat < _ at valid
  omega

lemma writeHexEscape_hexText {width : Nat} (marker : Char) (hw : 0 < width) {c : Char}
    (hc : c.toNat < 16 ^ width) (s : Text) :
    writeHexEscape marker width (hexText width c.toNat ++ s) = .ok ([c], s) := by
  have hlen := length_hexText hw hc
  have htake := takeBytes_append (hexText_all (p := fun c => c.utf8Size = 1) (by decide) width c.toNat) s
  have hbytes := length_le_byteLen (hexText width c.toNat ++ s)
  rw [hlen] at htake
  rw [length_append, hlen] at hbytes
  have valid := toNat_lt c
  unfold writeHexEscape
  rw [if_neg (by push_cast at hbytes; omega), htake]
  simp only [hexValue_hexText]
  rw [if_neg (by omega), Char.ofNat_toNat, drop_left' rfl]

lemma pyEscape_writes (isPrint : Char → Bool) {quote : Char} (hq : quote = '\'' ∨ quote = '"')
    (c : Char) : Writes quote (pyEscape isPrint quote c) c := by
  have hslash : quote ≠ '\\' := by rcases hq with rfl | rfl <;> decide
  have digits : ∀ width n, ∀ d ∈ hexText width n, Plain quote d := by
    refine fun width n => hexText_all ?_ width n
    rcases hq with rfl | rfl <;> unfold Plain <;> decide
  unfold pyEscape
  split_ifs with hquote hback hline hreturn htab hsmall hwide hprint
  · refine .escape hslash (by simp) fun _ _ => ?_
    rcases hq with rfl | rfl <;> subst hquote <;> rfl
  · subst hback
    exact .escape hslash (by simp) fun _ _ => rfl
  · subst hline
    exact .escape hslash (by simp) fun _ _ => rfl
  · subst hreturn
    exact .escape hslash (by simp) fun _ _ => rfl
  · subst htab
    exact .escape hslash (by simp) fun _ _ => rfl
  · exact .escape hslash (digits 2 _) fun _ s => writeHexEscape_hexText 'x' (by decide) hsmall.2 s
  · exact .escape hslash (digits 4 _) fun _ s => writeHexEscape_hexText 'u' (by decide) (by omega) s
  · exact .plain ⟨hback, hquote, hline⟩
  · have := toNat_lt c
    exact .escape hslash (digits 8 _) fun _ s => writeHexEscape_hexText 'U' (by decide) (by omega) s

lemma tokenize_pyQuote {F : Type} (host : LexHost F) (isPrint : Char → Bool) (s : Text) :
    tokenize host (pyQuote isPrint s) = .ok [.string s] := by
  unfold pyQuote
  generalize hquote : (if '\'' ∈ s ∧ '"' ∉ s then '"' else '\'') = quote
  have hq : quote = '\'' ∨ quote = '"' := by
    subst hquote
    split
    · exact .inr rfl
    · exact .inl rfl
  have start : isBlank quote = false ∧ quote.isDigit = false ∧ quote ≠ '.' ∧ isQuote quote = true := by
    rcases hq with rfl | rfl <;> decide
  have hlex := lexString_written host start.2.2.2 (fun c (_ : c ∈ s) => pyEscape_writes isPrint hq c)
    (show (Token.string s : Token F).Apart [] by simp [Token.Apart])
  dsimp only
  rw [tokenize, length_cons, tokenizeFrom, nextToken, skipSpace, dropWhile_cons_of_neg (by simp [start.1])]
  dsimp only
  rw [lexToken, if_neg (by simp [start.2.1, start.2.2.1]), if_pos start.2.2.2, hlex]
  rw [length_append, length_singleton]
  rfl

/-! ## Reading the literals of `repr_json` -/

lemma jsonUnits_unitEscape {n : Nat} (hn : n < 0x10000) (s : Text) :
    jsonUnits (unitEscape n ++ s) = (jsonUnits s).map (n :: ·) := by
  have hvalue := hexValue_hexText 4 n
  have hlen := length_hexText (show 0 < 4 by decide) hn
  obtain ⟨a, b, c, d, htext⟩ : ∃ a b c d, hexText 4 n = [a, b, c, d] := length_eq_four.mp hlen
  rw [htext] at hvalue
  rw [unitEscape, htext, cons_append, cons_append, jsonUnits.eq_def]
  cases hs : jsonUnits s <;> simp [hvalue, hs]

def units (c : Char) : List Nat :=
  if 0xFFFF < c.toNat then [0xD800 + (c.toNat - 0x10000) / 0x400, 0xDC00 + (c.toNat - 0x10000) % 0x400]
  else [c.toNat]

lemma units_of_le {c : Char} (h : c.toNat ≤ 0xFFFF) : units c = [c.toNat] := if_neg (by omega)

lemma jsonEscape_cases (c : Char) :
    (∃ e, jsonEscape c = ['\\', e] ∧ e ≠ 'u' ∧ jsonEscapes.lookup e = some c ∧ c.toNat ≤ 0xFFFF ∧
      0x20 ≤ e.toNat ∧ e.toNat < 0x7f) ∨
      jsonEscape c = (units c).flatMap unitEscape ∨
      jsonEscape c = [c] ∧ c ≠ '"' ∧ c ≠ '\\' ∧ 0x20 ≤ c.toNat ∧ c.toNat < 0x7f := by
  generalize htext : jsonEscape c = text
  unfold jsonEscape at htext
  split_ifs at htext with h1 h2 h3 h4 h₅ h₆ h₇ h₈ h₉ h₁₀ <;> subst htext
  iterate 7
    · subst_vars
      exact .inl ⟨_, rfl, by decide, rfl, by decide⟩
  · rw [units_of_le (by omega)]
    exact .inr (.inl (by simp))
  · exact .inr (.inr ⟨rfl, h1, h2, by omega⟩)
  · rw [Nat.shiftRight_eq_div_pow, Nat.and_two_pow_sub_one_eq_mod _ 10, units, if_pos h₁₀]
    exact .inr (.inl (by simp))
  · rw [units_of_le (by omega)]
    exact .inr (.inl (by simp))

lemma units_lt (c : Char) : ∀ u ∈ units c, u < 0x10000 := by
  have hc := toNat_lt c
  unfold units
  split <;> simp only [forall_mem_cons, not_mem_nil, false_implies, implies_true, and_true] <;> omega

lemma jsonUnits_unitEscapes {us : List Nat} (h : ∀ u ∈ us, u < 0x10000) (s : Text) :
    jsonUnits (us.flatMap unitEscape ++ s) = (jsonUnits s).map (us ++ ·) := by
  induction us with
  | nil => simp
  | cons u us ih =>
    obtain ⟨hu, hus⟩ := forall_mem_cons.mp h
    rw [flatMap_cons, append_assoc, jsonUnits_unitEscape hu, ih hus, Option.map_map]
    rfl

lemma jsonUnits_jsonEscape (c : Char) (s : Text) :
    jsonUnits (jsonEscape c ++ s) = (jsonUnits s).map (units c ++ ·) := by
  rcases jsonEscape_cases c with ⟨e, h, hu, hname, hc, _⟩ | h | ⟨h, hquote, hslash, hlow, hhigh⟩
  · rw [h, cons_append, singleton_append, jsonUnits.eq_def, units_of_le hc]
    cases hs : jsonUnits s <;> simp [hu, hname, hs]
  · rw [h, jsonUnits_unitEscapes (units_lt c)]
  · rw [h, singleton_append, jsonUnits.eq_def, units_of_le (by omega)]
    cases hs : jsonUnits s <;> simp [hquote, hslash, Nat.not_lt.mpr hlow, hs]

lemma joinSurrogates_units (c : Char) (us : List Nat) :
    joinSurrogates (units c ++ us) = (joinSurrogates us).map (c :: ·) := by
  have hc := toNat_lt c
  unfold units
  split
  next h =>
    have e : 0x10000 + (c.toNat - 0x10000) / 0x400 * 0x400 + (c.toNat - 0x10000) % 0x400 = c.toNat := by omega
    rw [cons_append, joinSurrogates.eq_def]
    dsimp only
    rw [if_pos (by omega), cons_append, nil_append]
    dsimp only
    rw [if_pos (by omega), Nat.add_sub_cancel_left, Nat.add_sub_cancel_left, e, Char.ofNat_toNat]
    cases joinSurrogates us <;> rfl
  next h =>
    rw [singleton_append, joinSurrogates.eq_def]
    dsimp only
    rw [if_neg (by omega), if_neg (by omega), Char.ofNat_toNat]
    cases joinSurrogates us <;> rfl

lemma jsonString_jsonQuote (s : Text) : jsonString (jsonQuote s) = some s := by
  have hunits : ∀ s : Text, jsonUnits (s.flatMap jsonEscape ++ ['"']) = some (s.flatMap units) := by
    intro s
    induction s with
    | nil => rfl
    | cons c s ih => rw [flatMap_cons, append_assoc, jsonUnits_jsonEscape, ih, flatMap_cons, map_some]
  have hjoin : ∀ s : Text, joinSurrogates (s.flatMap units) = some s := by
    intro s
    induction s with
    | nil => rfl
    | cons c s ih => rw [flatMap_cons, joinSurrogates_units, ih, map_some]
  simp [jsonString, jsonQuote, hunits, hjoin]

lemma jsonQuote_printable (s : Text) : ∀ c ∈ jsonQuote s, 0x20 ≤ c.toNat ∧ c.toNat < 0x7f := by
  have digits := hexText_all (p := fun c => 0x20 ≤ c.toNat ∧ c.toNat < 0x7f) (by decide) 4
  have unit : ∀ n, ∀ c ∈ unitEscape n, 0x20 ≤ c.toNat ∧ c.toNat < 0x7f := fun n =>
    forall_mem_cons.mpr ⟨by decide, forall_mem_cons.mpr ⟨by decide, digits n⟩⟩
  have char : ∀ r, ∀ c ∈ jsonEscape r, 0x20 ≤ c.toNat ∧ c.toNat < 0x7f := by
    intro r c hc
    rcases jsonEscape_cases r with ⟨e, h, _, _, _, he⟩ | h | ⟨h, _, _, hr⟩ <;> rw [h] at hc
    · rcases mem_pair.mp hc with rfl | rfl
      · decide
      · exact he
    · obtain ⟨u, _, hc⟩ := mem_flatMap.mp hc
      exact unit u c hc
    · exact mem_singleton.mp hc ▸ hr
  intro c hc
  rcases mem_cons.mp hc with rfl | hc
  · decide
  rcases mem_append.mp hc with hc | hc
  · obtain ⟨r, _, hc⟩ := mem_flatMap.mp hc
    exact char r c hc
  · exact mem_singleton.mp hc ▸ by decide

/-- The text of `repr_py` is one token of the expression language, the string; that of `repr_json` is
of printable ASCII characters, and the string in JSON. -/
theorem repr_literals {F : Type} (host : LexHost F) (isPrint : Char → Bool) (s : Text) :
    (∀ text, reprPy isPrint s = .ok text → tokenize host text = .ok [.string s]) ∧
    ∀ text, reprJson s = .ok text →
      (∀ c ∈ text, 0x20 ≤ c.toNat ∧ c.toNat < 0x7f) ∧ jsonString text = some s := by
  refine ⟨fun text h => ?_, fun text h => ?_⟩
  · rw [boundedString_ok h]
    exact tokenize_pyQuote host isPrint s
  · rw [boundedString_ok h]
    exact ⟨jsonQuote_printable s, jsonString_jsonQuote s⟩

theorem repr_literals_apostrophe :
    (∃ text, reprPy (fun _ => true) "it's\\".toList = .ok text ∧
      tokenize (⟨fun _ => .error .badSyntax, fun _ => none⟩ : LexHost Unit) text = .ok [.string "it's\\".toList]) ∧
    ∃ text, reprJson ['\x08', '\u00e9'] = .ok text ∧ jsonString text = some ['\x08', '\u00e9'] := by
  refine ⟨⟨"\"it's\\\\\"".toList, by decide +kernel, ?_⟩, ⟨"\"\\b\\u00e9\"".toList, by decide +kernel, ?_⟩⟩
  · exact (repr_literals _ (fun _ => true) _).1 _ (by decide +kernel)
  · exact ((repr_literals (F := Unit) ⟨fun _ => .error .badSyntax, fun _ => none⟩ (fun _ => true) _).2 _
      (by decide +kernel)).2

end Sqi.Expr
