import Mathlib.Data.List.DropRight

/-! A reader of distinguished names in their string form (RFC 4514), and of templates of them in
which a hole stands for a whole attribute value. -/

namespace Dn
open List Option

abbrev Text := List Char

inductive Token where
  | raw (c : Char)
  | octet (b : UInt8)
  | hole
deriving DecidableEq

inductive Value where
  | string (octets : List UInt8)
  | hex (octets : List UInt8)
deriving DecidableEq

/-- Attribute types and values in order; a value is missing where the hole is. -/
abbrev Name := List (Text × Option Value)

def special : Text := [' ', '"', '#', '+', ',', ';', '<', '=', '>', '\\']

def hexDigit? (c : Char) : Option UInt8 :=
  if c.isDigit then some (c.toUInt8 - 48)
  else if 'a' ≤ c ∧ c ≤ 'f' then some (c.toUInt8 - 87)
  else if 'A' ≤ c ∧ c ≤ 'F' then some (c.toUInt8 - 55)
  else none

def scan : Text → Option (List Token)
  | [] => some []
  | c :: s =>
    if c ≠ '\\' then (scan s).map (.raw c :: ·)
    else
      match s with
      | [] => none
      | d :: s =>
        if d ∈ special then (scan s).map (.octet d.toUInt8 :: ·)
        else
          match s with
          | [] => none
          | e :: s =>
            match hexDigit? d, hexDigit? e with
            | some h, some l => (scan s).map (.octet (16 * h + l) :: ·)
            | _, _ => none

namespace Token

def octets : Token → List UInt8
  | raw c => String.utf8EncodeChar c
  | octet b => [b]
  | hole => []

/-- What may stand in a value: these characters only escaped. -/
def shown : Token → Bool
  | raw c => c ∉ ['"', '+', ',', ';', '<', '>', '\x00']
  | octet _ => true
  | hole => false
def space (t : Token) : Bool := t = raw ' '

end Token

def strip (v : List Token) : List Token := (v.dropWhile Token.space).rdropWhile Token.space

def hexPairs : List Token → Option (List UInt8)
  | [] => some []
  | .raw c :: .raw d :: s =>
    match hexDigit? c, hexDigit? d, hexPairs s with
    | some h, some l, some bs => some ((16 * h + l) :: bs)
    | _, _, _ => none
  | _ => none

def value (v : List Token) : Option (Option Value) :=
  if .hole ∈ v then if strip v = [.hole] then some none else none
  else
    some <$> match strip v with
      | .raw '#' :: s => if s = [] then none else (hexPairs s).map .hex
      | w => if w.all Token.shown then some (.string (w.flatMap Token.octets)) else none

/-- The reader: what it has read, the type it is in, and behind an equals sign the value. -/
structure State where
  name : Name
  typ : Text
  val : Option (List Token)

def State.close (s : State) : Option Name :=
  s.val.bind fun v => (value v).map fun o => s.name ++ [(s.typ, o)]

def step (s : State) (t : Token) : Option State :=
  match s.val, t with
  | some v, t =>
    if t = .raw ',' ∨ t = .raw '+' then s.close.map (⟨·, [], none⟩) else some { s with val := some (v ++ [t]) }
  | none, .raw c =>
    if c = '=' then if s.typ = [] then none else some { s with val := some [] }
    else if c.isAlphanum ∨ c = '-' ∨ c = '.' then some { s with typ := s.typ ++ [c] }
    else none
  | none, _ => none

def name (toks : List Token) : Option Name := (toks.foldlM step ⟨[], [], none⟩).bind State.close
def parse (s : Text) : Option Name := (scan s).bind name

/-- A template with one hole, between the two texts. -/
def template (before after : Text) : Option Name := do
  name ((← scan before) ++ .hole :: (← scan after))
def Name.fill (v : Value) (n : Name) : Name := n.map (Prod.map id fun o => some (o.getD v))

/-! ## Filling the hole -/

def fill (u : List Token) : Token → List Token
  | .hole => u
  | t => [t]

/-- Tokens that read as a string wherever a value is expected. -/
structure Plain (u : List Token) : Prop where
  shown : ∀ t ∈ u, t.shown
  head : ∀ t ∈ u.head?, t ≠ .raw ' ' ∧ t ≠ .raw '#'
  last : ∀ t ∈ u.getLast?, t ≠ .raw ' '

lemma scan_append {a : Text} {x : List Token} (h : scan a = some x) :
    .hole ∉ x ∧ ∀ b, scan (a ++ b) = (scan b).map (x ++ ·) := by
  fun_induction scan a generalizing x with
  | case1 =>
    obtain rfl := some.inj h
    simp
  | case2 c s hc ih =>
    obtain ⟨w, hw, rfl⟩ := map_eq_some_iff.mp h
    refine ⟨by simp [(ih hw).1], fun b => ?_⟩
    rw [cons_append, scan.eq_def]
    simp [hc, (ih hw).2, Function.comp_def]
  | case4 c hc d s hd ih =>
    obtain ⟨w, hw, rfl⟩ := map_eq_some_iff.mp h
    refine ⟨by simp [(ih hw).1], fun b => ?_⟩
    rw [cons_append, scan.eq_def]
    simp_all [Function.comp_def]
  | case6 c hc d hd e s h l hh hl ih =>
    obtain ⟨w, hw, rfl⟩ := map_eq_some_iff.mp h
    refine ⟨by simp [(ih hw).1], fun b => ?_⟩
    rw [cons_append, scan.eq_def]
    simp_all [Function.comp_def]
  | _ => simp at h

variable {u a b v : List Token}

lemma flatMap_fill (h : .hole ∉ v) : v.flatMap (fill u) = v := by
  induction v with
  | nil => rfl
  | cons t v ih =>
    rw [mem_cons, not_or] at h
    rw [flatMap_cons, ih h.2]
    cases t <;> first | rfl | exact absurd rfl h.1

lemma strip_spec (v : List Token) :
    ∃ a b, v = a ++ strip v ++ b ∧ (∀ t ∈ a, t.space) ∧ ∀ t ∈ b, t.space := by
  refine ⟨v.takeWhile Token.space, (v.dropWhile Token.space).rtakeWhile Token.space, ?_,
    fun t => mem_takeWhile_imp, fun t => mem_rtakeWhile_imp⟩
  rw [strip, append_assoc, rdropWhile_append_rtakeWhile, takeWhile_append_dropWhile]

lemma Plain.strip (hu : Plain u) (ha : ∀ t ∈ a, t.space) (hb : ∀ t ∈ b, t.space) :
    strip (a ++ u ++ b) = u := by
  rw [Dn.strip, append_assoc, dropWhile_append_of_pos ha]
  cases u with
  | nil => rw [nil_append, dropWhile_eq_nil_iff.mpr hb, rdropWhile_nil]
  | cons t u =>
    have front : ¬ t.space := by simpa [Token.space] using (hu.head t rfl).1
    rw [cons_append, dropWhile_cons_of_neg front, ← cons_append, rdropWhile, reverse_append,
      dropWhile_append_of_pos (by simpa using hb), ← rdropWhile_reverse, reverse_reverse,
      rdropWhile_eq_self_iff]
    intro hne e
    exact hu.last _ (getLast?_eq_some_getLast hne) (by simpa [Token.space] using e)

abbrev filled (u : List Token) : Value := .string (u.flatMap Token.octets)

def State.fill (u : List Token) (s : State) : State :=
  ⟨s.name.fill (filled u), s.typ, s.val.map (·.flatMap (Dn.fill u))⟩

lemma value_fill {o : Option Value} (hu : Plain u) (h : value v = some o) :
    value (v.flatMap (fill u)) = some (some (o.getD (filled u))) := by
  by_cases hv : .hole ∈ v
  · rw [value, if_pos hv] at h
    split at h
    · rename_i hs
      obtain rfl := some.inj h
      obtain ⟨a, b, e, ha, hb⟩ := strip_spec v
      have spaces : ∀ l : List Token, (∀ t ∈ l, t.space) → .hole ∉ l := fun l hl m => by
        simpa [Token.space] using hl _ m
      have image : v.flatMap (fill u) = a ++ u ++ b := by
        rw [e, hs, flatMap_append, flatMap_append, flatMap_fill (spaces a ha), flatMap_fill (spaces b hb)]
        simp [fill]
      have closed : .hole ∉ a ++ u ++ b := by
        simp only [mem_append, not_or]
        exact ⟨⟨spaces a ha, fun m => by simpa [Token.shown] using hu.shown _ m⟩, spaces b hb⟩
      rw [image, value, if_neg closed, hu.strip ha hb]
      split
      · exact absurd rfl (hu.head _ rfl).2
      · rw [if_pos (all_eq_true.mpr hu.shown)]
        rfl
    · cases h
  · rw [flatMap_fill hv, h]
    rw [value, if_neg hv] at h
    obtain ⟨w, -, rfl⟩ := map_eq_some_iff.mp h
    rfl

lemma State.close_fill {s : State} {n : Name} (hu : Plain u) (h : s.close = some n) :
    (s.fill u).close = some (n.fill (filled u)) := by
  obtain ⟨v, hv, h⟩ := bind_eq_some_iff.mp h
  obtain ⟨o, ho, rfl⟩ := map_eq_some_iff.mp h
  simp [close, State.fill, hv, value_fill hu ho, Name.fill]

lemma foldlM_value {w : List Token} (hw : ∀ t ∈ w, t ≠ .raw ',' ∧ t ≠ .raw '+') (n : Name) (typ : Text)
    (v : List Token) : w.foldlM step ⟨n, typ, some v⟩ = some ⟨n, typ, some (v ++ w)⟩ := by
  induction w generalizing v with
  | nil => simp
  | cons t w ih =>
    rw [forall_mem_cons] at hw
    simp [foldlM_cons, step, hw.1, ih hw.2]

lemma step_fill {s s' : State} {t : Token} (hu : Plain u) (h : step s t = some s') :
    (fill u t).foldlM step (s.fill u) = some (s'.fill u) := by
  have quiet : ∀ t ∈ u, t ≠ .raw ',' ∧ t ≠ .raw '+' := by
    intro t ht
    constructor <;> rintro rfl <;> simpa [Token.shown] using hu.shown _ ht
  obtain ⟨n, typ, v⟩ := s
  cases v with
  | none =>
    cases t with
    | raw c =>
      simp only [step] at h
      split_ifs at h <;> obtain rfl := some.inj h <;> simp_all [fill, State.fill, step]
    | _ => simp [step] at h
  | some v =>
    simp only [step] at h
    split at h
    · rename_i ht
      obtain ⟨m, hm, rfl⟩ := map_eq_some_iff.mp h
      have closed := State.close_fill hu hm
      rcases ht with rfl | rfl <;> simpa [fill, step, State.fill] using closed
    · rename_i ht
      obtain rfl := some.inj h
      cases t with
      | hole => simpa [fill, State.fill] using foldlM_value quiet _ _ _
      | _ => simp_all [fill, State.fill, step]

lemma name_fill {n : Name} (hu : Plain u) (h : name v = some n) :
    name (v.flatMap (fill u)) = some (n.fill (filled u)) := by
  have run : ∀ {s s' : State}, v.foldlM step s = some s' →
      (v.flatMap (fill u)).foldlM step (s.fill u) = some (s'.fill u) := by
    clear h
    induction v with
    | nil => simp_all
    | cons t v ih =>
      intro s s' h
      rw [foldlM_cons] at h
      obtain ⟨m, hm, h⟩ := bind_eq_some_iff.mp h
      rw [flatMap_cons, foldlM_append, step_fill hu hm]
      exact ih h
  obtain ⟨s, hs, hc⟩ := bind_eq_some_iff.mp h
  exact bind_eq_some_iff.mpr ⟨_, run hs, State.close_fill hu hc⟩

lemma parse_fill {before after s : Text} {n : Name} (hu : Plain u) (hs : scan s = some u)
    (h : template before after = some n) : parse (before ++ s ++ after) = some (n.fill (filled u)) := by
  simp only [template, bind_eq_bind, bind_eq_some_iff] at h
  obtain ⟨x, hx, y, hy, hn⟩ := h
  have image := name_fill hu hn
  rw [flatMap_append, flatMap_cons, flatMap_fill (scan_append hx).1, flatMap_fill (scan_append hy).1] at image
  rw [parse, append_assoc, (scan_append hx).2, (scan_append hs).2, hy]
  exact image

end Dn
