import Mathlib.Data.List.Infix

/-! Go strings as the bytes they are, with the functions of package `strings` that
programs here call on text they did not decode. -/

namespace GoBytes

abbrev Bytes := List UInt8

def ascii (s : String) : Bytes := s.toList.map fun c => UInt8.ofNat c.toNat

def spaces : List Bytes :=
  [[0x09], [0x0A], [0x0B], [0x0C], [0x0D], [0x20], [0xC2, 0x85], [0xC2, 0xA0], [0xE1, 0x9A, 0x80],
    [0xE2, 0x80, 0x80], [0xE2, 0x80, 0x81], [0xE2, 0x80, 0x82], [0xE2, 0x80, 0x83],
    [0xE2, 0x80, 0x84], [0xE2, 0x80, 0x85], [0xE2, 0x80, 0x86], [0xE2, 0x80, 0x87],
    [0xE2, 0x80, 0x88], [0xE2, 0x80, 0x89], [0xE2, 0x80, 0x8A], [0xE2, 0x80, 0xA8],
    [0xE2, 0x80, 0xA9], [0xE2, 0x80, 0xAF], [0xE2, 0x81, 0x9F], [0xE3, 0x80, 0x80]]

def trimFront (ws : List Bytes) : Nat → Bytes → Bytes
  | 0, s => s
  | n + 1, s =>
    match ws.find? (· <+: s) with
    | some w => trimFront ws n (s.drop w.length)
    | none => s

def trimSpace (s : Bytes) : Bytes :=
  let front := trimFront spaces s.length s
  (trimFront (spaces.map List.reverse) front.length front.reverse).reverse
def cutPrefix (s p : Bytes) : Option Bytes := if p <+: s then some (s.drop p.length) else none
def cut (c : UInt8) : Bytes → Option (Bytes × Bytes)
  | [] => none
  | b :: s => if b = c then some ([], s) else (cut c s).map fun r => (b :: r.1, r.2)

/-! ## JSON strings -/

open List

/-- A string as `json.Marshal` writes it and a reader gets it back: a byte that begins no
character becomes U+FFFD. -/
def jsonLoop : Nat → Bytes → Bytes
  | 0, _ => []
  | _, [] => []
  | n + 1, b :: s =>
    match ByteArray.utf8DecodeChar? ⟨(b :: s).toArray⟩ 0 with
    | none => [0xEF, 0xBF, 0xBD] ++ jsonLoop n s
    | some c => (b :: s).take c.utf8Size ++ jsonLoop n ((b :: s).drop c.utf8Size)
def jsonText (s : Bytes) : Bytes := jsonLoop s.length s

def utf8 (t : List Char) : Bytes := t.flatMap String.utf8EncodeChar
def IsUTF8 (s : Bytes) : Prop := ∃ t, s = utf8 t

lemma utf8_append (t u : List Char) : utf8 (t ++ u) = utf8 t ++ utf8 u := by
  simp [utf8]

lemma length_utf8_singleton (c : Char) : (utf8 [c]).length = c.utf8Size := by
  simp [utf8]

lemma jsonLoop_utf8 (t : List Char) {n : Nat} (h : (utf8 t).length ≤ n) : jsonLoop n (utf8 t) = utf8 t := by
  induction t generalizing n with
  | nil => cases n <;> simp [jsonLoop, utf8]
  | cons c t ih =>
    have split : utf8 (c :: t) = utf8 [c] ++ utf8 t := utf8_append [c] t
    have size := length_utf8_singleton c
    have pos := c.utf8Size_pos
    have decode : ByteArray.utf8DecodeChar? ⟨(utf8 (c :: t)).toArray⟩ 0 = some c := by
      have bytes : (⟨(utf8 (c :: t)).toArray⟩ : ByteArray) = (c :: t).utf8Encode := by
        apply ByteArray.ext
        simp [utf8, utf8Encode]
      exact bytes ▸ utf8DecodeChar?_utf8Encode_cons
    rw [split, length_append] at h
    obtain ⟨b, s, hs⟩ := exists_cons_of_length_pos (show 0 < (utf8 (c :: t)).length by rw [split, length_append]; omega)
    cases n with
    | zero => omega
    | succ n =>
      rw [hs] at decode ⊢
      rw [jsonLoop, decode]
      dsimp only
      rw [← hs, split, ← size, take_left, drop_left, ih (by omega)]

lemma jsonText_of_isUTF8 {s : Bytes} (h : IsUTF8 s) : jsonText s = s := by
  obtain ⟨t, rfl⟩ := h
  exact jsonLoop_utf8 t (Nat.le_refl _)

lemma IsUTF8.intercalate {sep : Bytes} (hsep : IsUTF8 sep) {ls : List Bytes} (h : ∀ l ∈ ls, IsUTF8 l) :
    IsUTF8 (sep.intercalate ls) := by
  obtain ⟨u, rfl⟩ := hsep
  induction ls with
  | nil => exact ⟨[], rfl⟩
  | cons l ls ih =>
    obtain ⟨⟨t, rfl⟩, hls⟩ := forall_mem_cons.mp h
    obtain ⟨v, hv⟩ := ih hls
    cases ls with
    | nil => exact ⟨t, by simp⟩
    | cons l' ls =>
      refine ⟨t ++ (u ++ v), ?_⟩
      rw [utf8_append, utf8_append, ← hv]
      simp [List.intercalate]

end GoBytes
