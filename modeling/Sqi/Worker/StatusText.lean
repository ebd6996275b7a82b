import Mathlib.Data.List.DropRight
import Sqi.Lib.Text

/-! The status text of a progress report (`protocol/statustext.go`), which the worker and then
the server make safe to store. -/

namespace Sqi.StatusText
open GoText List

def maxStatusTextBytes : Nat := 1024

def isControl (r : Char) : Prop := r.val ≤ 0x1F ∨ (0x7F ≤ r.val ∧ r.val ≤ 0x9F)
deriving Decidable

/-- What one character becomes; none is dropped. -/
def statusRune (r : Char) : Option Char :=
  if r = '\t' ∨ r = '\n' ∨ r = '\r' then some ' ' else if isControl r then none else some r

/-- The loop, with what it has written and the bytes it has yet to read. -/
def sanitizeLoop (b : Text) (s : ByteArray) : Text :=
  if s.size = 0 then b
  else
    match s.utf8DecodeChar? 0 with
    | none => sanitizeLoop b (s.extract 1 s.size)
    | some c =>
      let rest := s.extract c.utf8Size s.size
      match statusRune c with
      | none => sanitizeLoop b rest
      | some r =>
        if b = [] ∧ isSpace r then sanitizeLoop b rest
        else if utf8Len b + r.utf8Size > maxStatusTextBytes then b
        else sanitizeLoop (b ++ [r]) rest
termination_by s.size
decreasing_by all_goals
  have := Char.utf8Size_pos
  grind [ByteArray.size_extract]

def sanitizeStatusText (s : ByteArray) : String :=
  String.ofList ((sanitizeLoop [] s).rdropWhile fun r => isSpace r)

/-- What the loop keeps of the text written so far. -/
structure Clean (b : Text) : Prop where
  short : utf8Len b ≤ maxStatusTextBytes
  shown : ∀ c ∈ b, ¬ isControl c
  front : ∀ c ∈ b.head?, ¬ isSpace c

variable {a b l : Text}

lemma size_utf8Encode (l : Text) : l.utf8Encode.size = utf8Len l := by
  induction l with
  | nil => simp [utf8Len]
  | cons c l ih =>
    rw [← singleton_append, utf8Encode_append, ByteArray.size_append, ih]
    simp [utf8Len, utf8Encode]

lemma Clean.start (h : Clean b) (hp : a <+: b) : Clean a := by
  obtain ⟨t, rfl⟩ := hp
  refine ⟨?_, fun c hc => h.shown c (mem_append_left _ hc), fun c hc => h.front c ?_⟩
  · have := h.short
    simp only [utf8Len, map_append, sum_append] at this ⊢
    omega
  · rw [head?_append, Option.mem_def.mp hc]
    rfl

lemma not_isControl_of_statusRune {c r : Char} (h : statusRune c = some r) : ¬ isControl r := by
  unfold statusRune at h
  split at h
  · cases h
    decide
  · split at h
    · cases h
    · cases h
      assumption

lemma Clean.write (h : Clean b) {r : Char} (hr : ¬ isControl r) (hs : ¬ (b = [] ∧ isSpace r))
    (hlen : ¬ utf8Len b + r.utf8Size > maxStatusTextBytes) : Clean (b ++ [r]) := by
  refine ⟨?_, fun c hc => ?_, fun c hc => ?_⟩
  · simpa [utf8Len] using hlen
  · rcases mem_append.mp hc with hc | hc
    · exact h.shown c hc
    · exact mem_singleton.mp hc ▸ hr
  · cases b with
    | nil =>
      cases hc
      exact fun hsp => hs ⟨rfl, hsp⟩
    | cons d b => exact h.front c hc

lemma Clean.loop (h : Clean b) (s : ByteArray) : Clean (sanitizeLoop b s) := by
  fun_induction sanitizeLoop b s with
  | case1 => exact h
  | case2 _ _ _ _ ih => exact ih h
  | case3 _ _ _ _ _ _ _ ih => exact ih h
  | case4 _ _ _ _ _ _ _ _ _ ih => exact ih h
  | case5 => exact h
  | case6 _ _ _ _ _ _ _ hr hs hlen ih => exact ih (h.write (not_isControl_of_statusRune hr) hs hlen)

lemma statusRune_of_not_isControl {c : Char} (h : ¬ isControl c) : statusRune c = some c := by
  have hblank : ¬ (c = '\t' ∨ c = '\n' ∨ c = '\r') := by rintro (rfl | rfl | rfl) <;> exact h (by decide)
  rw [statusRune, if_neg hblank, if_neg h]

lemma Clean.loop_eq (h : Clean (b ++ l)) : sanitizeLoop b l.utf8Encode = b ++ l := by
  induction l generalizing b with
  | nil =>
    rw [sanitizeLoop]
    simp
  | cons c l ih =>
    have hwrite : Clean (b ++ [c]) := h.start ⟨l, by simp⟩
    have hrune := statusRune_of_not_isControl (h.shown c (by simp))
    have hsplit : (c :: l).utf8Encode = [c].utf8Encode ++ l.utf8Encode := utf8Encode_append (l := [c])
    have hsize : [c].utf8Encode.size = c.utf8Size := size_utf8Encode [c]
    have hrest : (c :: l).utf8Encode.extract c.utf8Size (c :: l).utf8Encode.size = l.utf8Encode := by
      rw [hsplit, ByteArray.size_append]
      exact ByteArray.extract_append_eq_right hsize.symm rfl
    have hfront : ¬ (b = [] ∧ isSpace c) := by
      rintro ⟨rfl, hs⟩
      exact h.front c rfl hs
    have hlen := hwrite.short
    simp only [utf8Len, map_append, sum_append, map_singleton, sum_singleton] at hlen
    have hpos := c.utf8Size_pos
    have hne : ¬ (c :: l).utf8Encode.size = 0 := by
      rw [hsplit, ByteArray.size_append]
      omega
    rw [sanitizeLoop, if_neg hne]
    simp only [utf8DecodeChar?_utf8Encode_cons, hrune, hrest, if_neg hfront, utf8Len, if_neg (Nat.not_lt.mpr hlen)]
    simpa using ih (b := b ++ [c]) (by simpa using h)

/-- The text is safe to store, and to sanitize it again changes nothing. -/
theorem sanitizeStatusText_safe_and_stable (s : ByteArray) :
    (sanitizeStatusText s).toByteArray.IsValidUTF8 ∧
    (sanitizeStatusText s).toByteArray.size ≤ maxStatusTextBytes ∧
    (∀ c ∈ (sanitizeStatusText s).toList, ¬ isControl c) ∧
    (∀ c ∈ (sanitizeStatusText s).toList.head?, ¬ isSpace c) ∧
    (∀ c ∈ (sanitizeStatusText s).toList.getLast?, ¬ isSpace c) ∧
    sanitizeStatusText (sanitizeStatusText s).toByteArray = sanitizeStatusText s := by
  have empty : Clean [] := ⟨Nat.zero_le _, by simp, by simp⟩
  obtain ⟨t, ht⟩ : ∃ t, (sanitizeLoop [] s).rdropWhile (fun r => isSpace r) = t := ⟨_, rfl⟩
  have trim := rdropWhile_prefix (fun r => isSpace r) (sanitizeLoop [] s)
  have clean : Clean t := ht ▸ (empty.loop s).start trim
  have trimmed : t.rdropWhile (fun r => isSpace r) = t := ht ▸ rdropWhile_idempotent ..
  have last : ∀ c ∈ t.getLast?, ¬ isSpace c := by
    intro c hc
    obtain ⟨hne, rfl⟩ := mem_getLast?_eq_getLast hc
    simpa using rdropWhile_eq_self_iff.mp trimmed hne
  have again : sanitizeLoop [] t.utf8Encode = t := Clean.loop_eq (b := []) clean
  rw [sanitizeStatusText, ht, String.toList_ofList]
  refine ⟨String.isValidUTF8 _, ?_, clean.shown, clean.front, last, ?_⟩
  · exact (size_utf8Encode t).trans_le clean.short
  · rw [sanitizeStatusText, String.toByteArray_ofList, again, trimmed]

end Sqi.StatusText
