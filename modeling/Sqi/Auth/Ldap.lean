import Sqi.Lib.Dn

/-! The distinguished name a template bind authenticates as (`auth/ldap/escape.go`,
`auth/ldap/templatebind.go`). -/

namespace Sqi.Ldap
open Dn List

def dnSpecialChars : Text := [',', '+', '"', '\\', '<', '>', ';', '=']

/-- What the loop writes for the character at index `i` of a name of `n` characters. -/
def escapeRune (n i : Nat) (r : Char) : Text :=
  if r = '\x00' then ['\\', '0', '0']
  else if r ∈ dnSpecialChars then ['\\', r]
  else if r = ' ' ∧ (i = 0 ∨ i = n - 1) then ['\\', r]
  else if i = 0 ∧ r = '#' then ['\\', r]
  else [r]

def escapeUsernameDN (username : Text) : Text :=
  if username = [] then [] else username.zipIdx.flatMap fun p => escapeRune username.length p.2 p.1

/-- The template with its one verb replaced. -/
def bindDN (before after username : Text) : Text := before ++ escapeUsernameDN username ++ after

/-- How the reader takes what was written for a character. -/
def token (n i : Nat) (r : Char) : Token :=
  if r ∈ '\x00' :: dnSpecialChars ∨ r = ' ' ∧ (i = 0 ∨ i = n - 1) ∨ i = 0 ∧ r = '#' then .octet r.toUInt8
  else .raw r

variable {n i : Nat} {r : Char}

lemma scan_escape : ∀ r ∈ '\x00' :: special,
    scan (if r = '\x00' then ['\\', '0', '0'] else ['\\', r]) = some [.octet r.toUInt8] ∧
      String.utf8EncodeChar r = [r.toUInt8] := by
  simp only [special, mem_cons, not_mem_nil, or_false, forall_eq_or_imp, forall_eq]
  decide

lemma scan_escapeRune (n i : Nat) (r : Char) :
    scan (escapeRune n i r) = some [token n i r] ∧ (token n i r).octets = String.utf8EncodeChar r := by
  unfold token
  split
  · rename_i h
    have hr : r ∈ '\x00' :: special := by simp only [special, dnSpecialChars, mem_cons] at *; tauto
    have written : escapeRune n i r = if r = '\x00' then ['\\', '0', '0'] else ['\\', r] := by
      unfold escapeRune
      grind
    rw [written, (scan_escape r hr).2]
    exact ⟨(scan_escape r hr).1, rfl⟩
  · rename_i h
    simp only [mem_cons, not_or] at h
    have : r ≠ '\\' := fun e => h.1.2 (by simp [e, dnSpecialChars])
    simp [escapeRune, h, scan, this, Token.octets]

lemma plain_tokens (l : Text) : Plain (l.zipIdx.map fun p => token l.length p.2 p.1) where
  shown := by
    simp only [mem_map, forall_exists_index, and_imp]
    rintro t p - rfl
    unfold token
    split <;> simp_all [Token.shown, dnSpecialChars]
  head := by
    cases l with
    | nil => simp
    | cons r l =>
      simp only [zipIdx_cons, map_cons, head?_cons, Option.mem_some_iff, forall_eq', token]
      split <;> simp_all
  last := by
    intro t ht
    rw [getLast?_map, getLast?_zipIdx, Option.map_map] at ht
    obtain ⟨r, -, rfl⟩ := Option.map_eq_some_iff.mp ht
    simp only [Function.comp_apply, token]
    split <;> simp_all

lemma scan_escape_all (l : Text) (k : Nat) :
    scan ((l.zipIdx k).flatMap fun p => escapeRune n p.2 p.1) = some ((l.zipIdx k).map fun p => token n p.2 p.1) := by
  induction l generalizing k with
  | nil => rfl
  | cons r l ih =>
    rw [zipIdx_cons, flatMap_cons, (scan_append (scan_escapeRune n k r).1).2, ih]
    rfl

/-- Wherever the template's verb is a whole value, the name bound is the template's with the
user name as that value. -/
theorem bindDN_reads_username {before after : Text} {dn : Name} (h : template before after = some dn)
    (username : Text) : parse (bindDN before after username) =
      some (dn.fill (.string (username.flatMap String.utf8EncodeChar))) := by
  have hscan : scan (escapeUsernameDN username) =
      some (username.zipIdx.map fun p => token username.length p.2 p.1) := by
    unfold escapeUsernameDN
    split
    · rename_i e
      rw [e]
      rfl
    · exact scan_escape_all username 0
  have octets : (username.zipIdx.map fun p => token username.length p.2 p.1).flatMap Token.octets =
      username.flatMap String.utf8EncodeChar := by
    have each := fun p : Char × Nat => (scan_escapeRune username.length p.2 p.1).2
    simp only [flatMap_map, each]
    rw [← flatMap_map, zipIdx_map_fst]
  rw [← octets]
  exact parse_fill (plain_tokens username) hscan h

theorem bindDN_reads_comma : parse (bindDN "uid= ".toList ",ou=a".toList "# a,b ".toList) =
    some [("uid".toList, some (.string [35, 32, 97, 44, 98, 32])), ("ou".toList, some (.string [97]))] := by
  have reads : template "uid= ".toList ",ou=a".toList =
      some [("uid".toList, none), ("ou".toList, some (.string [97]))] := by decide +kernel
  exact bindDN_reads_username reads _

end Sqi.Ldap
