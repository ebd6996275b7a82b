import Mathlib.Data.Finset.Basic
import Sqi.Lib.Bytes
import Sqi.Lib.Replace
import Sqi.Lib.Run

/-! The dynamic environment of a worker's session, and what its environment actions print. -/

namespace Sqi.Worker
open Function GoBytes Replace Transition

inductive EnvOp where
  | set (name value : Bytes) (redacted : Bool)
  | unset (name : Bytes)
deriving DecidableEq

def prefixEnv : Bytes := ascii "openjd_env:"
def prefixRedactedEnv : Bytes := ascii "openjd_redacted_env:"
def prefixUnsetEnv : Bytes := ascii "openjd_unset_env:"

def isLetter (c : UInt8) : Prop := (0x61 ≤ c ∧ c ≤ 0x7A) ∨ (0x41 ≤ c ∧ c ≤ 0x5A) ∨ c = 0x5F
deriving Decidable

def isDigit (c : UInt8) : Prop := 0x30 ≤ c ∧ c ≤ 0x39
deriving Decidable

def validEnvName : Bytes → Bool
  | [] => false
  | c :: cs => isLetter c && cs.all fun c => isLetter c || isDigit c
def parseSetDirective (payload : Bytes) (redacted : Bool) : Option EnvOp :=
  match cut 0x3D (trimSpace payload) with
  | none => none
  | some (name, value) => if validEnvName name then some (.set name value redacted) else none

def parseEnvDirective (line : Bytes) : Option EnvOp :=
  let line := trimSpace line
  match cutPrefix line prefixRedactedEnv, cutPrefix line prefixEnv, cutPrefix line prefixUnsetEnv with
  | some payload, _, _ => parseSetDirective payload true
  | none, some payload, _ => parseSetDirective payload false
  | none, none, some payload =>
    let name := trimSpace payload
    if validEnvName name then some (.unset name) else none
  | none, none, none => none

def carriedValue (line : Bytes) : Option Bytes :=
  match cutPrefix (trimSpace line) prefixRedactedEnv with
  | none => none
  | some payload => (cut 0x3D (trimSpace payload)).map Prod.snd

lemma parseEnvDirective_of_carried {line v : Bytes} {op : EnvOp} (hv : carriedValue line = some v)
    (hop : parseEnvDirective line = some op) : ∃ name, op = .set name v true := by
  cases hp : cutPrefix (trimSpace line) prefixRedactedEnv with
  | none => simp [carriedValue, hp] at hv
  | some payload =>
    simp only [carriedValue, hp] at hv
    simp only [parseEnvDirective, hp, parseSetDirective] at hop
    cases hc : cut 0x3D (trimSpace payload) with
    | none => simp [hc] at hv
    | some nv =>
      obtain ⟨name, value⟩ := nv
      simp only [hc, Option.map_some, Option.some.injEq] at hv hop
      split at hop
      · cases hop
        exact ⟨name, by rw [hv]⟩
      · cases hop

lemma parseSetDirective_redacted {payload name v : Bytes} {r redacted : Bool}
    (h : parseSetDirective payload r = some (.set name v redacted)) : redacted = r := by
  simp only [parseSetDirective] at h
  split at h
  · cases h
  split at h
  · cases h
    rfl
  · cases h

lemma carriedValue_of_parse {line name v : Bytes}
    (hop : parseEnvDirective line = some (.set name v true)) : carriedValue line = some v := by
  cases hp : cutPrefix (trimSpace line) prefixRedactedEnv with
  | some payload =>
    simp only [parseEnvDirective, hp, parseSetDirective] at hop
    cases hc : cut 0x3D (trimSpace payload) with
    | none => simp [hc] at hop
    | some nv =>
      simp only [hc] at hop
      split at hop
      · cases hop
        simp only [carriedValue, hp, hc, Option.map_some]
      · cases hop
  | none =>
    -- a plain set directive is not redacted, and an unset directive sets nothing
    simp only [parseEnvDirective, hp] at hop
    split at hop
    · rename_i h
      cases h
    · cases parseSetDirective_redacted hop
    · split at hop <;> cases hop
    · cases hop

/-! ## The session -/

structure Session where
  dynamicEnv : Bytes → Option Bytes
  dynamicUnset : Finset Bytes
  redactedValues : Finset Bytes

def redactedPlaceholder : Bytes := ascii "<redacted>"

namespace Session

def applyEnvOp (s : Session) : EnvOp → Session
  | .set name value redacted =>
    { dynamicEnv := update s.dynamicEnv name (some value)
      dynamicUnset := s.dynamicUnset.erase name
      redactedValues :=
        if redacted ∧ value ≠ [] then insert value s.redactedValues else s.redactedValues }
  | .unset name =>
    { s with
      dynamicEnv := update s.dynamicEnv name none
      dynamicUnset := insert name s.dynamicUnset }

end Session

def scrubValues (vals : List Bytes) (line : Bytes) : Bytes :=
  vals.foldl (fun line v => if v ≠ [] then replaceAll v redactedPlaceholder line else line) line

def Enumerates (vals : List Bytes) (set : Finset Bytes) : Prop := vals.Nodup ∧ vals.toFinset = set
deriving Decidable

lemma Enumerates.mem_iff {vals : List Bytes} {set : Finset Bytes} (h : Enumerates vals set)
    {v : Bytes} : v ∈ vals ↔ v ∈ set := by
  rw [← h.2, List.mem_toFinset]

/-! ## Lines of output -/

inductive Stream where
  | stdout
  | stderr
deriving DecidableEq

structure LogLine where
  stream : Stream
  text : Bytes
  /-- The order a scrub of this line visits the redacted values in. -/
  order : List Bytes

def LogLine.Carries (l : LogLine) (v : Bytes) : Prop := l.stream = .stdout ∧ carriedValue l.text = some v
def redactedEcho : Bytes := ascii "openjd_redacted_env: "

namespace Session

def actionLineHandler (s : Session) (l : LogLine) : Session × Bytes :=
  match l.stream, parseEnvDirective l.text with
  | .stdout, some (.set name value true) =>
    (s.applyEnvOp (.set name value true), redactedEcho ++ (name ++ ascii "=") ++ redactedPlaceholder)
  | .stdout, some op => (s.applyEnvOp op, l.text)
  | _, _ => (s, scrubValues l.order l.text)

end Session

def sessionLines : System Session LogLine where
  init := ⟨fun _ => none, ∅, ∅⟩
  enabled := fun _ s l => Enumerates l.order s.redactedValues
  next := fun l s => (s.actionLineHandler l).1

instance (h : List (Session × LogLine)) (s : Session) (l : LogLine) :
    Decidable (sessionLines.enabled h s l) :=
  inferInstanceAs (Decidable (Enumerates _ _))

end Sqi.Worker
