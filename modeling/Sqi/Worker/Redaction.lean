import Sqi.Worker.Session

/-! What a session logs of the values it was told to redact. -/

namespace Sqi.Worker
open List GoBytes Replace Transition

variable {v : Bytes} {vals : List Bytes}

lemma scrubValues_cons (hv : v ≠ []) (vals : List Bytes) (line : Bytes) :
    scrubValues (v :: vals) line = scrubValues vals (replaceAll v redactedPlaceholder line) := by
  rw [scrubValues, foldl_cons, if_pos hv, scrubValues]

lemma infix_of_infix_scrubValues (apart : Apart v redactedPlaceholder)
    {line : Bytes} (h : v <:+: scrubValues vals line) : v <:+: line := by
  induction vals generalizing line with
  | nil => exact h
  | cons w vals ih =>
    by_cases hw : w = []
    · subst hw
      exact ih h
    · rw [scrubValues_cons hw] at h
      exact infix_of_infix_replaceAll hw apart line (ih h)

lemma not_infix_scrubValues (hv : v ≠ []) (hmem : v ∈ vals)
    (apart : Apart v redactedPlaceholder) (line : Bytes) : ¬ v <:+: scrubValues vals line := by
  induction vals generalizing line with
  | nil => cases hmem
  | cons w vals ih =>
    rcases mem_cons.mp hmem with rfl | hmem
    · rw [scrubValues_cons hv]
      exact fun h => not_infix_replaceAll hv apart line (infix_of_infix_scrubValues apart h)
    · exact ih hmem _

def Secret (lines : List (Session × LogLine)) (v : Bytes) : Prop := v ≠ [] ∧ ∃ e ∈ lines, e.2.Carries v

def Guarded (s : Session) (l : LogLine) : Prop :=
  l.stream = .stdout → (∀ v, carriedValue l.text = some v → v ≠ [] →
      (parseEnvDirective l.text).isSome ∧ Apart v redactedPlaceholder ∧ ∀ k, ¬ BeginsIn v redactedEcho k) ∧
    match parseEnvDirective l.text with
    | some (.set name value true) =>
      ∀ v, v = value ∨ v ∈ s.redactedValues → v ≠ [] → ¬ v <:+: name ++ ascii "="
    | some _ => s.redactedValues = ∅
    | none => True

structure Registered (h : List (Session × LogLine)) (s : Session) : Prop where
  secret : ∀ v, Secret h v → v ∈ s.redactedValues
  apart : ∀ v ∈ s.redactedValues, v ≠ [] ∧ Apart v redactedPlaceholder ∧ ∀ k, ¬ BeginsIn v redactedEcho k

lemma redactedValues_handler (s : Session) (l : LogLine) :
    (∃ name value, l.stream = .stdout ∧ parseEnvDirective l.text = some (.set name value true) ∧
      (s.actionLineHandler l).1.redactedValues =
        if value ≠ [] then insert value s.redactedValues else s.redactedValues) ∨
    (s.actionLineHandler l).1.redactedValues = s.redactedValues := by
  cases hs : l.stream with
  | stderr =>
    right
    simp only [Session.actionLineHandler, hs]
  | stdout =>
    cases hop : parseEnvDirective l.text with
    | none =>
      right
      simp only [Session.actionLineHandler, hs, hop]
    | some op =>
      match op, hop with
      | .unset name, hop =>
        right
        simp only [Session.actionLineHandler, hs, hop, Session.applyEnvOp]
      | .set name value false, hop =>
        right
        simp [Session.actionLineHandler, hs, hop, Session.applyEnvOp]
      | .set name value true, hop =>
        left
        refine ⟨name, value, rfl, rfl, ?_⟩
        simp [Session.actionLineHandler, hs, hop, Session.applyEnvOp]

lemma registered_step {h : List (Session × LogLine)} {s : Session} {l : LogLine} (reg : Registered h s)
    (g : Guarded s l) : Registered ((s, l) :: h) (s.actionLineHandler l).1 := by
  have old : ∀ v, Secret h v → v ∈ (s.actionLineHandler l).1.redactedValues := fun v hv => by
    rcases redactedValues_handler s l with ⟨name, value, -, -, e⟩ | e
    · rw [e]
      split
      · exact Finset.mem_insert_of_mem (reg.secret v hv)
      · exact reg.secret v hv
    · rw [e]
      exact reg.secret v hv
  constructor
  · rintro v ⟨hne, e, he, hcarries⟩
    rcases mem_cons.mp he with rfl | he
    · -- the line's own value: the directive parses, so it is registered
      obtain ⟨hs, hv⟩ : l.stream = .stdout ∧ carriedValue l.text = some v := hcarries
      obtain ⟨op, hop⟩ := Option.isSome_iff_exists.mp ((g hs).1 v hv hne).1
      obtain ⟨name, rfl⟩ := parseEnvDirective_of_carried hv hop
      simp [Session.actionLineHandler, hs, hop, Session.applyEnvOp, hne]
    · exact old v ⟨hne, e, he, hcarries⟩
  · intro v hv
    rcases redactedValues_handler s l with ⟨name, value, hs, hop, e⟩ | e
    · rw [e] at hv
      split at hv
      · rename_i hne
        rcases Finset.mem_insert.mp hv with rfl | hv
        · exact ⟨hne, ((g hs).1 v (carriedValue_of_parse hop) hne).2⟩
        · exact reg.apart v hv
      · exact reg.apart v hv
    · rw [e] at hv
      exact reg.apart v hv

lemma not_infix_echo {name : Bytes} (hne : v ≠ []) (apart : Apart v redactedPlaceholder)
    (echo : ∀ k, ¬ BeginsIn v redactedEcho k) (hname : ¬ v <:+: name ++ ascii "=") :
    ¬ v <:+: redactedEcho ++ (name ++ ascii "=") ++ redactedPlaceholder := by
  intro h
  rw [append_assoc] at h
  have h := infix_of_infix_append echo h
  exact hname (infix_of_infix_append_right hne apart h)

/-- A value that a redacted directive has set is in no later line of the log. -/
theorem redacted_value_not_logged {h : List (Session × LogLine)} {s : Session} {l : LogLine}
    (run : Run (sessionLines.guarded fun _ s l => Guarded s l) h s)
    (next : (sessionLines.guarded fun _ s l => Guarded s l).enabled h s l) {v : Bytes}
    (secret : Secret ((s, l) :: h) v) : ¬ v <:+: (s.actionLineHandler l).2 := by
  have reg : Registered h s := by
    refine run.invariant (P := Registered) ⟨?_, ?_⟩ ?_
    · rintro v ⟨-, e, he, -⟩
      cases he
    · intro v hv
      cases Finset.notMem_empty v hv
    · rintro h s l _ reg ⟨-, g⟩
      exact registered_step reg g
  obtain ⟨order, g⟩ := next
  have hmem := (registered_step reg g).secret v secret
  obtain ⟨hne, apart, echo⟩ := (registered_step reg g).apart v hmem
  have scrubbed (e : s.actionLineHandler l = (s, scrubValues l.order l.text)) :
      ¬ v <:+: (s.actionLineHandler l).2 := by
    rw [e] at hmem ⊢
    exact not_infix_scrubValues hne (order.mem_iff.mpr hmem) apart l.text
  cases hs : l.stream with
  | stderr =>
    apply scrubbed
    simp only [Session.actionLineHandler, hs]
  | stdout =>
    have guard := (g hs).2
    cases hop : parseEnvDirective l.text with
    | none =>
      apply scrubbed
      simp only [Session.actionLineHandler, hs, hop]
    | some op =>
      rw [hop] at guard
      match op, hop, guard with
      | .set name value true, hop, guard =>
        have hv : v = value ∨ v ∈ s.redactedValues := by
          simp only [Session.actionLineHandler, hs, hop, Session.applyEnvOp] at hmem
          split at hmem
          · exact Finset.mem_insert.mp hmem
          · exact .inr hmem
        simp only [Session.actionLineHandler, hs, hop]
        exact not_infix_echo hne apart echo (guard v hv hne)
      | .set name value false, hop, guard =>
        simp only [Session.actionLineHandler, hs, hop, Session.applyEnvOp] at hmem
        simp only [Bool.false_eq_true, false_and, if_false] at hmem
        rw [guard] at hmem
        cases Finset.notMem_empty v hmem
      | .unset name, hop, guard =>
        simp only [Session.actionLineHandler, hs, hop, Session.applyEnvOp] at hmem
        rw [guard] at hmem
        cases Finset.notMem_empty v hmem

/-! ### Lines that show a value -/

def tellToken : LogLine := ⟨.stdout, ascii "openjd_redacted_env: TOKEN=hunter2", []⟩
def copyToken : LogLine := ⟨.stdout, ascii "openjd_env: COPY=hunter2", [ascii "hunter2"]⟩
def tellMisnamed : LogLine := ⟨.stdout, ascii "openjd_redacted_env: 2ND=hunter2", []⟩
def echoToken : LogLine := ⟨.stderr, ascii "token is hunter2", [ascii "hunter2"]⟩

theorem redacted_value_logged :
    (∃ h s, Run sessionLines h s ∧ h.map Prod.snd = [tellToken] ∧ sessionLines.enabled h s copyToken ∧
      Secret ((s, copyToken) :: h) (ascii "hunter2") ∧
      ascii "hunter2" <:+: (s.actionLineHandler copyToken).2) ∧
    ∃ s, Run sessionLines [] s ∧ sessionLines.enabled [] s tellMisnamed ∧
      Secret [(s, tellMisnamed)] (ascii "hunter2") ∧
      ascii "hunter2" <:+: (s.actionLineHandler tellMisnamed).2 := by
  have told : sessionLines.Permits [tellToken] [] sessionLines.init := by decide +kernel
  refine ⟨⟨_, _, Run.start.exec told, rfl, by decide +kernel, ?_, by decide +kernel⟩,
    ⟨_, .start, by decide +kernel, ?_, by decide +kernel⟩⟩
  · exact ⟨by decide, _, mem_cons_of_mem _ mem_cons_self, rfl, by decide +kernel⟩
  · exact ⟨by decide, _, mem_cons_self, rfl, by decide +kernel⟩

theorem redacted_value_not_logged_echoed :
    ∃ h s, Run sessionLines h s ∧ Secret ((s, echoToken) :: h) (ascii "hunter2") ∧
      (s.actionLineHandler echoToken).2 = ascii "token is <redacted>" ∧
      ¬ ascii "hunter2" <:+: (s.actionLineHandler echoToken).2 := by
  have guard : Guarded sessionLines.init tellToken := fun _ => by
    have hc : carriedValue tellToken.text = some (ascii "hunter2") := by decide +kernel
    have hp : parseEnvDirective tellToken.text = some (.set (ascii "TOKEN") (ascii "hunter2") true) := by
      decide +kernel
    refine ⟨fun v hv _ => ?_, ?_⟩
    · rw [hc, Option.some.injEq] at hv
      subst hv
      have echo : ∀ k < redactedEcho.length, ¬ BeginsIn (ascii "hunter2") redactedEcho k := by decide +kernel
      exact ⟨by rw [hp]; rfl, by decide +kernel, fun k b => echo k b.1 b⟩
    · rw [hp]
      rintro v (rfl | hv) _
      · decide +kernel
      · cases Finset.notMem_empty v hv
  have told : (sessionLines.guarded fun _ s l => Guarded s l).enabled [] sessionLines.init tellToken :=
    ⟨by decide +kernel, guard⟩
  have run := Run.step tellToken .start told
  have next : (sessionLines.guarded fun _ s l => Guarded s l).enabled [(sessionLines.init, tellToken)]
      (sessionLines.next tellToken sessionLines.init) echoToken :=
    ⟨by decide +kernel, fun h => by cases h⟩
  have secret : Secret [(sessionLines.next tellToken sessionLines.init, echoToken),
      (sessionLines.init, tellToken)] (ascii "hunter2") :=
    ⟨by decide, _, mem_cons_of_mem _ mem_cons_self, rfl, by decide +kernel⟩
  exact ⟨_, _, run.of_guarded, secret, by decide +kernel, redacted_value_not_logged run next secret⟩

end Sqi.Worker
