import Sqi.Lib.Subject

/-! The broker subjects of a worker (`subjects.go`, `diag.go`) and the permissions that
bind them to it (`permissions.go` of package `brokerauth`). -/

namespace Sqi.Bus
open List Subject

def taskStatusSubject (workerID jobID : String) : String := "task.status" ++ "." ++ workerID ++ "." ++ jobID
def taskLogsSubject (workerID taskID : String) : String := "task.logs" ++ "." ++ workerID ++ "." ++ taskID
def workerRegisterSubject (workerID : String) : String := "worker.register" ++ "." ++ workerID
def workerHeartbeatSubject (workerID : String) : String := "worker.heartbeat" ++ "." ++ workerID
def workerDeregisterSubject (workerID : String) : String := "worker.deregister" ++ "." ++ workerID
def workLeaseSubject (workerID queueID : String) : String := "work.lease" ++ "." ++ workerID ++ "." ++ queueID
def workerDiagSubject (workerID : String) : String := "worker.diag" ++ "." ++ workerID
def concreteToken (tok : String) : Bool := tok ≠ "" && !tok.toList.any ("*>".toList.contains ·)

def parseWorkerSubject (subject : String) : Option (String × String) :=
  match tokens subject with
  | [a, b, workerID] =>
    if a ++ "." ++ b ∈ ["worker.register", "worker.heartbeat", "worker.deregister"] then
      if concreteToken workerID then some (workerID, "") else none
    else none
  | [a, b, workerID, leaf] =>
    if a ++ "." ++ b ∈ ["task.status", "task.logs", "work.lease"] then
      if concreteToken workerID && concreteToken leaf then some (workerID, leaf) else none
    else none
  | _ => none

structure Permissions where
  publish : List String
  subscribe : List String
deriving DecidableEq

def inboxPrefix (workerID : String) : String := "_INBOX_" ++ workerID
def validWorkerIDToken (workerID : String) : Bool :=
  workerID ≠ "" && !workerID.toList.any (". \t\r\n*>".toList.contains ·)

def workerPermissions (workerID : String) : Permissions where
  publish := [
    "task.status." ++ workerID ++ ".*",
    "task.logs." ++ workerID ++ ".*",
    "worker.register." ++ workerID,
    "worker.heartbeat." ++ workerID,
    "worker.deregister." ++ workerID,
    "worker.diag." ++ workerID,
    "work.lease." ++ workerID ++ ".*"]
  subscribe := [inboxPrefix workerID ++ ".>", "task.cancel." ++ workerID]

def Granted (grants : List String) (subject : String) : Prop := ∃ g ∈ grants, Matches g subject

lemma join_three (a b c : String) : join [a, b, c] = a ++ "." ++ b ++ "." ++ c := by
  rw [← String.toList_inj]
  simp [join]
lemma join_four (a b c d : String) : join [a, b, c, d] = a ++ "." ++ b ++ "." ++ c ++ "." ++ d := by
  rw [← String.toList_inj]
  simp [join]

structure Exact (t : String) : Prop where
  plain : Plain t
  literal : Literal t

instance (t : String) : Decidable (Exact t) :=
  decidable_of_iff ('.' ∉ t.toList ∧ t ≠ "*" ∧ t ≠ ">")
    ⟨fun h => ⟨h.1, h.2⟩, fun h => ⟨h.plain, h.literal⟩⟩

variable {a b c subject w kind : String}

lemma tokens_three (ha : Plain a) (hb : Plain b) (hc : Plain c) :
    tokens (a ++ "." ++ b ++ "." ++ c) = [a, b, c] := by
  rw [← join_three]
  exact tokens_join (by simp [ha, hb, hc]) (by simp)
lemma tokens_four {d : String} (ha : Plain a) (hb : Plain b) (hc : Plain c) (hd : Plain d) :
    tokens (a ++ "." ++ b ++ "." ++ c ++ "." ++ d) = [a, b, c, d] := by
  rw [← join_four]
  exact tokens_join (by simp [ha, hb, hc, hd]) (by simp)

lemma matches_three (hkind : kind = a ++ "." ++ b ++ ".") (ha : Exact a) (hb : Exact b)
    (hc : Exact c) : Matches (kind ++ c) subject ↔ tokens subject = [a, b, c] := by
  have hps : ∀ p ∈ [a, b, c], Literal p := by simp [ha.literal, hb.literal, hc.literal]
  unfold Matches
  rw [hkind, tokens_three ha.plain hb.plain hc.plain, ← append_nil [a, b, c], matchTokens_append hps]
  simp [matchTokens_nil]

lemma matches_four (hkind : kind = a ++ "." ++ b ++ ".") (ha : Exact a) (hb : Exact b)
    (hc : Exact c) : Matches (kind ++ c ++ ".*") subject ↔ ∃ t, tokens subject = [a, b, c, t] := by
  have hps : ∀ p ∈ [a, b, c], Literal p := by simp [ha.literal, hb.literal, hc.literal]
  have hstar : Plain "*" := by unfold Plain; decide
  have htext : kind ++ c ++ ".*" = a ++ "." ++ b ++ "." ++ c ++ "." ++ "*" := by
    rw [hkind, show ".*" = "." ++ "*" from rfl, ← String.append_assoc]
  unfold Matches
  rw [htext, tokens_four ha.plain hb.plain hc.plain hstar, show [a, b, c, "*"] = [a, b, c] ++ ["*"] from rfl,
    matchTokens_append hps]
  constructor
  · rintro ⟨rest, hsubject, hrest⟩
    obtain ⟨t, rfl⟩ := matchTokens_star.mp hrest
    exact ⟨t, hsubject⟩
  · rintro ⟨t, hsubject⟩
    exact ⟨[t], hsubject, matchTokens_star.mpr ⟨t, rfl⟩⟩

/-! ## What the grants match -/

lemma valid_chars (hw : validWorkerIDToken w = true) :
    w ≠ "" ∧ '.' ∉ w.toList ∧ '*' ∉ w.toList ∧ '>' ∉ w.toList := by
  simp only [validWorkerIDToken, Bool.and_eq_true, decide_eq_true_eq, Bool.not_eq_true', any_eq_false] at hw
  obtain ⟨hne, hchars⟩ := hw
  exact ⟨hne, fun h => absurd (hchars _ h) (by decide), fun h => absurd (hchars _ h) (by decide),
    fun h => absurd (hchars _ h) (by decide)⟩

lemma exact_of_valid (hw : validWorkerIDToken w = true) : Exact w := by
  obtain ⟨-, hdot, hstar, hrest⟩ := valid_chars hw
  refine ⟨hdot, ?_, ?_⟩
  · rintro rfl
    exact hstar (by decide)
  · rintro rfl
    exact hrest (by decide)

def leafClasses : List (String × String) := [("task", "status"), ("task", "logs"), ("work", "lease")]
def plainClasses : List (String × String) :=
  [("worker", "register"), ("worker", "heartbeat"), ("worker", "deregister"), ("worker", "diag")]

section
variable (hw : validWorkerIDToken w = true)
include hw

lemma publish_iff : Granted (workerPermissions w).publish subject ↔
      (∃ c ∈ leafClasses, ∃ t, tokens subject = [c.1, c.2, w, t]) ∨
      ∃ c ∈ plainClasses, tokens subject = [c.1, c.2, w] := by
  have hexact := exact_of_valid hw
  have four : ∀ {kind a b : String}, kind = a ++ "." ++ b ++ "." → Exact a → Exact b →
      (Matches (kind ++ w ++ ".*") subject ↔ ∃ t, tokens subject = [a, b, w, t]) :=
    fun hkind ha hb => matches_four hkind ha hb hexact
  have three : ∀ {kind a b : String}, kind = a ++ "." ++ b ++ "." → Exact a → Exact b →
      (Matches (kind ++ w) subject ↔ tokens subject = [a, b, w]) :=
    fun hkind ha hb => matches_three hkind ha hb hexact
  simp only [Granted, workerPermissions, leafClasses, plainClasses, mem_cons, not_mem_nil, or_false,
    exists_eq_or_imp, exists_eq_left]
  rw [four (show "task.status." = "task" ++ "." ++ "status" ++ "." from rfl) (by decide) (by decide),
    four (show "task.logs." = "task" ++ "." ++ "logs" ++ "." from rfl) (by decide) (by decide),
    three (show "worker.register." = "worker" ++ "." ++ "register" ++ "." from rfl) (by decide) (by decide),
    three (show "worker.heartbeat." = "worker" ++ "." ++ "heartbeat" ++ "." from rfl) (by decide) (by decide),
    three (show "worker.deregister." = "worker" ++ "." ++ "deregister" ++ "." from rfl) (by decide) (by decide),
    three (show "worker.diag." = "worker" ++ "." ++ "diag" ++ "." from rfl) (by decide) (by decide),
    four (show "work.lease." = "work" ++ "." ++ "lease" ++ "." from rfl) (by decide) (by decide)]
  tauto

lemma subscribe_iff : Granted (workerPermissions w).subscribe subject ↔
      (∃ rest, rest ≠ [] ∧ tokens subject = inboxPrefix w :: rest) ∨ tokens subject = ["task", "cancel", w] := by
  obtain ⟨-, hdot, hstar, hrest⟩ := valid_chars hw
  have hinbox : Exact (inboxPrefix w) := by
    refine ⟨?_, ?_, ?_⟩
    · unfold Plain inboxPrefix
      simp [hdot]
    · intro h
      have := congrArg String.toList h
      simp [inboxPrefix] at this
    · intro h
      have := congrArg String.toList h
      simp [inboxPrefix] at this
  have hsub : Matches (inboxPrefix w ++ ".>") subject ↔ ∃ rest, rest ≠ [] ∧ tokens subject = inboxPrefix w :: rest := by
    have htext : inboxPrefix w ++ ".>" = join [inboxPrefix w, ">"] := by
      rw [← String.toList_inj]
      simp [join]
    have hmore : Plain ">" := by unfold Plain; decide
    unfold Matches
    rw [htext, tokens_join (by simp [hinbox.plain, hmore]) (by simp), matchTokens_literal hinbox.literal]
    constructor
    · rintro ⟨rest, h, hmatch⟩
      exact ⟨rest, matchTokens_rest.mp hmatch, h⟩
    · rintro ⟨rest, hne, h⟩
      exact ⟨rest, h, matchTokens_rest.mpr hne⟩
  simp only [Granted, workerPermissions, mem_cons, not_mem_nil, or_false, exists_eq_or_imp, exists_eq_left]
  rw [hsub, matches_three (show "task.cancel." = "task" ++ "." ++ "cancel" ++ "." from rfl) (by decide) (by decide)
    (exact_of_valid hw)]

/-! ## Isolation -/

lemma concrete_of_valid : concreteToken w = true := by
  obtain ⟨hne, -, hstar, hrest⟩ := valid_chars hw
  simp only [concreteToken, Bool.and_eq_true, decide_eq_true_eq, Bool.not_eq_true', any_eq_false]
  refine ⟨hne, fun c hc hwild => ?_⟩
  rcases mem_cons.mp (contains_iff_mem.mp hwild) with rfl | hwild
  · exact hstar hc
  · rw [mem_singleton.mp hwild] at hc
    exact hrest hc

end

def builtSubjects (workerID leaf : String) : List (String × String) :=
  [(taskStatusSubject workerID leaf, leaf), (taskLogsSubject workerID leaf, leaf),
    (workLeaseSubject workerID leaf, leaf),
    (workerRegisterSubject workerID, ""), (workerHeartbeatSubject workerID, ""), (workerDeregisterSubject workerID, "")]

lemma tokens_built {leaf : String} (hw : validWorkerIDToken w = true) (hleaf : Plain leaf) {out : String}
    (h : (subject, out) ∈ builtSubjects w leaf) :
    (∃ c ∈ leafClasses, tokens subject = [c.1, c.2, w, leaf] ∧ out = leaf) ∨
      ∃ c ∈ plainClasses, c ≠ ("worker", "diag") ∧ tokens subject = [c.1, c.2, w] ∧ out = "" := by
  have hplain := (exact_of_valid hw).plain
  have four : ∀ {kind a b : String}, kind = a ++ "." ++ b → Exact a → Exact b →
      tokens (kind ++ "." ++ w ++ "." ++ leaf) = [a, b, w, leaf] := by
    rintro _ a b rfl ha hb
    exact tokens_four ha.plain hb.plain hplain hleaf
  have three : ∀ {kind a b : String}, kind = a ++ "." ++ b → Exact a → Exact b →
      tokens (kind ++ "." ++ w) = [a, b, w] := by
    rintro _ a b rfl ha hb
    exact tokens_three ha.plain hb.plain hplain
  simp only [builtSubjects, mem_cons, not_mem_nil, or_false, Prod.mk.injEq] at h
  rcases h with ⟨rfl, rfl⟩ | ⟨rfl, rfl⟩ | ⟨rfl, rfl⟩ | ⟨rfl, rfl⟩ | ⟨rfl, rfl⟩ | ⟨rfl, rfl⟩
  · exact .inl ⟨("task", "status"), by decide, four rfl (by decide) (by decide), rfl⟩
  · exact .inl ⟨("task", "logs"), by decide, four rfl (by decide) (by decide), rfl⟩
  · exact .inl ⟨("work", "lease"), by decide, four rfl (by decide) (by decide), rfl⟩
  · exact .inr ⟨("worker", "register"), by decide, by decide, three rfl (by decide) (by decide), rfl⟩
  · exact .inr ⟨("worker", "heartbeat"), by decide, by decide, three rfl (by decide) (by decide), rfl⟩
  · exact .inr ⟨("worker", "deregister"), by decide, by decide, three rfl (by decide) (by decide), rfl⟩

lemma parse_leaf {c : String × String} (hc : c ∈ leafClasses) {t : String}
    (h : tokens subject = [c.1, c.2, w, t]) :
    parseWorkerSubject subject = if concreteToken w && concreteToken t then some (w, t) else none := by
  have hall : ∀ c ∈ leafClasses, c.1 ++ "." ++ c.2 ∈ ["task.status", "task.logs", "work.lease"] := by decide
  rw [parseWorkerSubject, h]
  exact if_pos (hall c hc)

lemma parse_plain {c : String × String} (hc : c ∈ plainClasses) (h : tokens subject = [c.1, c.2, w]) :
    parseWorkerSubject subject = if c ≠ ("worker", "diag") ∧ concreteToken w then some (w, "") else none := by
  have hall : ∀ c ∈ plainClasses, (c.1 ++ "." ++ c.2 ∈ ["worker.register", "worker.heartbeat", "worker.deregister"] ↔
      c ≠ ("worker", "diag")) := by decide
  have hclass := hall c hc
  rw [parseWorkerSubject, h]
  dsimp only
  by_cases hdiag : c = ("worker", "diag")
  · rw [if_neg fun h => hclass.mp h hdiag, if_neg fun h => h.1 hdiag]
  · rw [if_pos (hclass.mpr hdiag)]
    simp [hdiag]

lemma publish_owner (hw : validWorkerIDToken w = true)
    (h : Granted (workerPermissions w).publish subject) : (tokens subject)[2]? = some w := by
  rcases (publish_iff hw).mp h with ⟨c, -, t, h⟩ | ⟨c, -, h⟩
  · rw [h]
    rfl
  · rw [h]
    rfl

lemma inboxPrefix_ne_task (w : String) : inboxPrefix w ≠ "task" := by
  intro h
  have := congrArg String.toList h
  simp [inboxPrefix] at this

/-- Broker grants isolate workers: no subject is granted to two, and each parses back to its own. -/
theorem grants_isolate_workers {A B : String} (hA : validWorkerIDToken A = true) (hB : validWorkerIDToken B = true) :
    (∀ subject, Granted (workerPermissions A).publish subject →
      parseWorkerSubject subject = none ∨ ∃ leaf, parseWorkerSubject subject = some (A, leaf)) ∧
    (∀ leaf, concreteToken leaf = true → '.' ∉ leaf.toList → ∀ subject out, (subject, out) ∈ builtSubjects A leaf →
      Granted (workerPermissions A).publish subject ∧ parseWorkerSubject subject = some (A, out)) ∧
    (A ≠ B → ∀ subject,
      ¬ (Granted (workerPermissions A).subscribe subject ∧ Granted (workerPermissions B).subscribe subject) ∧
      ¬ (Granted (workerPermissions A).publish subject ∧ Granted (workerPermissions B).publish subject)) ∧
    Granted (workerPermissions A).publish (workerDiagSubject A) := by
  refine ⟨fun subject h => ?_, fun leaf hleaf hdot subject out h => ?_, fun hne subject => ⟨?_, ?_⟩, ?_⟩
  · rcases (publish_iff hA).mp h with ⟨c, hc, t, h⟩ | ⟨c, hc, h⟩
    · rw [parse_leaf hc h]
      split
      · exact .inr ⟨t, rfl⟩
      · exact .inl rfl
    · rw [parse_plain hc h]
      split
      · exact .inr ⟨"", rfl⟩
      · exact .inl rfl
  · have hconcrete := concrete_of_valid hA
    rcases tokens_built hA hdot h with ⟨c, hc, htokens, rfl⟩ | ⟨c, hc, hdiag, htokens, rfl⟩
    · exact ⟨(publish_iff hA).mpr (.inl ⟨c, hc, out, htokens⟩), by rw [parse_leaf hc htokens, hconcrete, hleaf]; rfl⟩
    · exact ⟨(publish_iff hA).mpr (.inr ⟨c, hc, htokens⟩), by rw [parse_plain hc htokens, if_pos ⟨hdiag, hconcrete⟩]⟩
  · rintro ⟨ha, hb⟩
    rcases (subscribe_iff hA).mp ha with ⟨_, -, ha⟩ | ha
    · rcases (subscribe_iff hB).mp hb with ⟨_, -, hb⟩ | hb
      · have hsame : inboxPrefix A = inboxPrefix B := (List.cons.inj (ha.symm.trans hb)).1
        exact hne ((String.append_right_inj _).mp hsame)
      · exact inboxPrefix_ne_task A (List.cons.inj (ha.symm.trans hb)).1
    · rcases (subscribe_iff hB).mp hb with ⟨_, -, hb⟩ | hb
      · exact inboxPrefix_ne_task B (List.cons.inj (hb.symm.trans ha)).1
      · cases ha.symm.trans hb
        exact hne rfl
  · rintro ⟨ha, hb⟩
    exact hne (Option.some.inj ((publish_owner hA ha).symm.trans (publish_owner hB hb)))
  · refine (publish_iff hA).mpr (.inr ⟨("worker", "diag"), by decide, ?_⟩)
    have hkind : "worker.diag" = "worker" ++ "." ++ "diag" := rfl
    rw [workerDiagSubject, hkind]
    exact tokens_three (show Exact "worker" by decide).plain (show Exact "diag" by decide).plain (exact_of_valid hA).plain

theorem grants_isolate_two :
    validWorkerIDToken "w-1" = true ∧ validWorkerIDToken "w-2" = true ∧
      ∀ subject, ¬ (Granted (workerPermissions "w-1").publish subject ∧
        Granted (workerPermissions "w-2").publish subject) :=
  ⟨by decide, by decide, fun subject => ((grants_isolate_workers (by decide) (by decide)).2.2.1 (by decide) subject).2⟩

/-- The diagnostic subject is built for a worker and granted to it, and the parser
rejects it: diagnostics are read by another handler. -/
theorem diagnostic_subject_rejected :
    validWorkerIDToken "w-1" = true ∧ Matches "worker.diag.w-1" (workerDiagSubject "w-1") ∧
      "worker.diag.w-1" ∈ (workerPermissions "w-1").publish ∧ parseWorkerSubject (workerDiagSubject "w-1") = none := by
  decide +kernel

end Sqi.Bus
