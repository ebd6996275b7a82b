import Sqi.Expr.Levels

/-! A printed tree reads back as itself: one lemma per kind of node, from the same for
its parts, and the induction over the tree. -/

namespace Sqi.Expr
open List GoText Descent

section
variable {F : Type} {toks rest : List (Token F)} {t x : Node F}

def EndsName (t : Node F) (rest : List (Token F)) : Prop := t.isName = true → accept .dot rest = none

structure Reading (t : Node F) : Prop where
  own : ReadsAt t.level (t.frames true) (t.print true) t
  left : t.level ∈ leftLevels → ReachesAt t.level (t.frames true) (t.print true) t
  trail : t.level = 9 → TrailsAt (t.frames true) (EndsName t) (t.print true) t

lemma Op.level_le (op : Op) : op.level ≤ 8 := by cases op <;> decide
lemma Node.level_le (t : Node F) : t.level ≤ 9 := by
  cases t with
  | unary op | binary op | logical op => exact op.level_le.trans (by omega)
  | _ => simp [Node.level]

/-! ## In a place -/

variable {n place : Nat} {l r : Node F} {op : Op} {xs : List (Node F)} {filter : Option (Node F)} {x : Node F}
  {args : List (Node F)} {ops : List Op} {level : Nat}

lemma Reading.expr (h : Reading t) (hn : t.nesting true ≤ n) (hrest : Stops 0 rest) :
    (grammar n).expr (t.print true ++ rest) = .ok (t, rest) := by
  rw [grammar_expr]
  exact h.own.descend (Nat.zero_le _) t.level_le n hn rest hrest

lemma Reading.opening (h : Reading t) (hn : t.nesting true ≤ n) (hrest : Stops 0 rest) :
    Opening (t.print true ++ rest) := by
  have hexpr := h.expr hn hrest
  rw [grammar_expr] at hexpr
  exact head_of_expr hexpr

lemma Reading.paren (h : Reading t) : ∀ n, t.nesting true ≤ n →
    Reads (parsePrimary (grammar n)) (fun _ => True) (.symbol .lParen :: (t.print true ++ [.symbol .rParen])) t :=
  (h.own.descend (Nat.zero_le _) t.level_le).paren

lemma Reading.reads (h : Reading t) (hplace : place ≤ 9) :
    ReadsAt place (framesAt place t.level (t.frames true)) (enclose place t.level (t.print true)) t := by
  unfold framesAt enclose
  split
  · exact ((trails_of_primary h.paren).reads (Nat.succ_pos _) fun _ _ => trivial).descend hplace le_rfl
  · exact h.own.descend (by omega) t.level_le

lemma leftLevels_frame : ∀ place ∈ leftLevels, levelFrame place = 0 ∧ place < 9 := by decide

lemma framesAt_succ (hplace : place ∈ leftLevels) (hlevel : level ≤ 9) (hne : level ≠ place)
    (frames : Nat) : framesAt place level frames = framesAt (place + 1) level frames := by
  obtain ⟨hframe, hlt⟩ := leftLevels_frame place hplace
  unfold framesAt
  by_cases h : level < place
  · rw [if_pos h, if_pos (by omega), between_step 9 le_rfl place hlt, hframe]
    rfl
  · rw [if_neg h, if_neg (by omega), between_step level hlevel place (by omega), hframe]
    rfl

lemma wrap_succ (hne : level ≠ place) (toks : List (Token F)) :
    enclose place level toks = enclose (place + 1) level toks := by
  unfold enclose
  simp only [show level < place ↔ level < place + 1 by omega]

lemma Reading.reaches (h : Reading t) (hplace : place ∈ leftLevels) :
    ReachesAt place (framesAt place t.level (t.frames true)) (enclose place t.level (t.print true)) t := by
  by_cases hlevel : t.level = place
  · subst hlevel
    unfold framesAt enclose
    rw [if_neg (Nat.lt_irrefl _), if_neg (Nat.lt_irrefl _)]
    exact fun n hn => h.left hplace n (by omega)
  · rw [framesAt_succ hplace t.level_le hlevel, wrap_succ hlevel]
    exact (h.reads (leftLevels_frame place hplace).2).reaches hplace

lemma Reading.trails (h : Reading t) :
    TrailsAt (framesAt 9 t.level (t.frames true)) (EndsName t) (enclose 9 t.level (t.print true)) t := by
  unfold framesAt enclose
  split
  · exact fun n hn rest _ => trails_of_primary h.paren n hn rest trivial
  · have hlevel : t.level = 9 := Nat.le_antisymm t.level_le (by omega)
    exact fun n hn => h.trail hlevel n (by omega)

lemma Reading.receiver (h : Reading t) :
    TrailsAt (framesAt (t.receiverPlace true) t.level (t.frames true)) (fun _ => True)
      (enclose (t.receiverPlace true) t.level (t.print true)) t := by
  by_cases hname : t.isName = true
  · have hplace : t.receiverPlace true = 10 := by simp [Node.receiverPlace, hname]
    have hlt : t.level < 10 := Nat.lt_succ_of_le t.level_le
    rw [hplace, framesAt, enclose, if_pos hlt, if_pos hlt]
    exact fun n hn => trails_of_primary h.paren n hn
  · have hplace : t.receiverPlace true = 9 := by simp [Node.receiverPlace, hname]
    rw [hplace]
    exact fun n hn rest _ => h.trails n hn rest fun e => absurd e hname

lemma framesAt_pos (h : Reading t) (hplace : 9 ≤ place) : 0 < framesAt place t.level (t.frames true) := by
  unfold framesAt
  split
  · omega
  · have hlevel : t.level = 9 := Nat.le_antisymm t.level_le (by omega)
    have hpos := (hlevel ▸ h.own : ReadsAt 9 _ _ _).pos
    omega

lemma Reading.of_left (hlevel : t.level ∈ leftLevels) (h : ReachesAt t.level (t.frames true) (t.print true) t) :
    Reading t where
  own := h.reads hlevel
  left _ := h
  trail h9 := by
    rw [h9] at hlevel
    exact absurd hlevel (by decide)

lemma Reading.of_trails (hlevel : t.level = 9) (hpos : 0 < t.frames true)
    (h : TrailsAt (t.frames true) (EndsName t) (t.print true) t) : Reading t where
  own := by
    rw [hlevel]
    refine h.reads hpos fun rest hrest _ => ?_
    unfold accept
    split
    · refine if_neg ?_
      rintro rfl
      exact hrest.ne le_rfl rfl
    · rfl
  left hleft := by
    rw [hlevel] at hleft
    exact absurd hleft (by decide)
  trail _ := h

lemma Reading.of_own (hlevel : t.level ∈ [0, 3, 4, 7, 8]) (h : ReadsAt t.level (t.frames true) (t.print true) t) :
    Reading t where
  own := h
  left hleft := by
    have : ∀ level ∈ [0, 3, 4, 7, 8], level ∉ leftLevels := by decide
    exact absurd hleft (this _ hlevel)
  trail h9 := by
    rw [h9] at hlevel
    exact absurd hlevel (by decide)

lemma Reading.of_primary (frames : Nat) (hlevel : t.level = 9) (hframes : t.frames true = frames + 1)
    (h : ∀ n, frames ≤ n → Reads (parsePrimary (grammar n)) (EndsName t) (t.print true) t) : Reading t := by
  refine .of_trails hlevel (by omega) ?_
  rw [hframes]
  exact trails_of_primary h

def leftOps : List Op := [.or, .and, .add, .sub, .mul, .div, .floorDiv, .mod]

lemma leftOps_level : ∀ op ∈ leftOps,
    op.level ∈ leftLevels ∧ op.leftLevel = op.level ∧ op.rightLevel = op.level + 1 ∧ op ≠ .pow := by
  decide
lemma leftOps_tokens (op : Op) (h : op ∈ leftOps) (rest : List (Token F)) :
    levelOperator op.level (op.tokens ++ rest) = some (op, rest) ∧ opens (op.tokens ++ rest) = some op.level := by
  revert op
  simp [leftOps, levelOperator, Op.tokens, Op.level, opens_word, opens_symbol, Symbol.opens, addOps, mulOps]
lemma Op.tokens_ne_nil (op : Op) : (op.tokens : List (Token F)) ≠ [] := by cases op <;> exact cons_ne_nil _ _

lemma reading_left (hop : op ∈ leftOps) (hl : Reading l) (hr : Reading r) : ReachesAt op.level
      (max (framesAt op.leftLevel l.level (l.frames true)) (framesAt op.rightLevel r.level (r.frames true)))
      (enclose op.leftLevel l.level (l.print true) ++ (op.tokens ++ enclose op.rightLevel r.level (r.print true)))
      (levelNode op.level op l r) := by
  obtain ⟨hlevel, hleft, hright, -⟩ := leftOps_level op hop
  rw [hleft, hright]
  intro n hn
  have hr := hr.reads (leftLevels_frame _ hlevel).2 n (le_trans (le_max_right _ _) hn)
  refine (hl.reaches hlevel n (le_trans (le_max_left _ _) hn)).turn ?_ (fun rest hrest => ?_) fun rest hrest => ?_
  · exact append_ne_nil_of_left_ne_nil op.tokens_ne_nil _
  · rw [append_assoc]
    exact stops_of_opens (leftOps_tokens op hop _).2 (Nat.lt_succ_self _)
  · rw [append_assoc, levelStep, (leftOps_tokens op hop _).1]
    simp [hr rest hrest, bind, Except.bind]

lemma reading_logical (hop : op ∈ [.and, .or]) (hl : Reading l) (hr : Reading r) :
    Reading (.logical op l r) := by
  have hmem : op ∈ leftOps := by
    revert op
    decide
  have hnode : levelNode op.level op l r = .logical op l r := by
    simp only [mem_cons, not_mem_nil, or_false] at hop
    rcases hop with rfl | rfl <;> rfl
  have hreach := reading_left hmem hl hr
  rw [hnode] at hreach
  exact .of_left (leftOps_level op hmem).1 hreach

lemma reading_arithmetic (hop : op ∈ [.add, .sub, .mul, .div, .floorDiv, .mod])
    (hl : Reading l) (hr : Reading r) : Reading (.binary op l r) := by
  have hmem : op ∈ leftOps := by
    revert op
    decide
  have hnode : levelNode op.level op l r = .binary op l r := by
    simp only [mem_cons, not_mem_nil, or_false] at hop
    rcases hop with rfl | rfl | rfl | rfl | rfl | rfl <;> rfl
  have hframes : (Node.binary op l r).frames true =
      max (framesAt op.leftLevel l.level (l.frames true)) (framesAt op.rightLevel r.level (r.frames true)) := by
    rw [Node.frames, if_neg (leftOps_level op hmem).2.2.2]
    rfl
  have hreach := reading_left hmem hl hr
  rw [hnode, ← hframes] at hreach
  exact .of_left (leftOps_level op hmem).1 hreach

lemma Stops.sign (h : Stops 8 rest) : Stops 7 rest := by
  intro m hm
  refine Nat.lt_of_le_of_ne (Nat.le_of_lt_succ (h m hm)) ?_
  rintro rfl
  unfold opens at hm
  split at hm
  · rename_i s _
    cases s <;> cases hm
  · split_ifs at hm <;> cases hm
  · cases hm

lemma reading_pow (hl : Reading l) (hr : Reading r) : Reading (.binary .pow l r) := by
  refine .of_own (by simp [Node.level, Op.level]) fun n hn rest hrest => ?_
  obtain ⟨n, rfl⟩ : ∃ m, n = m + 1 := ⟨n - 1, by simp [Node.frames] at hn; omega⟩
  have hframes : max (framesAt 9 l.level (l.frames true)) (framesAt 7 r.level (r.frames true)) ≤ n :=
    Nat.le_of_succ_le_succ hn
  have hbase := hl.reads le_rfl n (le_trans (le_max_left _ _) hframes)
    (.symbol .doubleStar :: (enclose 7 r.level (r.print true) ++ rest)) (stops_of_opens rfl (by decide))
  have hexp := hr.reads (by decide) n (le_trans (le_max_right _ _) hframes) rest hrest.sign
  change parsePower (some (grammar n)) _ = _
  simp [parsePower, enter, grammar_postfixExpr, grammar_unaryExpr, Node.print, Op.leftLevel, Op.rightLevel, Op.tokens,
    hbase, hexp, bind, Except.bind]

lemma reading_not (hx : Reading x) : Reading (.unary .not x) := by
  refine .of_own (by simp [Node.level, Op.level]) fun n hn rest hrest => ?_
  obtain ⟨n, rfl⟩ : ∃ m, n = m + 1 := ⟨n - 1, by simp [Node.frames] at hn; omega⟩
  have hread := hx.reads (show 3 ≤ 9 by decide) n (Nat.le_of_succ_le_succ hn) rest hrest
  change parseNot (some (grammar n)) _ = _
  simp [parseNot, enter, grammar_notExpr, Node.print, Op.level, Op.tokens, hread, bind, Except.bind]

lemma reading_sign (hop : op ∈ [.neg, .pos]) (hx : Reading x) : Reading (.unary op x) := by
  have hlevel : op.level = 7 ∧ ∀ rest : List (Token F), tableOperator signOp (op.tokens ++ rest) = some (op, rest) := by
    simp only [mem_cons, not_mem_nil, or_false] at hop
    rcases hop with rfl | rfl <;> exact ⟨rfl, fun _ => rfl⟩
  refine .of_own (by simp [Node.level, hlevel.1]) fun n hn rest hrest => ?_
  obtain ⟨n, rfl⟩ : ∃ m, n = m + 1 := ⟨n - 1, by simp [Node.frames] at hn; omega⟩
  rw [Node.level, hlevel.1] at hrest ⊢
  rw [Node.frames, hlevel.1] at hn
  have hread := hx.reads (by decide) n (Nat.le_of_succ_le_succ hn) rest hrest
  change parseUnary (some (grammar n)) _ = _
  rw [parseUnary, Node.print, append_assoc, hlevel.2, hlevel.1]
  simp [enter, grammar_unaryExpr, hread, bind, Except.bind]

lemma reading_cond {a c b : Node F} (ha : Reading a) (hc : Reading c) (hb : Reading b) : Reading (.cond a c b) := by
  refine .of_own (by simp [Node.level]) fun n hn rest hrest => ?_
  obtain ⟨n, rfl⟩ : ∃ m, n = m + 1 := ⟨n - 1, by simp [Node.frames] at hn; omega⟩
  have hframes := Nat.le_of_succ_le_succ hn
  have hthen : parseOr (grammar n) _ = _ := ha.reads (by decide) n (le_trans (le_max_left _ _) hframes)
    (word "if" :: (enclose 1 c.level (c.print true) ++ (word "else" :: (b.print true ++ rest))))
    (stops_of_opens (m := 0) (by simp [opens_word]) (by decide))
  have hif : parseOr (grammar n) _ = _ := hc.reads (by decide) n
    (le_trans (le_trans (le_max_left _ _) (le_max_right _ _)) hframes)
    (word "else" :: (b.print true ++ rest)) (stops_of_opens_none (by simp [opens_word]) _)
  have helse := hb.expr (le_trans (le_trans (le_max_right _ _) (le_max_right _ _)) hframes) hrest
  change parseConditional (some (grammar n)) _ = _
  simp [parseConditional, enter, Node.print, hthen, hif, helse, bind, Except.bind]

def comparisonOps : List Op := [.lt, .gt, .le, .ge, .eq, .ne, .in_, .notIn]

lemma comparisonOps_tokens (op : Op) (h : op ∈ comparisonOps) (rest : List (Token F)) :
    compareOperator (op.tokens ++ rest) = some (op, rest) ∧ opens (op.tokens ++ rest) = some 4 := by
  revert op
  simp [comparisonOps, compareOperator, Op.tokens, opens_word, opens_symbol, Symbol.opens, compareOps]

lemma reaches_operands (hlen : xs.length = ops.length)
    (hops : ∀ op ∈ ops, op ∈ comparisonOps) (hxs : ∀ x ∈ xs, Reading x) (hn : framesAll true 5 xs ≤ n)
    {ops0 : List Op} {xs0 : List (Node F)}
    (h : Reaches (parseComparison (below n)) (compareStep n) (Stops 5) toks (ops0, xs0)) :
    Reaches (parseComparison (below n)) (compareStep n) (Stops 5) (toks ++ printOperands true ops xs)
    (ops0 ++ ops, xs0 ++ xs) := by
  induction xs generalizing ops ops0 xs0 toks with
  | nil =>
    obtain rfl := eq_nil_of_length_eq_zero hlen.symm
    simpa [printOperands] using h
  | cons x xs ih =>
    cases ops with
    | nil => cases hlen
    | cons op ops =>
      obtain ⟨hop, hops⟩ := forall_mem_cons.mp hops
      obtain ⟨hx, hxs⟩ := forall_mem_cons.mp hxs
      rw [framesAll] at hn
      have hread := hx.reads (show 5 ≤ 9 by decide) n (le_trans (le_max_left _ _) hn)
      have hturn : Reaches (parseComparison (below n)) (compareStep n) (Stops 5)
          (toks ++ (op.tokens ++ enclose 5 x.level (x.print true))) (ops0 ++ [op], xs0 ++ [x]) := by
        refine h.turn (append_ne_nil_of_left_ne_nil op.tokens_ne_nil _) (fun rest hrest => ?_) fun rest hrest => ?_
        · rw [append_assoc]
          exact stops_of_opens (comparisonOps_tokens op hop _).2 (by decide)
        · have hadd : parseAdd (below n) (enclose 5 x.level (x.print true) ++ rest) = .ok (x, rest) := hread rest hrest
          rw [append_assoc, compareStep, (comparisonOps_tokens op hop _).1]
          simp [hadd, bind, Except.bind]
      have hrest := ih (Nat.succ.inj hlen) hops hxs (le_trans (le_max_right _ _) hn) hturn
      simpa [printOperands] using hrest

lemma reading_compare {operands : List (Node F)} (hne : ops ≠ [])
    (hlen : operands.length = ops.length + 1) (hops : ∀ op ∈ ops, op ∈ comparisonOps)
    (h : ∀ x ∈ operands, Reading x) : Reading (.compare ops operands) := by
  refine .of_own (by simp [Node.level]) fun n hn => ?_
  cases operands with
  | nil => cases hlen
  | cons x xs =>
    obtain ⟨hx, hxs⟩ := forall_mem_cons.mp h
    rw [Node.frames, framesAll] at hn
    have hfirst := (hx.reads (show 5 ≤ 9 by decide)).operand (le_trans (le_max_left _ _) hn)
    have hall := reaches_operands (Nat.succ.inj hlen) hops hxs (le_trans (le_max_right _ _) hn) hfirst
    have hnode : comparison ([] ++ ops) ([x] ++ xs) = .compare ops (x :: xs) := by
      cases ops with
      | nil => exact absurd rfl hne
      | cons op ops => rfl
    have hread := reads_comparison hall
    rw [hnode] at hread
    exact hread

lemma reading_int (v : Int) : Reading (.int v : Node F) := .of_primary 0 rfl rfl fun _ _ _ _ => rfl
lemma reading_float (f : F) : Reading (.float f) := .of_primary 0 rfl rfl fun _ _ _ _ => rfl
lemma reading_string (s : Text) : Reading (.string s : Node F) := .of_primary 0 rfl rfl fun _ _ _ _ => rfl
lemma reading_bool (b : Bool) : Reading (.bool b : Node F) := by
  cases b <;> exact .of_primary 0 rfl rfl fun _ _ _ _ => rfl
lemma reading_null : Reading (.null : Node F) := .of_primary 0 rfl rfl fun _ _ _ _ => rfl

lemma parseDotted_print (parts more : List Text) (hrest : accept .dot rest = none) :
    parseDotted parts (printDotted more ++ rest) = .ok (.name (parts ++ more), rest) := by
  induction more generalizing parts with
  | nil =>
    rw [append_nil, printDotted, nil_append]
    unfold parseDotted
    split
    · cases hrest
    · cases hrest
    · rfl
  | cons part more ih =>
    rw [printDotted, cons_append, cons_append, parseDotted, ih, append_assoc]
    rfl

lemma reading_name {part : Text} {parts : List Text} (h : part ∉ reserved.map String.toList) :
    Reading (.name (part :: parts) : Node F) := by
  refine .of_primary 0 rfl rfl fun n _ rest hrest => ?_
  have hprimary : parseIdentPrimary part (printDotted parts ++ rest) =
      parseDotted [part] (printDotted parts ++ rest) := by
    simp only [reserved, map_append, mem_append, not_or] at h
    obtain ⟨hlit, hkey⟩ := h
    simp only [map_cons, map_nil, mem_cons, not_mem_nil, or_false, not_or] at hlit
    obtain ⟨hTrue, htrue, hFalse, hfalse, hNone, hnull⟩ := hlit
    rw [parseIdentPrimary, if_neg (not_or.mpr ⟨hTrue, htrue⟩), if_neg (not_or.mpr ⟨hFalse, hfalse⟩),
      if_neg (not_or.mpr ⟨hNone, hnull⟩), if_neg hkey]
  exact hprimary.trans (parseDotted_print [part] parts (hrest rfl))

lemma Reading.of_trailer {frames : Nat} {Ends : List (Token F) → Prop} {more : List (Token F)} (hlevel : t.level = 9)
    (hpos : 0 < t.frames true) (hx : TrailsAt frames Ends toks x) (hframes : frames ≤ t.frames true) (hmore : more ≠ [])
    (hends : ∀ rest, Ends (more ++ rest)) (hprint : t.print true = toks ++ more)
    (hstep : ∀ n, t.frames true ≤ n + 1 → ∀ rest, parseTrailer (grammar n) x (more ++ rest) = some (.ok (t, rest))) :
    Reading t := by
  refine .of_trails hlevel hpos fun n hn => ?_
  rw [hprint]
  exact (hx n (hframes.trans hn)).turn hmore (fun rest _ => hends rest) fun rest _ => hstep n hn rest

lemma reading_access {attr : Text} (hx : Reading x) : Reading (.access x attr) := by
  have hplace : 9 ≤ x.receiverPlace true := by
    unfold Node.receiverPlace
    split <;> omega
  exact .of_trailer rfl (framesAt_pos hx hplace) hx.receiver le_rfl (cons_ne_nil _ _) (fun _ => trivial) rfl
    fun _ _ _ => rfl

lemma reading_index {idx : Node F} (hx : Reading x) (hidx : Reading idx) : Reading (.index x idx) := by
  refine .of_trailer rfl ?_ hx.trails (le_max_left _ _) (cons_ne_nil _ _) (fun _ _ => rfl) rfl fun n hn rest => ?_
  · exact lt_of_lt_of_le (framesAt_pos hx le_rfl) (le_max_left _ _)
  have hn : idx.nesting true ≤ n := Nat.le_of_succ_le_succ (le_trans (le_max_right _ _) hn)
  have hstop : Stops 0 (.symbol .rBracket :: rest) := stops_of_opens_none rfl 0
  have hexpr := hidx.expr hn hstop
  have hcolon := hidx.opening hn hstop .colon (by simp)
  simp [parseTrailer, parseSubscript, hcolon, hexpr, expect, bind, Except.bind]

lemma peekKind_ne_colon (h : Opening toks) : peekKind toks ≠ .symbol .colon := by
  intro hk
  cases toks with
  | nil => cases hk
  | cons tok toks =>
    cases tok with
    | symbol s =>
      obtain rfl : s = .colon := by simpa [peekKind] using hk
      exact absurd (h .colon (by simp)) (by simp)
    | _ => cases hk

section
variable {n : Nat} {start stop step : Option (Node F)}

lemma parseSliceStep_print (x : Node F) (start stop : Option (Node F)) (rest : List (Token F)) {s : Node F}
    (hs : Reading s) (hn : s.nesting true ≤ n) :
    parseSliceStep (grammar n) x start stop (.symbol .colon :: (s.print true ++ .symbol .rBracket :: rest)) =
      .ok (.slice x start stop (some s), rest) := by
  have hstop : Stops 0 (.symbol .rBracket :: rest) := stops_of_opens_none rfl 0
  have hexpr := hs.expr hn hstop
  have hclose := hs.opening hn hstop .rBracket (by simp)
  simp [parseSliceStep, expect, hclose, hexpr, bind, Except.bind]

lemma parseSliceRest_print (x : Node F) (start : Option (Node F)) (rest : List (Token F))
    (hstop : ∀ e ∈ stop, Reading e) (hstep : ∀ e ∈ step, Reading e)
    (hnstop : framesOption true 0 stop ≤ n) (hnstep : framesOption true 0 step ≤ n) :
    parseSliceRest (grammar n) x start (printOption true stop ++ (printStep true step ++ .symbol .rBracket :: rest)) =
      .ok (.slice x start stop step, rest) := by
  cases stop with
  | none =>
    cases step with
    | none => rfl
    | some s =>
      have hstep := parseSliceStep_print x start none rest (hstep s rfl) hnstep
      simp [parseSliceRest, printOption, printStep, peekKind, hstep]
  | some e =>
    have hopens : Stops 0 (printStep true step ++ .symbol .rBracket :: rest) := by
      cases step <;> exact stops_of_opens_none rfl 0
    have hexpr := (hstop e rfl).expr hnstop hopens
    have hopening := (hstop e rfl).opening hnstop hopens
    have hclose := hopening .rBracket (by simp)
    have hcolon := peekKind_ne_colon hopening
    cases step with
    | none =>
      simp only [printStep, nil_append] at hexpr hclose hcolon
      simp [parseSliceRest, printOption, printStep, hclose, hcolon, hexpr, bind, Except.bind]
    | some s =>
      have hstep := parseSliceStep_print x start (some e) rest (hstep s rfl) hnstep
      simp only [printStep, cons_append] at hexpr hclose hcolon
      simp [parseSliceRest, printOption, printStep, hclose, hcolon, hexpr, hstep, bind, Except.bind]

lemma reading_slice (hx : Reading x) (hstart : ∀ e ∈ start, Reading e) (hstop : ∀ e ∈ stop, Reading e)
    (hstep : ∀ e ∈ step, Reading e) : Reading (.slice x start stop step) := by
  refine .of_trailer rfl ?_ hx.trails (le_max_left _ _) (cons_ne_nil _ _) (fun _ _ => rfl) rfl fun n hn rest => ?_
  · exact lt_of_lt_of_le (framesAt_pos hx le_rfl) (le_max_left _ _)
  have hn : max (framesOption true 0 start) (max (framesOption true 0 stop) (framesOption true 0 step)) ≤ n :=
    Nat.le_of_succ_le_succ (le_trans (le_max_right _ _) hn)
  obtain ⟨hnstart, hn⟩ := max_le_iff.mp hn
  obtain ⟨hnstop, hnstep⟩ := max_le_iff.mp hn
  have hslice := parseSliceRest_print x start rest hstop hstep hnstop hnstep
  cases start with
  | none => simp [parseTrailer, parseSubscript, printOption, hslice]
  | some e =>
    have hopens : Stops 0 (.symbol .colon :: (printOption true stop ++
      (printStep true step ++ .symbol .rBracket :: rest))) :=
      stops_of_opens_none rfl 0
    have hexpr := (hstart e rfl).expr hnstart hopens
    have hcolon := (hstart e rfl).opening hnstart hopens .colon (by simp)
    simp [parseTrailer, parseSubscript, printOption, hcolon, hexpr, hslice, bind, Except.bind]

end

/-! ## Arguments and elements -/

lemma framesAll_le (h : framesAll true place xs ≤ n) :
    ∀ x ∈ xs, framesAt place x.level (x.frames true) ≤ n := by
  induction xs with
  | nil => exact nofun
  | cons x xs ih =>
    rw [framesAll, max_le_iff] at h
    exact forall_mem_cons.mpr ⟨h.1, ih h.2⟩

lemma stops_printMore (close : Symbol) (hclose : close.opens = none) (xs : List (Node F)) (rest : List (Token F)) :
    Stops 0 (printMore true xs ++ .symbol close :: rest) := by
  cases xs with
  | nil => exact stops_symbol hclose 0
  | cons x xs => exact stops_symbol rfl 0

def argStep (n : Nat) (args : List (Node F)) (toks : List (Token F)) :
    Option (Except ParseError (List (Node F) × List (Token F))) :=
  (accept .comma toks).map fun toks => do
    let (arg, rest) ← (grammar n).expr toks
    .ok (args ++ [arg], rest)

lemma reaches_args (hxs : ∀ x ∈ xs, Reading x) (hn : framesAll true 0 xs ≤ n)
    (h : Reaches (parseArgs (grammar n)) (argStep n) (Stops 0) toks args) :
    Reaches (parseArgs (grammar n)) (argStep n) (Stops 0) (toks ++ printMore true xs) (args ++ xs) := by
  induction xs generalizing args toks with
  | nil => simpa [printMore] using h
  | cons x xs ih =>
    obtain ⟨hx, hxs⟩ := forall_mem_cons.mp hxs
    rw [framesAll, max_le_iff] at hn
    have hturn : Reaches (parseArgs (grammar n)) (argStep n) (Stops 0)
        (toks ++ (.symbol .comma :: x.print true)) (args ++ [x]) := by
      refine h.turn (cons_ne_nil _ _) (fun rest _ => stops_of_opens_none rfl 0) fun rest hrest => ?_
      simp [argStep, hx.expr hn.1 hrest, bind, Except.bind]
    have hmore := ih hxs hn.2 hturn
    simpa [printMore] using hmore

lemma reads_args (h : ∀ y ∈ x :: xs, Reading y) (hn : framesAll true 0 (x :: xs) ≤ n) :
    Reads (parseArgs (grammar n)) (fun rest => Stops 0 rest ∧ accept .comma rest = none) (printList true (x :: xs))
    (x :: xs) := by
  obtain ⟨hx, hxs⟩ := forall_mem_cons.mp h
  rw [framesAll, max_le_iff] at hn
  have hfirst : Reaches (parseArgs (grammar n)) (argStep n) (Stops 0) (x.print true) [x] := by
    have hread : Reads (grammar n).expr (Stops 0) (x.print true) x := fun rest hrest => hx.expr hn.1 hrest
    exact hread.reaches (fun arg => [arg]) fun _ => rfl
  refine (reaches_args hxs hn.2 hfirst).reads (fun _ hrest => hrest.1) fun rest hrest => ?_
  rw [argStep, hrest.2]
  rfl

lemma reading_call {callee : Node F} (hcallee : Reading callee)
    (hargs : ∀ x ∈ args, Reading x) : Reading (.call callee args) := by
  refine .of_trailer rfl ?_ hcallee.trails (le_max_left _ _) (cons_ne_nil _ _) (fun _ _ => rfl) rfl
    fun n hn rest => ?_
  · exact lt_of_lt_of_le (framesAt_pos hcallee le_rfl) (le_max_left _ _)
  have hn : framesAll true 0 args ≤ n := Nat.le_of_succ_le_succ (le_trans (le_max_right _ _) hn)
  cases args with
  | nil => rfl
  | cons x xs =>
    have hread := reads_args hargs hn (.symbol .rParen :: rest) ⟨stops_of_opens_none rfl 0, rfl⟩
    have hx := framesAll_le hn x mem_cons_self
    have hclose := (hargs x mem_cons_self).opening hx (stops_printMore .rParen rfl xs rest) .rParen (by simp)
    simp only [printList, append_assoc] at hread
    simp [parseTrailer, parseCall, printList, hclose, hread, expect, bind, Except.bind]

lemma keyword_printMore (xs : List (Node F)) (rest : List (Token F)) :
    keyword "for" (printMore true xs ++ .symbol .rBracket :: rest) = false := by
  cases xs <;> rfl

lemma parseElements_print {fuel : Nat} (hxs : ∀ x ∈ xs, Reading x)
    (hn : framesAll true 0 xs ≤ n) (hfuel : xs.length < fuel) (elems : List (Node F)) (rest : List (Token F)) :
    parseElements (grammar n) fuel elems (printMore true xs ++ .symbol .rBracket :: rest) =
      .ok (.list (elems ++ xs), rest) := by
  induction xs generalizing elems fuel with
  | nil =>
    obtain ⟨fuel, rfl⟩ : ∃ m, fuel = m + 1 := ⟨fuel - 1, by omega⟩
    simp [printMore, parseElements, expect, bind, Except.bind]
  | cons x xs ih =>
    obtain ⟨fuel, rfl⟩ : ∃ m, fuel = m + 1 := ⟨fuel - 1, by omega⟩
    obtain ⟨hx, hxs⟩ := forall_mem_cons.mp hxs
    rw [framesAll, max_le_iff] at hn
    have hends := stops_printMore .rBracket rfl xs rest
    have hexpr := hx.expr hn.1 hends
    have hclose := hx.opening hn.1 hends .rBracket (by simp)
    have hfor := keyword_printMore xs rest
    have hmore := ih hxs hn.2 (by simpa using hfuel) (elems ++ [x])
    simp [printMore, parseElements, hclose, hexpr, hfor, hmore, bind, Except.bind]

lemma length_le_printMore (xs : List (Node F)) : xs.length ≤ (printMore true xs).length := by
  induction xs with
  | nil => exact Nat.zero_le _
  | cons x xs ih =>
    simp only [printMore, length_cons, length_append]
    omega

lemma reading_list {elems : List (Node F)} (h : ∀ x ∈ elems, Reading x) : Reading (.list elems) := by
  refine .of_primary (framesAll true 0 elems) rfl rfl fun n hn rest _ => ?_
  cases elems with
  | nil => rfl
  | cons x xs =>
    obtain ⟨hx, hxs⟩ := forall_mem_cons.mp h
    rw [framesAll, max_le_iff] at hn
    have hends := stops_printMore .rBracket rfl xs rest
    have hexpr := hx.expr hn.1 hends
    have hclose := hx.opening hn.1 hends .rBracket (by simp)
    have hfor := keyword_printMore xs rest
    have hfuel : xs.length < (printMore true xs ++ .symbol .rBracket :: rest).length + 1 := by
      have hlen := length_le_printMore xs
      rw [length_append]
      omega
    have hmore := parseElements_print hxs hn.2 hfuel [x] rest
    simp only [Node.print, printList, cons_append, append_assoc, nil_append, parsePrimary,
      parseListLiteral, hclose, hexpr, bind, Except.bind, hfor, Bool.false_eq_true, if_false]
    exact hmore

lemma parseFilter_print (h : ∀ e ∈ filter, Reading e)
    (hn : framesOption true 1 filter ≤ n) (rest : List (Token F)) :
    parseFilter (grammar n) (printFilter true filter ++ .symbol .rBracket :: rest) =
    .ok (filter, .symbol .rBracket :: rest) := by
  cases filter with
  | none => rfl
  | some e =>
    have hor : parseOr (grammar n) (enclose 1 e.level (e.print true) ++ .symbol .rBracket :: rest) =
        .ok (e, .symbol .rBracket :: rest) := (h e rfl).reads (by decide) n hn _ (stops_symbol rfl 1)
    simp [parseFilter, printFilter, hor, bind, Except.bind]

lemma reading_comp {elem iter : Node F} {var : Text} (hvar : isUserIdentifier var = true)
    (helem : Reading elem) (hiter : Reading iter) (hfilter : ∀ e ∈ filter, Reading e) :
    Reading (.comp elem var iter filter) := by
  refine .of_primary _ rfl rfl fun n hn rest _ => ?_
  obtain ⟨hnelem, hn⟩ := max_le_iff.mp hn
  obtain ⟨hniter, hnfilter⟩ := max_le_iff.mp hn
  have hfor : ∀ toks : List (Token F), Stops 0 (word "for" :: toks) := fun toks =>
    stops_of_opens_none (by simp [opens_word]) 0
  have hexpr := fun toks => helem.expr hnelem (hfor toks)
  have hclose := fun toks => helem.opening hnelem (hfor toks) .rBracket (by simp)
  have hends : Stops 1 (printFilter true filter ++ .symbol .rBracket :: rest) := by
    cases filter with
    | none => exact stops_symbol rfl 1
    | some e => exact stops_of_opens (m := 0) (by simp [printFilter, opens_word]) (by decide)
  have hor : parseOr (grammar n) _ = _ := hiter.reads (by decide) n hniter _ hends
  have hfilter := parseFilter_print hfilter hnfilter rest
  simp [Node.print, parsePrimary, parseListLiteral, hclose, hexpr, parseComprehensionRest, expectIdent, hvar, hor,
    hfilter, expect, bind, Except.bind]

/-! ## The induction -/

section
variable {IsFloat : F → Prop}

mutual

lemma reading_of_wf (t : Node F) (ht : t.Wellformed IsFloat) : Reading t := by
  cases t with
  | int v => exact reading_int v
  | float f => exact reading_float f
  | string s => exact reading_string s
  | bool b => exact reading_bool b
  | null => exact reading_null
  | name parts =>
    cases parts with
    | nil => exact ht.elim
    | cons part parts => exact reading_name ht.2.1
  | unary op x =>
    have hx := reading_of_wf x ht.2
    have hop := ht.1
    simp only [mem_cons, not_mem_nil, or_false] at hop
    rcases hop with rfl | rfl | rfl
    · exact reading_sign (by simp) hx
    · exact reading_sign (by simp) hx
    · exact reading_not hx
  | binary op l r =>
    have hl := reading_of_wf l ht.2.1
    have hr := reading_of_wf r ht.2.2
    by_cases hpow : op = .pow
    · subst hpow
      exact reading_pow hl hr
    · have hop := ht.1
      refine reading_arithmetic ?_ hl hr
      simpa [hpow] using hop
  | compare ops operands =>
    exact reading_compare ht.1 ht.2.1 ht.2.2.1 (reading_of_wfAll operands ht.2.2.2)
  | logical op l r => exact reading_logical ht.1 (reading_of_wf l ht.2.1) (reading_of_wf r ht.2.2)
  | cond a c b =>
    exact reading_cond (reading_of_wf a ht.1) (reading_of_wf c ht.2.1) (reading_of_wf b ht.2.2)
  | list elems => exact reading_list (reading_of_wfAll elems ht)
  | index x idx => exact reading_index (reading_of_wf x ht.1) (reading_of_wf idx ht.2)
  | slice x start stop step =>
    exact reading_slice (reading_of_wf x ht.1) (reading_of_wfOption start ht.2.1)
      (reading_of_wfOption stop ht.2.2.1) (reading_of_wfOption step ht.2.2.2)
  | comp elem var iter filter =>
    exact reading_comp ht.1 (reading_of_wf elem ht.2.1) (reading_of_wf iter ht.2.2.1)
      (reading_of_wfOption filter ht.2.2.2)
  | access x attr => exact reading_access (reading_of_wf x ht.2)
  | call callee args =>
    exact reading_call (reading_of_wf callee ht.1) (reading_of_wfAll args ht.2)

lemma reading_of_wfAll (ts : List (Node F)) (hts : wellformedAll IsFloat ts) : ∀ t ∈ ts, Reading t := by
  cases ts with
  | nil => exact nofun
  | cons t ts => exact forall_mem_cons.mpr ⟨reading_of_wf t hts.1, reading_of_wfAll ts hts.2⟩

lemma reading_of_wfOption (o : Option (Node F)) (ho : wellformedOption IsFloat o) : ∀ t ∈ o, Reading t := by
  cases o with
  | none => exact nofun
  | some t =>
    rintro _ ⟨⟩
    exact reading_of_wf t ho

end
end
end
end Sqi.Expr
