import Sqi.Expr.Reading
import Sqi.Expr.Spelling

/-! Printing a tree of the language and parsing the text gives the tree back, in any
layout of the tokens, within the limits on the text and on the nesting. -/

namespace Sqi.Expr
open Bool GoText List

section
variable {F : Type} {IsFloat : F → Prop} {apart : Bool} {toks : List (Token F)}

def Lexed (IsFloat : F → Prop) (toks : List (Token F)) : Prop := ∀ tok ∈ toks, tok.Wellformed IsFloat

@[simp] lemma lexed_nil : Lexed IsFloat [] := nofun
@[simp] lemma lexed_cons {tok : Token F} :
    Lexed IsFloat (tok :: toks) ↔ tok.Wellformed IsFloat ∧ Lexed IsFloat toks := forall_mem_cons
@[simp] lemma lexed_append {a b : List (Token F)} : Lexed IsFloat (a ++ b) ↔ Lexed IsFloat a ∧ Lexed IsFloat b :=
  forall_mem_append
@[simp] lemma wellformed_symbol (s : Symbol) : (Token.symbol s : Token F).Wellformed IsFloat := trivial
lemma wellformed_word (w : String) (h : isIdentifier w.toList = true) : (word w : Token F).Wellformed IsFloat := h
@[simp] lemma wellformed_ident (text : Text) :
    (Token.ident text : Token F).Wellformed IsFloat ↔ isIdentifier text = true := Iff.rfl
lemma lexed_wrap {place level : Nat} (h : Lexed IsFloat toks) : Lexed IsFloat (enclose place level toks) := by
  unfold enclose
  split <;> simp [h]

lemma lexed_op (op : Op) : Lexed IsFloat op.tokens := by
  cases op with
  | or => exact forall_mem_singleton.mpr (wellformed_word "or" rfl)
  | and => exact forall_mem_singleton.mpr (wellformed_word "and" rfl)
  | not => exact forall_mem_singleton.mpr (wellformed_word "not" rfl)
  | in_ => exact forall_mem_singleton.mpr (wellformed_word "in" rfl)
  | notIn => simp [Op.tokens, wellformed_word "not" rfl, wellformed_word "in" rfl]
  | _ => simp [Op.tokens]

lemma lexed_dotted {parts : List Text} (h : ∀ p ∈ parts, isIdentifier p = true) :
    Lexed IsFloat (printDotted parts) := by
  induction parts with
  | nil => exact lexed_nil
  | cons part parts ih =>
    obtain ⟨hpart, hparts⟩ := forall_mem_cons.mp h
    simp [printDotted, hpart, ih hparts]

lemma isIdentifier_of_user {text : Text} (h : isUserIdentifier text = true) : isIdentifier text = true := by
  cases text with
  | nil => cases h
  | cons c text =>
    simp only [isUserIdentifier, and_eq_true, or_eq_true, all_eq_true] at h
    simp only [isIdentifier, isIdentStart, isIdentPart, and_eq_true, or_eq_true, all_eq_true]
    delta Char.isAlpha
    simp only [or_eq_true]
    refine ⟨h.1.symm.imp_right .inr, fun d hd => ?_⟩
    rcases h.2 d hd with ((h | h) | h) | h
    · exact .inl (.inr (.inr h))
    · exact .inl (.inr (.inl h))
    · exact .inr h
    · exact .inl (.inl h)

mutual

lemma lexed_print (t : Node F) (ht : t.Wellformed IsFloat) : Lexed IsFloat (t.print apart) := by
  cases t with
  | int v => exact forall_mem_singleton.mpr ht
  | float f => exact forall_mem_singleton.mpr ht
  | string s => exact forall_mem_singleton.mpr trivial
  | bool b => cases b <;> exact forall_mem_singleton.mpr (wellformed_word _ rfl)
  | null => exact forall_mem_singleton.mpr (wellformed_word _ rfl)
  | name parts =>
    cases parts with
    | nil => exact ht.elim
    | cons part parts => simp [Node.print, ht.1, lexed_dotted ht.2.2]
  | unary op x => simp [Node.print, lexed_op, lexed_wrap (lexed_print x ht.2)]
  | binary op l r => simp [Node.print, lexed_op, lexed_wrap (lexed_print l ht.2.1), lexed_wrap (lexed_print r ht.2.2)]
  | logical op l r => simp [Node.print, lexed_op, lexed_wrap (lexed_print l ht.2.1), lexed_wrap (lexed_print r ht.2.2)]
  | compare ops operands =>
    cases operands with
    | nil => simp [Node.print, printComparison]
    | cons x xs =>
      have hall := ht.2.2.2
      simp [Node.print, printComparison, lexed_wrap (lexed_print x hall.1), lexed_operands xs hall.2]
  | cond a c b =>
    simp [Node.print, wellformed_word "if" rfl, wellformed_word "else" rfl, lexed_wrap (lexed_print a ht.1),
      lexed_wrap (lexed_print c ht.2.1), lexed_print b ht.2.2]
  | list elems =>
    cases elems with
    | nil => simp [Node.print, printList]
    | cons x xs => simp [Node.print, printList, lexed_print x ht.1, lexed_more xs ht.2]
  | index x idx => simp [Node.print, lexed_wrap (lexed_print x ht.1), lexed_print idx ht.2]
  | slice x start stop step =>
    simp [Node.print, lexed_wrap (lexed_print x ht.1), lexed_option start ht.2.1, lexed_option stop ht.2.2.1,
      lexed_step step ht.2.2.2]
  | comp elem var iter filter =>
    simp [Node.print, wellformed_word "for" rfl, wellformed_word "in" rfl, isIdentifier_of_user ht.1,
      lexed_print elem ht.2.1, lexed_wrap (lexed_print iter ht.2.2.1), lexed_filter filter ht.2.2.2]
  | access x attr => simp [Node.print, ht.1, lexed_wrap (lexed_print x ht.2)]
  | call callee args =>
    cases args with
    | nil => simp [Node.print, printList, lexed_wrap (lexed_print callee ht.1)]
    | cons x xs =>
      simp [Node.print, printList, lexed_wrap (lexed_print callee ht.1), lexed_print x ht.2.1, lexed_more xs ht.2.2]

lemma lexed_operands (xs : List (Node F)) (hxs : wellformedAll IsFloat xs) {ops : List Op} :
    Lexed IsFloat (printOperands apart ops xs) := by
  cases xs with
  | nil => simp [printOperands]
  | cons x xs =>
    cases ops with
    | nil => simp [printOperands]
    | cons op ops => simp [printOperands, lexed_op, lexed_wrap (lexed_print x hxs.1), lexed_operands xs hxs.2]

lemma lexed_more (xs : List (Node F)) (hxs : wellformedAll IsFloat xs) : Lexed IsFloat (printMore apart xs) := by
  cases xs with
  | nil => simp [printMore]
  | cons x xs => simp [printMore, lexed_print x hxs.1, lexed_more xs hxs.2]
lemma lexed_option (o : Option (Node F)) (ho : wellformedOption IsFloat o) : Lexed IsFloat (printOption apart o) := by
  cases o with
  | none => simp [printOption]
  | some x => simpa [printOption] using lexed_print x ho
lemma lexed_step (o : Option (Node F)) (ho : wellformedOption IsFloat o) : Lexed IsFloat (printStep apart o) := by
  cases o with
  | none => simp [printStep]
  | some x => simpa [printStep] using lexed_print x ho
lemma lexed_filter (o : Option (Node F)) (ho : wellformedOption IsFloat o) : Lexed IsFloat (printFilter apart o) := by
  cases o with
  | none => simp [printFilter]
  | some x => exact lexed_cons.mpr ⟨wellformed_word "if" rfl, lexed_wrap (lexed_print x ho)⟩

end
end

/-! ## The round trip -/

section
variable {F : Type}

/-- In any layout of its tokens, a printed tree parses to itself. -/
theorem parse_print (host : LexHost F) (spell : F → Text) (t : Node F) (ht : t.Wellformed (Spelled host spell))
    (text : Text) (htext : Renders spell (t.print true) text) (hlen : byteLen text ≤ maxSourceBytes)
    (hdepth : t.nesting true ≤ maxParseDepth) : parse host text = .ok t := by
  have htokens : tokenize host text = .ok (t.print true) :=
    tokenizeFrom_renders htext (lexed_print t ht) _ le_rfl
  have hexpr := (reading_of_wf t ht).expr hdepth (stops_of_opens_none (show opens [] = none from rfl) 0)
  rw [append_nil] at hexpr
  rw [parse, if_neg (by omega), htokens]
  cases hprint : t.print true with
  | nil =>
    rw [hprint] at hexpr
    cases hexpr
  | cons tok toks =>
    rw [hprint] at hexpr
    simp [Except.mapError, hexpr, bind, Except.bind]

def spacedText (spell : F → Text) (toks : List (Token F)) : Text := toks.flatMap fun tok => ' ' :: tok.text spell

lemma renders_spaced (spell : F → Text) (toks : List (Token F)) : Renders spell toks (spacedText spell toks) := by
  induction toks with
  | nil => exact .nil nofun
  | cons tok toks ih =>
    have hblank : ∀ c ∈ [' '], isBlank c = true := all_eq_true.mp (by decide)
    refine .cons hblank (fun c hc => ?_) ih
    -- what follows starts with a blank, which joins no token
    have hc : c = ' ' := by
      cases toks with
      | nil => cases hc
      | cons tok' toks => exact (Option.some.inj hc).symm
    subst hc
    cases tok with
    | ident text => rfl
    | symbol s => cases s <;> rfl
    | _ => rfl

def literalHost : LexHost Text := ⟨.ok, fun _ => none⟩
def sampleTree : Node Text :=
  .cond (.binary .pow (.access (.name [['x']]) ['y']) (.unary .neg (.int 2)))
    (.unary .not (.compare [.notIn] [.name [['a']], .name [['b']]]))
    (.comp (.name [['i']]) ['i'] (.name [['c']]) (some (.float ['1', '.', '5'])))

theorem parse_print_sample : parse literalHost (spacedText id (sampleTree.print true)) = .ok sampleTree := by
  refine parse_print literalHost id sampleTree ?_ _ (renders_spaced id _) (by decide +kernel) (by decide +kernel)
  have hfloat : IsFloatLiteral ['1', '.', '5'] :=
    @IsFloatLiteral.fraction ['1'] ['5'] (by decide) (by simp [IsDigits]) (by simp [IsDigits])
  have hint : Word.IsInt 2 := by decide
  have hall : ['x', 'y', 'a', 'b', 'c', 'i'].all (fun c => isIdentifier [c] && [c] ∉ reserved.map String.toList) := by
    decide
  have hname : ∀ c ∈ ['x', 'y', 'a', 'b', 'c', 'i'], isIdentifier [c] = true ∧ [c] ∉ reserved.map String.toList := by
    simpa using hall
  simp [sampleTree, Node.Wellformed, wellformedAll, wellformedOption, Spelled, hfloat, hint, hname, literalHost,
    isUserIdentifier]

/-- A name takes the property of a receiver that stands without parentheses. -/
theorem parse_print_receiver :
    (Node.access (.name [['x']]) ['y'] : Node Text).Wellformed (Spelled literalHost id) ∧
      Renders id ((Node.access (.name [['x']]) ['y'] : Node Text).print false) ['x', '.', 'y'] ∧
      parse literalHost ['x', '.', 'y'] = .ok (.name [['x'], ['y']]) ∧
      parse literalHost ['(', 'x', ')', '.', 'y'] = .ok (.access (.name [['x']]) ['y']) := by
  have hname : isIdentifier ['x'] = true ∧ ['x'] ∉ reserved.map String.toList := by decide
  refine ⟨⟨rfl, hname.1, hname.2, nofun⟩, ?_, rfl, rfl⟩
  have hapart : ∀ (tok : Token Text) (c : Char) (rest : Text), tok.joins c = false → tok.Apart (c :: rest) := by
    rintro tok c rest h _ ⟨⟩
    exact h
  have hend : Renders id ([] : List (Token Text)) [] := .nil nofun
  exact @Renders.cons _ _ [] _ (.ident ['x']) _ nofun (hapart _ _ _ rfl)
    (@Renders.cons _ _ [] _ (.symbol .dot) _ nofun (hapart _ _ _ rfl)
      (@Renders.cons _ _ [] _ (.ident ['y']) _ nofun nofun hend))

end
end Sqi.Expr
