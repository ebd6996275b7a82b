import Sqi.OpenJD.Combination

/-! The grammar of combination expressions, and that the parser of `expand.go` accepts it exactly. -/

namespace Sqi.CombGrammar
open List GoText Program

def joinFactors (left : CombNode) (more : List CombNode) : CombNode :=
  match more with
  | [] => left
  | _ => .product (left :: more)

mutual
inductive Product : Nat → CombNode → List String → Prop where
  | mk {d : Nat} {left : CombNode} {more : List CombNode} {ts us : List String} :
    Element d left ts → Factors d more us → Product d (joinFactors left more) (ts ++ us)

inductive Factors : Nat → List CombNode → List String → Prop where
  | nil {d : Nat} : Factors d [] []
  | cons {d : Nat} {right : CombNode} {more : List CombNode} {ts us : List String} :
    Element d right ts → Factors d more us → Factors d (right :: more) ("*" :: (ts ++ us))

inductive Element : Nat → CombNode → List String → Prop where
  | ident {d : Nat} {name : String} : isIdentifier name = true → Element d (.ident name) [name]
  | group {d : Nat} {first : CombNode} {rest : List CombNode} {ts us : List String} :
    Product d first ts → Members d rest us → rest ≠ [] →
    Element (d + 1) (.assoc (first :: rest)) ("(" :: (ts ++ (us ++ [")"])))

inductive Members : Nat → List CombNode → List String → Prop where
  | nil {d : Nat} : Members d [] []
  | cons {d : Nat} {child : CombNode} {more : List CombNode} {ts us : List String} :
    Product d child ts → Members d more us → Members d (child :: more) ("," :: (ts ++ us))
end

mutual
def print : CombNode → List String
  | .ident name => [name]
  | .product children => printJoined "*" children
  | .assoc children => "(" :: (printJoined "," children ++ [")"])
def printJoined (separator : String) : List CombNode → List String
  | [] => []
  | child :: children => print child ++ printEach separator children

def printEach (separator : String) : List CombNode → List String
  | [] => []
  | child :: children => separator :: (print child ++ printEach separator children)
end

lemma print_joinFactors (left : CombNode) (more : List CombNode) :
    print (joinFactors left more) = print left ++ printEach "*" more := by
  cases more with
  | nil => rw [joinFactors, printEach, append_nil]
  | cons right more =>
    change print (.product (left :: right :: more)) = _
    rw [print, printJoined]

mutual
lemma Product.print_eq {d : Nat} {t : CombNode} {ts : List String} : Product d t ts → print t = ts
  | .mk hleft hmore => by rw [print_joinFactors, hleft.print_eq, hmore.print_eq]
lemma Factors.print_eq {d : Nat} {more : List CombNode} {us : List String} :
    Factors d more us → printEach "*" more = us
  | .nil => rfl
  | .cons hright hrest => by rw [printEach, hright.print_eq, hrest.print_eq]
lemma Element.print_eq {d : Nat} {t : CombNode} {ts : List String} : Element d t ts → print t = ts
  | .ident _ => rfl
  | .group hfirst hrest _ => by rw [print, printJoined, hfirst.print_eq, hrest.print_eq, append_assoc]

lemma Members.print_eq {d : Nat} {more : List CombNode} {us : List String} :
    Members d more us → printEach "," more = us
  | .nil => rfl
  | .cons hchild hrest => by rw [printEach, hchild.print_eq, hrest.print_eq]
end

/-! ## One tree for the tokens -/

def Stops (separator : String) (rest : List String) : Prop := ∀ us, rest ≠ separator :: us

lemma stops_nil (separator : String) : Stops separator [] := fun _ h => by cases h
lemma stops_cons {separator token : String} (h : token ≠ separator) (rest : List String) :
    Stops separator (token :: rest) := fun _ e => h (List.cons.inj e).1

variable {d : Nat} {us ts : List String} {t : String} {s : Text} {tokens : List String} {c : Char}

lemma Members.stops {more : List CombNode} (h : Members d more us)
    (rest : List String) : Stops "*" (us ++ ")" :: rest) := by
  cases h with
  | nil => exact stops_cons (by decide) rest
  | cons hchild hrest => exact stops_cons (by decide) _

mutual
lemma Product.unique {d d' : Nat} {t t' : CombNode} {ts ts' rest rest' : List String} (hstop : Stops "*" rest)
    (hstop' : Stops "*" rest') : Product d t ts → Product d' t' ts' → ts ++ rest = ts' ++ rest' → t = t' ∧ rest = rest'
  | .mk hleft hmore, h', e => by
    obtain ⟨hleft', hmore'⟩ := h'
    rw [append_assoc, append_assoc] at e
    obtain ⟨rfl, e⟩ := hleft.unique hleft' e
    obtain ⟨rfl, e⟩ := hmore.unique hstop hstop' hmore' e
    exact ⟨rfl, e⟩
termination_by structural h => h

lemma Factors.unique {d d' : Nat} {more more' : List CombNode} {us us' rest rest' : List String}
    (hstop : Stops "*" rest) (hstop' : Stops "*" rest') :
    Factors d more us → Factors d' more' us' → us ++ rest = us' ++ rest' → more = more' ∧ rest = rest'
  | .nil, h', e => by
    cases h' with
    | nil => exact ⟨rfl, e⟩
    | cons hright' hrest' => exact absurd e (hstop _)
  | .cons hright hrest, h', e => by
    cases h' with
    | nil => exact absurd e.symm (hstop' _)
    | cons hright' hrest' =>
      rw [cons_append, cons_append, append_assoc, append_assoc] at e
      obtain ⟨rfl, e⟩ := hright.unique hright' (List.cons.inj e).2
      obtain ⟨rfl, e⟩ := hrest.unique hstop hstop' hrest' e
      exact ⟨rfl, e⟩
termination_by structural h => h

lemma Element.unique {d d' : Nat} {t t' : CombNode} {ts ts' rest rest' : List String} :
    Element d t ts → Element d' t' ts' → ts ++ rest = ts' ++ rest' → t = t' ∧ rest = rest'
  | .ident hname, h', e => by
    cases h' with
    | ident hname' => exact ⟨congrArg _ (List.cons.inj e).1, (List.cons.inj e).2⟩
    | group hfirst' hmore' _ =>
      rw [(List.cons.inj e).1] at hname
      exact absurd hname (by decide)
  | .group hfirst hmore _, h', e => by
    cases h' with
    | ident hname' =>
      rw [← (List.cons.inj e).1] at hname'
      exact absurd hname' (by decide)
    | group hfirst' hmore' _ =>
      simp only [cons_append, append_assoc, nil_append] at e
      obtain ⟨rfl, e⟩ := hfirst.unique (hmore.stops _) (hmore'.stops _) hfirst' (List.cons.inj e).2
      obtain ⟨rfl, e⟩ := hmore.unique hmore' e
      exact ⟨rfl, e⟩
termination_by structural h => h

lemma Members.unique {d d' : Nat} {more more' : List CombNode} {us us' rest rest' : List String} :
    Members d more us → Members d' more' us' → us ++ ")" :: rest = us' ++ ")" :: rest' → more = more' ∧ rest = rest'
  | .nil, h', e => by
    cases h' with
    | nil => exact ⟨rfl, (List.cons.inj e).2⟩
    | cons hchild' hrest' => exact absurd (List.cons.inj e).1 (by decide)
  | .cons hchild hrest, h', e => by
    cases h' with
    | nil => exact absurd (List.cons.inj e).1 (by decide)
    | cons hchild' hrest' =>
      rw [cons_append, cons_append, append_assoc, append_assoc] at e
      obtain ⟨rfl, e⟩ := hchild.unique (hrest.stops rest) (hrest'.stops rest') hchild' (List.cons.inj e).2
      obtain ⟨rfl, e⟩ := hrest.unique hrest' e
      exact ⟨rfl, e⟩
termination_by structural h => h
end

/-! ## The parser accepts what the grammar derives -/

def Opens (ts : List String) : Prop := ∃ token us, ts = token :: us ∧ token ≠ ")" ∧ token ≠ ","

lemma Product.opens {t : CombNode} (h : Product d t ts) : Opens ts := by
  obtain ⟨hleft, -⟩ := h
  cases hleft with
  | ident hname =>
    refine ⟨_, _, rfl, ?_, ?_⟩ <;>
    · rintro rfl
      exact absurd hname (by decide)
  | group _ _ _ => exact ⟨_, _, rfl, by decide, by decide⟩

lemma Opens.append (h : Opens ts) (rest : List String) : Opens (ts ++ rest) := by
  obtain ⟨token, us, rfl, hclose, hcomma⟩ := h
  exact ⟨token, us ++ rest, rfl, hclose, hcomma⟩

lemma parseFactors_stop (h : Stops "*" tokens) (fuel depth : Nat) :
    parseFactors (fuel + 1) depth tokens = .ok ([], tokens) := by
  unfold parseFactors
  split
  · cases ‹_ + 1 = 0›
  · exact absurd rfl (h _)
  · rfl

lemma parseGroup_next {fuel depth : Nat} {rest : List String} {next : String} {child : CombNode}
    (hopens : Opens tokens) (hread : parseExpr fuel depth tokens = .ok (child, next :: rest)) :
    parseGroup (fuel + 1) depth tokens =
    if next = ")" then .ok ([child], rest)
    else if next = "," then (parseGroup fuel depth rest).map fun r => (child :: r.1, r.2)
    else .error (.expectedSeparator next) := by
  obtain ⟨token, us, rfl, hclose, hcomma⟩ := hopens
  rw [parseGroup, if_neg (not_or.mpr ⟨hclose, hcomma⟩), hread]
  rfl

mutual
lemma Product.parse {d depth fuel : Nat} {t : CombNode} {ts rest : List String} (hdepth : depth + d ≤ 64)
    (hstop : Stops "*" rest) :
    Product d t ts → 3 * (ts ++ rest).length + 2 ≤ fuel → parseExpr fuel depth (ts ++ rest) = .ok (t, rest)
  | .mk hleft hmore, hfuel => by
    obtain ⟨fuel, rfl⟩ := Nat.exists_eq_add_of_le' (show 1 ≤ fuel by omega)
    rw [append_assoc] at hfuel ⊢
    simp only [length_append] at hfuel
    rw [parseExpr, hleft.parse hdepth (by simp only [length_append]; omega)]
    change (parseFactors fuel depth _ >>= _) = _
    rw [hmore.parse hdepth hstop (by simp only [length_append]; omega)]
    rfl

lemma Factors.parse {d depth fuel : Nat} {more : List CombNode} {us rest : List String} (hdepth : depth + d ≤ 64)
    (hstop : Stops "*" rest) :
    Factors d more us → 3 * (us ++ rest).length + 1 ≤ fuel → parseFactors fuel depth (us ++ rest) = .ok (more, rest)
  | .nil, hfuel => by
    obtain ⟨fuel, rfl⟩ := Nat.exists_eq_add_of_le' (show 1 ≤ fuel by omega)
    exact parseFactors_stop hstop fuel depth
  | .cons hright hrest, hfuel => by
    obtain ⟨fuel, rfl⟩ := Nat.exists_eq_add_of_le' (show 1 ≤ fuel by omega)
    simp only [cons_append, append_assoc, length_cons, length_append] at hfuel ⊢
    rw [parseFactors, hright.parse hdepth (by simp only [length_append]; omega)]
    change (parseFactors fuel depth _ >>= _) = _
    rw [hrest.parse hdepth hstop (by simp only [length_append]; omega)]
    rfl

lemma Element.parse {d depth fuel : Nat} {t : CombNode} {ts rest : List String} (hdepth : depth + d ≤ 64) :
    Element d t ts → 3 * (ts ++ rest).length + 1 ≤ fuel → parseElement fuel depth (ts ++ rest) = .ok (t, rest)
  | .ident hname, hfuel => by
    obtain ⟨fuel, rfl⟩ := Nat.exists_eq_add_of_le' (show 1 ≤ fuel by omega)
    rw [singleton_append, parseElement, if_neg, if_pos hname]
    rintro rfl
    exact absurd hname (by decide)
  | @Element.group _ first more _ _ hfirst hmore hne, hfuel => by
    obtain ⟨fuel, rfl⟩ := Nat.exists_eq_add_of_le' (show 1 ≤ fuel by omega)
    simp only [cons_append, append_assoc, nil_append, length_cons, length_append] at hfuel ⊢
    rw [parseElement, if_pos rfl, if_neg (by omega), hmore.parse hfirst.opens
      (fun hstop hfuel => hfirst.parse (by omega) hstop hfuel) (by omega)
      (by simp only [length_cons, length_append]; omega)]
    have hlen : ¬ (first :: more).length < 2 := by
      have := length_pos_of_ne_nil hne
      rw [length_cons]
      omega
    exact if_neg hlen

lemma Members.parse {d depth fuel : Nat} {first : CombNode} {more : List CombNode} {ts us rest : List String}
    (hopens : Opens ts)
    (hfirst : ∀ {fuel rest}, Stops "*" rest → 3 * (ts ++ rest).length + 2 ≤ fuel →
      parseExpr fuel depth (ts ++ rest) = .ok (first, rest))
    (hdepth : depth + d ≤ 64) :
    Members d more us → 3 * (ts ++ (us ++ ")" :: rest)).length + 3 ≤ fuel →
      parseGroup fuel depth (ts ++ (us ++ ")" :: rest)) = .ok (first :: more, rest)
  | .nil, hfuel => by
    obtain ⟨fuel, rfl⟩ := Nat.exists_eq_add_of_le' (show 1 ≤ fuel by omega)
    have hread := hfirst (stops_cons (by decide) rest) (show _ ≤ fuel from Nat.le_of_succ_le_succ hfuel)
    rw [nil_append, parseGroup_next (hopens.append _) hread, if_pos rfl]
  | @Members.cons _ child more ts' us' hchild hrest, hfuel => by
    obtain ⟨fuel, rfl⟩ := Nat.exists_eq_add_of_le' (show 1 ≤ fuel by omega)
    simp only [cons_append, append_assoc, length_cons, length_append] at hfuel ⊢
    have hread : parseExpr fuel depth (ts ++ "," :: (ts' ++ (us' ++ ")" :: rest))) = .ok (first, _) :=
      hfirst (stops_cons (by decide) _) (by simp only [length_cons, length_append]; omega)
    rw [parseGroup_next (hopens.append _) hread, if_neg (by decide), if_pos rfl,
      hrest.parse hchild.opens (fun hstop hfuel => hchild.parse hdepth hstop hfuel) hdepth
        (by simp only [length_cons, length_append]; omega)]
    rfl
end

/-! ## The grammar derives what the parser accepts -/

lemma parser_sound (fuel : Nat) : ∀ depth tokens, depth ≤ 64 →
    (∀ t rest, parseExpr fuel depth tokens = .ok (t, rest) → ∃ ts, tokens = ts ++ rest ∧ Product (64 - depth) t ts) ∧
    (∀ more rest, parseFactors fuel depth tokens = .ok (more, rest) →
      ∃ us, tokens = us ++ rest ∧ Factors (64 - depth) more us) ∧
    (∀ t rest, parseElement fuel depth tokens = .ok (t, rest) → ∃ ts, tokens = ts ++ rest ∧ Element (64 - depth) t ts) ∧
    ∀ children rest, parseGroup fuel depth tokens = .ok (children, rest) → ∃ first more ts us,
      children = first :: more ∧ tokens = ts ++ (us ++ ")" :: rest) ∧ Product (64 - depth) first ts ∧
        Members (64 - depth) more us := by
  induction fuel with
  | zero =>
    intro depth tokens _
    simp [parseExpr, parseFactors, parseElement, parseGroup]
  | succ fuel ih =>
    intro depth tokens hdepth
    refine ⟨fun t rest h => ?_, fun more rest h => ?_, fun t rest h => ?_, fun children rest h => ?_⟩
    · rw [parseExpr, except_bind_eq_ok] at h
      obtain ⟨⟨left, mid⟩, hleft, h⟩ := h
      rw [except_bind_eq_ok] at h
      obtain ⟨⟨more, rest'⟩, hmore, h⟩ := h
      cases h
      obtain ⟨ts, rfl, hel⟩ := (ih depth tokens hdepth).2.2.1 left mid hleft
      obtain ⟨us, rfl, hfs⟩ := (ih depth mid hdepth).2.1 more rest hmore
      exact ⟨ts ++ us, (append_assoc ..).symm, .mk hel hfs⟩
    · unfold parseFactors at h
      split at h
      · cases ‹_ + 1 = 0›
      · rename_i he
        cases he
        rw [except_bind_eq_ok] at h
        obtain ⟨⟨right, mid⟩, hright, h⟩ := h
        rw [except_bind_eq_ok] at h
        obtain ⟨⟨more, rest'⟩, hmore, h⟩ := h
        cases h
        obtain ⟨ts, rfl, hel⟩ := (ih _ _ hdepth).2.2.1 right mid hright
        obtain ⟨us, rfl, hfs⟩ := (ih _ mid hdepth).2.1 more rest hmore
        exact ⟨"*" :: (ts ++ us), by rw [cons_append, append_assoc], .cons hel hfs⟩
      · cases h
        exact ⟨[], rfl, .nil⟩
    · cases tokens with
      | nil => simp [parseElement] at h
      | cons token tokens =>
        rw [parseElement] at h
        split at h
        · rename_i hopen
          subst hopen
          split at h
          · cases h
          rename_i hlimit
          rw [except_bind_eq_ok] at h
          obtain ⟨⟨children, rest'⟩, hgroup, h⟩ := h
          dsimp only at h
          split at h
          · cases h
          rename_i hlen
          cases h
          obtain ⟨first, more, ts, us, rfl, rfl, hfirst, hmore⟩ :=
            (ih (depth + 1) tokens (by omega)).2.2.2 children rest hgroup
          have hnest : 64 - depth = 64 - (depth + 1) + 1 := by omega
          rw [hnest]
          refine ⟨"(" :: (ts ++ (us ++ [")"])), by simp, .group hfirst hmore ?_⟩
          rintro rfl
          exact hlen (by simp)
        · split at h
          · rename_i hname
            cases h
            exact ⟨[token], rfl, .ident hname⟩
          · cases h
    · cases tokens with
      | nil => simp [parseGroup] at h
      | cons token tokens =>
        rw [parseGroup] at h
        split at h
        · cases h
        rw [except_bind_eq_ok] at h
        obtain ⟨⟨child, mid⟩, hchild, h⟩ := h
        obtain ⟨ts, hts, hprod⟩ := (ih depth _ hdepth).1 child mid hchild
        cases mid with
        | nil => cases h
        | cons next mid =>
          dsimp only at h
          split at h
          · rename_i hclose
            subst hclose
            cases h
            exact ⟨child, [], ts, [], rfl, hts, hprod, .nil⟩
          split at h
          · rename_i hcomma
            subst hcomma
            rw [except_bind_eq_ok] at h
            obtain ⟨⟨more, rest'⟩, hmore, h⟩ := h
            cases h
            obtain ⟨first, more', ts', us', rfl, rfl, hfirst, hrest⟩ := (ih depth mid hdepth).2.2.2 more rest' hmore
            exact ⟨child, first :: more', ts, "," :: (ts' ++ us'), rfl, by rw [hts]; simp, hprod, .cons hfirst hrest⟩
          · cases h

def symbols : List String := ["*", "(", ")", ","]
def IsWord (t : String) : Prop := t ≠ "" ∧ ∀ c ∈ t.toList, isIdentChar c = true
def IsToken (t : String) : Prop := IsWord t ∨ t ∈ symbols

inductive Spaced : List String → Text → Prop where
  | nil : Spaced [] []
  | blank {c : Char} {ts : List String} {s : Text} : c = ' ' ∨ c = '\t' → Spaced ts s → Spaced ts (c :: s)
  | token {t : String} {ts : List String} {s : Text} : Spaced ts s → Spaced (t :: ts) (t.toList ++ s)

structure Lexable (ts : List String) : Prop where
  tokens : ∀ t ∈ ts, IsToken t
  apart : ts.IsChain fun a b => ¬ (IsWord a ∧ IsWord b)

lemma not_isWord_symbol (h : t ∈ symbols) : ¬ IsWord t := by
  unfold symbols at h
  unfold IsWord
  simp only [mem_cons, not_mem_nil, or_false] at h
  rcases h with rfl | rfl | rfl | rfl <;> simp <;> rfl

lemma isWord_of_isIdentifier (h : isIdentifier t = true) : IsWord t := by
  unfold isIdentifier at h
  split at h
  · cases h
  rename_i c cs htext
  simp only [Bool.and_eq_true, all_eq_true] at h
  refine ⟨?_, ?_⟩
  · rintro rfl
    cases htext
  · rw [htext]
    exact forall_mem_cons.mpr ⟨h.1.1, h.2⟩

lemma Lexable.single (h : IsToken t) : Lexable [t] := ⟨fun _ ht => mem_singleton.mp ht ▸ h, .singleton t⟩
lemma Lexable.nil : Lexable [] := ⟨fun _ ht => absurd ht not_mem_nil, .nil⟩
lemma Lexable.symbol (ht : t ∈ symbols) (h : Lexable ts) : Lexable (t :: ts) := by
  refine ⟨forall_mem_cons.mpr ⟨.inr ht, h.tokens⟩, ?_⟩
  exact isChain_cons.mpr ⟨fun _ _ hboth => not_isWord_symbol ht hboth.1, h.apart⟩

def SymbolFirst (us : List String) : Prop := ∀ u ∈ us.head?, u ∈ symbols

lemma symbolFirst_nil : SymbolFirst [] := fun _ hu => by cases hu
lemma symbolFirst_cons {u : String} (hu : u ∈ symbols) (us : List String) : SymbolFirst (u :: us) :=
  fun _ he => Option.some.inj he ▸ hu

lemma SymbolFirst.append {vs : List String} (h : SymbolFirst us) (h' : SymbolFirst vs) :
    SymbolFirst (us ++ vs) := by
  cases us with
  | nil => exact h'
  | cons u us => exact h

lemma Lexable.append (h : Lexable ts) (h' : Lexable us) (hsymbol : SymbolFirst us) : Lexable (ts ++ us) := by
  refine ⟨forall_mem_append.mpr ⟨h.tokens, h'.tokens⟩, ?_⟩
  exact isChain_append.mpr ⟨h.apart, h'.apart, fun _ _ u hu hboth => not_isWord_symbol (hsymbol u hu) hboth.2⟩

mutual
lemma Product.lexable {d : Nat} {t : CombNode} {ts : List String} : Product d t ts → Lexable ts
  | .mk hleft hmore => hleft.lexable.append hmore.lexable.1 hmore.lexable.2

lemma Factors.lexable {d : Nat} {more : List CombNode} {us : List String} :
    Factors d more us → Lexable us ∧ SymbolFirst us
  | .nil => ⟨.nil, symbolFirst_nil⟩
  | .cons hright hrest =>
    ⟨.symbol (by decide) (hright.lexable.append hrest.lexable.1 hrest.lexable.2), symbolFirst_cons (by decide) _⟩

lemma Element.lexable {d : Nat} {t : CombNode} {ts : List String} : Element d t ts → Lexable ts
  | .ident hname => .single (.inl (isWord_of_isIdentifier hname))
  | .group hfirst hmore _ => by
    obtain ⟨hlex, hfirstSymbol⟩ := hmore.lexable
    have hclose := symbolFirst_cons (u := ")") (by decide) []
    have hclosed := hlex.append (.single (.inr (by decide))) hclose
    exact .symbol (by decide) (hfirst.lexable.append hclosed (hfirstSymbol.append hclose))

lemma Members.lexable {d : Nat} {more : List CombNode} {us : List String} :
    Members d more us → Lexable us ∧ SymbolFirst us
  | .nil => ⟨.nil, symbolFirst_nil⟩
  | .cons hchild hrest =>
    ⟨.symbol (by decide) (hchild.lexable.append hrest.lexable.1 hrest.lexable.2), symbolFirst_cons (by decide) _⟩
end

def WordEnds (s : Text) : Prop := ∀ c ∈ s.head?, isIdentChar c = false

lemma tokenizeComb_word {w : Text} (hw : ∀ c ∈ w, isIdentChar c = true) (read s : Text) :
    tokenizeComb read (w ++ s) = tokenizeComb (w.reverse ++ read) s := by
  induction w generalizing read with
  | nil => rfl
  | cons c w ih =>
    obtain ⟨hc, hw⟩ := forall_mem_cons.mp hw
    rw [cons_append, tokenizeComb, if_pos hc, ih hw, reverse_cons, append_assoc, singleton_append]

lemma tokenizeComb_ends (h : WordEnds s) (read : Text) :
    tokenizeComb read s = pendingToken read ++ tokenizeComb [] s := by
  cases s with
  | nil =>
    rw [tokenizeComb, tokenizeComb]
    exact (append_nil _).symm
  | cons c s =>
    have hc : ¬ isIdentChar c = true := by
      rw [h c rfl]
      decide
    rw [tokenizeComb, tokenizeComb, if_neg hc, if_neg hc]
    rfl

lemma tokenizeComb_symbol (ht : t ∈ symbols) (s : Text) :
    tokenizeComb [] (t.toList ++ s) = t :: tokenizeComb [] s := by
  unfold symbols at ht
  simp only [mem_cons, not_mem_nil, or_false] at ht
  rcases ht with rfl | rfl | rfl | rfl <;> rfl

lemma Spaced.wordEnds (h : Spaced ts s) (hfirst : SymbolFirst ts) : WordEnds s := by
  cases h with
  | nil => exact fun c hc => by cases hc
  | blank hblank _ =>
    intro c hc
    obtain rfl := Option.some.inj hc
    rcases hblank with rfl | rfl <;> decide
  | @token t ts s hs =>
    have ht := hfirst t rfl
    unfold symbols at ht
    simp only [mem_cons, not_mem_nil, or_false] at ht
    intro c hc
    rcases ht with rfl | rfl | rfl | rfl <;> obtain rfl := Option.some.inj hc <;> decide

lemma Spaced.tokenize (h : Spaced ts s) (hlex : Lexable ts) : tokenizeComb [] s = ts := by
  induction h with
  | nil => rfl
  | blank hblank _ ih =>
    have hc : ∀ {c : Char}, c = ' ' ∨ c = '\t' → ¬ isIdentChar c = true := by rintro c (rfl | rfl) <;> decide
    rw [tokenizeComb, if_neg (hc hblank), if_pos hblank, ih hlex]
    rfl
  | @token t ts s hs ih =>
    obtain ⟨htoken, hrest⟩ := forall_mem_cons.mp hlex.tokens
    obtain ⟨hnext, hapart⟩ := isChain_cons.mp hlex.apart
    have hts := ih ⟨hrest, hapart⟩
    rcases htoken with hword | hsymbol
    · have hends := hs.wordEnds fun u hu => (hrest u (mem_of_mem_head? hu)).resolve_left
        fun hu' => hnext u hu ⟨hword, hu'⟩
      have hne : t.toList.reverse ++ [] ≠ [] := by
        rw [append_nil, Ne, reverse_eq_nil_iff, String.toList_eq_nil_iff]
        exact hword.1
      rw [tokenizeComb_word hword.2, tokenizeComb_ends hends, hts, pendingToken, if_neg hne]
      simp
    · rw [tokenizeComb_symbol hsymbol, hts]

lemma not_isToken_of_high (h : 127 < c.toNat) : ¬ IsToken (String.singleton c) := by
  have above : ∀ d : Char, d.toNat ≤ 127 → ¬ c ≤ d := by
    intro d hd hle
    have : c.toNat ≤ d.toNat := hle
    omega
  rintro (hword | hsymbol)
  · have hc := hword.2 c (by rw [String.toList_singleton]; exact mem_singleton.mpr rfl)
    have hne : c ≠ '_' := by
      rintro rfl
      exact absurd h (by decide)
    simp [isIdentChar, above 'Z' (by decide), above 'z' (by decide), above '9' (by decide), hne] at hc
  · have hchar : ∀ d : Char, d.toNat ≤ 127 → String.singleton c ≠ String.singleton d := by
      intro d hd e
      obtain rfl : c = d := by simpa using congrArg String.toList e
      omega
    unfold symbols at hsymbol
    simp only [mem_cons, not_mem_nil, or_false] at hsymbol
    rcases hsymbol with e | e | e | e
    · exact hchar '*' (by decide) e
    · exact hchar '(' (by decide) e
    · exact hchar ')' (by decide) e
    · exact hchar ',' (by decide) e

lemma symbol_of_bytes (hc : isIdentChar c = false)
    (h : ∀ b ∈ String.utf8EncodeChar c, IsToken (String.singleton (Char.ofNat b.toNat))) :
    String.singleton c ∈ symbols ∧ String.utf8EncodeChar c = [c.val.toUInt8] ∧ Char.ofNat c.val.toUInt8.toNat = c := by
  rcases Nat.lt_or_ge 127 c.val.toNat with hlarge | hsmall
  · have hlast : UInt8.ofNat (c.val.toNat % 64 + 128) ∈ String.utf8EncodeChar c := by
      unfold String.utf8EncodeChar
      dsimp only
      rw [if_neg (by omega)]
      split
      · simp
      split <;> simp
    refine absurd (h _ hlast) (not_isToken_of_high ?_)
    have hn : (UInt8.ofNat (c.val.toNat % 64 + 128)).toNat = c.val.toNat % 64 + 128 := by
      rw [UInt8.toNat_ofNat']
      omega
    have hvalid : (c.val.toNat % 64 + 128).isValidChar := .inl (by omega)
    rw [hn, Char.ofNat, dif_pos hvalid]
    change 127 < c.val.toNat % 64 + 128
    omega
  · have hsize : c.utf8Size = 1 := Char.utf8Size_eq_one_iff.mpr (UInt32.le_iff_toNat_le.mpr hsmall)
    have hencode := String.utf8EncodeChar_eq_singleton hsize
    have hback : Char.ofNat c.val.toUInt8.toNat = c := by
      rw [UInt32.toNat_toUInt8, Nat.mod_eq_of_lt (by omega)]
      exact Char.ofNat_toNat c
    refine ⟨?_, hencode, hback⟩
    have htoken := h c.val.toUInt8 (by rw [hencode]; exact mem_singleton.mpr rfl)
    rw [hback] at htoken
    refine htoken.resolve_left fun hword => ?_
    have := hword.2 c (by rw [String.toList_singleton]; exact mem_singleton.mpr rfl)
    rw [hc] at this
    cases this

lemma spaced_tokenizeComb {read : Text} (hread : ∀ c ∈ read, isIdentChar c = true)
    (h : ∀ t ∈ tokenizeComb read s, IsToken t) : Spaced (tokenizeComb read s) (read.reverse ++ s) := by
  have pending : ∀ {read : Text} {ts : List String} {s : Text}, Spaced ts s →
      Spaced (pendingToken read ++ ts) (read.reverse ++ s) := by
    intro read ts s hs
    unfold pendingToken
    split
    · rename_i hnil
      rwa [hnil]
    · have := Spaced.token (t := String.ofList read.reverse) hs
      rwa [String.toList_ofList] at this
  induction s generalizing read with
  | nil =>
    have := @pending read _ _ Spaced.nil
    rwa [append_nil] at this
  | cons c s ih =>
    rw [tokenizeComb] at h ⊢
    split at h
    · rename_i hc
      rw [if_pos hc]
      have := ih (forall_mem_cons.mpr ⟨hc, hread⟩) h
      rwa [reverse_cons, append_assoc, singleton_append] at this
    · rename_i hc
      rw [if_neg hc]
      obtain ⟨-, h⟩ := forall_mem_append.mp h
      split at h
      · rename_i hblank
        rw [if_pos hblank]
        exact pending (.blank hblank (ih (fun _ hc => absurd hc not_mem_nil) h))
      rename_i hblank
      rw [if_neg hblank]
      obtain ⟨hbytes, h⟩ := forall_mem_append.mp h
      obtain ⟨-, hencode, hback⟩ := symbol_of_bytes (Bool.eq_false_iff.mpr hc) (forall_mem_map.mp hbytes)
      rw [hencode, map_singleton, hback, singleton_append]
      have := Spaced.token (t := String.singleton c) (ih (fun _ hc => absurd hc not_mem_nil) h)
      rw [String.toList_singleton] at this
      exact pending this

lemma Product.spaced {t : CombNode} (h : Product d t (tokenizeComb [] s)) : Spaced (tokenizeComb [] s) s :=
  @spaced_tokenizeComb s [] (fun _ hc => absurd hc not_mem_nil) h.lexable.tokens

def printed (t : CombNode) : Text := (print t).flatMap String.toList

lemma spaced_flatMap (ts : List String) : Spaced ts (ts.flatMap String.toList) := by
  induction ts with
  | nil => exact .nil
  | cons t ts ih => exact .token ih
lemma Product.tokenize_printed {t : CombNode} (h : Product d t ts) : tokenizeComb [] (printed t) = ts := by
  unfold printed
  rw [h.print_eq]
  exact (spaced_flatMap ts).tokenize h.lexable

lemma parseCombinationExpr_ok_iff {expr : String} {t : CombNode} :
    parseCombinationExpr expr = .ok t ↔ Product 64 t (tokenizeComb [] expr.toList) := by
  constructor
  · intro h
    unfold parseCombinationExpr at h
    obtain ⟨⟨node, rest⟩, hparse, h⟩ := except_bind_eq_ok.mp h
    obtain ⟨ts, hts, hprod⟩ := (parser_sound _ 0 _ (by omega)).1 node rest hparse
    cases rest with
    | nil =>
      cases h
      rwa [hts, append_nil]
    | cons token rest => cases h
  · intro h
    have hparse : parseExpr (3 * (tokenizeComb [] expr.toList).length + 2) 0 (tokenizeComb [] expr.toList ++ []) =
        .ok (t, []) := h.parse (by omega) (stops_nil "*") (by rw [append_nil])
    rw [append_nil] at hparse
    unfold parseCombinationExpr
    dsimp only
    rw [hparse]
    rfl

/-- A text is accepted iff the grammar derives its tokens, and the tree returned is the only one. -/
theorem parseCombinationExpr_exact (expr : String) :
    ((∃ t, parseCombinationExpr expr = .ok t) ↔ ∃ t ts, Product 64 t ts ∧ Spaced ts expr.toList) ∧
    ∀ t, parseCombinationExpr expr = .ok t →
      tokenizeComb [] (printed t) = tokenizeComb [] expr.toList ∧ Spaced (print t) expr.toList ∧
      ∀ d t' ts, Product d t' ts → tokenizeComb [] (printed t') = tokenizeComb [] expr.toList → t' = t := by
  simp only [parseCombinationExpr_ok_iff]
  refine ⟨⟨?_, ?_⟩, fun t h => ⟨h.tokenize_printed, ?_, fun d t' ts h' hsame => ?_⟩⟩
  · rintro ⟨t, h⟩
    exact ⟨t, _, h, h.spaced⟩
  · rintro ⟨t, ts, h, hs⟩
    rw [← hs.tokenize h.lexable] at h
    exact ⟨t, h⟩
  · rw [h.print_eq]
    exact h.spaced
  · rw [h'.tokenize_printed] at hsame
    exact (h'.unique (stops_nil "*") (stops_nil "*") h (by rw [hsame])).1

end Sqi.CombGrammar
