import Sqi.Expr.Types

/-! `ParseType` (`type.go`), and that it is the inverse of `String`. -/

namespace Sqi.Expr
open List GoText Ty

inductive TypeError where
  | unexpected (rest src : Text)
  | expectedType (offset : Nat) (src : Text)
  | unknownType (name : Text)
  | expectedOpen (name src : Text)
  | expectedClose (name src : Text)
  | nestedElem (elem : Ty)
  | optionalElem (elem : Ty)
  | outOfFuel
deriving DecidableEq

def isTypeNameByte (c : Char) : Bool :=
  c = '_' ∨ ('a' ≤ c ∧ c ≤ 'z') ∨ ('A' ≤ c ∧ c ≤ 'Z') ∨ ('0' ≤ c ∧ c ≤ '9')
def skipTypeSpace : Text → Text
  | [] => []
  | c :: rest => if c = ' ' ∨ c = '\t' then skipTypeSpace rest else c :: rest

def typeNames : List (Text × Ty) :=
  [("nulltype".toList, .null), ("bool".toList, .bool), ("int".toList, .int), ("float".toList, .float),
    ("string".toList, .string), ("path".toList, .path), ("range_expr".toList, .rangeExpr),
    ("any".toList, .any), ("noreturn".toList, .noReturn), ("T".toList, .var 0), ("T1".toList, .var 1),
    ("T2".toList, .var 2), ("T3".toList, .var 3)]

def Ty.optionalOf (t : Ty) : Ty := unionOf [t, .null]

def checkListElem (elem : Ty) : Except TypeError Unit :=
  match elem.unwrap with
  | .list (.list _) => .error (.nestedElem elem)
  | .union ms => if .null ∈ ms then .error (.optionalElem elem) else .ok ()
  | _ => .ok ()

def parseOptional (t : Ty) : Text → Ty × Text
  | [] => (t, [])
  | c :: rest =>
    if c = ' ' ∨ c = '\t' then parseOptional t rest
    else if c = '?' then parseOptional t.optionalOf rest
    else (t, c :: rest)

section
variable (check : Ty → Except TypeError Unit) (src : Text)

mutual

def parseUnion : Nat → Text → Except TypeError (Ty × Text)
  | 0, _ => .error .outOfFuel
  | fuel + 1, rest => do
    let (first, rest) ← parseSuffixed fuel rest
    let (more, rest) ← parseMembers fuel rest
    return (unionOf (first :: more), rest)

def parseMembers : Nat → Text → Except TypeError (List Ty × Text)
  | 0, _ => .error .outOfFuel
  | fuel + 1, rest =>
    match skipTypeSpace rest with
    | '|' :: rest => do
      let (next, rest) ← parseSuffixed fuel rest
      let (more, rest) ← parseMembers fuel rest
      return (next :: more, rest)
    | rest => .ok ([], rest)

def parseSuffixed : Nat → Text → Except TypeError (Ty × Text)
  | 0, _ => .error .outOfFuel
  | fuel + 1, rest => do
    let (t, rest) ← parseAtom fuel rest
    return parseOptional t rest

def parseAtom : Nat → Text → Except TypeError (Ty × Text)
  | 0, _ => .error .outOfFuel
  | fuel + 1, rest =>
    let rest := skipTypeSpace rest
    let name := rest.takeWhile isTypeNameByte
    let after := rest.dropWhile isTypeNameByte
    if name = [] then .error (.expectedType (byteLen src - byteLen rest).toNat src)
    else if name = "list".toList then do
      let (elem, rest) ← parseBracketed fuel name after
      check elem
      return (elem.listOf, rest)
    else if name = "unresolved".toList then
      match skipTypeSpace after with
      | '[' :: _ => do
        let (inner, rest) ← parseBracketed fuel name after
        return (inner.unresolvedOf, rest)
      | rest => .ok (Ty.any.unresolvedOf, rest)
    else
      match typeNames.lookup name with
      | some t => .ok (t, after)
      | none => .error (.unknownType name)

def parseBracketed : Nat → Text → Text → Except TypeError (Ty × Text)
  | 0, _, _ => .error .outOfFuel
  | fuel + 1, name, rest =>
    match skipTypeSpace rest with
    | '[' :: rest => do
      let (inner, rest) ← parseUnion fuel rest
      match skipTypeSpace rest with
      | ']' :: rest => return (inner, rest)
      | _ => .error (.expectedClose name src)
    | _ => .error (.expectedOpen name src)

end
end

def parseTypeWith (check : Ty → Except TypeError Unit) (src : Text) : Except TypeError Ty := do
  let (t, rest) ← parseUnion check src (2 * src.length + 2) src
  match skipTypeSpace rest with
  | [] => return t
  | rest => .error (.unexpected rest src)

def parseType (src : Text) : Except TypeError Ty := parseTypeWith checkListElem src

lemma textLess_iff (a b : Text) : textLess a b = true ↔ List.lt a b := by
  unfold List.lt
  induction a generalizing b with
  | nil => cases b <;> simp [textLess]
  | cons c a ih =>
    cases b with
    | nil => simp [textLess]
    | cons d b =>
      rw [textLess, cons_lex_cons_iff]
      by_cases e : c = d
      · simp [e, ih]
      · simp [e, Char.lt_def]

lemma textLess_irrefl (a : Text) : textLess a a = false := by
  rw [Bool.eq_false_iff, ne_eq, textLess_iff]
  exact List.lt_irrefl a

lemma unionLess_asymm {a b : Ty} (h : unionLess a b = true) : unionLess b a = false := by
  unfold unionLess at *
  by_cases ha : a = .null <;> by_cases hb : b = .null
  · rw [ha, hb, if_neg (by simp), textLess_irrefl] at h
    cases h
  · simp [ha, hb] at h
  · simp [ha, hb]
  · simp only [ha, hb, decide_false, ne_eq, not_true_eq_false, if_false, Bool.eq_false_iff] at *
    rw [textLess_iff] at *
    exact List.lt_asymm h

/-! ## Normal forms -/

mutual

inductive Ty.Simple : Ty → Prop where
  | null : Simple .null
  | bool : Simple .bool
  | int : Simple .int
  | float : Simple .float
  | string : Simple .string
  | path : Simple .path
  | rangeExpr : Simple .rangeExpr
  | var (i : Fin 4) : Simple (.var i)
  | list {e : Ty} : Ty.Plain e → Simple (.list e)

inductive Ty.Plain : Ty → Prop where
  | simple {t : Ty} : Simple t → Ty.Plain t
  | any : Ty.Plain .any
  | noReturn : Ty.Plain .noReturn
  | union {ms : List Ty} : 2 ≤ ms.length → (∀ m ∈ ms, Simple m) →
    ms.Pairwise (fun a b => unionLess a b = true) → Ty.Plain (.union ms)

end

def Ty.Normal (t : Ty) : Prop := t.unwrap.Plain

section
variable {t : Ty} {ms : List Ty}

lemma Ty.Simple.members (h : t.Simple) : t.members = [t] := by cases h <;> rfl
lemma Ty.Simple.not_hoists (h : t.Simple) : t.hoists = false := by cases h <;> rfl
lemma Ty.Simple.ne_any (h : t.Simple) : t ≠ .any := by
  rintro rfl
  cases h
lemma membersAll_eq (ts : List Ty) : membersAll ts = ts.flatMap Ty.members := by
  induction ts with
  | nil => rfl
  | cons t ts ih => rw [membersAll, ih, flatMap_cons]
lemma hoistsAny_eq_any (ts : List Ty) : hoistsAny ts = ts.any Ty.hoists := by
  induction ts with
  | nil => rfl
  | cons t ts ih => rw [hoistsAny, ih, any_cons]

lemma membersAll_simple (h : ∀ m ∈ ms, m.Simple) : membersAll ms = ms := by
  rw [membersAll_eq]
  induction ms with
  | nil => rfl
  | cons m ms ih =>
    rw [flatMap_cons, (h m mem_cons_self).members, ih fun m' hm' => h m' (mem_cons_of_mem _ hm')]
    rfl

lemma hoistsAny_simple (h : ∀ m ∈ ms, m.Simple) : hoistsAny ms = false := by
  rw [hoistsAny_eq_any, any_eq_false]
  exact fun m hm => by simp [(h m hm).not_hoists]

lemma foldl_uniq (ms : List Ty) (h : ms.Nodup) (done : List Ty) (hdone : ∀ m ∈ ms, m ∉ done) :
    ms.foldl (fun uniq m => if m ∈ uniq then uniq else uniq ++ [m]) done = done ++ ms := by
  induction ms generalizing done with
  | nil => simp
  | cons m ms ih =>
    obtain ⟨hm, hms⟩ := nodup_cons.mp h
    rw [foldl_cons, if_neg (hdone m mem_cons_self), ih hms, append_assoc]
    · rfl
    intro m' hm' hmem
    rcases mem_append.mp hmem with hmem | hmem
    · exact hdone m' (mem_cons_of_mem _ hm') hmem
    · exact hm (mem_singleton.mp hmem ▸ hm')

lemma nodup_of_sorted (h : ms.Pairwise (fun a b => unionLess a b = true)) : ms.Nodup :=
  h.imp fun {a b} hab e => by
    have hba := unionLess_asymm hab
    rw [e] at hab hba
    rw [hab] at hba
    cases hba

lemma normalizeUnionMembers_union (hlen : 2 ≤ ms.length) (hsimple : ∀ m ∈ ms, m.Simple)
    (hsorted : ms.Pairwise (fun a b => unionLess a b = true)) :
    normalizeUnionMembers ms = .union ms := by
  have hany : Ty.any ∉ ms := fun h => (hsimple _ h).ne_any rfl
  have huniq := foldl_uniq ms (nodup_of_sorted hsorted) [] (fun _ _ => not_mem_nil)
  have hsort : ms.insertionSort (fun a b => unionLess b a = false) = ms :=
    List.Pairwise.insertionSort_eq (hsorted.imp unionLess_asymm)
  obtain ⟨a, b, rest, rfl⟩ : ∃ a b rest, ms = a :: b :: rest := by
    match ms, hlen with
    | a :: b :: rest, _ => exact ⟨a, b, rest, rfl⟩
  rw [normalizeUnionMembers, if_neg hany, huniq]
  simp only [nil_append, hsort]

lemma Ty.Plain.not_hoists (h : t.Plain) : t.hoists = false := by
  cases h with
  | simple h => exact h.not_hoists
  | any => rfl
  | noReturn => rfl
  | union _ hsimple _ => exact hoistsAny_simple hsimple

lemma Ty.Plain.normalize_members (h : t.Plain) : normalizeUnionMembers t.members = t := by
  cases h with
  | simple h =>
    rw [h.members, normalizeUnionMembers, if_neg (by simpa using h.ne_any.symm)]
    rfl
  | any => rfl
  | noReturn => rfl
  | union hlen hsimple hsorted =>
    rw [Ty.members, membersAll_simple hsimple, normalizeUnionMembers_union hlen hsimple hsorted]

lemma Ty.Plain.unresolvedOf (h : t.Plain) : t.unresolvedOf = .unresolved t := by
  cases t with
  | unresolved c => cases h with | simple h => cases h
  | _ => rfl
lemma Ty.Plain.listOf (h : t.Plain) : t.listOf = .list t := by
  cases t with
  | unresolved c => cases h with | simple h => cases h
  | _ => rfl
lemma Ty.Plain.unwrap (h : t.Plain) : t.unwrap = t := by
  cases t with
  | unresolved c => cases h with | simple h => cases h
  | _ => rfl
lemma Ty.Normal.cases (h : t.Normal) : t.Plain ∨ ∃ c, t = .unresolved c ∧ c.Plain := by
  cases t with
  | unresolved c => exact .inr ⟨c, rfl, h⟩
  | _ => exact .inl h
lemma Ty.Plain.normal (h : t.Plain) : t.Normal := by rwa [Normal, h.unwrap]

lemma Ty.Normal.unionOf_singleton (h : t.Normal) : unionOf [t] = t := by
  rw [unionOf, membersAll, membersAll, append_nil, hoistsAny, hoistsAny, Bool.or_false]
  rcases h.cases with ht | ⟨c, rfl, hc⟩
  · simp [ht.normalize_members, ht.not_hoists]
  · simp only [Ty.members, Ty.hoists, hc.normalize_members, if_true, hc.unresolvedOf]

end

/-! ## The round trip -/

mutual

def Ty.elems : Ty → List Ty
  | .list e => e :: e.elems
  | .union ms => elemsAll ms
  | .unresolved c => c.elems
  | _ => []

def Ty.elemsAll : List Ty → List Ty
  | [] => []
  | t :: ts => t.elems ++ elemsAll ts

end

lemma elems_mem {ms : List Ty} {m e : Ty} (hm : m ∈ ms) (he : e ∈ m.elems) : e ∈ elemsAll ms := by
  induction ms with
  | nil => cases hm
  | cons t ts ih =>
    rw [elemsAll, mem_append]
    rcases mem_cons.mp hm with rfl | hm
    · exact .inl he
    · exact .inr (ih hm)

def Breaks (r : Text) : Prop := ∀ c ∈ r.head?, isTypeNameByte c = false
def Closes (r : Text) : Prop := ∀ c ∈ r.head?, c = ']'

section
variable {r : Text}

lemma Closes.breaks (h : Closes r) : Breaks r := fun c hc => by
  rw [h c hc]
  decide

lemma Closes.skip (h : Closes r) : skipTypeSpace r = r := by
  cases r with
  | nil => rfl
  | cons c r =>
    obtain rfl := h c rfl
    rfl

lemma skip_skip (r : Text) : skipTypeSpace (skipTypeSpace r) = skipTypeSpace r := by
  induction r with
  | nil => rfl
  | cons c r ih =>
    by_cases hc : c = ' ' ∨ c = '\t'
    · rw [skipTypeSpace, if_pos hc, ih]
    · rw [skipTypeSpace, if_neg hc, skipTypeSpace, if_neg hc]

lemma parseOptional_none (t : Ty) (h : ∀ c ∈ (skipTypeSpace r).head?, c ≠ '?') :
    parseOptional t r = (t, skipTypeSpace r) := by
  induction r with
  | nil => rfl
  | cons c r ih =>
    by_cases hc : c = ' ' ∨ c = '\t'
    · rw [skipTypeSpace, if_pos hc] at h ⊢
      rw [parseOptional, if_pos hc, ih h]
    · rw [skipTypeSpace, if_neg hc] at h ⊢
      rw [parseOptional, if_neg hc, if_neg (h c rfl)]

lemma Closes.parseOptional (h : Closes r) (t : Ty) : parseOptional t r = (t, r) := by
  rw [parseOptional_none, h.skip]
  rw [h.skip]
  intro c hc
  rw [h c hc]
  decide

lemma word_append {name : Text} (hname : ∀ c ∈ name, isTypeNameByte c = true) (hne : name ≠ [])
    (hr : Breaks r) : skipTypeSpace (name ++ r) = name ++ r ∧
      (name ++ r).takeWhile isTypeNameByte = name ∧ (name ++ r).dropWhile isTypeNameByte = r := by
  have hbreak : r.takeWhile isTypeNameByte = [] ∧ r.dropWhile isTypeNameByte = r := by
    cases r with
    | nil => exact ⟨rfl, rfl⟩
    | cons c r => simp [hr c rfl]
  refine ⟨?_, ?_, ?_⟩
  · cases name with
    | nil => exact absurd rfl hne
    | cons c name =>
      have hspace : ¬ (c = ' ' ∨ c = '\t') := by
        rintro (rfl | rfl) <;> exact absurd (hname _ mem_cons_self) (by decide)
      rw [cons_append, skipTypeSpace, if_neg hspace]
  · rw [takeWhile_append_of_pos hname, hbreak.1, append_nil]
  · rw [dropWhile_append_of_pos hname, hbreak.2]

end
section
variable {check : Ty → Except TypeError Unit} {src r : Text} {fuel : Nat}

lemma parseMembers_skip (rest : Text) :
    parseMembers check src fuel (skipTypeSpace rest) = parseMembers check src fuel rest := by
  cases fuel with
  | zero => rfl
  | succ fuel => rw [parseMembers, parseMembers, skip_skip]

lemma typeNames_spec : ∀ p ∈ typeNames, p.1 ≠ [] ∧ (∀ c ∈ p.1, isTypeNameByte c = true) ∧
    p.1 ≠ "list".toList ∧ p.1 ≠ "unresolved".toList ∧ typeNames.lookup p.1 = some p.2 := by
  have hbytes : typeNames.all (fun p => p.1.all isTypeNameByte) = true := by decide +kernel
  have hnames : ∀ p ∈ typeNames, p.1 ≠ [] ∧ p.1 ≠ "list".toList ∧ p.1 ≠ "unresolved".toList ∧
      typeNames.lookup p.1 = some p.2 := by decide +kernel
  exact fun p hp => ⟨(hnames p hp).1, all_eq_true.mp (all_eq_true.mp hbytes p hp), (hnames p hp).2⟩

variable {t : Ty} {ms : List Ty}

lemma parseAtom_named (ht : (t.text, t) ∈ typeNames) (hfuel : 1 ≤ fuel) (hr : Breaks r) :
    parseAtom check src fuel (t.text ++ r) = .ok (t, r) := by
  obtain ⟨hne, hname, hlist, hunresolved, hlookup⟩ := typeNames_spec _ ht
  obtain ⟨hskip, htake, hdrop⟩ := word_append hname hne hr
  obtain ⟨fuel, rfl⟩ := Nat.exists_eq_add_of_le' hfuel
  rw [parseAtom]
  simp only [hskip, htake, hdrop, if_neg hne, if_neg hlist, if_neg hunresolved, hlookup]

lemma parseBracketed_text {e : Ty} (name : Text)
    (h : parseUnion check src fuel (e.text ++ ']' :: r) = .ok (e, ']' :: r)) :
    parseBracketed check src (fuel + 1) name ('[' :: (e.text ++ ']' :: r)) = .ok (e, r) := by
  have hskip : ∀ x, skipTypeSpace ('[' :: x) = '[' :: x := fun _ => rfl
  have hskip' : ∀ x, skipTypeSpace (']' :: x) = ']' :: x := fun _ => rfl
  rw [parseBracketed, hskip]
  simp only [h, Except.bind, bind, hskip']
  rfl

lemma text_list (e : Ty) (r : Text) :
    (Ty.list e).text ++ r = "list".toList ++ ('[' :: (e.text ++ ']' :: r)) := by
  have htext : (Ty.list e).text = "list[".toList ++ e.text ++ "]".toList := rfl
  rw [htext, append_assoc, append_assoc]
  rfl

lemma word_bracket {name : Text} (hname : ∀ c ∈ name, isTypeNameByte c = true) (hne : name ≠ []) (x : Text) :
    skipTypeSpace (name ++ '[' :: x) = name ++ '[' :: x ∧ (name ++ '[' :: x).takeWhile isTypeNameByte = name ∧
      (name ++ '[' :: x).dropWhile isTypeNameByte = '[' :: x := by
  refine word_append hname hne fun c hc => ?_
  cases hc
  decide

lemma parseAtom_list {e : Ty} (hcheck : check e = .ok ()) (hlist : e.listOf = .list e)
    (h : parseUnion check src fuel (e.text ++ ']' :: r) = .ok (e, ']' :: r)) :
    parseAtom check src (fuel + 2) ((Ty.list e).text ++ r) = .ok (.list e, r) := by
  have hname : ∀ c ∈ "list".toList, isTypeNameByte c = true := all_eq_true.mp (by decide)
  obtain ⟨hskip, htake, hdrop⟩ := word_bracket hname (by decide) (e.text ++ ']' :: r)
  rw [text_list, parseAtom, hskip]
  dsimp only
  rw [htake, hdrop, if_neg (by decide), if_pos rfl, parseBracketed_text _ h]
  simp only [bind, Except.bind, hcheck, hlist]
  rfl

lemma parseSuffixed_plain (h : parseAtom check src fuel (t.text ++ r) = .ok (t, r))
    (hr : ∀ c ∈ (skipTypeSpace r).head?, c ≠ '?') :
    parseSuffixed check src (fuel + 1) (t.text ++ r) = .ok (t, skipTypeSpace r) := by
  rw [parseSuffixed, h]
  simp only [bind, Except.bind, parseOptional_none t hr]
  rfl

lemma parseMembers_closes (hr : Closes r) : parseMembers check src (fuel + 1) r = .ok ([], r) := by
  rw [parseMembers, hr.skip]
  split
  · rename_i rest
    cases hr '|' rfl
  · rfl

lemma parseUnion_atom (h : ∀ fuel, 2 * t.text.length ≤ fuel → parseAtom check src fuel (t.text ++ r) = .ok (t, r))
    (hr : Closes r) (ht : t.Normal) (hfuel : 2 * t.text.length + 2 ≤ fuel) :
    parseUnion check src fuel (t.text ++ r) = .ok (t, r) := by
  obtain ⟨fuel, rfl⟩ : ∃ n, fuel = n + 2 := ⟨fuel - 2, by omega⟩
  have hnone : ∀ c ∈ (skipTypeSpace r).head?, c ≠ '?' := by
    intro c hc
    rw [hr.skip] at hc
    rw [hr c hc]
    decide
  rw [parseUnion, parseSuffixed_plain (h fuel (by omega)) hnone, hr.skip]
  simp only [bind, Except.bind, parseMembers_closes hr, ht.unionOf_singleton]
  rfl

def memberTail (ms : List Ty) : Text := ms.flatMap fun m => " | ".toList ++ m.text

lemma intercalate_texts (m : Ty) (ms : List Ty) :
    " | ".toList.intercalate (texts (m :: ms)) = m.text ++ memberTail ms := by
  induction ms generalizing m with
  | nil => simp [texts, List.intercalate, memberTail]
  | cons m' ms ih =>
    have hcons : " | ".toList.intercalate (texts (m :: m' :: ms)) =
        m.text ++ " | ".toList ++ " | ".toList.intercalate (texts (m' :: ms)) := by
      simp [texts, List.intercalate]
    rw [hcons, ih, memberTail, memberTail, flatMap_cons]
    simp only [append_assoc]

lemma text_union {m : Ty} (hms : ms ≠ []) :
    (ms = [.null] ∧ (Ty.union (m :: ms)).text = m.text ++ "?".toList) ∨
      (Ty.union (m :: ms)).text = m.text ++ memberTail ms := by
  rw [← intercalate_texts]
  match ms, hms with
  | [m'], _ =>
    cases m' with
    | null => exact .inl ⟨rfl, rfl⟩
    | _ => exact .inr rfl
  | m' :: _ :: _, _ => cases m' <;> exact .inr rfl

lemma parseSuffixed_space (rest : Text) :
    parseSuffixed check src fuel (' ' :: rest) = parseSuffixed check src fuel rest := by
  cases fuel with
  | zero => rfl
  | succ fuel =>
    rw [parseSuffixed, parseSuffixed]
    cases fuel <;> rfl

lemma memberTail_cons (m : Ty) : memberTail (m :: ms) ++ r = ' ' :: '|' :: ' ' :: (m.text ++ (memberTail ms ++ r)) := by
  rw [memberTail, flatMap_cons, append_assoc, append_assoc]
  rfl

lemma memberTail_next (ms : List Ty) (hr : Closes r) : Breaks (memberTail ms ++ r) ∧
    ∀ c ∈ (skipTypeSpace (memberTail ms ++ r)).head?, c ≠ '?' := by
  cases ms with
  | nil =>
    refine ⟨hr.breaks, fun c hc => ?_⟩
    rw [memberTail, flatMap_nil, nil_append, hr.skip] at hc
    rw [hr c hc]
    decide
  | cons m ms =>
    rw [memberTail_cons]
    constructor
    · rintro c ⟨⟩
      decide
    · rintro c ⟨⟩
      decide

lemma parseMembers_tail (hatom : ∀ m ∈ ms, ∀ fuel r, 2 * m.text.length ≤ fuel → Breaks r →
      parseAtom check src fuel (m.text ++ r) = .ok (m, r))
    (hr : Closes r) (hfuel : 2 * (memberTail ms).length + 1 ≤ fuel) :
    parseMembers check src fuel (memberTail ms ++ r) = .ok (ms, r) := by
  induction ms generalizing fuel with
  | nil =>
    obtain ⟨fuel, rfl⟩ := Nat.exists_eq_add_of_le' (Nat.le_trans (Nat.le_add_left 1 _) hfuel)
    exact parseMembers_closes hr
  | cons m ms ih =>
    have hlen : (memberTail (m :: ms)).length = 3 + m.text.length + (memberTail ms).length := by
      rw [memberTail, flatMap_cons, length_append, length_append]
      rfl
    obtain ⟨fuel, rfl⟩ : ∃ n, fuel = n + 2 := ⟨fuel - 2, by omega⟩
    obtain ⟨hbreaks, hnone⟩ := memberTail_next ms hr
    have hsuffixed := parseSuffixed_plain (hatom m mem_cons_self fuel _ (by omega) hbreaks) hnone
    have hrest := ih (fun m' hm' => hatom m' (mem_cons_of_mem _ hm')) (by omega : _ ≤ fuel + 1)
    rw [parseMembers, memberTail_cons]
    have hskip : ∀ x, skipTypeSpace (' ' :: '|' :: x) = '|' :: x := fun _ => rfl
    rw [hskip]
    simp only [bind, Except.bind, parseSuffixed_space, hsuffixed, parseMembers_skip, hrest]
    rfl

lemma parseUnion_union {m : Ty} (hms : ms ≠ [])
    (hatom : ∀ u ∈ m :: ms, ∀ fuel r, 2 * u.text.length ≤ fuel → Breaks r →
      parseAtom check src fuel (u.text ++ r) = .ok (u, r))
    (hunion : unionOf (m :: ms) = .union (m :: ms)) (hnormal : (Ty.union (m :: ms)).Normal) (hr : Closes r)
    (hfuel : 2 * (Ty.union (m :: ms)).text.length + 2 ≤ fuel) :
    parseUnion check src fuel ((Ty.union (m :: ms)).text ++ r) = .ok (.union (m :: ms), r) := by
  obtain ⟨fuel, rfl⟩ : ∃ n, fuel = n + 2 := ⟨fuel - 2, by omega⟩
  rcases text_union (m := m) hms with ⟨rfl, htext⟩ | htext
  · -- an optional type
    rw [htext, length_append] at hfuel
    have hm := hatom m mem_cons_self fuel ('?' :: r) (by omega) (by rintro c ⟨⟩; decide)
    have hopt : parseOptional m ('?' :: r) = (.union [m, .null], r) := by
      rw [parseOptional, if_neg (by decide), if_pos rfl, hr.parseOptional, Ty.optionalOf, hunion]
    have hsuffixed : parseSuffixed check src (fuel + 1) (m.text ++ '?' :: r) = .ok (.union [m, .null], r) := by
      rw [parseSuffixed, hm]
      simp only [bind, Except.bind, hopt]
      rfl
    rw [htext, append_assoc]
    have hcons : "?".toList ++ r = '?' :: r := rfl
    rw [hcons, parseUnion, hsuffixed]
    simp only [bind, Except.bind, parseMembers_closes hr, hnormal.unionOf_singleton]
    rfl
  · rw [htext, length_append] at hfuel
    rw [htext, append_assoc]
    obtain ⟨hbreaks, hnone⟩ := memberTail_next ms hr
    have hsuffixed := parseSuffixed_plain (hatom m mem_cons_self fuel _ (by omega) hbreaks) hnone
    have hrest := parseMembers_tail (fun u hu => hatom u (mem_cons_of_mem _ hu)) hr
      (by omega : _ ≤ fuel + 1)
    rw [parseUnion, hsuffixed]
    simp only [bind, Except.bind, parseMembers_skip, hrest, hunion]
    rfl

lemma unionOf_members (hlen : 2 ≤ ms.length) (hsimple : ∀ m ∈ ms, m.Simple)
    (hsorted : ms.Pairwise (fun a b => unionLess a b = true)) : unionOf ms = .union ms := by
  rw [unionOf, membersAll_simple hsimple, hoistsAny_simple hsimple, normalizeUnionMembers_union hlen hsimple hsorted]
  rfl

lemma var_mem_typeNames : ∀ i : Fin 4, ((Ty.var i).text, Ty.var i) ∈ typeNames := by decide
lemma parseAtom_name (ht : (t.text, t) ∈ typeNames) (hfuel : 2 * t.text.length ≤ fuel) (hr : Breaks r) :
    parseAtom check src fuel (t.text ++ r) = .ok (t, r) := by
  have hpos : 0 < t.text.length := length_pos_of_ne_nil (typeNames_spec _ ht).1
  exact parseAtom_named ht (by omega) hr

mutual

lemma Ty.Simple.parseAtom {t : Ty} : t.Simple → (∀ e ∈ t.elems, check e = .ok ()) →
    ∀ fuel r, 2 * t.text.length ≤ fuel → Breaks r → Sqi.Expr.parseAtom check src fuel (t.text ++ r) = .ok (t, r)
  | .null, _, _, _, hfuel, hr => parseAtom_name (by decide) hfuel hr
  | .bool, _, _, _, hfuel, hr => parseAtom_name (by decide) hfuel hr
  | .int, _, _, _, hfuel, hr => parseAtom_name (by decide) hfuel hr
  | .float, _, _, _, hfuel, hr => parseAtom_name (by decide) hfuel hr
  | .string, _, _, _, hfuel, hr => parseAtom_name (by decide) hfuel hr
  | .path, _, _, _, hfuel, hr => parseAtom_name (by decide) hfuel hr
  | .rangeExpr, _, _, _, hfuel, hr => parseAtom_name (by decide) hfuel hr
  | .var i, _, _, _, hfuel, hr => parseAtom_name (var_mem_typeNames i) hfuel hr
  | @Ty.Simple.list e he, hcheck, fuel, r, hfuel, _ => by
    have hlen := congrArg List.length (text_list e [])
    simp only [append_nil, length_append, length_cons, length_nil] at hlen
    obtain ⟨fuel, rfl⟩ : ∃ n, fuel = n + 2 := ⟨fuel - 2, by omega⟩
    refine parseAtom_list (hcheck e mem_cons_self) he.listOf
      (Ty.Plain.parseUnion he (fun e' he' => hcheck e' (mem_cons_of_mem _ he')) fuel _ (by omega) ?_)
    rintro c ⟨⟩
    rfl

lemma Ty.Plain.parseUnion {t : Ty} : t.Plain → (∀ e ∈ t.elems, check e = .ok ()) →
    ∀ fuel r, 2 * t.text.length + 2 ≤ fuel → Closes r → Sqi.Expr.parseUnion check src fuel (t.text ++ r) = .ok (t, r)
  | .simple h, hcheck, _, r, hfuel, hr =>
    parseUnion_atom (fun n hn => Ty.Simple.parseAtom h hcheck n r hn hr.breaks) hr (Ty.Plain.simple h).normal hfuel
  | .any, _, _, _, hfuel, hr => parseUnion_atom (fun _ hn => parseAtom_name (by decide) hn hr.breaks) hr .any hfuel
  | .noReturn, _, _, _, hfuel, hr =>
    parseUnion_atom (fun _ hn => parseAtom_name (by decide) hn hr.breaks) hr .noReturn hfuel
  | @Ty.Plain.union ms hlen hsimple hsorted, hcheck, fuel, r, hfuel, hr => by
    have hatom : ∀ m ∈ ms, ∀ fuel r, 2 * m.text.length ≤ fuel → Breaks r →
        Sqi.Expr.parseAtom check src fuel (m.text ++ r) = .ok (m, r) := fun m hm =>
      Ty.Simple.parseAtom (hsimple m hm) fun e he => hcheck e (elems_mem hm he)
    have hunion := unionOf_members hlen hsimple hsorted
    cases ms with
    | nil => cases hlen
    | cons m ms =>
      refine parseUnion_union (fun h => ?_) hatom hunion (.union hlen hsimple hsorted) hr hfuel
      rw [h] at hlen
      simp at hlen

end

lemma parseUnion_unresolved {c : Ty} (hc : c.Plain) (hcheck : ∀ e ∈ c.elems, check e = .ok ())
    (hfuel : 2 * (Ty.unresolved c).text.length + 2 ≤ fuel) :
    parseUnion check src fuel (Ty.unresolved c).text = .ok (.unresolved c, []) := by
  have hname : ∀ x ∈ "unresolved".toList, isTypeNameByte x = true := all_eq_true.mp (by decide)
  have hatom : ∀ fuel, 2 * (Ty.unresolved c).text.length ≤ fuel →
      parseAtom check src fuel ((Ty.unresolved c).text ++ []) = .ok (.unresolved c, []) := by
    intro fuel hfuel
    rw [append_nil]
    by_cases e : c = .any
    · -- the bare name
      subst e
      have htext : (Ty.unresolved .any).text = "unresolved".toList := rfl
      rw [htext] at hfuel ⊢
      obtain ⟨fuel, rfl⟩ : ∃ n, fuel = n + 1 := ⟨fuel - 1, by simp at hfuel; omega⟩
      rfl
    · have htext : (Ty.unresolved c).text = "unresolved".toList ++ '[' :: (c.text ++ [']']) := by
        have h : (Ty.unresolved c).text =
            if c = .any then "unresolved".toList else "unresolved[".toList ++ c.text ++ "]".toList := rfl
        rw [h, if_neg e, append_assoc]
        rfl
      obtain ⟨hskip, htake, hdrop⟩ := word_bracket hname (by decide) (c.text ++ [']'])
      rw [htext] at hfuel ⊢
      simp only [length_append, length_cons, length_nil] at hfuel
      obtain ⟨fuel, rfl⟩ : ∃ n, fuel = n + 2 := ⟨fuel - 2, by omega⟩
      have hinner : parseUnion check src fuel (c.text ++ [']']) = .ok (c, [']']) :=
        hc.parseUnion hcheck fuel _ (by omega) (by rintro x ⟨⟩; rfl)
      have hopen : ∀ x, skipTypeSpace ('[' :: x) = '[' :: x := fun _ => rfl
      rw [parseAtom, hskip]
      dsimp only
      rw [htake, hdrop, if_neg (by decide), if_neg (by decide), if_pos rfl, hopen]
      simp only [bind, Except.bind, parseBracketed_text _ hinner, hc.unresolvedOf]
      rfl
  simpa using parseUnion_atom hatom nofun hc hfuel

lemma parseTypeWith_text (h : t.Normal) (hcheck : ∀ e ∈ t.elems, check e = .ok ()) :
    parseTypeWith check t.text = .ok t := by
  have hparse : parseUnion check t.text (2 * t.text.length + 2) t.text = .ok (t, []) := by
    rcases h.cases with hplain | ⟨c, rfl, hc⟩
    · have hwhole : parseUnion check t.text (2 * t.text.length + 2) (t.text ++ []) = .ok (t, []) :=
        hplain.parseUnion hcheck _ [] (Nat.le_refl _) nofun
      rwa [append_nil] at hwhole
    · exact parseUnion_unresolved hc hcheck (Nat.le_refl _)
  rw [parseTypeWith, hparse]
  rfl

lemma Ty.Normal.text_injective {u : Ty} (ht : t.Normal) (hu : u.Normal) (h : t.text = u.text) : t = u := by
  have hparse : parseTypeWith (fun _ => .ok ()) t.text = .ok t := parseTypeWith_text ht fun _ _ => rfl
  rw [h, parseTypeWith_text hu fun _ _ => rfl] at hparse
  exact (Except.ok.inj hparse).symm

end
end Sqi.Expr
