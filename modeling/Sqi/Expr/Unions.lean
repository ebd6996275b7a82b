import Sqi.Expr.TypeText

/-! Unions in normal form (`UnionOf` of `type.go`). -/

namespace Sqi.Expr
open List GoText Ty

/-! ## Sorted members -/

lemma unionLess_total (a b : Ty) : unionLess b a = false ∨ unionLess a b = false := by
  cases h : unionLess b a with
  | false => exact .inl rfl
  | true => exact .inr (unionLess_asymm h)

lemma textLess_trans {a b c : Text} (hab : textLess b a = false) (hbc : textLess c b = false) :
    textLess c a = false := by
  rw [Bool.eq_false_iff, ne_eq, textLess_iff] at *
  have le : List.le a c := List.le_trans (show List.le a b from hab) hbc
  exact le

lemma unionLess_trans {a b c : Ty} (hab : unionLess b a = false) (hbc : unionLess c b = false) :
    unionLess c a = false := by
  unfold unionLess at *
  by_cases ha : a = .null <;> by_cases hb : b = .null <;> by_cases hc : c = .null <;>
    simp [ha, hb, hc] at hab hbc ⊢
  all_goals exact textLess_trans hab hbc

lemma unionLess_antisymm {a b : Ty} (ha : a.Normal) (hb : b.Normal) (hab : unionLess b a = false)
    (hba : unionLess a b = false) : a = b := by
  unfold unionLess at *
  by_cases ea : a = .null <;> by_cases eb : b = .null
  · rw [ea, eb]
  · simp [ea, eb] at hab
  · simp [ea, eb] at hba
  · simp only [ea, eb, decide_false, ne_eq, not_true_eq_false, if_false, Bool.eq_false_iff, textLess_iff]
      at hab hba
    exact ha.text_injective hb (List.le_antisymm (show List.le a.text b.text from hab) hba)

instance : Std.Total (fun a b : Ty => unionLess b a = false) := ⟨unionLess_total⟩
instance : IsTrans Ty (fun a b : Ty => unionLess b a = false) := ⟨fun _ _ _ => unionLess_trans⟩

def Ty.Member (t : Ty) : Prop := t.Simple ∨ t = .any
def uniqMembers (ms : List Ty) : List Ty :=
  ms.foldl (fun uniq m => if m ∈ uniq then uniq else uniq ++ [m]) []

section

lemma foldl_uniq_spec (ms done : List Ty) (h : done.Nodup) :
    (ms.foldl (fun uniq m => if m ∈ uniq then uniq else uniq ++ [m]) done).Nodup ∧
      ∀ m, m ∈ ms.foldl (fun uniq m => if m ∈ uniq then uniq else uniq ++ [m]) done ↔ m ∈ done ∨ m ∈ ms := by
  induction ms generalizing done with
  | nil => simp [h]
  | cons a ms ih =>
    rw [foldl_cons]
    by_cases ha : a ∈ done
    · rw [if_pos ha]
      obtain ⟨hnodup, hmem⟩ := ih done h
      refine ⟨hnodup, fun m => ?_⟩
      rw [hmem, mem_cons]
      constructor
      · rintro (hm | hm)
        · exact .inl hm
        · exact .inr (.inr hm)
      rintro (hm | rfl | hm)
      · exact .inl hm
      · exact .inl ha
      · exact .inr hm
    · rw [if_neg ha]
      have hnew : (done ++ [a]).Nodup := h.append (nodup_singleton a) fun b hb hb' => ha (mem_singleton.mp hb' ▸ hb)
      obtain ⟨hnodup, hmem⟩ := ih _ hnew
      refine ⟨hnodup, fun m => ?_⟩
      rw [hmem, mem_append, mem_singleton, mem_cons, or_assoc]

lemma uniqMembers_nodup (ms : List Ty) : (uniqMembers ms).Nodup := (foldl_uniq_spec ms [] .nil).1

variable {ms : List Ty}

lemma mem_uniqMembers {m : Ty} : m ∈ uniqMembers ms ↔ m ∈ ms := by
  rw [uniqMembers, (foldl_uniq_spec ms [] .nil).2]
  simp

variable {t : Ty}

lemma Ty.Simple.normal (h : t.Simple) : t.Normal := (Ty.Plain.simple h).normal

lemma normalizeUnionMembers_spec (h : ∀ m ∈ ms, m.Member) : (normalizeUnionMembers ms).Plain ∧
    ∀ m, m ∈ (normalizeUnionMembers ms).members ↔ if Ty.any ∈ ms then m = .any else m ∈ ms := by
  by_cases hany : Ty.any ∈ ms
  · rw [normalizeUnionMembers, if_pos hany]
    exact ⟨.any, fun m => by rw [if_pos hany]; exact mem_singleton⟩
  have hsimple : ∀ m ∈ uniqMembers ms, m.Simple := fun m hm =>
    (h m (mem_uniqMembers.mp hm)).resolve_right fun e => hany (e ▸ mem_uniqMembers.mp hm)
  suffices hsuff : (normalizeUnionMembers ms).Plain ∧
      ∀ m, m ∈ (normalizeUnionMembers ms).members ↔ m ∈ uniqMembers ms from
    ⟨hsuff.1, fun m => by rw [if_neg hany, hsuff.2, mem_uniqMembers]⟩
  rw [normalizeUnionMembers, if_neg hany, ← uniqMembers]
  have hnodup := uniqMembers_nodup ms
  rcases huniq : uniqMembers ms with _ | ⟨a, _ | ⟨b, rest⟩⟩
  · exact ⟨.noReturn, fun m => Iff.rfl⟩
  · have ha : a.Simple := hsimple a (huniq ▸ mem_singleton_self a)
    exact ⟨.simple ha, fun m => by rw [ha.members]⟩
  · rw [huniq] at hnodup hsimple
    have hperm := perm_insertionSort (fun a b : Ty => unionLess b a = false) (a :: b :: rest)
    have hall : ∀ m ∈ (a :: b :: rest).insertionSort (fun a b => unionLess b a = false), m.Simple :=
      fun m hm => hsimple m (hperm.mem_iff.mp hm)
    have hsorted := (pairwise_insertionSort (fun a b : Ty => unionLess b a = false)
      (a :: b :: rest)).and (hperm.nodup_iff.mpr hnodup)
    refine ⟨.union (by rw [hperm.length_eq]; simp) hall ?_, fun m => ?_⟩
    · -- sorted and without repetition is strictly sorted
      refine hsorted.imp_of_mem fun {x y} hx hy hxy => ?_
      by_contra hn
      exact hxy.2 (unionLess_antisymm (hall x hx).normal (hall y hy).normal hxy.1 (Bool.not_eq_true _ ▸ hn))
    · rw [Ty.members, membersAll_simple hall, hperm.mem_iff]

lemma Ty.Plain.members_sorted (h : t.Plain) : t.members.Pairwise (fun a b => unionLess a b = true) := by
  cases h with
  | simple h =>
    rw [h.members]
    exact pairwise_singleton _ _
  | any => exact pairwise_singleton _ _
  | noReturn => exact .nil
  | union _ hsimple hsorted => rwa [Ty.members, membersAll_simple hsimple]

lemma Ty.Plain.eq_of_members {u : Ty} (ht : t.Plain) (hu : u.Plain)
    (h : ∀ m, m ∈ t.members ↔ m ∈ u.members) : t = u := by
  have hperm : t.members.Perm u.members := (perm_ext_iff_of_nodup (nodup_of_sorted ht.members_sorted)
    (nodup_of_sorted hu.members_sorted)).mpr h
  have hsame : t.members = u.members := by
    refine hperm.eq_of_pairwise (fun a b _ _ hab hba => ?_) ht.members_sorted hu.members_sorted
    rw [unionLess_asymm hab] at hba
    cases hba
  rw [← ht.normalize_members, hsame, hu.normalize_members]

lemma Ty.Plain.members_member (h : t.Plain) : ∀ m ∈ t.members, m.Member := by
  cases h with
  | simple h =>
    rw [h.members]
    exact fun m hm => .inl (mem_singleton.mp hm ▸ h)
  | any => exact fun m hm => .inr (mem_singleton.mp hm)
  | noReturn => exact nofun
  | union _ hsimple _ =>
    rw [Ty.members, membersAll_simple hsimple]
    exact fun m hm => .inl (hsimple m hm)

lemma Ty.members_unwrap (t : Ty) : t.unwrap.members = t.members := by cases t <;> rfl
lemma Ty.Normal.members_member (h : t.Normal) : ∀ m ∈ t.members, m.Member := by
  rw [← t.members_unwrap]
  exact Ty.Plain.members_member h

lemma Ty.Normal.ext {u : Ty} (ht : t.Normal) (hu : u.Normal) (hhoists : t.hoists = u.hoists)
    (h : ∀ m, m ∈ t.members ↔ m ∈ u.members) : t = u := by
  rcases ht.cases with ht | ⟨c, rfl, hc⟩ <;> rcases hu.cases with hu | ⟨d, rfl, hd⟩
  · exact ht.eq_of_members hu h
  · rw [ht.not_hoists] at hhoists
    cases hhoists
  · rw [hu.not_hoists] at hhoists
    cases hhoists
  · rw [hc.eq_of_members hd h]

end

section
variable {ts us : List Ty}

lemma mem_membersAll {m : Ty} : m ∈ membersAll ts ↔ ∃ t ∈ ts, m ∈ t.members := by
  rw [membersAll_eq, mem_flatMap]
lemma membersAll_append : membersAll (ts ++ us) = membersAll ts ++ membersAll us := by
  rw [membersAll_eq, membersAll_eq, membersAll_eq, flatMap_append]

lemma unionOf_spec (h : ∀ t ∈ ts, t.Normal) :
    (unionOf ts).Normal ∧ (unionOf ts).hoists = hoistsAny ts ∧ ∀ m, m ∈ (unionOf ts).members ↔
        if Ty.any ∈ membersAll ts then m = .any else m ∈ membersAll ts := by
  have hmember : ∀ m ∈ membersAll ts, m.Member := fun m hm => by
    obtain ⟨t, ht, hmt⟩ := mem_membersAll.mp hm
    exact (h t ht).members_member m hmt
  obtain ⟨hplain, hmem⟩ := normalizeUnionMembers_spec hmember
  rw [unionOf]
  cases hoistsAny ts with
  | false => exact ⟨hplain.normal, hplain.not_hoists, hmem⟩
  | true =>
    simp only [if_true, hplain.unresolvedOf]
    exact ⟨hplain, rfl, hmem⟩

section
variable (hts : ∀ t ∈ ts, t.Normal)
include hts

lemma unionOf_congr (hus : ∀ t ∈ us, t.Normal)
    (hhoists : hoistsAny ts = hoistsAny us) (hany : Ty.any ∈ membersAll ts ↔ Ty.any ∈ membersAll us)
    (hmem : Ty.any ∉ membersAll ts → ∀ m, m ∈ membersAll ts ↔ m ∈ membersAll us) :
    unionOf ts = unionOf us := by
  obtain ⟨hnormal, hh, hm⟩ := unionOf_spec hts
  obtain ⟨hnormal', hh', hm'⟩ := unionOf_spec hus
  refine hnormal.ext hnormal' (by rw [hh, hh', hhoists]) fun m => ?_
  rw [hm, hm']
  by_cases ha : Ty.any ∈ membersAll ts
  · rw [if_pos ha, if_pos (hany.mp ha)]
  · rw [if_neg ha, if_neg (mt hany.mpr ha), hmem ha]

lemma unionOf_set (h : ∀ t, t ∈ ts ↔ t ∈ us) : unionOf ts = unionOf us := by
  have hmem : ∀ m, m ∈ membersAll ts ↔ m ∈ membersAll us := fun m => by simp only [mem_membersAll, h]
  refine unionOf_congr hts (fun t ht => hts t ((h t).mpr ht)) ?_ (hmem _) fun _ => hmem
  rw [hoistsAny_eq_any, hoistsAny_eq_any, Bool.eq_iff_iff, any_eq_true, any_eq_true]
  simp only [h]

lemma unionOf_flatten (hus : ∀ t ∈ us, t.Normal) :
    unionOf (unionOf ts :: us) = unionOf (ts ++ us) := by
  obtain ⟨hnormal, hh, hm⟩ := unionOf_spec hts
  have hany : Ty.any ∈ (unionOf ts).members ↔ Ty.any ∈ membersAll ts := by
    rw [hm]
    by_cases ha : Ty.any ∈ membersAll ts <;> simp [ha]
  refine unionOf_congr (forall_mem_cons.mpr ⟨hnormal, hus⟩) (forall_mem_append.mpr ⟨hts, hus⟩) ?_ ?_ ?_
  · rw [hoistsAny, hh, hoistsAny_eq_any, hoistsAny_eq_any, hoistsAny_eq_any, any_append]
  · rw [membersAll, membersAll_append, mem_append, mem_append, hany]
  · intro hnot m
    rw [membersAll, mem_append, hany, not_or] at hnot
    rw [membersAll, membersAll_append, mem_append, mem_append, hm, if_neg hnot.1]

lemma unionOf_hoist : unionOf ts =
    if hoistsAny ts then .unresolved (unionOf (ts.map Ty.unwrap)) else unionOf (ts.map Ty.unwrap) := by
  have hplain : ∀ t ∈ ts.map Ty.unwrap, t.Plain := forall_mem_map.mpr hts
  have hnone : hoistsAny (ts.map Ty.unwrap) = false := by
    rw [hoistsAny_eq_any, any_eq_false]
    exact fun t ht => by simp [(hplain t ht).not_hoists]
  have hmembers : membersAll (ts.map Ty.unwrap) = membersAll ts := by
    rw [membersAll_eq, membersAll_eq, flatMap_map]
    simp only [Ty.members_unwrap]
  have hinner : unionOf (ts.map Ty.unwrap) = normalizeUnionMembers (membersAll ts) := by
    rw [unionOf, hnone, hmembers]
    rfl
  obtain ⟨hnormal, hh, _⟩ := unionOf_spec fun t ht => (hplain t ht).normal
  rw [hinner, unionOf]
  cases hoistsAny ts with
  | false => rfl
  | true =>
    rw [hinner] at hnormal hh
    rcases hnormal.cases with hp | ⟨c, hc, _⟩
    · simp only [if_true, hp.unresolvedOf]
    · rw [hc, hnone] at hh
      cases hh

end
end

/-! ## Types the constructors build -/

inductive Ty.Built : Ty → Prop where
  | null : Built .null
  | bool : Built .bool
  | int : Built .int
  | float : Built .float
  | string : Built .string
  | path : Built .path
  | rangeExpr : Built .rangeExpr
  | any : Built .any
  | noReturn : Built .noReturn
  | var (i : Fin 4) : Built (.var i)
  | list {t : Ty} : Built t → Built t.listOf
  | unresolved {t : Ty} : Built t → Built t.unresolvedOf
  | union {ts : List Ty} : (∀ t ∈ ts, Built t) → Built (unionOf ts)

mutual

def Ty.placeholders : Ty → Nat
  | .list e => e.placeholders
  | .union ms => placeholdersAll ms
  | .unresolved c => c.placeholders + 1
  | _ => 0

def Ty.placeholdersAll : List Ty → Nat
  | [] => 0
  | t :: ts => t.placeholders + placeholdersAll ts

end
section

lemma Ty.Built.normal {t : Ty} (h : t.Built) : t.Normal := by
  induction h with
  | any => exact Ty.Plain.any
  | noReturn => exact Ty.Plain.noReturn
  | list _ ih =>
    rcases ih.cases with ht | ⟨c, rfl, hc⟩
    · rw [ht.listOf]
      exact Ty.Plain.simple (.list ht)
    have he : (Ty.unresolved c).listOf = .unresolved (.list c) := by
      rw [Ty.listOf, hc.listOf]
      rfl
    rw [he]
    exact Ty.Plain.simple (.list hc)
  | unresolved _ ih =>
    rcases ih.cases with ht | ⟨c, rfl, hc⟩
    · rw [ht.unresolvedOf]
      exact ht
    · exact hc
  | union _ ih => exact (unionOf_spec ih).1
  | var i => exact Ty.Plain.simple (.var i)
  | _ => exact Ty.Plain.simple (by constructor)

lemma placeholdersAll_eq_zero {ms : List Ty} (h : ∀ m ∈ ms, m.placeholders = 0) :
    placeholdersAll ms = 0 := by
  induction ms with
  | nil => rfl
  | cons m ms ih => rw [placeholdersAll, h m mem_cons_self, ih fun m' hm' => h m' (mem_cons_of_mem _ hm')]

mutual

lemma Ty.Simple.no_placeholders {t : Ty} : t.Simple → t.placeholders = 0
  | .null | .bool | .int | .float | .string | .path | .rangeExpr | .var _ => rfl
  | .list h => by
    rw [Ty.placeholders]
    exact Ty.Plain.no_placeholders h

lemma Ty.Plain.no_placeholders {t : Ty} : t.Plain → t.placeholders = 0
  | .simple h => Ty.Simple.no_placeholders h
  | .any | .noReturn => rfl
  | .union _ h _ => placeholdersAll_eq_zero fun m hm => Ty.Simple.no_placeholders (h m hm)

end

lemma Ty.Normal.placeholders {t : Ty} (h : t.Normal) : t.placeholders = if t.hoists then 1 else 0 := by
  rcases h.cases with ht | ⟨c, rfl, hc⟩
  · rw [ht.no_placeholders, ht.not_hoists]
    rfl
  · rw [Ty.placeholders, hc.no_placeholders]
    rfl

lemma unionOf_noReturn {a : Ty} (h : a.Normal) :
    unionOf [a, .noReturn] = a ∧ unionOf [.noReturn, a] = a := by
  have hright : unionOf [a, .noReturn] = unionOf [a] := by
    simp only [unionOf, membersAll, Ty.members, hoistsAny, Ty.hoists, append_nil, Bool.or_false]
  have hleft : unionOf [.noReturn, a] = unionOf [a] := by
    simp only [unionOf, membersAll, Ty.members, hoistsAny, Ty.hoists, append_nil, Bool.or_false,
      Bool.false_or, nil_append]
  rw [hright, hleft, h.unionOf_singleton]
  exact ⟨rfl, rfl⟩

lemma unionOf_any (a : Ty) : unionOf [a, .any] = if a.hoists then .unresolved .any else .any := by
  have hany : normalizeUnionMembers (membersAll [a, .any]) = .any := by
    rw [normalizeUnionMembers, if_pos (by simp [membersAll, Ty.members])]
  rw [unionOf, hany]
  simp only [hoistsAny, Ty.hoists, Bool.or_false, Ty.unresolvedOf]

end

/-- `UnionOf` is a semilattice on the types built, and `ParseType` gives each of them back. -/
theorem unionOf_normal_form {a b c : Ty} (ha : a.Built) (hb : b.Built) (hc : c.Built) :
    unionOf [a, b] = unionOf [b, a] ∧
    unionOf [unionOf [a, b], c] = unionOf [a, unionOf [b, c]] ∧
    unionOf [a, a] = a ∧
    (unionOf [a, .noReturn] = a ∧ unionOf [.noReturn, a] = a) ∧
    (unionOf [a, .any] = if a.hoists then .unresolved .any else .any) ∧
    (unionOf [a, b] = (if a.hoists || b.hoists then .unresolved (unionOf [a.unwrap, b.unwrap])
        else unionOf [a.unwrap, b.unwrap]) ∧
      (unionOf [a, b]).placeholders = if a.hoists || b.hoists then 1 else 0) ∧
    (∀ ts us : List Ty, (∀ t ∈ ts, t.Built) → (∀ t ∈ us, t.Built) →
      ((∀ t, t ∈ ts ↔ t ∈ us) → unionOf ts = unionOf us) ∧
      unionOf (unionOf ts :: us) = unionOf (ts ++ us)) ∧
    ((∀ e ∈ a.elems, checkListElem e = .ok ()) → parseType a.text = .ok a) ∧
    (a.text = b.text → a = b) := by
  have hna := ha.normal
  have hnb := hb.normal
  have hnc := hc.normal
  have hab : ∀ t ∈ [a, b], t.Normal := by simp [hna, hnb]
  have hbc : ∀ t ∈ [b, c], t.Normal := by simp [hnb, hnc]
  have hhoists : hoistsAny [a, b] = (a.hoists || b.hoists) := by simp only [hoistsAny, Bool.or_false]
  refine ⟨unionOf_set hab (by simp [or_comm]), ?_, ?_, unionOf_noReturn hna, unionOf_any a, ⟨?_, ?_⟩,
    fun ts us hts hus => ?_, parseTypeWith_text hna, hna.text_injective hnb⟩
  · have hnested : ∀ t ∈ [a, unionOf [b, c]], t.Normal := by simp [hna, (unionOf_spec hbc).1]
    have hswap : unionOf [a, unionOf [b, c]] = unionOf [unionOf [b, c], a] :=
      unionOf_set hnested (by simp [or_comm])
    rw [unionOf_flatten hab (by simpa using hnc), hswap, unionOf_flatten hbc (by simpa using hna)]
    exact unionOf_set (by simp [hna, hnb, hnc]) (by simp [or_comm, or_left_comm])
  · have hone : unionOf [a, a] = unionOf [a] := unionOf_set (by simp [hna]) (by simp)
    rw [hone, hna.unionOf_singleton]
  · rw [unionOf_hoist hab, hhoists]
    rfl
  · rw [(unionOf_spec hab).1.placeholders, (unionOf_spec hab).2.1, hhoists]
  · have hnts : ∀ t ∈ ts, t.Normal := fun t ht => (hts t ht).normal
    exact ⟨unionOf_set hnts, unionOf_flatten hnts fun t ht => (hus t ht).normal⟩

theorem unionOf_normal_form_list : unionOf [unionOf [.list .int, .unresolved .null], .string] =
      unionOf [.list .int, unionOf [.unresolved .null, .string]] ∧
    parseType (Ty.list .int).text = .ok (.list .int) := by
  have hlist : (Ty.list .int).Built := .list .int
  have hunresolved : (Ty.unresolved .null).Built := .unresolved .null
  obtain ⟨_, hassoc, _, _, _, _, _, hparse, _⟩ := unionOf_normal_form hlist hunresolved .string
  exact ⟨hassoc, hparse (by decide)⟩

end Sqi.Expr
