import Sqi.OpenJD.Combination

/-! Lookups in the rows of an expansion. -/

namespace Sqi
open List GoText Program

section
variable {α : Type} {e : String × α} {m : StringMap α} {key : String} {value : α}

lemma lookup_map_replace (m : StringMap α) (key name : String) (value : α) :
    (m.map fun e => if e.1 = key then (key, value) else e).lookup name =
      if name = key then (m.lookup name).map fun _ => value else m.lookup name := by
  induction m with
  | nil => simp
  | cons e m ih =>
    obtain ⟨k, w⟩ := e
    rw [map_cons]
    by_cases hk : k = key
    · subst hk
      by_cases hn : name = k
      · simp [hn]
      · simp only [if_true, lookup_cons, beq_eq_false_iff_ne.mpr hn, ih, if_neg hn]
    · by_cases hn : name = k
      · subst hn
        simp [hk]
      · simp only [if_neg hk, lookup_cons, beq_eq_false_iff_ne.mpr hn, ih]

lemma lookup_put_eq (m : StringMap α) (key name : String) (value : α) :
    (StringMap.put m key value).lookup name = if name = key then some value else m.lookup name := by
  unfold StringMap.put
  split
  · rename_i hsome
    rw [lookup_map_replace]
    split
    · rename_i e
      obtain ⟨v, hv⟩ := Option.isSome_iff_exists.mp hsome
      rw [e, hv]
      rfl
    · rfl
  · rename_i hnone
    rw [lookup_append]
    split
    · rename_i e
      rw [e, Option.not_isSome_iff_eq_none.mp hnone]
      simp
    · rename_i hne
      simp [lookup_cons, beq_eq_false_iff_ne.mpr hne]

lemma nodup_put (h : (m.map Prod.fst).Nodup) : ((StringMap.put m key value).map Prod.fst).Nodup := by
  unfold StringMap.put
  split
  · have hkeys : (m.map fun e => if e.1 = key then (key, value) else e).map Prod.fst = m.map Prod.fst := by
      rw [map_map]
      refine map_congr_left fun e _ => ?_
      simp only [Function.comp_apply]
      split
      · exact Eq.symm ‹_›
      · rfl
    rwa [hkeys]
  · rename_i hnone
    rw [map_append, nodup_append]
    refine ⟨h, by simp, fun k hk k' hk' e => ?_⟩
    obtain rfl := mem_singleton.mp hk'
    obtain ⟨entry, hentry, rfl⟩ := mem_map.mp hk
    rw [Option.not_isSome_iff_eq_none, lookup_eq_none_iff] at hnone
    have := hnone entry hentry
    simp_all

lemma nodup_copyInto {dst src : StringMap α} (h : (dst.map Prod.fst).Nodup) :
    ((StringMap.copyInto dst src).map Prod.fst).Nodup := by
  unfold StringMap.copyInto
  induction src generalizing dst with
  | nil => exact h
  | cons e src ih => exact ih (nodup_put h)

lemma lookup_copyInto (dst src : StringMap α) (name : String) (h : (src.map Prod.fst).Nodup) :
    (StringMap.copyInto dst src).lookup name = (src.lookup name).or (dst.lookup name) := by
  unfold StringMap.copyInto
  induction src generalizing dst with
  | nil => simp
  | cons e src ih =>
    obtain ⟨k, w⟩ := e
    obtain ⟨hk, hrest⟩ := nodup_cons.mp h
    rw [foldl_cons, ih _ hrest, lookup_put_eq, lookup_cons]
    by_cases hn : name = k
    · subst hn
      have hnone : src.lookup name = none := by
        rw [lookup_eq_none_iff]
        intro p hp
        rw [bne_iff_ne]
        rintro e
        exact hk (mem_map.mpr ⟨p, hp, e.symm⟩)
      simp [hnone]
    · simp [hn, beq_eq_false_iff_ne.mpr hn]

end
end Sqi
