import Mathlib.Data.List.Infix
import Sqi.Lib.Text

/-! Searching lists: the SQL condition (`sqlstore/search.go`) and the in-memory test
(`store/search.go`) it has to agree with. -/

namespace Sqi.Like
open GoText List

/-- Lower case of single characters, as far as searching relies on it. -/
structure Lowering where
  run : Char → Char
  ascii : ∀ c, c.val < 128 → run c = c.toLower
  lowered : ∀ c, (run c).toLower = run c

variable (lower : Lowering)

def fields (s : Text) : List Text := (s.splitOnP fun c => isSpace c).filter (· ≠ [])
def searchTerms (query : Text) : List Text := fields (query.map lower.run)
def matchesSearch (query : Text) (row : List Text) : Bool :=
  (searchTerms lower query).all fun term =>
    (row.map (·.map lower.run)).any fun field => term <:+: field

/-- The fragment searchClause writes: a group for each term, a comparison in it for each column. -/
def searchClause (cols : List String) (search : Text) : List (List (String × Text)) :=
  (searchTerms lower search).map fun term => cols.map fun col => (col, '%' :: (term ++ ['%']))

/-- `LIKE` of the database: no escape character, letters of either case. -/
def like : Text → Text → Bool
  | [], s => s.isEmpty
  | '%' :: pattern, s => s.tails.any (like pattern)
  | '_' :: pattern, _ :: s => like pattern s
  | '_' :: _, [] => false
  | c :: pattern, d :: s => c.toLower = d.toLower && like pattern s
  | _ :: _, [] => false

def selects (clause : List (List (String × Text))) (row : String → Text) : Bool :=
  clause.all fun group => group.any fun (col, pattern) => like pattern (row col)

variable {lower} {term s : Text}

lemma like_literal (plain : ∀ c ∈ term, c ≠ '%' ∧ c ≠ '_') :
    like (term ++ ['%']) s = true ↔ term.map Char.toLower <+: s.map Char.toLower := by
  induction term generalizing s with
  | nil => simp [like]
  | cons c term ih =>
    obtain ⟨⟨h1, h2⟩, plain⟩ := forall_mem_cons.mp plain
    cases s with
    | nil => simp [like]
    | cons d s => simp [like, ih plain, cons_prefix_cons]

lemma like_anywhere (plain : ∀ c ∈ term, c ≠ '%' ∧ c ≠ '_') :
    like ('%' :: (term ++ ['%'])) s = true ↔ term.map Char.toLower <:+: s.map Char.toLower := by
  have tails : like ('%' :: (term ++ ['%'])) s = true ↔
      ∃ t, t <:+ s ∧ term.map Char.toLower <+: t.map Char.toLower := by
    simp [like, like_literal plain]
  rw [tails, infix_iff_prefix_suffix]
  constructor
  · rintro ⟨t, ht, hp⟩
    exact ⟨_, hp, ht.map _⟩
  · rintro ⟨_, hp, ht⟩
    obtain ⟨t, ht', rfl⟩ := suffix_map_iff.mp ht
    exact ⟨t, ht', hp⟩

lemma mem_of_mem_splitOnP {p : Char → Bool} (h : term ∈ s.splitOnP p) : ∀ c ∈ term, c ∈ s := by
  induction s generalizing term with
  | nil => simp_all
  | cons a s ih =>
    obtain ⟨first, rest, hs⟩ := exists_cons_of_ne_nil (splitOnP_ne_nil p s)
    rw [splitOnP_cons_eq_if_modifyHead] at h
    intro c hc
    split at h
    · rcases mem_cons.mp h with rfl | h
      · cases hc
      · exact mem_cons_of_mem _ (ih h c hc)
    rw [hs] at h ih
    rcases mem_cons.mp h with rfl | h
    · exact (mem_cons.mp hc).elim (· ▸ mem_cons_self) fun hc => mem_cons_of_mem _ (ih mem_cons_self c hc)
    · exact mem_cons_of_mem _ (ih (mem_cons_of_mem _ h) c hc)

lemma mem_searchTerms {query : Text} (h : term ∈ searchTerms lower query) {c : Char} (hc : c ∈ term) :
    ∃ d ∈ query, lower.run d = c :=
  mem_map.mp (mem_of_mem_splitOnP (mem_filter.mp h).1 c hc)

lemma toLower_of_mem_searchTerms {query : Text} (h : term ∈ searchTerms lower query) {c : Char} (hc : c ∈ term) :
    c.toLower = c := by
  obtain ⟨d, _, rfl⟩ := mem_searchTerms h hc
  exact lower.lowered d

lemma toLower_lt {c : Char} (h : c.val < 128) : c.toLower.val < 128 := by
  unfold Char.toLower
  grind

def isWildcard (c : Char) : Prop := c = '%' ∨ c = '_'
deriving Decidable

/-- A text that a pattern matches and that has no wildcard. -/
def matched (term : Text) : Text := term.map fun c => if isWildcard c then 'x' else c

lemma like_matched (term rest : Text) : like (term ++ ['%']) (matched term ++ rest) = true := by
  induction term with
  | nil => simp [like, matched]
  | cons c term ih =>
    show like (c :: (term ++ ['%'])) ((if isWildcard c then 'x' else c) :: (matched term ++ rest)) = true
    by_cases hc : isWildcard c
    · rw [if_pos hc]
      rcases hc with rfl | rfl
      · rw [like, any_eq_true]
        exact ⟨matched term ++ rest, (mem_tails _ _).mpr (suffix_cons _ _), ih⟩
      · exact ih
    · obtain ⟨hpercent, hunderscore⟩ := not_or.mp hc
      rw [if_neg hc]
      simp [like, ih]

lemma like_matched_infix (h : matched term <:+: s) : like ('%' :: (term ++ ['%'])) s = true := by
  obtain ⟨front, rest, rfl⟩ := h
  rw [like, any_eq_true]
  exact ⟨matched term ++ rest, (mem_tails _ _).mpr (by simp), like_matched term rest⟩

lemma exists_of_like {pattern : Text} (h : like pattern s = true) :
    ∀ c ∈ pattern, ¬ isWildcard c → ∃ d ∈ s, c.toLower = d.toLower := by
  induction pattern generalizing s with
  | nil => simp
  | cons a pattern ih =>
    intro c hc hw
    have tail {t : Text} (ht : t ⊆ s) (h : like pattern t = true) (hc : c ∈ pattern) :
        ∃ d ∈ s, c.toLower = d.toLower := by
      obtain ⟨d, hd, e⟩ := ih h c hc hw
      exact ⟨d, ht hd, e⟩
    rw [like.eq_def] at h
    split at h
    · cases ‹a :: pattern = []›
    · rename_i e
      cases e
      obtain ⟨t, ht, h⟩ := any_eq_true.mp h
      exact tail ((mem_tails _ _).mp ht).subset h ((mem_cons.mp hc).resolve_left fun e => hw (.inl e))
    · rename_i e
      cases e
      exact tail (subset_cons_self _ _) h ((mem_cons.mp hc).resolve_left fun e => hw (.inr e))
    · cases h
    · rename_i e
      cases e
      simp only [Bool.and_eq_true, decide_eq_true_eq] at h
      rcases mem_cons.mp hc with rfl | hc
      · exact ⟨_, mem_cons_self, h.1⟩
      · exact tail (subset_cons_self _ _) h.2 hc
    · cases h

section
variable {cols : List String} {query : Text} {row : String → Text}

lemma matchesSearch_iff (ascii : ∀ col ∈ cols, ∀ c ∈ row col, c.val < 128) :
    matchesSearch lower query (cols.map row) = true ↔
      ∀ term ∈ searchTerms lower query, ∃ col ∈ cols, term <:+: (row col).map Char.toLower := by
  have rows : ∀ col ∈ cols, (row col).map lower.run = (row col).map Char.toLower :=
    fun col hcol => map_congr_left fun c hc => lower.ascii c (ascii col hcol c hc)
  simp only [matchesSearch, all_eq_true, map_map, any_map, any_eq_true, Function.comp, decide_eq_true_eq]
  refine forall₂_congr fun term _ => exists_congr fun col => and_congr_right fun hcol => ?_
  rw [rows col hcol]

lemma selects_iff : selects (searchClause lower cols query) row = true ↔
    ∀ term ∈ searchTerms lower query, ∃ col ∈ cols, like ('%' :: (term ++ ['%'])) (row col) = true := by
  simp [selects, searchClause]

end

/-- The condition selects what the terms say, as the in-memory test does, on all rows exactly if no term
of the query has a wildcard or some term cannot occur in a row. -/
theorem search_has_one_meaning {cols : List String} (some_col : cols ≠ []) (query : Text) :
    (∀ row : String → Text, (∀ col ∈ cols, ∀ c ∈ row col, c.val < 128) →
      (selects (searchClause lower cols query) row = true ↔
        ∀ term ∈ searchTerms lower query, ∃ col ∈ cols, term <:+: (row col).map Char.toLower) ∧
      selects (searchClause lower cols query) row = matchesSearch lower query (cols.map row)) ↔
    (∀ term ∈ searchTerms lower query, '%' ∉ term ∧ '_' ∉ term) ∨
      ∃ term ∈ searchTerms lower query, ∃ c ∈ term, 128 ≤ c.val := by
  constructor
  · intro meaning
    by_contra hcond
    push Not at hcond
    obtain ⟨⟨term, hterm, hwild⟩, hascii⟩ := hcond
    -- every column holds what the terms match, with no wildcard in it
    obtain ⟨text, htext⟩ : ∃ text, text = ((searchTerms lower query).map matched).flatten := ⟨_, rfl⟩
    have chars : ∀ d ∈ text, d = 'x' ∨ ¬ isWildcard d ∧ d.val < 128 ∧ d.toLower = d := by
      intro d hd
      simp only [htext, mem_flatten, mem_map, exists_exists_and_eq_and, matched] at hd
      obtain ⟨t, ht, c, hc, rfl⟩ := hd
      split
      · exact .inl rfl
      · exact .inr ⟨‹_›, UInt32.not_le.mp (hascii t ht c hc), toLower_of_mem_searchTerms ht hc⟩
    have selected : selects (searchClause lower cols query) (fun _ => text) = true ↔ _ := selects_iff
    obtain ⟨col, hcol⟩ := exists_mem_of_ne_nil _ some_col
    have found := ((meaning (fun _ => text) fun _ _ d hd => ?_).1.mp (selected.mpr fun t ht =>
      ⟨col, hcol, like_matched_infix (htext ▸ infix_of_mem_flatten (mem_map_of_mem ht))⟩)) term hterm
    · obtain ⟨-, -, hpart⟩ := found
      obtain ⟨w, hw, hterm⟩ : ∃ w, isWildcard w ∧ w ∈ term := by
        by_cases hp : '%' ∈ term
        · exact ⟨_, .inl rfl, hp⟩
        · exact ⟨_, .inr rfl, hwild hp⟩
      obtain ⟨d, hd, rfl⟩ := mem_map.mp (hpart.subset hterm)
      rcases chars d hd with rfl | ⟨hd, -, e⟩
      · exact absurd hw (by decide)
      · exact hd (e ▸ hw)
    · rcases chars d hd with rfl | ⟨-, hd, -⟩
      · decide
      · exact hd
  · intro hcond row ascii
    have selected : selects (searchClause lower cols query) row = true ↔
        ∀ term ∈ searchTerms lower query, ∃ col ∈ cols, term <:+: (row col).map Char.toLower := by
      rw [selects_iff]
      rcases hcond with plain | ⟨term, hterm, c, hc, hlarge⟩
      · refine forall₂_congr fun term hterm => exists_congr fun col => and_congr_right fun _ => ?_
        have lowered : term.map Char.toLower = term :=
          (map_congr_left fun c hc => toLower_of_mem_searchTerms hterm hc).trans (map_id _)
        obtain ⟨hpercent, hunderscore⟩ := plain term hterm
        rw [like_anywhere fun c hc => ⟨fun e => hpercent (e ▸ hc), fun e => hunderscore (e ▸ hc)⟩, lowered]
      · have absent : ∀ col ∈ cols, ∀ d ∈ row col, c ≠ d.toLower := fun col hcol d hd e => by
          have := toLower_lt (ascii col hcol d hd)
          grind
        refine iff_of_false (fun h => ?_) fun h => ?_
        · obtain ⟨col, hcol, hlike⟩ := h term hterm
          have literal : ¬ isWildcard c := by
            rintro (rfl | rfl) <;> exact absurd hlarge (by decide)
          obtain ⟨d, hd, e⟩ := exists_of_like hlike c (by simp [hc]) literal
          exact absent col hcol d hd ((toLower_of_mem_searchTerms hterm hc).symm.trans e)
        · obtain ⟨col, hcol, hpart⟩ := h term hterm
          obtain ⟨d, hd, e⟩ := mem_map.mp (hpart.subset hc)
          exact absent col hcol d hd e.symm
    exact ⟨selected, Bool.eq_iff_iff.mpr (selected.trans (matchesSearch_iff ascii).symm)⟩

def asciiLower : Lowering where
  run := Char.toLower
  ascii _ _ := rfl
  lowered c := by
    unfold Char.toLower
    grind

theorem search_has_one_meaning_bar :
    selects (searchClause asciiLower ["id", "name"] "Foo bar".toList) (fun col => (col ++ "rebarfOO").toList) =
      matchesSearch asciiLower "Foo bar".toList (["id", "name"].map fun col => (col ++ "rebarfOO").toList) :=
  ((search_has_one_meaning (by decide) _).mpr (.inl (by decide +kernel)) _ (by simp [or_imp, forall_and])).2

/-- A term of one underscore selects every row that is not empty. -/
theorem underscore_selects_all :
    selects (searchClause asciiLower ["name"] ['_']) (fun _ => ['a']) = true ∧
      matchesSearch asciiLower ['_'] [['a']] = false := by
  decide +kernel

end Sqi.Like
