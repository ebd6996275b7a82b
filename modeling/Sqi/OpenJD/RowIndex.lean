import Sqi.OpenJD.Rows

/-! The declarative meaning of a parameter space: which value of a parameter row `i` binds. -/

namespace Sqi
open List Program GoText Prog

namespace CombNode

mutual
def idents : CombNode → List String
  | .ident name => [name]
  | .product children => identsAll children
  | .assoc children => identsAll children

def identsAll : List CombNode → List String
  | [] => []
  | child :: children => child.idents ++ identsAll children
end

mutual
def index (values : ParamValues) (p : String) : CombNode → Nat → Option Nat
  | .ident name, i => if p = name then some i else none
  | .product children, i => indexProduct values p children i
  | .assoc children, i => indexShared values p children i

def indexProduct (values : ParamValues) (p : String) : List CombNode → Nat → Option Nat
  | [], _ => none
  | child :: children, i =>
    let radix := rowProduct values children
    (indexProduct values p children (i % radix)).or (child.index values p (i / radix))

def indexShared (values : ParamValues) (p : String) : List CombNode → Nat → Option Nat
  | [], _ => none
  | child :: children, i => (indexShared values p children i).or (child.index values p i)
end
end CombNode
open CombNode

inductive Binds (values : ParamValues) (p : String) : Option Nat → Option String → Prop
  | absent : Binds values p none none
  | value {vals : List String} {j : Nat} {v : String} (hvals : values.lookup p = some vals) (hv : vals[j]? = some v) :
    Binds values p (some j) (some v)

structure Indexed (values : ParamValues) (n : Nat) (index : String → Nat → Option Nat) (rows : Rows) : Prop where
  length : rows.length = n
  nodup : ∀ row ∈ rows, (row.map Prod.fst).Nodup
  binds : ∀ i row, rows[i]? = some row → ∀ p, Binds values p (index p i) (row.lookup p)

variable {values : ParamValues}

lemma Binds.or {p : String} {a b : Option Nat} {x y : Option String} (h : Binds values p a x)
    (h' : Binds values p b y) : Binds values p (a.or b) (x.or y) := by
  cases h with
  | absent => exact h'
  | value hvals hv => exact .value hvals hv

variable {n i : Nat} {groups : List Rows} {children : List CombNode}

lemma Indexed.congr {m : Nat} {f g : String → Nat → Option Nat} {rows : Rows} (h : Indexed values n f rows)
    (hn : n = m) (hfg : ∀ p i, i < n → f p i = g p i) : Indexed values m g rows := by
  subst hn
  refine ⟨h.length, h.nodup, fun i row hrow p => ?_⟩
  have hi := (List.getElem?_eq_some_iff.mp hrow).1
  rw [h.length] at hi
  rw [← hfg p i hi]
  exact h.binds i row hrow p

/-! ## The rows the operations build -/

lemma indexed_ident {name : String} {vals : List String} (h : values.lookup name = some vals) :
    Indexed values vals.length (fun p => (CombNode.ident name).index values p) (vals.map fun v => [(name, v)]) := by
  refine ⟨by simp, fun row hrow => ?_, fun i row hrow p => ?_⟩
  · obtain ⟨v, -, rfl⟩ := mem_map.mp hrow
    simp
  rw [getElem?_map] at hrow
  obtain ⟨v, hv, rfl⟩ := Option.map_eq_some_iff.mp hrow
  rw [index]
  split
  · rename_i e
    subst e
    rw [lookup_cons_self]
    exact .value h hv
  · rename_i hne
    rw [lookup_cons, beq_eq_false_iff_ne.mpr hne]
    exact .absent

lemma indexed_unit : Indexed values 1 (fun _ _ => none) [[]] := by
  refine ⟨rfl, fun row hrow => ?_, fun i row hrow p => ?_⟩
  · rw [mem_singleton.mp hrow]
    exact .nil
  · rw [mem_singleton.mp (mem_of_getElem? hrow)]
    exact .absent

lemma getElem?_cartesianProduct {a b : Rows} (h : i < a.length * b.length) :
    ∃ ra rb, a[i / b.length]? = some ra ∧ b[i % b.length]? = some rb ∧
      (cartesianProduct a b)[i]? = some (StringMap.copyInto ra rb) := by
  unfold cartesianProduct
  induction a generalizing i with
  | nil => simp at h
  | cons ra a ih =>
    have hb : 0 < b.length := Nat.pos_of_mul_pos_left (Nat.lt_of_le_of_lt (Nat.zero_le i) h)
    rw [flatMap_cons]
    rcases Nat.lt_or_ge i b.length with hi | hi
    · obtain ⟨rb, hrb⟩ : ∃ rb, b[i]? = some rb := ⟨b[i], getElem?_eq_getElem hi⟩
      refine ⟨ra, rb, by rw [Nat.div_eq_of_lt hi]; rfl, by rw [Nat.mod_eq_of_lt hi]; exact hrb, ?_⟩
      rw [getElem?_append_left (by simpa using hi), getElem?_map, hrb]
      rfl
    · rw [length_cons, Nat.add_mul, Nat.one_mul] at h
      obtain ⟨ra', rb, hra, hrb, hrow⟩ := ih (i := i - b.length) (by omega)
      refine ⟨ra', rb, ?_, ?_, ?_⟩
      · rw [Nat.div_eq_sub_div hb hi]
        exact hra
      · rw [Nat.mod_eq_sub_mod hi]
        exact hrb
      · rw [getElem?_append_right (by simpa using hi), length_map]
        exact hrow

lemma Indexed.product {c : Nat} {f g : String → Nat → Option Nat} {a b : Rows} (ha : Indexed values n f a)
    (hb : Indexed values c g b) :
    Indexed values (n * c) (fun p i => (g p (i % c)).or (f p (i / c))) (cartesianProduct a b) := by
  refine ⟨by rw [length_cartesian, ha.length, hb.length], fun row hrow => ?_, fun i row hrow p => ?_⟩
  · obtain ⟨ra, hra, hrow⟩ := mem_flatMap.mp hrow
    obtain ⟨rb, -, rfl⟩ := mem_map.mp hrow
    exact nodup_copyInto (ha.nodup ra hra)
  have hi : i < a.length * b.length := by
    rw [← length_cartesian]
    exact (List.getElem?_eq_some_iff.mp hrow).1
  obtain ⟨ra, rb, hra, hrb, hmerged⟩ := getElem?_cartesianProduct hi
  cases hrow.symm.trans hmerged
  rw [lookup_copyInto ra rb p (hb.nodup rb (mem_of_getElem? hrb)), ← hb.length]
  exact (hb.binds _ rb hrb p).or (ha.binds _ ra hra p)

lemma merged_binds
    (h : Forall₂ (fun rows child => Indexed values n (fun p => index values p child) rows) groups children)
    (hi : i < n) (merged : TaskParams) (hnodup : (merged.map Prod.fst).Nodup) {f : String → Option Nat}
    (hmerged : ∀ p, Binds values p (f p) (merged.lookup p)) :
    let out := groups.foldl (fun merged g => StringMap.copyInto merged (g.getD i [])) merged
    (out.map Prod.fst).Nodup ∧
      ∀ p, Binds values p ((indexShared values p children i).or (f p)) (out.lookup p) := by
  induction h generalizing merged f with
  | nil => exact ⟨hnodup, hmerged⟩
  | @cons rows child groups children hrows _ ih =>
    obtain ⟨row, hrow⟩ : ∃ row, rows[i]? = some row := ⟨_, getElem?_eq_getElem (by rw [hrows.length]; exact hi)⟩
    have hget : rows.getD i [] = row := by rw [getD_eq_getElem?_getD, hrow]; rfl
    have hmem := hrows.nodup row (mem_of_getElem? hrow)
    simp only [foldl_cons, hget]
    obtain ⟨hout, hbinds⟩ := ih _ (nodup_copyInto hnodup) (f := fun p => (child.index values p i).or (f p)) fun p => by
      rw [lookup_copyInto _ _ _ hmem]
      exact (hrows.binds i row hrow p).or (hmerged p)
    refine ⟨hout, fun p => ?_⟩
    rw [indexShared, Option.or_assoc]
    exact hbinds p

lemma mismatch_none (h : ∀ g ∈ groups, g.length = n) : mismatch n i groups = none := by
  induction groups generalizing i with
  | nil => rfl
  | cons g groups ih =>
    obtain ⟨hg, hrest⟩ := forall_mem_cons.mp h
    rw [mismatch, if_neg (not_not.mpr hg), ih hrest]

lemma zipRows_indexed (hne : children ≠ [])
    (h : Forall₂ (fun rows child => Indexed values n (fun p => index values p child) rows) groups children)
    (s : Expansion) :
    ∃ rows s', zipRows groups s = (.ok rows, s') ∧
    Indexed values n (fun p => indexShared values p children) rows := by
  cases h with
  | nil => exact absurd rfl hne
  | @cons first child rest children hfirst hrest =>
    have hlen : ∀ g ∈ rest, g.length = first.length := by
      intro g hg
      obtain ⟨c, -, hc⟩ := Table.of_mem_left hrest hg
      rw [hc.length, hfirst.length]
    unfold zipRows
    dsimp only
    rw [mismatch_none hlen]
    refine ⟨_, _, rfl, ⟨by simp [hfirst.length], fun row hrow => ?_, fun i row hrow p => ?_⟩⟩
    · obtain ⟨i, hi, rfl⟩ := mem_map.mp hrow
      rw [mem_range, hfirst.length] at hi
      exact (merged_binds (.cons hfirst hrest) hi [] .nil (f := fun _ => none) fun _ => .absent).1
    rw [getElem?_map] at hrow
    obtain ⟨j, hj, rfl⟩ := Option.map_eq_some_iff.mp hrow
    obtain ⟨hi, rfl⟩ := List.getElem?_eq_some_iff.mp hj
    rw [getElem_range]
    rw [length_range, hfirst.length] at hi
    have hbinds := (merged_binds (.cons hfirst hrest) hi [] .nil (f := fun _ => none) fun _ => .absent).2 p
    rwa [Option.or_none] at hbinds

/-! ## The rows of an expression -/

mutual
lemma evalCombNode_indexed : ∀ {node : CombNode}, node.Even values →
    (∀ p ∈ node.idents, (values.lookup p).isSome) → ∀ s : Expansion,
      ∃ rows s', evalCombNode values node s = (.ok rows, s') ∧
        Indexed values (node.rowCount values) (fun p => node.index values p) rows
  | .ident name, _, hdecl, s => by
    obtain ⟨vals, hvals⟩ := Option.isSome_iff_exists.mp (hdecl name (by simp [idents]))
    rw [evalCombNode, evalIdent, hvals, rowCount, ParamValues.count, hvals]
    exact ⟨_, _, rfl, indexed_ident hvals⟩
  | .product children, heven, hdecl, s => by
    rw [CombNode.Even] at heven
    rw [idents] at hdecl
    obtain ⟨rows, s', heval, hrows⟩ := evalProduct_indexed heven hdecl indexed_unit ⟨s.budget, [[]] :: s.built⟩
    refine ⟨rows, s', ?_, hrows.congr ?_ fun p i hi => ?_⟩
    · rw [evalCombNode, build, lift_bind]
      exact heval
    · rw [Nat.one_mul, rowCount]
    · rw [Nat.one_mul] at hi
      rw [Option.or_none, Nat.mod_eq_of_lt hi, index]
  | .assoc children, heven, hdecl, s => by
    rw [CombNode.Even] at heven
    rw [idents] at hdecl
    obtain ⟨hne, hall, hsame⟩ := heven
    obtain ⟨groups, s', heval, hgroups⟩ := evalGroups_indexed hall hsame hdecl s
    obtain ⟨rows, s'', hzip, hrows⟩ := zipRows_indexed hne hgroups s'
    refine ⟨rows, s'', ?_, hrows.congr (by rw [rowCount]) fun p i _ => by rw [index]⟩
    rw [evalCombNode, bind_ok heval]
    exact hzip

lemma evalProduct_indexed : ∀ {children : List CombNode}, allEven values children →
    (∀ p ∈ identsAll children, (values.lookup p).isSome) →
      ∀ {n : Nat} {f : String → Nat → Option Nat} {result : Rows}, Indexed values n f result → ∀ s : Expansion,
      ∃ rows s', evalProduct values result children s = (.ok rows, s') ∧
        Indexed values (n * rowProduct values children)
          (fun p i => (indexProduct values p children (i % rowProduct values children)).or
            (f p (i / rowProduct values children))) rows
  | [], _, _, n, f, result, hresult, s => by
    refine ⟨result, s, by rw [evalProduct]; rfl, hresult.congr ?_ fun p i _ => ?_⟩
    · rw [rowProduct, Nat.mul_one]
    · rw [indexProduct, rowProduct, Nat.div_one, Option.none_or]
  | child :: children, heven, hdecl, n, f, result, hresult, s => by
    rw [allEven] at heven
    rw [identsAll] at hdecl
    obtain ⟨childRows, s', hchild, hrows⟩ := evalCombNode_indexed heven.1
      (fun p hp => hdecl p (mem_append_left _ hp)) s
    obtain ⟨rows, s'', heval, hindexed⟩ := evalProduct_indexed heven.2
      (fun p hp => hdecl p (mem_append_right _ hp)) (hresult.product hrows)
      ⟨s'.budget, cartesianProduct result childRows :: s'.built⟩
    refine ⟨rows, s'', ?_, hindexed.congr ?_ fun p i _ => ?_⟩
    · rw [evalProduct, bind_ok hchild, build, lift_bind]
      exact heval
    · rw [rowProduct, Nat.mul_assoc]
    · -- the digits of `i` are those of its quotient and remainder by the later factors
      rw [indexProduct, rowProduct, Option.or_assoc, Nat.mod_mul_left_mod, Nat.mod_mul_left_div_self,
        Nat.div_div_eq_div_mul, Nat.mul_comm (rowProduct values children)]

lemma evalGroups_indexed {n : Nat} : ∀ {children : List CombNode}, allEven values children →
    (∀ child ∈ children, child.rowCount values = n) →
    (∀ p ∈ identsAll children, (values.lookup p).isSome) → ∀ s : Expansion,
      ∃ groups s', evalGroups values children s = (.ok groups, s') ∧
        Forall₂ (fun rows child => Indexed values n (fun p => index values p child) rows) groups children
  | [], _, _, _, s => ⟨[], s, by rw [evalGroups]; rfl, .nil⟩
  | child :: children, heven, hsame, hdecl, s => by
    obtain ⟨hn, hsame⟩ := forall_mem_cons.mp hsame
    rw [allEven] at heven
    rw [identsAll] at hdecl
    obtain ⟨rows, s', hchild, hrows⟩ := evalCombNode_indexed heven.1
      (fun p hp => hdecl p (mem_append_left _ hp)) s
    obtain ⟨more, s'', heval, hmore⟩ := evalGroups_indexed heven.2 hsame
      (fun p hp => hdecl p (mem_append_right _ hp)) s'
    refine ⟨rows :: more, s'', ?_, .cons (hn ▸ hrows) hmore⟩
    rw [evalGroups, bind_ok hchild, bind_ok heval]
    rfl
end

/-! ## The whole expansion -/

mutual
lemma index_isSome (values : ParamValues) {p : String} : ∀ {node : CombNode}, p ∈ node.idents → ∀ i,
    (node.index values p i).isSome
  | .ident name, hp, i => by
    rw [idents, mem_singleton] at hp
    rw [index, if_pos hp]
    rfl
  | .product children, hp, i => by
    rw [idents] at hp
    rw [index]
    exact (indexAll_isSome values hp i).1
  | .assoc children, hp, i => by
    rw [idents] at hp
    rw [index]
    exact (indexAll_isSome values hp i).2

lemma indexAll_isSome (values : ParamValues) {p : String} : ∀ {children : List CombNode}, p ∈ identsAll children → ∀ i,
    (indexProduct values p children i).isSome ∧ (indexShared values p children i).isSome
  | [], hp, _ => by simp [identsAll] at hp
  | child :: children, hp, i => by
    rw [identsAll] at hp
    rw [indexProduct, indexShared, Option.isSome_or, Option.isSome_or, Bool.or_eq_true, Bool.or_eq_true]
    rcases mem_append.mp hp with hp | hp
    · exact ⟨.inr (index_isSome values hp _), .inr (index_isSome values hp _)⟩
    · exact ⟨.inl (indexAll_isSome values hp _).1, .inl (indexAll_isSome values hp _).2⟩
end

mutual
lemma rowCount_pos (hvals : ∀ name vals, values.lookup name = some vals → vals ≠ []) :
    ∀ {node : CombNode}, node.Even values → (∀ p ∈ node.idents, (values.lookup p).isSome) → 0 < node.rowCount values
  | .ident name, _, hdecl => by
    obtain ⟨vals, h⟩ := Option.isSome_iff_exists.mp (hdecl name (by simp [idents]))
    rw [rowCount, ParamValues.count, h]
    exact length_pos_iff.mpr (hvals name vals h)
  | .product children, heven, hdecl => by
    rw [CombNode.Even] at heven
    rw [idents] at hdecl
    rw [rowCount]
    exact rowProduct_pos hvals heven hdecl
  | .assoc [], heven, _ => by
    rw [CombNode.Even] at heven
    exact absurd rfl heven.1
  | .assoc (child :: children), heven, hdecl => by
    rw [CombNode.Even, allEven] at heven
    rw [idents, identsAll] at hdecl
    rw [rowCount, rowFirst]
    exact rowCount_pos hvals heven.2.1.1 fun p hp => hdecl p (mem_append_left _ hp)

lemma rowProduct_pos (hvals : ∀ name vals, values.lookup name = some vals → vals ≠ []) :
    ∀ {children : List CombNode}, allEven values children →
      (∀ p ∈ identsAll children, (values.lookup p).isSome) → 0 < rowProduct values children
  | [], _, _ => by
    rw [rowProduct]
    exact one_pos
  | child :: children, heven, hdecl => by
    rw [allEven] at heven
    rw [identsAll] at hdecl
    rw [rowProduct]
    exact Nat.mul_pos (rowCount_pos hvals heven.1 fun p hp => hdecl p (mem_append_left _ hp))
      (rowProduct_pos hvals heven.2 fun p hp => hdecl p (mem_append_right _ hp))
end

lemma lookup_paramValues_isSome {canonicalFloat : Text → Option String} {defs : List TaskParamDefinition}
    {init values : ParamValues} (h : paramValues canonicalFloat init defs = .ok values) (p : String) :
    (values.lookup p).isSome ↔ p ∈ defs.map (·.name) ∨ (init.lookup p).isSome := by
  induction defs generalizing init with
  | nil =>
    cases h
    simp
  | cons tp defs ih =>
    rw [paramValues] at h
    split at h
    · cases h
    rw [ih h, lookup_put_eq, map_cons, mem_cons]
    by_cases hp : p = tp.name
    · simp [hp]
    · simp [hp]

lemma chargeBudget_ok {count : Nat} {s : Expansion} (h : ∀ total ∈ s.budget, total + count ≤ maxTasksPerJob) :
    ∃ s', chargeBudget count s = (.ok (), s') := by
  unfold chargeBudget Prog.tx
  cases hb : s.budget with
  | none => exact ⟨s, by simp only [hb]⟩
  | some total => exact ⟨_, by simp only [hb, if_neg (Nat.not_lt.mpr (h total hb))]; rfl⟩

/-- Row `i` of a parameter space binds every parameter to its value at its index in `i`. -/
theorem expansion_indexed (canonicalFloat : Text → Option String) (ps : StepParameterSpace) {values : ParamValues}
    {tree : CombNode} (hvalues : paramValues canonicalFloat [] ps.taskParameterDefinitions = .ok values)
    (htree : parseCombinationExpr ps.expr = .ok tree)
    (honce : ∀ p, tree.idents.count p = if p ∈ ps.taskParameterDefinitions.map (·.name) then 1 else 0)
    (heven : tree.Even values) (s : Expansion) :
    (tree.rowCount values ≤ maxTasksPerStep → countCombNode values tree = some (tree.rowCount values)) ∧
    (maxTasksPerStep < tree.rowCount values →
      (∀ c, countCombNode values tree = some c → maxTasksPerStep < c) ∧
      expandParameterSpace canonicalFloat (some ps) s = (.error .tooManyTasks, s)) ∧
    ∀ count, countCombNode values tree = some count → count ≤ maxTasksPerStep →
      (∀ total ∈ s.budget, total + count ≤ maxTasksPerJob) →
      ∃ rows s', expandParameterSpace canonicalFloat (some ps) s = (.ok rows, s') ∧ rows.length = count ∧
        ∀ i row, rows[i]? = some row →
          (∀ tp ∈ ps.taskParameterDefinitions, ∃ vals j v, values.lookup tp.name = some vals ∧
            tree.index values tp.name i = some j ∧ vals[j]? = some v ∧ row.lookup tp.name = some v) ∧
          ∀ p, p ∉ ps.taskParameterDefinitions.map (·.name) → row.lookup p = none := by
  have hdeclared : ∀ p, (values.lookup p).isSome ↔ p ∈ ps.taskParameterDefinitions.map (·.name) := by
    intro p
    rw [lookup_paramValues_isSome hvalues]
    simp
  have hidents : ∀ p, p ∈ tree.idents ↔ p ∈ ps.taskParameterDefinitions.map (·.name) := by
    intro p
    rw [← count_pos_iff, honce]
    split <;> simp [*]
  have hdecl : ∀ p ∈ tree.idents, (values.lookup p).isSome := fun p hp => (hdeclared p).mpr ((hidents p).mp hp)
  have hvals := paramValues_forall (fun _ _ h => by cases h) (fun _ _ _ hx => expandTaskParam_ne_nil hx) hvalues
  have hexpr : ps.expr ≠ "" := by
    intro hempty
    have hnone : parseCombinationExpr "" = .error .unexpectedEnd := by decide +kernel
    rw [hempty, hnone] at htree
    cases htree
  refine ⟨count_of_rowCount (rowCount_pos hvals heven hdecl), fun hover => ?_, fun count hcount hcap hbudget => ?_⟩
  · have hcounts : ∀ c, countCombNode values tree = some c → maxTasksPerStep < c := by
      intro c hc
      by_contra hle
      rw [rowCount_of_count (by omega) hc] at hover
      exact hle hover
    refine ⟨hcounts, ?_⟩
    simp only [expandParameterSpace, hvalues, if_neg hexpr, htree]
    cases hc : countCombNode values tree with
    | none => rfl
    | some c => exact congrFun (if_pos (hcounts c hc)) s
  · obtain ⟨s', hcharge⟩ := chargeBudget_ok hbudget
    obtain ⟨rows, s'', heval, hrows⟩ := evalCombNode_indexed heven hdecl s'
    refine ⟨rows, s'', ?_, by rw [hrows.length, rowCount_of_count hcap hcount],
      fun i row hrow => ⟨fun tp htp => ?_, fun p hp => ?_⟩⟩
    · simp only [expandParameterSpace, hvalues, if_neg hexpr, htree, hcount, if_neg (Nat.not_lt.mpr hcap)]
      rw [bind_ok hcharge]
      exact heval
    · have hsome := index_isSome values ((hidents tp.name).mpr (mem_map_of_mem htp)) i
      have hbinds := hrows.binds i row hrow tp.name
      generalize hindex : tree.index values tp.name i = index at hsome hbinds
      generalize hlook : row.lookup tp.name = value at hbinds
      cases hbinds with
      | absent => cases hsome
      | value hlist hv => exact ⟨_, _, _, hlist, rfl, hv, rfl⟩
    · have hbinds := hrows.binds i row hrow p
      generalize tree.index values p i = index at hbinds
      generalize row.lookup p = value at hbinds
      cases hbinds with
      | absent => rfl
      | value hlist _ => exact absurd ((hdeclared p).mp (by rw [hlist]; rfl)) hp

def framesSpace : StepParameterSpace :=
  ⟨[intParam "Frame" "1-3", intParam "Camera" "7-9", intParam "Layer" "1-2"], some "(Frame, Camera) * Layer"⟩

lemma framesSpace_values : paramValues (fun _ => none) [] framesSpace.taskParameterDefinitions =
    .ok [("Frame", ["1", "2", "3"]), ("Camera", ["7", "8", "9"]), ("Layer", ["1", "2"])] := by decide +kernel
lemma framesSpace_tree : parseCombinationExpr framesSpace.expr =
    .ok (.product [.assoc [.ident "Frame", .ident "Camera"], .ident "Layer"]) := by decide +kernel

/-- Row 3 of three frames zipped with cameras, times two layers: the second frame and
camera, and the second layer. -/
theorem expansion_indexed_frames :
    ∃ rows s', expandParameterSpace (fun _ => none) (some framesSpace) ⟨none, []⟩ = (.ok rows, s') ∧ rows.length = 6 ∧
      ∀ row, rows[3]? = some row → row.lookup "Camera" = some "8" := by
  have honce : ∀ p, (CombNode.product [.assoc [.ident "Frame", .ident "Camera"], .ident "Layer"]).idents.count p =
      if p ∈ framesSpace.taskParameterDefinitions.map (·.name) then 1 else 0 := by
    intro p
    change List.count p ["Frame", "Camera", "Layer"] = if p ∈ ["Frame", "Camera", "Layer"] then 1 else 0
    split
    · rename_i hp
      exact count_eq_one_of_mem (by decide) hp
    · rename_i hp
      exact count_eq_zero_of_not_mem hp
  obtain ⟨-, -, hexpand⟩ := expansion_indexed (fun _ => none) framesSpace framesSpace_values framesSpace_tree honce
    (by simp [CombNode.Even, allEven, rowCount, rowFirst, ParamValues.count, lookup_cons])
    ⟨none, []⟩
  obtain ⟨rows, s', heval, hlen, hrows⟩ := hexpand 6 (by decide +kernel) (by decide) nofun
  refine ⟨rows, s', heval, hlen, fun row hrow => ?_⟩
  obtain ⟨vals, j, v, hvals, hj, hv, hrow⟩ := (hrows 3 row hrow).1 (intParam "Camera" "7-9") (by decide)
  cases hvals
  cases hj
  cases hv
  exact hrow

end Sqi
