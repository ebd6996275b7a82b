import Sqi.OpenJD.Parameter

/-! Expansion of a step's parameter space into task rows (`expand.go`). -/

namespace Sqi
open GoText List Option Program Word Prog

inductive CombNode where
  | ident (name : String)
  | product (children : List CombNode)
  | assoc (children : List CombNode)

mutual
def CombNode.decEq : (a b : CombNode) → Decidable (a = b)
  | .ident m, .ident n => decidable_of_iff (m = n) (by simp)
  | .product as, .product bs => @decidable_of_iff _ (as = bs) (by simp) (decEqs as bs)
  | .assoc as, .assoc bs => @decidable_of_iff _ (as = bs) (by simp) (decEqs as bs)
  | .ident _, .product _ | .ident _, .assoc _ | .product _, .ident _ | .product _, .assoc _
  | .assoc _, .ident _ | .assoc _, .product _ => isFalse (by simp)

def CombNode.decEqs : (as bs : List CombNode) → Decidable (as = bs)
  | [], [] => isTrue rfl
  | a :: as, b :: bs =>
    @decidable_of_iff _ (a = b ∧ as = bs) (by simp) (@instDecidableAnd _ _ (decEq a b) (decEqs as bs))
  | [], _ :: _ | _ :: _, [] => isFalse (by simp)
end

instance : DecidableEq CombNode := CombNode.decEq

inductive CombError where
  | unexpectedToken (token : String) (index : Nat)
  | unexpectedEnd
  | expectedName (token : String)
  | nestedTooDeeply
  | unclosedParenthesis
  | expectedExpression (token : String)
  | expectedSeparator (token : String)
  | groupTooSmall
  | undeclaredParameter (name : String)
  | lengthMismatch (first group count : Nat)
  | outOfFuel
deriving DecidableEq

def isIdentChar (c : Char) : Bool :=
  ('A' ≤ c && c ≤ 'Z') || ('a' ≤ c && c ≤ 'z') || ('0' ≤ c && c ≤ '9') || c = '_'
def isIdentifier (s : String) : Bool :=
  match s.toList with
  | [] => false
  | c :: cs => isIdentChar c && !('0' ≤ c && c ≤ '9') && cs.all isIdentChar
def pendingToken (word : Text) : List String :=
  if word = [] then [] else [String.ofList word.reverse]

def tokenizeComb (word : Text) : Text → List String
  | [] => pendingToken word
  | c :: cs =>
    if isIdentChar c then tokenizeComb (c :: word) cs
    else pendingToken word ++
      if c = ' ' ∨ c = '\t' then tokenizeComb [] cs
      else (String.utf8EncodeChar c).map (fun b => String.singleton (Char.ofNat b.toNat)) ++ tokenizeComb [] cs

mutual
def parseExpr : Nat → Nat → List String → Except CombError (CombNode × List String)
  | 0, _, _ => .error .outOfFuel
  | fuel + 1, depth, tokens => do
    let (left, tokens) ← parseElement fuel depth tokens
    let (more, tokens) ← parseFactors fuel depth tokens
    return (match more with | [] => left | _ => .product (left :: more), tokens)

def parseFactors : Nat → Nat → List String → Except CombError (List CombNode × List String)
  | 0, _, _ => .error .outOfFuel
  | fuel + 1, depth, "*" :: tokens => do
    let (right, tokens) ← parseElement fuel depth tokens
    let (more, tokens) ← parseFactors fuel depth tokens
    return (right :: more, tokens)
  | _ + 1, _, tokens => .ok ([], tokens)

def parseElement : Nat → Nat → List String → Except CombError (CombNode × List String)
  | 0, _, _ => .error .outOfFuel
  | _ + 1, _, [] => .error .unexpectedEnd
  | fuel + 1, depth, token :: tokens =>
    if token = "(" then
      if 64 < depth + 1 then .error .nestedTooDeeply
      else do
        let (children, tokens) ← parseGroup fuel (depth + 1) tokens
        if children.length < 2 then .error .groupTooSmall else return (.assoc children, tokens)
    else if isIdentifier token then .ok (.ident token, tokens)
    else .error (.expectedName token)

def parseGroup : Nat → Nat → List String → Except CombError (List CombNode × List String)
  | 0, _, _ => .error .outOfFuel
  | _ + 1, _, [] => .error .unclosedParenthesis
  | fuel + 1, depth, token :: tokens =>
    if token = ")" ∨ token = "," then .error (.expectedExpression token)
    else do
      let (child, tokens) ← parseExpr fuel depth (token :: tokens)
      match tokens with
      | [] => .error .unclosedParenthesis
      | next :: tokens =>
        if next = ")" then return ([child], tokens)
        else if next = "," then
          let (more, tokens) ← parseGroup fuel depth tokens
          return (child :: more, tokens)
        else .error (.expectedSeparator next)
end

def parseCombinationExpr (expr : String) : Except CombError CombNode := do
  let tokens := tokenizeComb [] expr.toList
  let (node, rest) ← parseExpr (3 * tokens.length + 2) 0 tokens
  match rest with
  | [] => return node
  | token :: _ => .error (.unexpectedToken token (tokens.length - rest.length))

abbrev StringMap (α : Type) := List (String × α)

namespace StringMap
variable {α : Type}

def put (m : StringMap α) (key : String) (value : α) : StringMap α :=
  if (m.lookup key).isSome then m.map fun e => if e.1 = key then (key, value) else e else m ++ [(key, value)]
def copyInto (dst src : StringMap α) : StringMap α := src.foldl (fun m e => put m e.1 e.2) dst

end StringMap

abbrev TaskParams := StringMap String
abbrev Rows := List TaskParams
abbrev ParamValues := StringMap (List String)

def ParamValues.count (values : ParamValues) (name : String) : Nat := ((values.lookup name).getD []).length

structure StepParameterSpace where
  taskParameterDefinitions : List TaskParamDefinition
  combination : Option String
deriving DecidableEq

inductive ExpandError where
  | parameter (name : String) (err : TaskParamError)
  | combination (err : CombError)
  | tooManyTasks
  | jobTooManyTasks (total : Nat)
deriving DecidableEq

structure Expansion where
  budget : Option Nat
  built : List Rows
deriving DecidableEq

abbrev Expand := Prog ExpandError Expansion

def maxTasksPerStep : Nat := 1000000
def maxTasksPerJob : Nat := maxTasksPerStep
def build (rows : Rows) : Expand Rows := .lift fun s => (rows, { s with built := rows :: s.built })

def chargeBudget (count : Nat) : Expand Unit := .tx fun s =>
  match s.budget with
  | none => (.ok (), s)
  | some total =>
    let s' := { s with budget := some (total + count) }
    if maxTasksPerJob < total + count then (.error (.jobTooManyTasks (total + count)), s') else (.ok (), s')

def mulSaturate (a b : Nat) : Option Nat :=
  if a = 0 ∨ b = 0 then some 0
  else if (wrap (a * b : Nat)).tdiv b ≠ a then none
  else some (wrap (a * b : Nat)).toNat

mutual
def countCombNode (values : ParamValues) : CombNode → Option Nat
  | .ident name => some (values.count name)
  | .product children => countProduct values 1 children
  | .assoc children => countFirst values children

def countProduct (values : ParamValues) (total : Nat) : List CombNode → Option Nat
  | [] => some total
  | child :: children =>
    match countCombNode values child with
    | none => none
    | some c =>
      match mulSaturate total c with
      | none => none
      | some total => if maxTasksPerStep < total then some total else countProduct values total children

def countFirst (values : ParamValues) : List CombNode → Option Nat
  | [] => some 0
  | child :: _ => countCombNode values child
end

def evalIdent (values : ParamValues) (name : String) : Expand Rows :=
  match values.lookup name with
  | none => .fail (.combination (.undeclaredParameter name))
  | some vals => build (vals.map fun v => [(name, v)])

def cartesianProduct (a b : Rows) : Rows :=
  a.flatMap fun ra => b.map fun rb => StringMap.copyInto ra rb
def mismatch (n i : Nat) : List Rows → Option (Nat × Nat)
  | [] => none
  | g :: groups => if g.length ≠ n then some (i, g.length) else mismatch n (i + 1) groups

def zipRows (groups : List Rows) : Expand Rows :=
  match groups with
  | [] => build []
  | first :: rest =>
    match mismatch first.length 1 rest with
    | some (i, count) => .fail (.combination (.lengthMismatch first.length i count))
    | none =>
      build ((List.range first.length).map fun i =>
        groups.foldl (fun merged g => StringMap.copyInto merged (g.getD i [])) [])

mutual
def evalCombNode (values : ParamValues) : CombNode → Expand Rows
  | .ident name => evalIdent values name
  | .product children => do
    let result ← build [[]]
    evalProduct values result children
  | .assoc children => do
    let groups ← evalGroups values children
    zipRows groups

def evalProduct (values : ParamValues) (result : Rows) : List CombNode → Expand Rows
  | [] => pure result
  | child :: children => do
    let childRows ← evalCombNode values child
    let result ← build (cartesianProduct result childRows)
    evalProduct values result children

def evalGroups (values : ParamValues) : List CombNode → Expand (List Rows)
  | [] => pure []
  | child :: children => do
    let rows ← evalCombNode values child
    let more ← evalGroups values children
    return rows :: more
end

def paramValues (canonicalFloat : Text → Option String) (values : ParamValues) :
    List TaskParamDefinition → Except ExpandError ParamValues
  | [] => .ok values
  | tp :: defs =>
    match expandTaskParam canonicalFloat tp with
    | .error e => .error (.parameter tp.name e)
    | .ok vals => paramValues canonicalFloat (StringMap.put values tp.name vals) defs

def StepParameterSpace.expr (ps : StepParameterSpace) : String :=
  ps.combination.getD ("*".intercalate (ps.taskParameterDefinitions.map (·.name)))

def expandParameterSpace (canonicalFloat : Text → Option String) (ps : Option StepParameterSpace) :
    Expand Rows :=
  match ps with
  | none => do
    chargeBudget 1
    return [[]]
  | some ps =>
    match paramValues canonicalFloat [] ps.taskParameterDefinitions with
    | .error e => .fail e
    | .ok values =>
      if ps.expr = "" then do
        chargeBudget 1
        return [[]]
      else
        match parseCombinationExpr ps.expr with
        | .error e => .fail (.combination e)
        | .ok tree =>
          match countCombNode values tree with
          | none => .fail .tooManyTasks
          | some count =>
            if maxTasksPerStep < count then .fail .tooManyTasks
            else do
              chargeBudget count
              evalCombNode values tree

mutual
def CombNode.rowCount (values : ParamValues) : CombNode → Nat
  | .ident name => values.count name
  | .product children => rowProduct values children
  | .assoc children => rowFirst values children
def CombNode.rowProduct (values : ParamValues) : List CombNode → Nat
  | [] => 1
  | child :: children => child.rowCount values * rowProduct values children

def CombNode.rowFirst (values : ParamValues) : List CombNode → Nat
  | [] => 0
  | child :: _ => child.rowCount values
end

open CombNode

mutual
def CombNode.Even (values : ParamValues) : CombNode → Prop
  | .ident _ => True
  | .product children => allEven values children
  | .assoc children => children ≠ [] ∧ allEven values children ∧
      ∀ child ∈ children, child.rowCount values = rowFirst values children

def CombNode.allEven (values : ParamValues) : List CombNode → Prop
  | [] => True
  | child :: children => child.Even values ∧ allEven values children
end

lemma mulSaturate_eq {a b p : Nat} (h : mulSaturate a b = some p) : p = a * b := by
  unfold mulSaturate at h
  split at h
  · rename_i h0
    cases h
    rcases h0 with rfl | rfl <;> simp
  rename_i h0
  split at h
  · cases h
  · rename_i hdiv
    rw [← some.inj h, wrap_mul_eq (by omega) (not_not.mp hdiv), Int.toNat_natCast]

lemma mulSaturate_of_le {a b : Nat} (h : a * b ≤ maxTasksPerStep) : mulSaturate a b = some (a * b) := by
  unfold mulSaturate
  split
  · rename_i h0
    rcases h0 with rfl | rfl <;> simp
  have hfit : wrap (a * b : Nat) = (a * b : Nat) := by
    apply wrap_of_isInt
    unfold maxTasksPerStep at h
    generalize a * b = p at h
    simp only [IsInt, minInt, maxInt]
    omega
  have hb : (b : Int) ≠ 0 := by omega
  rw [hfit, Nat.cast_mul, Int.mul_tdiv_cancel _ hb]
  simp only [ne_eq, not_true_eq_false, if_false, Option.some.injEq]
  rw [← Nat.cast_mul, Int.toNat_natCast]

lemma countProduct_cons {values : ParamValues} {child : CombNode} {children : List CombNode} {total c : Nat}
    (h : countProduct values total (child :: children) = some c) (hcap : c ≤ maxTasksPerStep) :
    ∃ n, countCombNode values child = some n ∧ total * n ≤ maxTasksPerStep ∧
      countProduct values (total * n) children = some c := by
  rw [countProduct] at h
  split at h
  · cases h
  rename_i n hn
  split at h
  · cases h
  rename_i p hp
  cases mulSaturate_eq hp
  split at h
  · cases h
    omega
  · exact ⟨n, hn, by omega, h⟩

mutual
variable {values : ParamValues}

lemma rowCount_of_count {c : Nat} (hcap : c ≤ maxTasksPerStep) :
    ∀ {node : CombNode}, countCombNode values node = some c → node.rowCount values = c
  | .ident name, h => by
    rw [countCombNode] at h
    rw [rowCount]
    exact some.inj h
  | .product children, h => by
    rw [countCombNode] at h
    rw [rowCount, ← Nat.one_mul (rowProduct values children)]
    exact rowProduct_of_count hcap h
  | .assoc [], h => by
    rw [countCombNode, countFirst] at h
    rw [rowCount, rowFirst]
    exact some.inj h
  | .assoc (child :: children), h => by
    rw [countCombNode, countFirst] at h
    rw [rowCount, rowFirst]
    exact rowCount_of_count hcap h

lemma rowProduct_of_count {c : Nat} (hcap : c ≤ maxTasksPerStep) :
    ∀ {children : List CombNode} {total : Nat}, countProduct values total children = some c →
    total * rowProduct values children = c
  | [], total, h => by
    rw [countProduct] at h
    rw [rowProduct, Nat.mul_one]
    exact some.inj h
  | child :: children, total, h => by
    obtain ⟨n, hn, hle, hrest⟩ := countProduct_cons h hcap
    rw [rowProduct, ← Nat.mul_assoc]
    rcases Nat.eq_zero_or_pos total with rfl | hpos
    · simpa using rowProduct_of_count hcap hrest
    · rw [rowCount_of_count (Nat.le_trans (Nat.le_mul_of_pos_left n hpos) hle) hn]
      exact rowProduct_of_count hcap hrest
end

mutual
variable {values : ParamValues}

lemma count_of_rowCount :
    ∀ {node : CombNode}, 0 < node.rowCount values → node.rowCount values ≤ maxTasksPerStep →
    countCombNode values node = some (node.rowCount values)
  | .ident name, _, _ => by rw [countCombNode, rowCount]
  | .product children, hpos, hcap => by
    rw [rowCount] at *
    rw [countCombNode, countProduct_of_rowProduct (by omega) (by omega), Nat.one_mul]
  | .assoc [], hpos, _ => by
    rw [rowCount, rowFirst] at hpos
    omega
  | .assoc (child :: children), hpos, hcap => by
    rw [rowCount, rowFirst] at *
    rw [countCombNode, countFirst]
    exact count_of_rowCount hpos hcap

lemma countProduct_of_rowProduct :
    ∀ {children : List CombNode} {total : Nat}, 0 < total * rowProduct values children →
    total * rowProduct values children ≤ maxTasksPerStep →
    countProduct values total children = some (total * rowProduct values children)
  | [], total, _, _ => by rw [countProduct, rowProduct, Nat.mul_one]
  | child :: children, total, hpos, hcap => by
    rw [rowProduct, ← Nat.mul_assoc] at *
    -- no factor is zero, so every prefix of the product is below the whole
    have hrest := Nat.pos_of_mul_pos_left hpos
    have hprefix := Nat.pos_of_mul_pos_right hpos
    have hle : total * child.rowCount values ≤ maxTasksPerStep := Nat.le_trans (Nat.le_mul_of_pos_right _ hrest) hcap
    have hchild : child.rowCount values ≤ maxTasksPerStep :=
      Nat.le_trans (Nat.le_mul_of_pos_left _ (Nat.pos_of_mul_pos_right hprefix)) hle
    rw [countProduct, count_of_rowCount (Nat.pos_of_mul_pos_left hprefix) hchild]
    simp only [mulSaturate_of_le hle, if_neg (Nat.not_lt.mpr hle)]
    exact countProduct_of_rowProduct hpos hcap
end

/-! ## Bounded materialization -/

mutual
/-- The names are declared and the members of every association agree, so that evaluation
ends with the rows of the node. -/
def CombNode.Completes (values : ParamValues) : CombNode → Prop
  | .ident name => (values.lookup name).isSome
  | .product children => allComplete values children
  | .assoc children => allComplete values children ∧
      ∀ child ∈ children, child.rowCount values = rowFirst values children

def CombNode.allComplete (values : ParamValues) : List CombNode → Prop
  | [] => True
  | child :: children => child.Completes values ∧ allComplete values children
end

mutual
/-- The row counts of all nodes that evaluation reaches are within the per-step task cap. -/
def CombNode.Within (values : ParamValues) : CombNode → Prop
  | .ident name => values.count name ≤ maxTasksPerStep
  | .product children => productWithin values 1 children
  | .assoc children => allWithin values children ∧
      ((CombNode.assoc children).Completes values → rowFirst values children ≤ maxTasksPerStep)

def CombNode.productWithin (values : ParamValues) (total : Nat) : List CombNode → Prop
  | [] => True
  | child :: children => child.Within values ∧ (child.Completes values →
      total * child.rowCount values ≤ maxTasksPerStep ∧ productWithin values (total * child.rowCount values) children)

def CombNode.allWithin (values : ParamValues) : List CombNode → Prop
  | [] => True
  | child :: children => child.Within values ∧ (child.Completes values → allWithin values children)
end

def Expansion.Bounded (s : Expansion) : Prop := ∀ rows ∈ s.built, rows.length ≤ maxTasksPerStep

/-- A program that ends with a value as `Q` says if `completes` holds and fails if not, and
builds only lists within the cap exactly if `within` holds. -/
def Spec {α : Type} (m : Expand α) (s : Expansion) (completes within : Prop) (Q : α → Prop) : Prop :=
  m.Yields s fun r s' => (completes ∧ (∃ a, r = .ok a ∧ Q a) ∨ ¬ completes ∧ ∃ e, r = .error e) ∧
    (s'.Bounded ↔ s.Bounded ∧ within)

variable {s : Expansion} {values : ParamValues}

lemma spec_pure {α : Type} {a : α} {Q : α → Prop} (hQ : Q a) : Spec (pure a) s True True Q :=
  ⟨.inl ⟨trivial, a, rfl, hQ⟩, by rw [and_true]; rfl⟩

lemma spec_build {rows : Rows} {Q : Rows → Prop} (hQ : Q rows) :
    Spec (build rows) s True (rows.length ≤ maxTasksPerStep) Q :=
  ⟨.inl ⟨trivial, rows, rfl, hQ⟩, forall_mem_cons.trans and_comm⟩

lemma Spec.bind {α β : Type} {x : Expand α} {f : α → Expand β} {c c' w w' : Prop} {P : α → Prop} {Q : β → Prop}
    (hx : Spec x s c w P) (hf : c → ∀ a, P a → ∀ s', Spec (f a) s' c' w' Q) :
    Spec (x >>= f) s (c ∧ c') (w ∧ (c → w')) Q := by
  refine Prog.Yields.bind hx (fun a s' h => ?_) fun e s' h => ?_
  · obtain ⟨⟨hc, b, e, hb⟩ | ⟨-, e, h⟩, hs'⟩ := h
    · cases e
      refine (hf hc a hb s').imp fun r s'' h => ⟨?_, ?_⟩
      · rw [and_iff_right hc]
        exact h.1
      · rw [h.2, hs', and_assoc, forall_prop_of_true hc]
    · cases h
  · obtain ⟨⟨-, b, h, -⟩ | ⟨hc, -⟩, hs'⟩ := h
    · cases h
    · refine ⟨.inr ⟨fun h => hc h.1, e, rfl⟩, ?_⟩
      simp [hs', hc]

lemma spec_build_bind {β : Type} (rows : Rows) {f : Rows → Expand β} {c w : Prop} {Q : β → Prop}
    (hf : ∀ s', Spec (f rows) s' c w Q) : Spec (build rows >>= f) s c (rows.length ≤ maxTasksPerStep ∧ w) Q := by
  have h := (spec_build (s := s) (Q := (· = rows)) rfl).bind fun _ a ha s' => ha ▸ hf s'
  simpa using h

lemma Spec.congr {α : Type} {m : Expand α} {c c' w w' : Prop} {Q R : α → Prop} (h : Spec m s c w Q) (hc : c ↔ c')
    (hw : w ↔ w') (hQ : ∀ a, Q a → R a) : Spec m s c' w' R := by
  rw [← hc, ← hw]
  exact h.imp fun r s' h => ⟨h.1.imp_left fun ⟨hc, a, e, ha⟩ => ⟨hc, a, e, hQ a ha⟩, h.2⟩

lemma length_cartesian (a b : Rows) : (cartesianProduct a b).length = a.length * b.length := by
  simp [cartesianProduct, length_flatMap]

lemma mismatch_eq_none {n i : Nat} {groups : List Rows} : mismatch n i groups = none ↔ ∀ g ∈ groups, g.length = n := by
  induction groups generalizing i with
  | nil => simp [mismatch]
  | cons g groups ih =>
    rw [mismatch, forall_mem_cons]
    split
    · simp_all
    · simp_all

lemma zipRows_spec {children : List CombNode} {groups : List Rows}
    (h : groups.map List.length = children.map fun child => child.rowCount values) :
    Spec (zipRows groups) s (∀ child ∈ children, child.rowCount values = rowFirst values children)
      ((∀ child ∈ children, child.rowCount values = rowFirst values children) →
        rowFirst values children ≤ maxTasksPerStep)
      fun rows => rows.length = rowFirst values children := by
  cases children with
  | nil =>
    obtain rfl : groups = [] := by simpa using h
    exact (spec_build (by simp [rowFirst])).congr (by simp) (by simp [rowFirst]) fun _ h => h
  | cons child children =>
    obtain ⟨first, rest, rfl⟩ := exists_cons_of_ne_nil (show groups ≠ [] by rintro rfl; cases h)
    obtain ⟨hfirst, hrest⟩ : first.length = child.rowCount values ∧ _ := cons.inj h
    have agree : (∀ c ∈ child :: children, c.rowCount values = rowFirst values (child :: children)) ↔
        mismatch first.length 1 rest = none := by
      have members : (∀ g ∈ rest, g.length = first.length) ↔ ∀ c ∈ children, c.rowCount values = first.length := by
        rw [← List.forall_mem_map (f := List.length) (P := (· = first.length)), hrest, List.forall_mem_map]
      rw [mismatch_eq_none, members, forall_mem_cons, rowFirst, hfirst]
      simp
    rw [agree, rowFirst, ← hfirst, zipRows]
    cases hm : mismatch first.length 1 rest with
    | none => exact (spec_build (by simp)).congr (by simp) (by simp) fun _ h => h
    | some m => exact ⟨.inr ⟨by simp, _, rfl⟩, by simp⟩

mutual
lemma evalCombNode_spec : ∀ (node : CombNode) (s : Expansion), Spec (evalCombNode values node) s
    (node.Completes values) (node.Within values) fun rows => rows.length = node.rowCount values
  | .ident name, s => by
    rw [evalCombNode, evalIdent, Completes, CombNode.Within, rowCount, ParamValues.count]
    cases values.lookup name with
    | none => exact ⟨.inr ⟨by simp, _, rfl⟩, by simp⟩
    | some vals => exact (spec_build (by simp)).congr (by simp) (by simp) fun _ h => h
  | .product children, s => by
    rw [evalCombNode, Completes, CombNode.Within, rowCount]
    exact (spec_build_bind [[]] fun s' => evalProduct_spec children [[]] s').congr .rfl
      (by simp [maxTasksPerStep]) (by simp)
  | .assoc children, s => by
    rw [evalCombNode, CombNode.Within, Completes, rowCount]
    exact ((evalGroups_spec children s).bind fun _ groups hg s' => zipRows_spec hg).congr .rfl
      (by rw [and_imp]) fun _ h => h

lemma evalProduct_spec : ∀ (children : List CombNode) (result : Rows) (s : Expansion),
    Spec (evalProduct values result children) s (allComplete values children)
      (productWithin values result.length children)
      fun rows => rows.length = result.length * rowProduct values children
  | [], result, s => by
    rw [evalProduct, allComplete, productWithin, rowProduct]
    exact spec_pure (by simp)
  | child :: children, result, s => by
    rw [evalProduct, allComplete, productWithin, rowProduct]
    refine (evalCombNode_spec child s).bind fun _ rows hrows s' => ?_
    have hlen : (cartesianProduct result rows).length = result.length * child.rowCount values := by
      rw [length_cartesian, hrows]
    rw [← hlen, ← Nat.mul_assoc, ← hlen]
    exact spec_build_bind _ fun s'' => evalProduct_spec children (cartesianProduct result rows) s''

lemma evalGroups_spec : ∀ (children : List CombNode) (s : Expansion),
    Spec (evalGroups values children) s (allComplete values children) (allWithin values children)
      fun groups => groups.map List.length = children.map fun child => child.rowCount values
  | [], s => by
    rw [evalGroups, allComplete, allWithin]
    exact spec_pure rfl
  | child :: children, s => by
    rw [evalGroups, allComplete, allWithin]
    refine (evalCombNode_spec child s).bind fun _ rows hrows s' => ?_
    exact ((evalGroups_spec children s').bind fun _ more hmore s'' => spec_pure (by simp [hrows, hmore])).congr
      (by simp) (by simp) fun _ h => h
end

/-! ## The whole expansion -/

lemma lookup_put {α : Type} (m : StringMap α) (key : String) (value : α) {name : String} {v : α}
    (h : (StringMap.put m key value).lookup name = some v) : v = value ∨ m.lookup name = some v := by
  unfold StringMap.put at h
  split at h
  · clear * - h
    induction m with
    | nil => cases h
    | cons e m ih =>
      rw [map_cons] at h
      obtain ⟨k, w⟩ := e
      by_cases hn : name = k
      · by_cases hk : k = key <;> simp_all
      have hb : (name == k) = false := beq_eq_false_iff_ne.mpr hn
      have hh : ((if k = key then (key, value) else (k, w)) : String × α).1 = k := by split <;> simp [*]
      rw [lookup_cons, hh, hb] at h
      rw [lookup_cons, hb]
      exact ih h
  · rw [lookup_append, or_eq_some_iff] at h
    rcases h with h | ⟨_, h⟩
    · exact .inr h
    simp only [lookup_cons, lookup_nil] at h
    split at h
    · exact .inl (some.inj h).symm
    · cases h

lemma paramValues_forall {Q : List String → Prop} {canonicalFloat : Text → Option String}
    {defs : List TaskParamDefinition} (hvals : ∀ name vals, values.lookup name = some vals → Q vals)
    (hdefs : ∀ tp ∈ defs, ∀ vals, expandTaskParam canonicalFloat tp = .ok vals → Q vals)
    {values' : ParamValues} (h : paramValues canonicalFloat values defs = .ok values') :
    ∀ name vals, values'.lookup name = some vals → Q vals := by
  induction defs generalizing values with
  | nil =>
    cases h
    exact hvals
  | cons tp defs ih =>
    rw [paramValues] at h
    split at h
    · cases h
    rename_i new hnew
    refine ih (fun name vals hl => ?_) (fun tp' htp' => hdefs tp' (mem_cons_of_mem tp htp')) h
    rcases lookup_put _ _ _ hl with rfl | hl
    · exact hdefs tp mem_cons_self _ hnew
    · exact hvals name vals hl

lemma chargeBudget_cases (count : Nat) (budget : Option Nat) : ∃ s : Expansion, s.Bounded ∧
    (chargeBudget count ⟨budget, []⟩ = (.ok (), s) ∧ (∀ total ∈ budget, total + count ≤ maxTasksPerJob) ∨
      (∃ e, chargeBudget count ⟨budget, []⟩ = (.error e, s)) ∧ ¬ ∀ total ∈ budget, total + count ≤ maxTasksPerJob) := by
  cases budget with
  | none => exact ⟨⟨none, []⟩, nofun, .inl ⟨rfl, nofun⟩⟩
  | some total =>
    refine ⟨⟨some (total + count), []⟩, nofun, ?_⟩
    by_cases h : maxTasksPerJob < total + count
    · exact .inr ⟨⟨_, if_pos h⟩, by simpa using h⟩
    · exact .inl ⟨if_neg h, by simpa using h⟩

/-- The evaluation that the count check and the budget let start reaches no node over the cap. -/
def StepParameterSpace.Within (canonicalFloat : Text → Option String) (ps : StepParameterSpace) (budget : Option Nat) :
    Prop :=
  ∀ values tree count, paramValues canonicalFloat [] ps.taskParameterDefinitions = .ok values → ps.expr ≠ "" →
    parseCombinationExpr ps.expr = .ok tree → countCombNode values tree = some count → count ≤ maxTasksPerStep →
      (∀ total ∈ budget, total + count ≤ maxTasksPerJob) → tree.Within values

/-- Expanding a parameter space builds no row list over the per-step task cap, exactly if every member
and inner product of the combination that is evaluated is within it. -/
theorem expansion_bounded (canonicalFloat : Text → Option String) (ps : StepParameterSpace) (budget : Option Nat) :
    (∀ rows ∈ (expandParameterSpace canonicalFloat (some ps) ⟨budget, []⟩).2.built, rows.length ≤ maxTasksPerStep) ↔
      ps.Within canonicalFloat budget := by
  have empty : Expansion.Bounded ⟨budget, []⟩ := nofun
  change Expansion.Bounded _ ↔ _
  unfold StepParameterSpace.Within expandParameterSpace
  dsimp only
  cases paramValues canonicalFloat [] ps.taskParameterDefinitions with
  | error e => exact iff_of_true empty nofun
  | ok values =>
    dsimp only
    by_cases hexpr : ps.expr = ""
    · obtain ⟨s, hs, h | h⟩ := chargeBudget_cases 1 budget
      · refine iff_of_true ?_ fun _ _ _ _ hne => absurd hexpr hne
        rw [if_pos hexpr, bind_ok h.1]
        exact hs
      · refine iff_of_true ?_ fun _ _ _ _ hne => absurd hexpr hne
        obtain ⟨e, he⟩ := h.1
        rw [if_pos hexpr, bind_error he]
        exact hs
    rw [if_neg hexpr]
    cases parseCombinationExpr ps.expr with
    | error e => exact iff_of_true empty fun _ _ _ _ _ h => nomatch h
    | ok tree =>
      dsimp only
      cases hcount : countCombNode values tree with
      | none => exact iff_of_true empty fun _ _ _ hv _ ht hc => by cases hv; cases ht; simp [hcount] at hc
      | some count =>
        dsimp only
        by_cases hcap : maxTasksPerStep < count
        · rw [if_pos hcap]
          exact iff_of_true empty fun _ _ _ hv _ ht hc hle => by cases hv; cases ht; cases hcount.symm.trans hc; omega
        rw [if_neg hcap]
        obtain ⟨s, hs, h | h⟩ := chargeBudget_cases count budget
        · rw [bind_ok h.1, (evalCombNode_spec tree s).2, and_iff_right hs]
          refine ⟨fun within _ _ _ hv _ ht _ _ _ => by cases hv; cases ht; exact within, fun h' => ?_⟩
          exact h' values tree count rfl hexpr rfl hcount (by omega) h.2
        · obtain ⟨⟨e, he⟩, hover⟩ := h
          rw [bind_error he]
          exact iff_of_true hs fun _ _ _ hv _ ht hc _ hb => by
            cases hv
            cases ht
            cases hcount.symm.trans hc
            exact absurd hb hover

/-! ## A later member of an association -/

lemma evalProduct_idents {names : List String} (hdecl : ∀ name ∈ names, (values.lookup name).isSome)
    {result : Rows} (hs : result ∈ s.built) :
    ∃ rows s', evalProduct values result (names.map .ident) s = (.ok rows, s') ∧ rows ∈ s'.built ∧
    rows.length = result.length * (names.map values.count).prod := by
  induction names generalizing result s with
  | nil => exact ⟨result, s, rfl, hs, by simp⟩
  | cons name names ih =>
    obtain ⟨vals, hvals⟩ := isSome_iff_exists.mp (hdecl name mem_cons_self)
    let childRows : Rows := vals.map fun v => [(name, v)]
    let product := cartesianProduct result childRows
    obtain ⟨rows, s', heval, hmem, hlen⟩ := ih (fun n hn => hdecl n (mem_cons_of_mem _ hn))
      (show product ∈ (Expansion.mk s.budget (product :: childRows :: s.built)).built from mem_cons_self)
    refine ⟨rows, s', ?_, hmem, ?_⟩
    · have hchild : evalCombNode values (.ident name) s = (.ok childRows, ⟨s.budget, childRows :: s.built⟩) := by
        rw [evalCombNode, evalIdent, hvals]
        rfl
      rw [map_cons, evalProduct, bind_ok hchild]
      exact heval
    · rw [hlen, length_cartesian, map_cons, prod_cons, Nat.mul_assoc]
      simp [childRows, ParamValues.count, hvals]

def intParam (name range : String) : TaskParamDefinition := ⟨name, .int, some range, [], none⟩
def lopsidedSpace : StepParameterSpace :=
  ⟨intParam "A" "1" :: ["B", "C", "D", "E", "F", "G"].map fun name => intParam name "1-11",
    some "(A, B * C * D * E * F * G)"⟩
def lopsidedValues : ParamValues :=
  ("A", ["1"]) :: ["B", "C", "D", "E", "F", "G"].map fun name =>
    (name, ["1", "2", "3", "4", "5", "6", "7", "8", "9", "10", "11"])
def lopsidedProduct : CombNode := .product (["B", "C", "D", "E", "F", "G"].map .ident)
def lopsidedTree : CombNode := .assoc [.ident "A", lopsidedProduct]

/-- The count of `lopsidedSpace` is 1, and a list of 11⁶ rows is built before
the lengths are compared. -/
theorem lopsided_group_exceeds_cap :
    ∃ rows ∈ (expandParameterSpace (fun _ => none) (some lopsidedSpace) ⟨none, []⟩).2.built,
      maxTasksPerStep < rows.length := by
  have hvalues : paramValues (fun _ => none) [] lopsidedSpace.taskParameterDefinitions = .ok lopsidedValues := by
    decide +kernel
  have htree : parseCombinationExpr lopsidedSpace.expr = .ok lopsidedTree := by decide +kernel
  have hcount : countCombNode lopsidedValues lopsidedTree = some 1 := by decide +kernel
  have hexpr : lopsidedSpace.expr ≠ "" := by decide
  -- the expansion is the evaluation of the tree
  have hrun : expandParameterSpace (fun _ => none) (some lopsidedSpace) ⟨none, []⟩ =
      evalCombNode lopsidedValues lopsidedTree ⟨none, []⟩ := by
    have hcap : ¬ maxTasksPerStep < 1 := by decide
    have hfree : chargeBudget 1 ⟨none, []⟩ = (.ok (), ⟨none, []⟩) := rfl
    simp only [expandParameterSpace, hvalues, if_neg hexpr, htree, hcount, if_neg hcap]
    rw [bind_ok hfree]
  rw [hrun]
  have hdecl : ∀ name ∈ ["B", "C", "D", "E", "F", "G"], (lopsidedValues.lookup name).isSome := by decide +kernel
  -- the first member leaves its one row, the second one the whole product
  obtain ⟨rows, s', heval, hmem, hlen⟩ := evalProduct_idents hdecl
    (show ([[]] : Rows) ∈ (Expansion.mk none [[[]], [[("A", "1")]]]).built from mem_cons_self)
  have hlarge : rows.length = 1771561 := by
    rw [hlen]
    decide +kernel
  have hfirst : evalCombNode lopsidedValues (.ident "A") ⟨none, []⟩ =
      (.ok [[("A", "1")]], ⟨none, [[[("A", "1")]]]⟩) := by decide +kernel
  have hsecond : evalCombNode lopsidedValues lopsidedProduct ⟨none, [[[("A", "1")]]]⟩ = (.ok rows, s') := by
    rw [lopsidedProduct, evalCombNode, build, lift_bind]
    exact heval
  have hrest : evalGroups lopsidedValues [lopsidedProduct] ⟨none, [[[("A", "1")]]]⟩ = (.ok [rows], s') := by
    rw [evalGroups, bind_ok hsecond, evalGroups]
    rfl
  have hgroups : evalGroups lopsidedValues [.ident "A", lopsidedProduct] ⟨none, []⟩ =
      (.ok [[[("A", "1")]], rows], s') := by
    rw [evalGroups, bind_ok hfirst, bind_ok hrest]
    rfl
  have hend : (evalCombNode lopsidedValues lopsidedTree ⟨none, []⟩).2 = s' := by
    rw [lopsidedTree, evalCombNode, bind_ok hgroups]
    simp [zipRows, mismatch, hlarge]
  rw [hend]
  exact ⟨rows, hmem, by rw [hlarge]; decide⟩

end Sqi
