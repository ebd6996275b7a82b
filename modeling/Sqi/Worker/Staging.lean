import Sqi.Lib.Replace
import Sqi.OpenJD.Template
import Sqi.Worker.EmbeddedFiles

/-! Staged paths: the manifest (`scheduler/assign.go`), the scratch locations
(`worker/staging/staging.go`) and the rewriting of an argument (`worker/pathmap/pathmap.go`). -/

namespace Sqi.Staging
open Worker (base splitOn_append splitOn_of_notMem)
open GoText List Replace

inductive DataFlow where
  | none
  | in_
  | out
  | inout
deriving DecidableEq

structure StageEntry where
  path : Text
  direction : DataFlow

/-- A list that does not decode stages nothing; elements that are no strings are `none`. -/
def stagedPaths (decode : Text → Option (List (Option Text))) (value : Text) (isList : Bool) : List Text :=
  if isList then (((decode value).getD []).filterMap id).filter (· ≠ []) else [value]

def buildStagingManifest (decode : Text → Option (List (Option Text)))
    (params : List (String × JobParamType × DataFlow)) (jobParams : String → Option Text) : List StageEntry :=
  params.flatMap fun (name, type, flow) =>
    if (type = .path ∨ type = .listPath) ∧ flow ≠ .none then
      match jobParams name with
      | none => []
      | some val => if val = [] then [] else (stagedPaths decode val (type = .listPath)).map (⟨·, flow⟩)
    else []

/-- The elements kept so far, and the next one. -/
def cleanStep (rooted : Bool) (out : List Text) (name : Text) : List Text :=
  if name = [] ∨ name = ['.'] then out
  else if name = ['.', '.'] then
    if out = [] ∨ out.getLast? = some name then if rooted then out else out ++ [name] else out.dropLast
  else out ++ [name]

def render (rooted : Bool) (names : List Text) : Text :=
  if rooted then '/' :: ['/'].intercalate names else if names = [] then ['.'] else ['/'].intercalate names

/-- `filepath.Clean`. -/
def clean (p : Text) : Text :=
  let rooted : Bool := p.head? = some '/'
  render rooted ((p.splitOn '/').foldl (cleanStep rooted) [])

/-- `filepath.Join`. -/
def join (dir name : Text) : Text :=
  if dir ≠ [] then clean (dir ++ '/' :: name) else if name ≠ [] then clean name else []

/-- The copy of the entry with this index. -/
def location (scratchDir : Text) (i : Nat) (path : Text) : Text :=
  join (join scratchDir (Nat.toDigits 10 i)) (base path)

/-- Where StageOut reads that copy. -/
def stageOutSource (scratchDir : Text) (i : Nat) (path : Text) : Text :=
  join scratchDir (join (Nat.toDigits 10 i) (base path))

def prepareEntries (scratchDir : Text) (entries : List StageEntry) : List (Text × Text) :=
  (entries.zipIdx.filter (·.1.direction ≠ .none)).map fun p => (p.1.path, location scratchDir p.2 p.1.path)

def apply (rules : List (Text × Text)) (s : Text) : Text :=
  rules.foldl (fun s r => if r.1 = [] then s else replaceAll r.1 r.2 s) s

variable {decode : Text → Option (List (Option Text))} {params : List (String × JobParamType × DataFlow)}
  {jobParams : String → Option Text}

lemma staged_of_mem {e : StageEntry} (h : e ∈ buildStagingManifest decode params jobParams) :
    e.path ≠ [] ∧ e.direction ≠ .none := by
  simp only [buildStagingManifest, mem_flatMap] at h
  obtain ⟨⟨name, type, flow⟩, -, h⟩ := h
  split at h
  · rename_i staged
    split at h
    · cases h
    · split at h
      · cases h
      · rename_i val _ hval
        obtain ⟨p, hp, rfl⟩ := mem_map.mp h
        refine ⟨?_, staged.2⟩
        unfold stagedPaths at hp
        split at hp <;> simp_all
  · cases h

/-- Rules that map a path to itself, or whose path does not occur, change nothing. -/
lemma apply_of_quiet {rules : List (Text × Text)} {s : Text} (h : ∀ r ∈ rules, r.2 = r.1 ∨ ¬ r.1 <:+: s) :
    apply rules s = s := by
  have keeps : ∀ {old new t : Text}, ¬ old <:+: t → replaceAll old new t = t := by
    intro old new t ht
    induction t with
    | nil => rfl
    | cons c t ih =>
      rw [replaceAll_cons_keep fun hp => ht hp.isInfix, ih fun hi => ht (hi.trans (suffix_cons c t).isInfix)]
  induction rules with
  | nil => rfl
  | cons r rules ih =>
    rw [forall_mem_cons] at h
    have first : (if r.1 = [] then s else replaceAll r.1 r.2 s) = s := by
      split
      · rfl
      · rename_i hne
        rcases h.1 with e | hno
        · rw [e, replaceAll_self hne]
        · exact keeps hno
    rw [apply, foldl_cons, first]
    exact ih h.2

/-! ## Clean paths -/

section
variable {rooted : Bool} {names out : List Text} {name p : Text}

lemma cleanStep_cases (rooted : Bool) (out : List Text) (name : Text) :
    cleanStep rooted out name = out ∨ cleanStep rooted out name = out.dropLast ∨
      name ≠ [] ∧ cleanStep rooted out name = out ++ [name] := by
  unfold cleanStep
  split_ifs <;> simp_all

lemma cleanStep_name (hname : name ≠ []) (hdot : name ≠ ['.']) (hdots : name ≠ ['.', '.']) :
    cleanStep rooted out name = out ++ [name] := by
  simp [cleanStep, hname, hdot, hdots]

/-- Elements that `clean` keeps one after the other. -/
inductive Cleaned (rooted : Bool) : List Text → Prop
  | nil : Cleaned rooted []
  | snoc {out : List Text} {name : Text} (init : Cleaned rooted out) (slash : '/' ∉ name) (ne : name ≠ [])
    (step : cleanStep rooted out name = out ++ [name]) : Cleaned rooted (out ++ [name])

lemma Cleaned.dropLast (h : Cleaned rooted names) : Cleaned rooted names.dropLast := by
  cases h with
  | nil => exact .nil
  | snoc init => rwa [dropLast_concat]

lemma Cleaned.cleanStep (h : Cleaned rooted out) (slash : '/' ∉ name) :
    Cleaned rooted (cleanStep rooted out name) := by
  rcases cleanStep_cases rooted out name with e | e | ⟨ne, e⟩
  · rwa [e]
  · rw [e]
    exact h.dropLast
  · rw [e]
    exact .snoc h slash ne e

lemma Cleaned.foldl (h : Cleaned rooted out) (slash : ∀ name ∈ names, '/' ∉ name) :
    Cleaned rooted (names.foldl (Staging.cleanStep rooted) out) := by
  induction names generalizing out with
  | nil => exact h
  | cons name names ih =>
    obtain ⟨hname, slash⟩ := forall_mem_cons.mp slash
    exact ih (h.cleanStep hname) slash

lemma Cleaned.again (h : Cleaned rooted names) : names.foldl (Staging.cleanStep rooted) [] = names := by
  induction h with
  | nil => rfl
  | snoc _ _ _ step ih => rw [foldl_append, ih, foldl_cons, step, foldl_nil]

lemma Cleaned.mem (h : Cleaned rooted names) : ∀ name ∈ names, name ≠ [] ∧ '/' ∉ name := by
  induction h with
  | nil => exact nofun
  | snoc _ slash ne _ ih => exact forall_mem_append.mpr ⟨ih, by simpa using ⟨ne, slash⟩⟩

lemma slash_notMem_of_mem_splitOn (h : name ∈ p.splitOn '/') : '/' ∉ name := by
  unfold splitOn at h
  induction p generalizing name with
  | nil =>
    obtain rfl : name = [] := by simpa using h
    exact not_mem_nil
  | cons c p ih =>
    obtain ⟨first, rest, hs⟩ := exists_cons_of_ne_nil (splitOnP_ne_nil (· == '/') p)
    rw [splitOnP_cons_eq_if_modifyHead] at h
    split at h
    · rcases mem_cons.mp h with rfl | h
      · exact not_mem_nil
      · exact ih h
    · rename_i hc
      rw [hs] at h ih
      rcases mem_cons.mp h with rfl | h
      · rw [mem_cons, not_or]
        exact ⟨fun e => hc (by simp [← e]), ih mem_cons_self⟩
      · exact ih (mem_cons_of_mem _ h)

lemma Cleaned.render (h : Cleaned rooted names) (ne : names ≠ []) :
    (decide ((render rooted names).head? = some '/') = rooted) ∧
      ((render rooted names).splitOn '/').foldl (Staging.cleanStep rooted) [] = names := by
  have hsplit : (['/'].intercalate names).splitOn '/' = names :=
    splitOn_intercalate '/' (fun name hname => (h.mem name hname).2) ne
  unfold Staging.render
  cases rooted with
  | true =>
    refine ⟨by simp, ?_⟩
    rw [if_pos rfl, ← nil_append ('/' :: _), splitOn_append, hsplit, foldl_append]
    exact h.again
  | false =>
    rw [if_neg nofun, if_neg ne, hsplit]
    refine ⟨decide_eq_false fun hhead => ?_, h.again⟩
    obtain ⟨name, names, rfl⟩ := exists_cons_of_ne_nil ne
    obtain ⟨hname, slash⟩ := h.mem name mem_cons_self
    obtain ⟨c, cs, rfl⟩ := exists_cons_of_ne_nil hname
    have hc : c = '/' := by
      cases names with
      | nil => simpa using hhead
      | cons n ns => simpa [intercalate_cons_cons] using hhead
    exact slash (hc ▸ mem_cons_self)

lemma clean_append {q : Text} (ne : p ≠ []) (hr : decide (p.head? = some '/') = rooted) :
    clean (p ++ '/' :: q) = render rooted ((q.splitOn '/').foldl (cleanStep rooted)
      ((p.splitOn '/').foldl (cleanStep rooted) [])) := by
  have hhead : (p ++ '/' :: q).head? = p.head? := by
    cases p with
    | nil => exact absurd rfl ne
    | cons c p => rfl
  rw [clean, hhead, hr, splitOn_append, foldl_append]

lemma render_ne_nil (h : Cleaned rooted names) : render rooted names ≠ [] := by
  unfold render
  split_ifs with hrooted hnil
  · simp
  · simp
  · obtain ⟨name, names, rfl⟩ := exists_cons_of_ne_nil hnil
    obtain ⟨c, cs, rfl⟩ := exists_cons_of_ne_nil (h.mem name mem_cons_self).1
    cases names <;> simp [intercalate_cons_cons]

lemma Cleaned.join (h : Cleaned rooted names) (ne : names ≠ []) (q : Text) :
    join (Staging.render rooted names) q =
      Staging.render rooted ((q.splitOn '/').foldl (Staging.cleanStep rooted) names) := by
  obtain ⟨hr, hnames⟩ := h.render ne
  rw [Staging.join, if_pos (render_ne_nil h), clean_append (render_ne_nil h) hr, hnames]

lemma base_cases (path : Text) : '/' ∉ base path ∨ base path = ['/'] := by
  unfold base
  dsimp only
  split_ifs
  · exact .inl (by decide)
  · exact .inr rfl
  · refine .inl fun h => ?_
    simpa using all_eq_true.mp all_takeWhile _ (mem_reverse.mp h)

/-- The last element of a path, behind the name of a directory: kept, skipped, or it takes that name away. -/
lemma foldl_base (path : Text) {dir : Text} (hdots : dir ≠ ['.', '.']) :
    (∀ r out, ((base path).splitOn '/').foldl (cleanStep r) (out ++ [dir]) = out ++ [dir]) ∨
    (∀ r out, ((base path).splitOn '/').foldl (cleanStep r) (out ++ [dir]) = out) ∨
    '/' ∉ base path ∧ ∀ r out,
      ((base path).splitOn '/').foldl (cleanStep r) (out ++ [dir]) = out ++ [dir] ++ [base path] := by
  rcases base_cases path with slash | e
  · rw [splitOn_of_notMem slash]
    by_cases hskip : base path = [] ∨ base path = ['.']
    · exact .inl fun r out => by simp [cleanStep, hskip]
    by_cases hup : base path = ['.', '.']
    · refine .inr (.inl fun r out => ?_)
      simp [cleanStep, hup, hdots]
    · rw [not_or] at hskip
      refine .inr (.inr ⟨slash, fun r out => ?_⟩)
      simp [cleanStep, hskip.1, hskip.2, hup]
  · rw [e]
    exact .inl fun r out => by simp [splitOn, splitOnP_cons_eq_if_modifyHead, cleanStep]

lemma digits_name (i : Nat) : Nat.toDigits 10 i ≠ [] ∧ '/' ∉ Nat.toDigits 10 i ∧ Nat.toDigits 10 i ≠ ['.'] ∧
    Nat.toDigits 10 i ≠ ['.', '.'] := by
  have digit : ∀ {c}, c ∈ Nat.toDigits 10 i → c.isDigit = true :=
    fun h => Nat.isDigit_of_mem_toDigits (by decide) (by decide) h
  have no_dot : '.' ∉ Nat.toDigits 10 i := fun h => absurd (digit h) (by decide)
  exact ⟨Nat.toDigits_ne_nil, fun h => absurd (digit h) (by decide), fun e => no_dot (e ▸ mem_cons_self),
    fun e => no_dot (e ▸ mem_cons_self)⟩

/-- StageOut joins the names in another order and comes to the same place. -/
lemma stageOutSource_eq (scratchDir : Text) (i : Nat) (path : Text) :
    stageOutSource scratchDir i path = location scratchDir i path := by
  obtain ⟨hne, hslash, hdot, hdots⟩ := digits_name i
  unfold stageOutSource location
  generalize Nat.toDigits 10 i = dir at *
  have keeps : ∀ r out, cleanStep r out dir = out ++ [dir] := fun r out => cleanStep_name hne hdot hdots
  have one : Cleaned false [dir] := .snoc .nil hslash hne (keeps false [])
  have hdir : dir = render false [dir] := by simp [render]
  have hlast := foldl_base path hdots
  have tail : join dir (base path) =
      render false (((base path).splitOn '/').foldl (cleanStep false) ([] ++ [dir])) := by
    conv_lhs => rw [hdir]
    exact one.join (cons_ne_nil _ _) _
  by_cases hs : scratchDir = []
  · have twice : ∀ {names}, Cleaned false names → clean (render false names) = render false names := by
      intro names h
      by_cases hnil : names = []
      · rw [hnil]
        decide
      · obtain ⟨hr, hagain⟩ := h.render hnil
        rw [clean, hr, hagain]
    have first : join scratchDir dir = dir := by
      rw [hs, join, if_neg (not_not.mpr rfl), if_pos hne]
      conv_lhs => rw [hdir]
      rw [twice one, ← hdir]
    have hclean := one.foldl fun name (h : name ∈ (base path).splitOn '/') => slash_notMem_of_mem_splitOn h
    rw [nil_append] at tail
    rw [first, tail, hs, join, if_neg (not_not.mpr rfl), if_pos (render_ne_nil hclean)]
    exact twice hclean
  · obtain ⟨rooted, hr⟩ : ∃ r, decide (scratchDir.head? = some '/') = r := ⟨_, rfl⟩
    have inside : ∀ q, join scratchDir q = render rooted ((q.splitOn '/').foldl (cleanStep rooted)
        ((scratchDir.splitOn '/').foldl (cleanStep rooted) [])) := fun q => by
      rw [join, if_pos hs, clean_append hs hr]
    have hscratch : Cleaned rooted ((scratchDir.splitOn '/').foldl (cleanStep rooted) []) :=
      Cleaned.nil.foldl fun name h => slash_notMem_of_mem_splitOn h
    generalize (scratchDir.splitOn '/').foldl (cleanStep rooted) [] = names at *
    rw [tail, inside, inside, splitOn_of_notMem hslash, foldl_cons, foldl_nil, keeps,
      (Cleaned.snoc hscratch hslash hne (keeps rooted names)).join (by simp)]
    rcases hlast with h | h | ⟨bslash, h⟩
    · rw [h, h, nil_append, ← hdir, splitOn_of_notMem hslash, foldl_cons, foldl_nil, keeps]
    · rw [h, h]
      simp [render, splitOn, splitOnP_cons_eq_if_modifyHead, cleanStep]
    · have hstep := h rooted names
      rw [splitOn_of_notMem bslash, foldl_cons, foldl_nil] at hstep
      have hrel : render false ([] ++ [dir] ++ [base path]) = dir ++ '/' :: base path := by
        simp [render, intercalate_cons_cons]
      rw [h, h, hrel, splitOn_append, splitOn_of_notMem hslash, splitOn_of_notMem bslash, foldl_append]
      simp only [foldl_cons, foldl_nil, keeps, hstep]

end

/-- An argument is rewritten to its own entry's copy, which StageOut reads, when no rule of another entry
changes the path before it or the copy's name behind it. -/
theorem staged_argument_swapped (scratchDir : Text) {l r : List StageEntry} {e : StageEntry}
    (split : buildStagingManifest decode params jobParams = l ++ e :: r)
    (before : ∀ d n, (d, n) ∈ l.zipIdx → location scratchDir n d.path = d.path ∨ ¬ d.path <:+: e.path)
    (behind : ∀ d n, (d, n) ∈ r.zipIdx (l.length + 1) →
      location scratchDir n d.path = d.path ∨ ¬ d.path <:+: location scratchDir l.length e.path) :
    apply (prepareEntries scratchDir (buildStagingManifest decode params jobParams)) e.path =
      location scratchDir l.length e.path ∧
    stageOutSource scratchDir l.length e.path = location scratchDir l.length e.path := by
  refine ⟨?_, stageOutSource_eq scratchDir l.length e.path⟩
  have staged := staged_of_mem (split ▸ mem_append_right l mem_cons_self)
  have quiet : ∀ {k : List (StageEntry × Nat)} {t : Text},
      (∀ d n, (d, n) ∈ k → location scratchDir n d.path = d.path ∨ ¬ d.path <:+: t) →
      ∀ x ∈ (k.filter (·.1.direction ≠ .none)).map fun p => (p.1.path, location scratchDir p.2 p.1.path),
        x.2 = x.1 ∨ ¬ x.1 <:+: t := by
    intro k t hk x hx
    obtain ⟨p, hp, rfl⟩ := mem_map.mp hx
    exact hk p.1 p.2 (mem_filter.mp hp).1
  have front := apply_of_quiet (quiet before)
  have own : replaceAll e.path (location scratchDir l.length e.path) (e.path ++ []) = _ ++ [] :=
    replaceAll_append staged.1 []
  rw [append_nil, append_nil] at own
  rw [split, prepareEntries, zipIdx_append, zipIdx_cons, filter_append, map_append,
    filter_cons_of_pos (by simpa using staged.2), map_cons, apply, foldl_append, foldl_cons]
  rw [apply] at front
  rw [front, if_neg staged.1, Nat.zero_add, own]
  exact apply_of_quiet (quiet behind)

def twoPaths (a b : Text) : List StageEntry :=
  buildStagingManifest (fun _ => none) [("A", .path, .in_), ("B", .path, .in_)]
    fun name => some (if name = "A" then a else b)

theorem staged_argument_swapped_file :
    apply (prepareEntries "/s".toList (twoPaths "/a".toList "/b".toList)) "/b".toList =
        location "/s".toList 1 "/b".toList ∧
      stageOutSource "/s".toList 1 "/b".toList = location "/s".toList 1 "/b".toList :=
  staged_argument_swapped (l := [⟨"/a".toList, .in_⟩]) (e := ⟨"/b".toList, .in_⟩) (r := []) "/s".toList rfl
    (fun d n h => by
      obtain ⟨rfl, rfl⟩ := Prod.mk.inj (mem_singleton.mp h)
      exact .inr (by decide))
    (fun _ _ h => nomatch h)

/-- The rule of a directory rewrites the path of a file in it first. -/
theorem staged_file_swapped_twice :
    apply (prepareEntries "/s".toList (twoPaths "/a".toList "/a/b".toList)) "/a/b".toList = "/s/0/s/1/b".toList ∧
      location "/s".toList 1 "/a/b".toList = "/s/1/b".toList := by
  decide +kernel

end Sqi.Staging
