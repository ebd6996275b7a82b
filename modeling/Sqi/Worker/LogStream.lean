import Mathlib.Data.List.Sort
import Mathlib.Logic.Function.Basic
import Sqi.Lib.Pool
import Sqi.Worker.Session

/-! The log streamer of one task attempt (`logstreamer.go`).

Lines gather in a buffer for each stream. -/

namespace Sqi.LogStream
open Function GoBytes List Pool Transition
open Worker (Stream)

structure Config where
  maxLinesPerChunk : Nat
  maxBytesPerChunk : Nat
deriving DecidableEq

def newline : UInt8 := 0x0A

structure Chunk where
  stream : Stream
  seqNum : Nat
  lines : List Bytes
deriving DecidableEq

/-- The text of the message, which `json.Marshal` writes. -/
def Chunk.data (c : Chunk) : Bytes := jsonText ([newline].intercalate c.lines)

inductive Section where
  | number (stream : Stream) (lines : List Bytes)
  | publish (c : Chunk)
deriving DecidableEq

structure State where
  buffer : Stream → List Bytes
  seqNum : Nat
  published : List Chunk
  running : Pool.Procs Section
  final : Option (List Stream)

def Config.full (cfg : Config) (lines : List Bytes) : Bool :=
  cfg.maxLinesPerChunk ≤ lines.length || cfg.maxBytesPerChunk ≤ (lines.map fun l => l.length + 1).sum
def State.take (s : State) (x : Stream) (lines : List Bytes) : State :=
  { s with buffer := update s.buffer x [], running := Pool.spawn s.running [.number x lines] }
def State.handleLine (cfg : Config) (s : State) (x : Stream) (line : Bytes) : State :=
  if cfg.full (s.buffer x ++ [line]) then s.take x (s.buffer x ++ [line])
  else { s with buffer := update s.buffer x (s.buffer x ++ [line]) }
def State.drainBuf (s : State) (x : Stream) : State :=
  if s.buffer x = [] then s else s.take x (s.buffer x)

def State.advance (s : State) (i : Nat) (delivered : Bool) : State :=
  match Pool.next? s.running i with
  | none => s
  | some (.number x lines) =>
    { s with
      seqNum := s.seqNum + 1
      running := Pool.resume s.running i [.publish ⟨x, s.seqNum + 1, lines⟩] }
  | some (.publish c) =>
    { s with
      published := if delivered then s.published ++ [c] else s.published
      running := Pool.resume s.running i [] }

inductive Label where
  | handleLine (x : Stream) (line : Bytes)
  | drain (x : Stream)
  | flushLogs
  | finalDrain
  | advance (i : Nat) (delivered : Bool)
deriving DecidableEq

def State.next (cfg : Config) : Label → State → State
  | .handleLine x line, s => s.handleLine cfg x line
  | .drain x, s => s.drainBuf x
  | .flushLogs, s => { s with final := some [.stdout, .stderr] }
  | .finalDrain, s =>
    match s.final with
    | some (x :: rest) => { s.drainBuf x with final := some rest }
    | _ => s
  | .advance i delivered, s => s.advance i delivered

def Enabled (s : State) : Label → Prop
  | .handleLine _ line => s.final = none ∧ newline ∉ line
  | .drain _ => s.final = none
  | .flushLogs => s.final = none ∧ Pool.pending s.running = []
  | .finalDrain => s.final.getD [] ≠ [] ∧ Pool.pending s.running = []
  | .advance .. => True

def streamer (cfg : Config) : System State Label where
  init := ⟨fun _ => [], 0, [], [], none⟩
  enabled _ := Enabled
  next := State.next cfg
def State.Flushed (s : State) : Prop := s.final = some [] ∧ Pool.pending s.running = []

/-! ## What a run has handled and numbered -/

def handles (x : Stream) : Label → List Bytes
  | .handleLine y line => if y = x then [line] else []
  | _ => []
def handled (x : Stream) : List (State × Label) → List Bytes
  | [] => []
  | (_, l) :: hist => handled x hist ++ handles x l

def numbers (s : State) : Label → List Chunk
  | .advance i _ =>
    match Pool.next? s.running i with
    | some (.number x lines) => [⟨x, s.seqNum + 1, lines⟩]
    | _ => []
  | _ => []

def numbered : List (State × Label) → List Chunk
  | [] => []
  | (s, l) :: hist => numbered hist ++ numbers s l
def Section.waiting (x : Stream) : Section → Option (List Bytes)
  | .number y lines => if y = x then some lines else none
  | .publish _ => none
def Section.chunk : Section → Option Chunk
  | .number .. => none
  | .publish c => some c
def State.waiting (s : State) (x : Stream) : List (List Bytes) :=
  (Pool.pending s.running).filterMap (Section.waiting x)

def Orderly (cfg : Config) (s : State) : Label → Prop
  | .handleLine x line => cfg.full (s.buffer x ++ [line]) = true → s.waiting x = []
  | .drain x => s.buffer x ≠ [] → s.waiting x = []
  | .advance _ delivered => delivered = true
  | _ => True

def orderly (cfg : Config) : System State Label := (streamer cfg).guarded fun _ => Orderly cfg

/-- Where every handled line is: in a chunk, waiting for a number, or in its buffer. -/
structure Flow (hist : List (State × Label)) (s : State) : Prop where
  lines : ∀ x, ((numbered hist).filter (·.stream = x)).flatMap Chunk.lines ++ (s.waiting x).flatten ++ s.buffer x =
    handled x hist
  single : ∀ x, (s.waiting x).length ≤ 1
  seqs : (numbered hist).map Chunk.seqNum = range' 1 s.seqNum
  sent : s.published ++ (Pool.pending s.running).filterMap Section.chunk ~ numbered hist
  whole : (∀ c ∈ numbered hist, c.lines ≠ []) ∧ ∀ x, ∀ lines ∈ s.waiting x, lines ≠ []
  drained : ∀ rest, s.final = some rest → ∀ x ∉ rest, s.buffer x = []

variable {cfg : Config} {hist : List (State × Label)} {s : State} {l : Label} {x : Stream}

lemma State.waiting_take (s : State) (x y : Stream) (lines : List Bytes) :
    (s.take x lines).waiting y = s.waiting y ++ if x = y then [lines] else [] := by
  by_cases h : x = y <;> simp [State.waiting, State.take, Section.waiting, h]

section
variable (w : Flow hist s)
include w

lemma Flow.call {s' : State} (hn : numbers s l = []) (hseq : s'.seqNum = s.seqNum)
    (hpub : s'.published = s.published)
    (hchunk : (Pool.pending s'.running).filterMap Section.chunk = (Pool.pending s.running).filterMap Section.chunk)
    (hlines : ∀ y, (s'.waiting y).flatten ++ s'.buffer y = (s.waiting y).flatten ++ s.buffer y ++ handles y l)
    (hwait : ∀ y, (s'.waiting y).length ≤ 1 ∧ ∀ lines ∈ s'.waiting y, lines ≠ [])
    (hdrained : ∀ rest, s'.final = some rest → ∀ y ∉ rest, s'.buffer y = []) : Flow ((s, l) :: hist) s' := by
  have hsame : numbered ((s, l) :: hist) = numbered hist := by rw [numbered, hn, append_nil]
  refine ⟨fun y => ?_, fun y => (hwait y).1, ?_, ?_, ⟨?_, fun y => (hwait y).2⟩, hdrained⟩
  · rw [handled, ← w.lines, hsame, append_assoc, hlines]
    simp only [append_assoc]
  · rw [hsame, hseq, w.seqs]
  · rw [hsame, hpub, hchunk]
    exact w.sent
  · rw [hsame]
    exact w.whole.1

lemma Flow.still (hn : numbers s l = []) (hl : ∀ y, handles y l = []) :
    Flow ((s, l) :: hist) s :=
  w.call hn rfl rfl rfl (by simp [hl]) (fun y => ⟨w.single y, w.whole.2 y⟩) w.drained

lemma Flow.take (hw : s.waiting x = []) (lines : List Bytes) (hne : s.buffer x ++ lines ≠ [])
    (hn : numbers s l = []) (hl : ∀ y, handles y l = if x = y then lines else []) :
    Flow ((s, l) :: hist) (s.take x (s.buffer x ++ lines)) := by
  refine w.call hn rfl rfl (by simp [State.take, Section.chunk, filterMap_cons]) (fun y => ?_) (fun y => ?_)
    fun rest hr y hy => ?_
  · rw [State.waiting_take, hl]
    by_cases h : x = y
    · subst h
      simp [hw, State.take]
    · simp [h, State.take, update_of_ne (Ne.symm h)]
  · rw [State.waiting_take]
    by_cases h : x = y
    · subst h
      simpa [hw] using hne
    · simpa [h] using ⟨w.single y, w.whole.2 y⟩
  · by_cases h : x = y
    · simp [State.take, h]
    · simpa [State.take, update_of_ne (Ne.symm h)] using w.drained rest hr y hy

lemma Flow.drain (hw : s.buffer x ≠ [] → s.waiting x = []) (hn : numbers s l = [])
    (hl : ∀ y, handles y l = []) : Flow ((s, l) :: hist) (s.drainBuf x) := by
  rw [State.drainBuf]
  split
  · exact w.still hn hl
  next hb =>
    have taken := w.take (hw hb) [] (by simpa using hb) hn (by simpa using hl)
    rwa [append_nil] at taken

lemma Flow.handleLine {line : Bytes} (hopen : s.final = none)
    (hw : cfg.full (s.buffer x ++ [line]) = true → s.waiting x = []) :
    Flow ((s, .handleLine x line) :: hist) (s.handleLine cfg x line) := by
  rw [State.handleLine]
  split
  next hf => exact w.take (hw hf) _ (by simp) rfl fun _ => rfl
  refine w.call rfl rfl rfl rfl (fun y => ?_) (fun y => ⟨w.single y, w.whole.2 y⟩) (by simp [hopen])
  by_cases h : x = y
  · subst h
    simp [State.waiting, handles]
  · simp [h, State.waiting, handles, update_of_ne (Ne.symm h)]

end

lemma eq_of_perm_of_length_le_one {α : Type*} {a b : List α} (h : a ~ b) (hb : b.length ≤ 1) : a = b := by
  cases b with
  | nil => exact perm_nil.mp h
  | cons c b =>
    obtain rfl := length_eq_zero_iff.mp (Nat.le_zero.mp (Nat.le_of_succ_le_succ hb))
    exact perm_singleton.mp h

lemma Flow.resume (w : Flow hist s) {i : Nat} {a : Section} (ha : Pool.next? s.running i = some a)
    {k : List Section} (hk : ∀ b ∈ k, ∀ y, b.waiting y = none) (y : Stream) :
    s.waiting y = (a.waiting y).toList ++ (Pool.pending (Pool.resume s.running i k)).filterMap (Section.waiting y) := by
  have hp := (pending_resume (k := k) ha).filterMap (Section.waiting y)
  have hnil : k.filterMap (Section.waiting y) = [] := filterMap_eq_nil_iff.mpr fun b hb => hk b hb y
  rw [filterMap_append, hnil, nil_append] at hp
  refine (eq_of_perm_of_length_le_one ?_ (w.single y)).symm
  cases h : a.waiting y <;> simpa [filterMap_cons, h, State.waiting] using hp

lemma Flow.advance (w : Flow hist s) (i : Nat) : Flow ((s, .advance i true) :: hist) (s.advance i true) := by
  rw [State.advance]
  cases ha : Pool.next? s.running i with
  | none => exact w.still (by simp [numbers, ha]) fun _ => rfl
  | some a =>
    have hwait : ∀ {k : List Section}, (∀ b ∈ k, ∀ y, b.waiting y = none) → ∀ y,
        ((Pool.pending (Pool.resume s.running i k)).filterMap (Section.waiting y)).length ≤ 1 ∧
          ∀ lines ∈ (Pool.pending (Pool.resume s.running i k)).filterMap (Section.waiting y), lines ≠ [] := by
      intro k hk y
      have h1 := w.single y
      have h2 := w.whole.2 y
      rw [w.resume ha hk y] at h1 h2
      rw [length_append] at h1
      exact ⟨by omega, (forall_mem_append.mp h2).2⟩
    cases a with
    | number z lines =>
      have hk : ∀ b ∈ [Section.publish ⟨z, s.seqNum + 1, lines⟩], ∀ y, b.waiting y = none := by
        simp [Section.waiting]
      have hn : numbered ((s, .advance i true) :: hist) = numbered hist ++ [⟨z, s.seqNum + 1, lines⟩] := by
        simp [numbered, numbers, ha]
      have hsent := (pending_resume (k := [.publish ⟨z, s.seqNum + 1, lines⟩]) ha).filterMap Section.chunk
      have hz : lines ∈ s.waiting z := by simp [w.resume ha hk z, Section.waiting]
      refine ⟨fun y => ?_, fun y => (hwait hk y).1, ?_, ?_, ⟨?_, fun y => (hwait hk y).2⟩, w.drained⟩
      · rw [hn, handled, ← w.lines y, w.resume ha hk y]
        by_cases h : z = y <;> simp [Section.waiting, State.waiting, handles, h]
      · rw [hn, map_append, w.seqs, range'_1_concat, Nat.add_comm 1]
        rfl
      · rw [hn]
        simp only [filterMap_cons, Section.chunk, singleton_append] at hsent
        refine (hsent.append_left _).trans ?_
        exact perm_middle.trans ((w.sent.cons _).trans (perm_append_singleton _ _).symm)
      · rw [hn]
        exact forall_mem_append.mpr ⟨w.whole.1, by simpa using w.whole.2 z lines hz⟩
    | publish c =>
      have hk : ∀ b ∈ ([] : List Section), ∀ y, b.waiting y = none := nofun
      have hsent := (pending_resume (k := []) ha).filterMap Section.chunk
      have hn : numbered ((s, .advance i true) :: hist) = numbered hist := by simp [numbered, numbers, ha]
      refine ⟨fun y => ?_, fun y => (hwait hk y).1, ?_, ?_, ⟨?_, fun y => (hwait hk y).2⟩, w.drained⟩
      · rw [hn, handled, ← w.lines y, w.resume ha hk y]
        simp [Section.waiting, State.waiting, handles]
      · rw [hn, w.seqs]
      · rw [hn]
        simp only [filterMap_cons, Section.chunk, nil_append] at hsent
        simpa using (hsent.append_left s.published).trans w.sent
      · rw [hn]
        exact w.whole.1

lemma Flow.next (w : Flow hist s) (en : Enabled s l) (ord : Orderly cfg s l) :
    Flow ((s, l) :: hist) (s.next cfg l) := by
  cases l with
  | handleLine x line => exact w.handleLine en.1 ord
  | drain x => exact w.drain ord rfl fun _ => rfl
  | flushLogs =>
    have w' := w.still (l := .flushLogs) rfl fun _ => rfl
    refine { w' with drained := fun rest hr y hy => ?_ }
    cases hr
    cases y <;> simp at hy
  | finalDrain =>
    rw [State.next]
    split
    next x rest hf =>
      have w' := w.drain (x := x) (l := .finalDrain) (fun _ => by simp [State.waiting, en.2]) rfl fun _ => rfl
      refine { w' with drained := fun rest' hr y hy => ?_ }
      cases hr
      by_cases h : y = x
      · subst h
        simp only [State.drainBuf]
        split
        · assumption
        · simp [State.take]
      · have hy' := w.drained _ hf y (by simp [h, hy])
        simp only [State.drainBuf]
        split <;> simp [State.take, update_of_ne h, hy']
    · exact w.still rfl fun _ => rfl
  | advance i delivered =>
    obtain rfl : delivered = true := ord
    exact w.advance i

lemma flow_run (run : Run (orderly cfg) hist s) : Flow hist s := by
  induction run with
  | start =>
    exact ⟨fun _ => rfl, fun _ => Nat.zero_le _, rfl, .refl _, by simp [numbered, State.waiting, orderly,
      System.guarded, streamer, Pool.pending], fun _ _ _ _ => rfl⟩
  | step l _ en ih => exact ih.next en.1 en.2

lemma newline_free (run : Run (orderly cfg) hist s) (x : Stream) : ∀ line ∈ handled x hist, newline ∉ line := by
  induction run with
  | start => nofun
  | step l _ en ih =>
    refine forall_mem_append.mpr ⟨ih, ?_⟩
    cases l with
    | handleLine y line =>
      rw [handles]
      split
      · simpa using en.1.2
      · nofun
    | _ => nofun

def Chunk.Before (a b : Chunk) : Prop := a.seqNum ≤ b.seqNum
deriving Decidable

instance : Std.Total Chunk.Before := ⟨fun _ _ => Nat.le_total _ _⟩
instance : IsTrans Chunk Chunk.Before := ⟨fun _ _ _ => Nat.le_trans⟩

def State.output (s : State) (x : Stream) : List Bytes :=
  ((s.published.filter (·.stream = x)).insertionSort Chunk.Before).flatMap fun c => c.data.splitOn newline

lemma insertionSort_numbered {cs log : List Chunk} (hperm : cs ~ log)
    (hlog : log.Pairwise fun a b => a.seqNum < b.seqNum) : cs.insertionSort Chunk.Before = log := by
  have hp := (perm_insertionSort Chunk.Before cs).trans hperm
  refine hp.eq_of_pairwise (fun a b ha hb hab hba => ?_) (pairwise_insertionSort _ cs) (hlog.imp Nat.le_of_lt)
  exact inj_on_of_nodup_map (f := Chunk.seqNum) (pairwise_map.mpr (hlog.imp Nat.ne_of_lt)) (hp.subset ha) hb
    (Nat.le_antisymm hab hba)

/-- The chunks of a stream, sorted by number and split, are the lines handled, in their order. -/
theorem log_order (run : Run (orderly cfg) hist s) (flushed : s.Flushed) (x : Stream)
    (text : ∀ line ∈ handled x hist, IsUTF8 line) : s.output x = handled x hist := by
  have w := flow_run run
  have hlines := w.lines x
  have hwait : s.waiting x = [] := by simp [State.waiting, flushed.2]
  rw [hwait, w.drained [] flushed.1 x not_mem_nil, flatten_nil, append_nil, append_nil] at hlines
  have hperm : s.published ~ numbered hist := by simpa [flushed.2] using w.sent
  have hlog : (numbered hist).Pairwise fun a b => a.seqNum < b.seqNum := by
    rw [← pairwise_map (f := Chunk.seqNum) (R := (· < ·)), w.seqs]
    exact pairwise_lt_range' 1
  rw [State.output, insertionSort_numbered (hperm.filter _) (hlog.filter _), ← hlines]
  refine flatMap_congr fun c hc => ?_
  have hmem : ∀ line ∈ c.lines, line ∈ handled x hist := fun line hm => hlines ▸ mem_flatMap.mpr ⟨c, hc, hm⟩
  have hsep : IsUTF8 [newline] := ⟨['\n'], rfl⟩
  rw [Chunk.data, jsonText_of_isUTF8 (hsep.intercalate fun line hm => text line (hmem line hm))]
  exact splitOn_intercalate newline (fun line hm => newline_free run x line (hmem line hm))
    (w.whole.1 c (mem_of_mem_filter hc))

/-! ## Three lines -/

instance (s : State) : (l : Label) → Decidable (Enabled s l)
  | .handleLine .. | .flushLogs | .finalDrain => inferInstanceAs (Decidable (_ ∧ _))
  | .drain _ => inferInstanceAs (Decidable (_ = _))
  | .advance .. => isTrue trivial
instance (cfg : Config) (s : State) : (l : Label) → Decidable (Orderly cfg s l)
  | .handleLine .. | .drain _ => inferInstanceAs (Decidable (_ → _))
  | .advance .. => inferInstanceAs (Decidable (_ = _))
  | .flushLogs | .finalDrain => isTrue trivial

instance (cfg : Config) (hist : List (State × Label)) (s : State) (l : Label) :
    Decidable ((streamer cfg).enabled hist s l) :=
  inferInstanceAs (Decidable (Enabled s l))
instance (cfg : Config) (hist : List (State × Label)) (s : State) (l : Label) :
    Decidable ((orderly cfg).enabled hist s l) :=
  inferInstanceAs (Decidable (_ ∧ _))

def pairs : Config := ⟨2, 16384⟩
def closing : List Label := [.flushLogs, .finalDrain, .finalDrain]
def inTurn : List Label :=
  [.handleLine .stdout [1], .drain .stdout, .advance 0 true, .handleLine .stdout [2], .handleLine .stdout [3],
    .advance 1 true, .advance 1 true, .advance 0 true] ++ closing

theorem log_order_in_turn :
    ((orderly pairs).exec inTurn [] (orderly pairs).init).2.output .stdout = [[1], [2], [3]] := by
  have run := Run.start.exec (show (orderly pairs).Permits inTurn [] _ by decide +kernel)
  have lines : handled .stdout ((orderly pairs).exec inTurn [] (orderly pairs).init).1 = ["\x01", "\x02", "\x03"].map
      fun line => utf8 line.toList := by
    decide +kernel
  rw [log_order run ⟨by decide +kernel, by decide +kernel⟩ .stdout fun line hm => ?_, lines]
  · rfl
  · rw [lines] at hm
    obtain ⟨t, -, rfl⟩ := mem_map.mp hm
    exact ⟨t.toList, rfl⟩

def outOfTurn : List Label :=
  [.handleLine .stdout [1], .drain .stdout, .handleLine .stdout [2], .handleLine .stdout [3],
    .advance 1 true, .advance 1 true, .advance 0 true, .advance 0 true] ++ closing

theorem late_number_reorders :
    ∃ hist s, Run (streamer pairs) hist s ∧ s.Flushed ∧ handled .stdout hist = [[1], [2], [3]] ∧
      s.output .stdout = [[2], [3], [1]] := by
  have run := Run.start.exec (show (streamer pairs).Permits outOfTurn [] _ by decide +kernel)
  exact ⟨_, _, run, ⟨by decide +kernel, by decide +kernel⟩, by decide +kernel, by decide +kernel⟩

end Sqi.LogStream
