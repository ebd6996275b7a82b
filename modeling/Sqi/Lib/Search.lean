import Mathlib.Logic.Relation
import Mathlib.Order.Basic
import Mathlib.Data.List.Basic

/-! Coloured depth-first search for a cycle. -/

namespace Search
open List Option Relation

inductive Colour where
  | white
  | gray
  | black
deriving DecidableEq

structure State (α : Type*) where
  colour : α → Colour
  cycle : Option α

variable {α : Type*} {next : α → List α}

def State.start : State α := ⟨fun _ => .white, none⟩
def Edge (next : α → List α) (a b : α) : Prop := b ∈ next a

/-! ## What a search says of the graph -/

structure Clean (next : α → List α) (st : State α) : Prop where
  none : st.cycle = none
  closed : ∀ a, st.colour a = .black → ∀ b ∈ next a, st.colour b = .black
  acyclic : ∀ a, st.colour a = .black → ¬ TransGen (Edge next) a a

def Found (next : α → List α) (st : State α) : Prop :=
  ∃ a, st.cycle = some a ∧ TransGen (Edge next) a a

structure Explored (next : α → List α) (st : State α) (as : List α) (st' : State α) : Prop where
  clean : Clean next st'
  gray : ∀ a, st'.colour a = .gray ↔ st.colour a = .gray
  black : ∀ a, st.colour a = .black → st'.colour a = .black
  visited : ∀ a ∈ as, st'.colour a = .black

def Leads (next : α → List α) (st : State α) (a : α) : Prop :=
  ∀ g, st.colour g = .gray → TransGen (Edge next) g a

lemma Clean.start : Clean next (State.start : State α) :=
  ⟨rfl, fun _ h => Colour.noConfusion h, fun _ h => Colour.noConfusion h⟩
lemma Leads.start (a : α) : Leads next State.start a := fun _ h => Colour.noConfusion h

variable {st st' : State α} {a b : α} {as nodes : List α} {n : Nat}

lemma Clean.black_of_reach (h : Clean next st) (ha : st.colour a = .black)
    (hab : ReflTransGen (Edge next) a b) : st.colour b = .black := by
  induction hab with
  | refl => exact ha
  | tail _ hedge ih => exact h.closed _ ih _ hedge

lemma Explored.trans {st'' : State α} (h : Explored next st [a] st')
    (h' : Explored next st' as st'') : Explored next st (a :: as) st'' where
  clean := h'.clean
  gray b := (h'.gray b).trans (h.gray b)
  black b hb := h'.black b (h.black b hb)
  visited := forall_mem_cons.mpr ⟨h'.black a (h.visited a mem_cons_self), h'.visited⟩

def State.whites (st : State α) (nodes : List α) : Nat := nodes.countP fun a => st.colour a = .white

lemma State.whites_le (nodes : List α)
    (h : ∀ a, st'.colour a = .white → st.colour a = .white) : st'.whites nodes ≤ st.whites nodes := by
  unfold whites
  exact countP_mono_left fun a _ ha => by simpa using h a (by simpa using ha)

variable [DecidableEq α]

def State.paint (st : State α) (a : α) (c : Colour) : State α :=
  { st with colour := fun b => if b = a then c else st.colour b }

def visit (next : α → List α) : Nat → α → State α → Option (State α)
  | 0, _, _ => none
  | n + 1, a, st =>
    if st.cycle.isSome then some st
    else
      match st.colour a with
      | .gray => some { st with cycle := some a }
      | .black => some st
      | .white =>
        ((next a).foldlM (fun st b => visit next n b st) (st.paint a .gray)).map fun st => st.paint a .black

def visitAll (next : α → List α) (n : Nat) (as : List α) (st : State α) : Option (State α) :=
  as.foldlM (fun st a => visit next n a st) st

lemma State.paint_self (st : State α) (a : α) (c : Colour) : (st.paint a c).colour a = c := if_pos rfl
lemma State.paint_of_ne (st : State α) (h : b ≠ a) (c : Colour) :
    (st.paint a c).colour b = st.colour b := if_neg h
lemma visitAll_cons (n : Nat) (a : α) (as : List α) (st : State α) :
    visitAll next n (a :: as) st = (visit next n a st).bind (visitAll next n as) := foldlM_cons

/-! ## What it finds -/

lemma Clean.enter (h : Clean next st) (ha : st.colour a = .white) : Clean next (st.paint a .gray) := by
  have black : ∀ b, (st.paint a .gray).colour b = .black ↔ st.colour b = .black := by
    intro b
    rcases eq_or_ne b a with rfl | hne
    · rw [State.paint_self, ha]
      exact ⟨Colour.noConfusion, Colour.noConfusion⟩
    · rw [State.paint_of_ne st hne]
  refine ⟨h.none, fun b hb c hc => ?_, fun b hb => h.acyclic b ((black b).mp hb)⟩
  exact (black c).mpr (h.closed b ((black b).mp hb) c hc)

lemma Leads.enter (h : Leads next st a) (hb : b ∈ next a) : Leads next (st.paint a .gray) b := by
  intro g hg
  rcases eq_or_ne g a with rfl | hne
  · exact .single hb
  · rw [State.paint_of_ne st hne] at hg
    exact (h g hg).tail hb

lemma Explored.leave (ha : st.colour a = .white)
    (h : Explored next (st.paint a .gray) (next a) st') : Explored next st [a] (st'.paint a .black) := by
  have hgray : st'.colour a = .gray := (h.gray a).mpr (State.paint_self st a .gray)
  have keeps : ∀ b, st'.colour b = .black → (st'.paint a .black).colour b = .black := by
    intro b hb
    rcases eq_or_ne b a with rfl | hne
    · exact State.paint_self st' b .black
    · rwa [State.paint_of_ne st' hne]
  refine ⟨⟨h.clean.none, fun b hb c hc => ?_, fun b hb hcycle => ?_⟩, fun b => ?_, fun b hb => ?_, fun b hb => ?_⟩
  · rcases eq_or_ne b a with rfl | hne
    · exact keeps c (h.visited c hc)
    · rw [State.paint_of_ne st' hne] at hb
      exact keeps c (h.clean.closed b hb c hc)
  · rcases eq_or_ne b a with rfl | hne
    · obtain ⟨c, hc, hback⟩ := TransGen.head'_iff.mp hcycle
      have hblack := h.clean.black_of_reach (h.visited c hc) hback
      rw [hgray] at hblack
      cases hblack
    · rw [State.paint_of_ne st' hne] at hb
      exact h.clean.acyclic b hb hcycle
  · rcases eq_or_ne b a with rfl | hne
    · rw [State.paint_self, ha]
      exact ⟨Colour.noConfusion, Colour.noConfusion⟩
    · rw [State.paint_of_ne st' hne, h.gray, State.paint_of_ne st hne]
  · refine keeps b (h.black b ?_)
    rwa [State.paint_of_ne st]
    rintro rfl
    rw [ha] at hb
    cases hb
  · rw [mem_singleton.mp hb]
    exact State.paint_self st' a .black

lemma visit_of_cycle (hc : st.cycle.isSome = true) (h : visit next n a st = some st') : st' = st := by
  cases n with
  | zero => cases h
  | succ n =>
    rw [visit, if_pos hc] at h
    exact (some.inj h).symm

lemma visitAll_of_cycle (hc : st.cycle.isSome = true) (h : visitAll next n as st = some st') : st' = st := by
  induction as with
  | nil => exact (some.inj h).symm
  | cons a as ih =>
    rw [visitAll_cons] at h
    obtain ⟨st1, hvisit, hrest⟩ := bind_eq_some_iff.mp h
    rw [visit_of_cycle hc hvisit] at hrest
    exact ih hrest

lemma visitAll_spec
    (hvisit : ∀ {a : α} {st st' : State α}, visit next n a st = some st' → Clean next st → Leads next st a →
      Found next st' ∨ Explored next st [a] st')
    (h : visitAll next n as st = some st') (hclean : Clean next st)
    (hleads : ∀ a ∈ as, Leads next st a) : Found next st' ∨ Explored next st as st' := by
  induction as generalizing st with
  | nil =>
    cases h
    exact .inr ⟨hclean, fun _ => Iff.rfl, fun _ hb => hb, fun _ hb => absurd hb not_mem_nil⟩
  | cons a as ih =>
    rw [visitAll_cons] at h
    obtain ⟨st1, hfirst, hrest⟩ := bind_eq_some_iff.mp h
    obtain ⟨hlead, hleads⟩ := forall_mem_cons.mp hleads
    rcases hvisit hfirst hclean hlead with ⟨c, hc, hcycle⟩ | hexp
    · rw [visitAll_of_cycle (by rw [hc]; rfl) hrest]
      exact .inl ⟨c, hc, hcycle⟩
    · have hleads' : ∀ b ∈ as, Leads next st1 b := fun b hb g hg => hleads b hb g ((hexp.gray g).mp hg)
      exact (ih hrest hexp.clean hleads').imp_right hexp.trans

lemma visit_spec (n : Nat) (h : visit next n a st = some st') (hclean : Clean next st)
    (hleads : Leads next st a) : Found next st' ∨ Explored next st [a] st' := by
  induction n generalizing a st st' with
  | zero => cases h
  | succ n ih =>
    rw [visit, hclean.none] at h
    cases hcolour : st.colour a with
    | gray =>
      rw [hcolour] at h
      obtain rfl := some.inj h
      exact .inl ⟨a, rfl, hleads a hcolour⟩
    | black =>
      rw [hcolour] at h
      obtain rfl := some.inj h
      refine .inr ⟨hclean, fun _ => Iff.rfl, fun _ hb => hb, fun b hb => ?_⟩
      rwa [mem_singleton.mp hb]
    | white =>
      rw [hcolour] at h
      obtain ⟨st1, hall, rfl⟩ := map_eq_some_iff.mp h
      rcases visitAll_spec ih hall (hclean.enter hcolour) fun b hb => hleads.enter hb with hfound | hexp
      · exact .inl hfound
      · exact .inr (hexp.leave hcolour)

lemma cycle_iff (h : visitAll next n as State.start = some st) (hall : ∀ a, next a ≠ [] → a ∈ as) :
    (st.cycle.isSome = true ↔ ∃ a, TransGen (Edge next) a a) ∧ ∀ a, st.cycle = some a → TransGen (Edge next) a a := by
  rcases visitAll_spec (visit_spec n) h Clean.start fun a _ => Leads.start a with ⟨c, hc, hcycle⟩ | hexp
  · refine ⟨⟨fun _ => ⟨c, hcycle⟩, fun _ => by rw [hc]; rfl⟩, fun a ha => ?_⟩
    rw [hc] at ha
    rwa [← some.inj ha]
  rw [hexp.clean.none]
  refine ⟨⟨fun hsome => Bool.noConfusion hsome, ?_⟩, fun a ha => by cases ha⟩
  rintro ⟨a, hcycle⟩
  obtain ⟨b, hb, -⟩ := TransGen.head'_iff.mp hcycle
  have hne : next a ≠ [] := fun hnil => by
    rw [Edge, hnil] at hb
    cases hb
  exact absurd hcycle (hexp.clean.acyclic a (hexp.visited a (hall a hne)))

lemma State.whites_enter (ha : a ∈ nodes) (hw : st.colour a = .white) :
    (st.paint a .gray).whites nodes < st.whites nodes := by
  have fewer : ∀ b, (st.paint a .gray).colour b = .white → st.colour b = .white := by
    intro b hb
    rcases eq_or_ne b a with rfl | hne
    · exact hw
    · rwa [State.paint_of_ne st hne] at hb
  obtain ⟨l, r, rfl⟩ := append_of_mem ha
  have hl := State.whites_le l fewer
  have hr := State.whites_le r fewer
  simp only [State.whites, countP_append, countP_cons, State.paint_self, hw] at hl hr ⊢
  rw [if_neg (by decide), if_pos (by decide)]
  omega

lemma visitAll_total_of (hvisit : ∀ {a : α} {st : State α}, st.whites nodes < n →
      ∃ st', visit next n a st = some st' ∧ ∀ b, st'.colour b = .white → st.colour b = .white)
    (as : List α) (h : st.whites nodes < n) :
    ∃ st', visitAll next n as st = some st' ∧ ∀ b, st'.colour b = .white → st.colour b = .white := by
  induction as generalizing st with
  | nil => exact ⟨st, rfl, fun _ hb => hb⟩
  | cons a as ih =>
    obtain ⟨st1, hfirst, hwhite⟩ := hvisit (a := a) h
    obtain ⟨st2, hrest, hwhite'⟩ := ih (Nat.lt_of_le_of_lt (State.whites_le nodes hwhite) h)
    exact ⟨st2, by rw [visitAll_cons, hfirst, bind_some, hrest], fun b hb => hwhite b (hwhite' b hb)⟩

lemma visit_total (hall : ∀ a, next a ≠ [] → a ∈ nodes) (n : Nat) (h : st.whites nodes < n) :
    ∃ st', visit next n a st = some st' ∧ ∀ b, st'.colour b = .white → st.colour b = .white := by
  induction n generalizing a st with
  | zero => omega
  | succ n ih =>
    rw [visit]
    split
    · exact ⟨st, rfl, fun _ hb => hb⟩
    split
    · exact ⟨_, rfl, fun _ hb => hb⟩
    · exact ⟨st, rfl, fun _ hb => hb⟩
    rename_i hwhite
    have inner : ∃ st', visitAll next n (next a) (st.paint a .gray) = some st' ∧
        ∀ b, st'.colour b = .white → (st.paint a .gray).colour b = .white := by
      rcases eq_or_ne (next a) [] with hnil | hne
      · rw [hnil]
        exact ⟨_, rfl, fun _ hb => hb⟩
      · have hless := State.whites_enter (hall a hne) hwhite
        exact visitAll_total_of ih (next a) (by omega)
    obtain ⟨st', hvisit, hkept⟩ := inner
    refine ⟨st'.paint a .black, map_eq_some_iff.mpr ⟨st', hvisit, rfl⟩, fun b hb => ?_⟩
    rcases eq_or_ne b a with rfl | hne
    · exact hwhite
    · rw [State.paint_of_ne st' hne] at hb
      have := hkept b hb
      rwa [State.paint_of_ne st hne] at this

lemma visitAll_total (hall : ∀ a, next a ≠ [] → a ∈ nodes) (hn : nodes.length < n)
    (as : List α) : ∃ st, visitAll next n as State.start = some st := by
  have hwhites : (State.start : State α).whites nodes < n := Nat.lt_of_le_of_lt countP_le_length hn
  obtain ⟨st, hst, -⟩ := visitAll_total_of (visit_total hall n) as hwhites
  exact ⟨st, hst⟩

end Search
