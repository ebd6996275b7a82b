import Sqi.Lib.Table

/-! Programs over a state that may fail, and rules of pre- and postconditions for them. -/

namespace Program
open List
variable {ε S α β : Type}
variable {f : α → Except ε β} {as : List α} {bs : List β} {x : Except ε α}

lemma except_bind_eq_ok {b : β} : x >>= f = .ok b ↔ ∃ a, x = .ok a ∧ f a = .ok b := by
  cases x <;> simp [bind, Except.bind]
lemma except_bind_eq_error {e : ε} : x >>= f = .error e ↔ x = .error e ∨ ∃ a, x = .ok a ∧ f a = .error e := by
  cases x <;> simp [bind, Except.bind]

lemma mapM_eq_error {e : ε} (h : as.mapM f = .error e) : ∃ a ∈ as, f a = .error e := by
  induction as with
  | nil => cases h
  | cons a as ih =>
    rw [mapM_cons] at h
    rcases except_bind_eq_error.mp h with ha | ⟨b, _, h⟩
    · exact ⟨a, mem_cons_self, ha⟩
    rcases except_bind_eq_error.mp h with has | ⟨bs, _, h⟩
    · obtain ⟨c, hc, hfc⟩ := ih has
      exact ⟨c, mem_cons_of_mem a hc, hfc⟩
    · cases h

lemma mapM_eq_ok (h : as.mapM f = .ok bs) : Forall₂ (fun a b => f a = .ok b) as bs := by
  induction as generalizing bs with
  | nil =>
    cases h
    exact .nil
  | cons a as ih =>
    rw [mapM_cons] at h
    obtain ⟨b, hb, h⟩ := except_bind_eq_ok.mp h
    obtain ⟨rest, hrest, h⟩ := except_bind_eq_ok.mp h
    cases h
    exact .cons hb (ih hrest)

lemma exists_of_mem_mapM (h : as.mapM f = .ok bs) {b : β} (hb : b ∈ bs) : ∃ a ∈ as, f a = .ok b :=
  Table.of_mem_right (mapM_eq_ok h) hb
lemma exists_ok_of_mem_mapM (h : as.mapM f = .ok bs) {a : α} (ha : a ∈ as) : ∃ b ∈ bs, f a = .ok b :=
  Table.of_mem_left (mapM_eq_ok h) ha

def Prog (ε S α : Type) : Type := S → Except ε α × S

namespace Prog

instance : Monad (Prog ε S) where
  pure a := fun s => (.ok a, s)
  bind x f := fun s =>
    match x s with
    | (.ok a, s') => f a s'
    | (.error e, s') => (.error e, s')

def tx (f : S → Except ε α × S) : Prog ε S α := f
def lift (f : S → α × S) : Prog ε S α := fun s => (.ok (f s).1, (f s).2)
def read (f : S → α) : Prog ε S α := fun s => (.ok (f s), s)
def fail (e : ε) : Prog ε S α := fun s => (.error e, s)
def quiet (m : Prog ε S α) : Prog ε S Unit := fun s => (.ok (), (m s).2)
def attempt (m : Prog ε S α) : Prog ε S (Except ε α) := fun s => (.ok (m s).1, (m s).2)
def ofExcept (r : Except ε α) : Prog ε S α := fun s => (r, s)
def each (f : α → Prog ε S Unit) : List α → Prog ε S Unit
  | [] => pure ()
  | a :: as => do f a; each f as

@[simp] lemma pure_apply (a : α) (s : S) : (pure a : Prog ε S α) s = (.ok a, s) := rfl
@[simp] lemma lift_apply (f : S → α × S) (s : S) : (lift f : Prog ε S α) s = (.ok (f s).1, (f s).2) := rfl
@[simp] lemma fail_apply (e : ε) (s : S) : (fail e : Prog ε S α) s = (.error e, s) := rfl
@[simp] lemma quiet_apply (m : Prog ε S α) (s : S) : quiet m s = (.ok (), (m s).2) := rfl
@[simp] lemma attempt_apply (m : Prog ε S α) (s : S) : attempt m s = (.ok (m s).1, (m s).2) := rfl
@[simp] lemma ofExcept_apply (r : Except ε α) (s : S) : (ofExcept r : Prog ε S α) s = (r, s) := rfl

variable {f : α → Prog ε S β} {s s' : S} {x : S → Except ε α × S} {x : Prog ε S α} {as : List α}

lemma bind_ok {a : α} (h : x s = (.ok a, s')) : (x >>= f) s = f a s' := by
  change (match x s with
    | (.ok a, s') => f a s'
    | (.error e, s') => (.error e, s')) = _
  rw [h]

lemma bind_error {e : ε} (h : x s = (.error e, s')) : (x >>= f) s = (.error e, s') := by
  change (match x s with
    | (.ok a, s') => f a s'
    | (.error e, s') => (.error e, s')) = _
  rw [h]

lemma tx_bind_ok {a : α} (h : x s = (.ok a, s')) : (tx x >>= f) s = f a s' := bind_ok h
lemma tx_bind_error {e : ε} (h : x s = (.error e, s')) : (tx x >>= f) s = (.error e, s') := bind_error h
@[simp] lemma read_bind (f : S → α) (g : α → Prog ε S β) (s : S) : (read f >>= g) s = g (f s) s := rfl
@[simp] lemma lift_bind (f : S → α × S) (g : α → Prog ε S β) (s : S) :
    (lift f >>= g) s = g (f s).1 (f s).2 := rfl

lemma each_congr {f g : α → Prog ε S Unit} {I : S → Prop}
    (step : ∀ a ∈ as, ∀ s, I s → f a s = g a s ∧ I (f a s).2) (h : I s) : each f as s = each g as s := by
  induction as generalizing s with
  | nil => rfl
  | cons a as ih =>
    obtain ⟨heq, hI⟩ := step a mem_cons_self s h
    have hrest := fun b hb => step b (mem_cons_of_mem a hb)
    cases hr : f a s with
    | mk r s' =>
      rw [hr] at heq hI
      cases r with
      | ok u => rw [each, each, bind_ok hr, bind_ok heq.symm, ih hrest hI]
      | error e => rw [each, each, bind_error hr, bind_error heq.symm]

lemma each_idle {f : α → Prog ε S Unit} (h : ∀ a ∈ as, f a s = (.ok (), s)) : each f as s = (.ok (), s) := by
  induction as with
  | nil => rfl
  | cons a as ih =>
    rw [each, bind_ok (h a mem_cons_self)]
    exact ih fun b hb => h b (mem_cons_of_mem _ hb)

def Yields (m : Prog ε S α) (s : S) (Q : Except ε α → S → Prop) : Prop := Q (m s).1 (m s).2

namespace Yields
variable {s : S} {f : α → Prog ε S Unit} {I : S → Prop} {as : List α}

lemma imp {m : Prog ε S α} {Q R : Except ε α → S → Prop} (h : Yields m s Q)
    (hQR : ∀ r s', Q r s' → R r s') : Yields m s R := hQR _ _ h

lemma bind {x : Prog ε S α} {f : α → Prog ε S β} {R : Except ε α → S → Prop}
    {Q : Except ε β → S → Prop} (hx : Yields x s R)
    (hf : ∀ a s', R (.ok a) s' → Yields (f a) s' Q)
    (he : ∀ e s', R (.error e) s' → Q (.error e) s') : Yields (x >>= f) s Q := by
  unfold Yields at *
  cases hr : x s with
  | mk r s' =>
    rw [hr] at hx
    cases r with
    | ok a =>
      rw [bind_ok hr]
      exact hf a s' hx
    | error e =>
      rw [bind_error hr]
      exact he e s' hx

lemma each (step : ∀ a ∈ as, ∀ s, I s → Yields (f a) s fun _ s' => I s') (h : I s) :
    Yields (each f as) s fun _ s' => I s' := by
  induction as generalizing s with
  | nil => exact h
  | cons a as ih =>
    refine bind (step a mem_cons_self s h) (fun _ s' hs' => ?_) fun _ _ hs' => hs'
    exact ih (fun b hb => step b (mem_cons_of_mem _ hb)) hs'

lemma each_settles {D : α → S → Prop} (step : ∀ a ∈ as, ∀ s, I s → Yields (f a) s fun r s' =>
    r = .ok () ∧ I s' ∧ D a s' ∧ ∀ b, D b s → D b s') (h : I s) :
    Yields (Prog.each f as) s fun r s' =>
    r = .ok () ∧ I s' ∧ (∀ a ∈ as, D a s') ∧ ∀ b, D b s → D b s' := by
  induction as generalizing s with
  | nil => exact ⟨rfl, h, nofun, fun _ hb => hb⟩
  | cons a as ih =>
    refine bind (step a mem_cons_self s h) ?_ ?_
    · rintro _ s' ⟨_, hI, hD, hkeep⟩
      refine (ih (fun b hb => step b (mem_cons_of_mem _ hb)) hI).imp ?_
      rintro r s'' ⟨hr, hI', hall, hkeep'⟩
      refine ⟨hr, hI', fun b hb => ?_, fun b hb => hkeep' b (hkeep b hb)⟩
      rcases mem_cons.mp hb with rfl | hb
      · exact hkeep' _ hD
      · exact hall b hb
    · rintro e s' ⟨hr, _⟩
      cases hr

end Yields

def Keeps (I : S → Prop) (m : Prog ε S α) : Prop := ∀ s, I s → I (m s).2

namespace Keeps
variable {I : S → Prop}

lemma pure (a : α) : Keeps I (pure a : Prog ε S α) := fun _ h => h
lemma fail (e : ε) : Keeps I (fail e : Prog ε S α) := fun _ h => h
lemma read (f : S → α) : Keeps I (read f : Prog ε S α) := fun _ h => h
lemma lift {f : S → α × S} (h : ∀ s, I s → I (f s).2) : Keeps I (lift f : Prog ε S α) := h
lemma quiet {m : Prog ε S α} (h : Keeps I m) : Keeps I (quiet m) := h
lemma bind {x : Prog ε S α} {f : α → Prog ε S β} (hx : Keeps I x) (hf : ∀ a, Keeps I (f a)) :
    Keeps I (x >>= f) := fun s h =>
  Yields.bind (R := fun _ s => I s) (Q := fun _ s => I s) (hx s h) (fun a s' hs' => hf a s' hs')
    fun _ _ hs' => hs'
lemma each {f : α → Prog ε S Unit} (h : ∀ a, Keeps I (f a)) (as : List α) : Keeps I (each f as) :=
  fun _ hs => Yields.each (fun a _ s hs => h a s hs) hs

end Keeps

end Prog
end Program
