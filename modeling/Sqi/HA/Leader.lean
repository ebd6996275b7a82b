import Mathlib.Algebra.GroupWithZero.Nat
import Sqi.HA.Token

/-! At most one elector is authorized. -/

namespace Sqi.HA
open Cluster Transition

/-! ## What an elector does by itself -/

section
variable {n : Nat} {g : Group n} {s : Cluster n} {i : Fin n} {e e' : Elector} {epoch : Epoch}
  {ans : Nat → Option Answer} {t : Int}

def Phase.Calm (ans : Nat → Option Answer) : Phase → Prop
  | .winning .. => False
  | .acquiring k _ => ans k = none
  | .holding h => ∀ k t, h.inFlight = some (k, t) → ans k = none
  | _ => True

lemma Phase.Calm.not_incoming (h : e.phase.Calm ans) : ¬ e.Incoming ans epoch t := by
  intro hin
  cases hin with
  | winning hp =>
    rw [hp] at h
    exact h
  | acquired hp ha =>
    rw [hp] at h
    exact nomatch ha.symm.trans h

lemma Elector.Token.incoming_of_not_leading
    (h : e.Token ans epoch t) (h0 : e.epoch = 0) : e.Incoming ans epoch t := by
  cases h with
  | leads h => exact absurd h0 h
  | renewed h => exact absurd h0 h
  | incoming h => exact h

lemma Elector.Moves.calm (sent : e'.phase.Sent g s i) (inHold : e'.InHold)
    (won_le : e'.won ≤ s.row.epoch) (calm : e'.phase.Calm s.answer)
    (leads : e'.epoch ≠ 0 → e.Token s.answer e'.epoch e'.authAt ∧
      (e.phase.SteppingDown → e'.phase.SteppingDown)) : Elector.Moves g s i e e' where
  sent := sent
  inHold := inHold
  won_le := won_le
  token := by
    intro epoch t h
    cases h with
    | leads h => exact leads h
    | renewed h hp hf ha =>
      rw [hp] at calm
      exact nomatch ha.symm.trans (calm _ _ hf)
    | incoming h => exact absurd h calm.not_incoming
  incoming := fun epoch t h => absurd h calm.not_incoming

lemma Elector.Moves.in_phase (inv : ElectorInv g s i e) (hp : e'.phase = e.phase)
    (hl : e'.epoch = 0 ∨ e'.epoch = e.epoch ∧ e'.authAt = e.authAt ∧ e'.lost = e.lost)
    (hw : e'.won ≤ e.won) : Elector.Moves g s i e e' where
  sent := hp ▸ inv.sent
  inHold := by
    have old := inv.inHold
    unfold Elector.InHold at old ⊢
    rw [hp]
    rcases hl with h0 | ⟨he, _, hlost⟩
    · rw [h0]
      split <;> simp
    · rwa [he, hlost]
  won_le := le_trans hw inv.won_le
  token := by
    intro epoch t h
    refine ⟨?_, fun h => hp ▸ h⟩
    cases h with
    | leads h =>
      rcases hl with h0 | ⟨he, ha, _⟩
      · exact absurd h0 h
      · rw [he, ha]
        exact .leads (he ▸ h)
    | renewed h hp' hf ha =>
      rcases hl with h0 | ⟨he, _⟩
      · exact absurd h0 h
      · rw [he]
        exact .renewed (he ▸ h) (hp ▸ hp') hf ha
    | incoming h =>
      cases h with
      | winning h => exact .incoming (.winning (hp ▸ h))
      | acquired h ha => exact .incoming (.acquired (hp ▸ h) ha)
  incoming := by
    intro epoch t h
    refine ⟨?_, ?_, hw⟩
    · cases h with
      | winning h => exact .winning (hp ▸ h)
      | acquired h ha => exact .acquired (hp ▸ h) ha
    · rcases hl with h0 | ⟨he, _⟩
      · exact h0 ▸ Nat.zero_le _
      · exact he.le

lemma Elector.observeBroker_eq (e : Elector) (up : Bool) (now : Int) :
    ∃ d, (e.observeBroker up now).2 = { e with downSince := d } := by
  unfold observeBroker
  split
  · exact ⟨none, rfl⟩
  · exact ⟨some (e.downSince.getD now), rfl⟩

lemma Elector.brokerLost_eq (e : Elector) (self : Nat) (ttl now : Int) (sight : BrokerSight) :
    ∃ d, (e.brokerLost self ttl now sight).2 = { e with downSince := d } := by
  obtain ⟨d, hd⟩ := e.observeBroker_eq sight.up now
  refine ⟨d, ?_⟩
  rw [← hd]
  unfold brokerLost
  split
  · rename_i h
    rw [h]
  rename_i h
  rw [h]
  repeat' split
  all_goals rfl

lemma Elector.markLost_cases (e : Elector) (r : Reason) :
    e.lost ≠ none ∧ e.markLost r = e ∨ e.markLost r = { e with lost := some r, epoch := 0 } := by
  unfold markLost
  split
  · rename_i r' h
    exact .inl ⟨by simp [h], rfl⟩
  · exact .inr rfl

lemma Cluster.answer_length (s : Cluster n) : s.answer s.requests.length = none := Calls.answer_length
section
variable (inv : LeaderInv g s)
include inv

lemma LeaderInv.leads_le
    (h : (s.electors i).Token s.answer epoch t) : epoch ≤ s.row.epoch :=
  inv.granted_le i epoch ((inv.elector i).granted epoch t h)
lemma LeaderInv.rest {p : Phase} {d : Option Int}
    (hs : ¬ (s.electors i).phase.SteppingDown) (hp : p = .idle ∨ p = .campaigning) :
    LeaderInv g (s.setElector i { s.electors i with downSince := d, phase := p }) := by
  refine inv.setElector (.calm ?_ ?_ (inv.elector i).won_le ?_ fun h => ⟨.leads h, fun h => absurd h hs⟩)
  all_goals rcases hp with rfl | rfl <;> trivial

lemma LeaderInv.returnLost (r : Reason)
    (hs : (s.electors i).phase.SteppingDown → (s.electors i).lost ≠ none → (s.electors i).epoch = 0) :
    LeaderInv g (s.setElector i { (s.electors i).markLost r with phase := .idle }) := by
  rcases (s.electors i).markLost_cases r with ⟨hlost, e⟩ | e
  · rw [e]
    exact inv.setElector (.calm trivial trivial (inv.elector i).won_le trivial
      fun h => ⟨.leads h, fun hstep => absurd (hs hstep hlost) h⟩)
  · rw [e]
    exact inv.setElector (.calm trivial trivial (inv.elector i).won_le trivial fun h => absurd rfl h)

lemma LeaderInv.campaign (i : Fin n) (up : Bool) : LeaderInv g (s.campaign g i up) := by
  unfold Cluster.campaign
  dsimp only
  split
  · rename_i hp
    have hs : ¬ (s.electors i).phase.SteppingDown := by
      rintro ⟨epoch, h⟩
      rw [h] at hp
      rcases hp with hp | hp <;> cases hp
    obtain ⟨d, hd⟩ := (s.electors i).observeBroker_eq up (s.clockNow g i)
    rw [hd]
    split
    · have sent : LeaderInv g (s.send i .acquire) := inv.send nofun
      refine sent.setElector (.calm ⟨le_rfl, none, Calls.getElem?_send_length⟩ trivial (inv.elector i).won_le ?_ ?_)
      · rw [send_answer]
        exact s.answer_length
      · rw [send_answer]
        exact fun h => ⟨.leads h, fun h => absurd h hs⟩
    · exact inv.rest hs (.inr rfl)
  · exact inv

lemma LeaderInv.acquired (i : Fin n) (answered : Bool) :
    LeaderInv g (s.acquired g i answered) := by
  unfold Cluster.acquired
  dsimp only
  split
  · rename_i k t0 hp
    have hs : ¬ (s.electors i).phase.SteppingDown := by
      rintro ⟨epoch, h⟩
      cases hp.symm.trans h
    have campaigns : LeaderInv g (s.setElector i { s.electors i with phase := .campaigning }) := inv.rest hs (.inr rfl)
    split
    · split
      · exact inv
      · rename_i epoch ha
        have hin : (s.electors i).Incoming s.answer epoch t0 := .acquired hp ha
        split
        · refine inv.setElector ⟨?_, trivial, (inv.elector i).won_le, ?_, ?_⟩
          · exact (inv.elector i).token_le (.incoming hin)
          · intro epoch' t h
            refine ⟨?_, fun h => absurd h hs⟩
            cases h with
            | leads h => exact .leads h
            | renewed _ hp' => cases hp'
            | incoming h =>
              cases h with
              | winning h =>
                cases h
                exact .incoming hin
              | acquired h => cases h
          · intro epoch' t h
            refine ⟨?_, le_rfl, le_rfl⟩
            cases h with
            | winning h =>
              cases h
              exact hin
            | acquired h => cases h
        · -- won too late: the epoch is released and was never led
          refine campaigns.send fun epoch' he => ?_
          cases he
          refine ⟨inv.leads_le (.incoming hin), ?_, ?_⟩
          · rw [setElector_self]
            intro epoch' t h
            exact absurd h (Phase.Calm.not_incoming (by trivial))
          rw [setElector_self]
          intro t h
          obtain ⟨hlt, _⟩ := (inv.elector i).fresh epoch t0 hin
          cases h with
          | leads h => exact absurd hlt (lt_irrefl _)
          | renewed _ hp' => cases hp'
          | incoming h => exact absurd h (Phase.Calm.not_incoming (by trivial))
      · exact campaigns
    · exact campaigns
  · exact inv

lemma LeaderInv.recordWin (i : Fin n) : LeaderInv g (s.recordWin i) := by
  unfold Cluster.recordWin
  dsimp only
  split
  · rename_i epoch t0 hp
    have htok : (s.electors i).Token s.answer epoch t0 := .incoming (.winning hp)
    refine inv.setElector (.calm trivial trivial (inv.leads_le htok) trivial fun _ => ⟨htok, ?_⟩)
    rintro ⟨epoch', h⟩
    cases hp.symm.trans h
  · exact inv

lemma LeaderInv.hold (i : Fin n) (epoch : Epoch) : LeaderInv g (s.hold g i epoch) := by
  unfold Cluster.hold
  dsimp only
  split
  · rename_i hidle
    have hflight : (Cluster.startHolding g i (s.electors i) epoch).inFlight = none := by
      unfold Cluster.startHolding
      split <;> rfl
    refine inv.setElector (.calm ?_ ?_ (inv.elector i).won_le ?_ fun h => ⟨.leads h, ?_⟩)
    · intro k t h
      rw [hflight] at h
      cases h
    · refine ⟨fun h => absurd hidle.2 h, fun h => .inr ?_⟩
      unfold Cluster.startHolding at h ⊢
      split
      · rename_i hown
        exact hown.2.symm
      · rename_i hown
        rw [if_neg hown] at h
        simp at h
    · intro k t h
      rw [hflight] at h
      cases h
    · rintro ⟨epoch', h⟩
      cases hidle.1.symm.trans h
  · exact inv

lemma LeaderInv.renew (i : Fin n) : LeaderInv g (s.renew g i) := by
  unfold Cluster.renew
  dsimp only
  split
  · rename_i h hp
    split
    · rename_i hdue
      have hvalid : h.validUntil ≠ none := by
        intro hn
        have hb := hdue.1
        rw [hn] at hb
        exact hb
      have hin := Elector.InHold.holding (inv.elector i).inHold hp
      have sent : LeaderInv g (s.send i (.renew h.epoch)) := inv.send nofun
      refine sent.setElector (.calm ?_ ⟨hin.1, fun _ => hin.2 (.inr hvalid)⟩ (inv.elector i).won_le ?_ ?_)
      · intro k t hf
        obtain ⟨rfl, rfl⟩ := Prod.mk.inj (Option.some.inj hf)
        exact ⟨le_rfl, none, Calls.getElem?_send_length⟩
      · rw [send_answer]
        intro k t hf
        obtain ⟨rfl, rfl⟩ := Prod.mk.inj (Option.some.inj hf)
        exact s.answer_length
      · rw [send_answer]
        refine fun h0 => ⟨.leads h0, ?_⟩
        rintro ⟨epoch, hstep⟩
        cases hp.symm.trans hstep
    · exact inv
  · exact inv

lemma LeaderInv.deadline (i : Fin n) : LeaderInv g (s.deadline g i) := by
  unfold Cluster.deadline
  dsimp only
  split
  · rename_i h hp
    split
    · exact inv
    · exact inv.returnLost _ (inv.elector i).inHold.steppingDown
  · exact inv

end

lemma Cluster.extend_cases (g : Group n) (i : Fin n) (e : Elector) (h : Holding) (t0 : Int) :
    ∃ authAt, (authAt = e.authAt ∨ authAt = t0) ∧ (extend g i e h t0).1 = { e with authAt := authAt } ∧
      (extend g i e h t0).2.epoch = h.epoch ∧ (extend g i e h t0).2.inFlight = none := by
  unfold extend
  dsimp only
  split
  · exact ⟨t0, .inr rfl, rfl, rfl, rfl⟩
  · exact ⟨e.authAt, .inl rfl, rfl, rfl, rfl⟩

lemma LeaderInv.settle (inv : LeaderInv g s) (i : Fin n) (sight : Option BrokerSight) :
    LeaderInv g (s.settle g i sight) := by
  unfold Cluster.settle
  dsimp only
  split
  · rename_i h hp
    have hin := Elector.InHold.holding (inv.elector i).inHold hp
    have hs : ¬ (s.electors i).phase.SteppingDown := by
      rintro ⟨epoch, hstep⟩
      cases hp.symm.trans hstep
    split
    · exact inv
    rename_i k t0 hf
    have hled := hin.2 (.inl (by simp [hf]))
    split
    · refine inv.setElector (.calm nofun ⟨hin.1, fun _ => hled⟩ (inv.elector i).won_le nofun ?_)
      exact fun h0 => ⟨.leads h0, fun h => absurd h hs⟩
    rename_i sight
    split
    · rename_i ha
      obtain ⟨d, hd⟩ := (s.electors i).brokerLost_eq i (g.leaseTTL i) t0 sight
      obtain ⟨authAt, hauth, he, hep, hfl⟩ := extend_cases g i { s.electors i with downSince := d } h t0
      have htok : (s.electors i).epoch ≠ 0 → (s.electors i).Token s.answer (s.electors i).epoch authAt := by
        intro h0
        rcases hauth with rfl | rfl
        · exact .leads h0
        · exact .renewed h0 hp hf ha
      rw [hd, he]
      split
      · -- the broker-loss rule
        have moves : Elector.Moves g s i (s.electors i) { s.electors i with
            downSince := d, authAt := authAt, phase := .steppingDown h.epoch } :=
          .calm trivial hin.1 (inv.elector i).won_le trivial
            fun h0 => ⟨htok h0, fun _ => ⟨h.epoch, rfl⟩⟩
        refine (inv.setElector moves).send fun epoch hrel => ?_
        cases hrel
        refine ⟨?_, ?_, ?_⟩
        · have sent := (inv.elector i).sent
          rw [hp] at sent
          obtain ⟨_, a, hk⟩ := sent k t0 hf
          have hans : a = some (.renewed true) := by simpa [Cluster.answer, Calls.answer, hk] using ha
          exact inv.renewed_le i h.epoch (hans ▸ List.mem_of_getElem? hk)
        · rw [setElector_self]
          intro epoch' t hinc
          exact absurd hinc (Phase.Calm.not_incoming (by trivial))
        · rw [setElector_self]
          exact fun _ _ => ⟨h.epoch, rfl⟩
      · refine inv.setElector (.calm ?_ ⟨hin.1, fun _ => ?_⟩ (inv.elector i).won_le ?_ ?_)
        · intro k' t hf'
          rw [hfl] at hf'
          cases hf'
        · rwa [hep]
        · intro k' t hf'
          rw [hfl] at hf'
          cases hf'
        · exact fun h0 => ⟨htok h0, fun h => absurd h hs⟩
    · exact inv.returnLost _ (inv.elector i).inHold.steppingDown
    · exact inv
  · exact inv

lemma LeaderInv.stepDown (inv : LeaderInv g s) (i : Fin n) : LeaderInv g (s.stepDown i) := by
  unfold Cluster.stepDown
  dsimp only
  split
  · exact inv.returnLost _ (inv.elector i).inHold.steppingDown
  · exact inv

lemma LeaderInv.leave (inv : LeaderInv g s) (i : Fin n) : LeaderInv g (s.leave i) := by
  unfold Cluster.leave
  dsimp only
  split
  · rename_i hp
    exact inv.rest (by rintro ⟨epoch, h⟩; cases hp.symm.trans h) (.inl rfl)
  · rename_i hp
    exact inv.rest (by rintro ⟨epoch, h⟩; cases hp.symm.trans h) (.inl rfl)
  · rename_i hp
    exact inv.rest (by rintro ⟨epoch, h⟩; cases hp.symm.trans h) (.inl rfl)
  · exact inv

lemma LeaderInv.lose (inv : LeaderInv g s) (i : Fin n) (r : Reason) : LeaderInv g (s.lose i r) := by
  refine inv.setElector ?_
  rcases (s.electors i).markLost_cases r with ⟨_, e⟩ | e
  · rw [e]
    exact .in_phase (inv.elector i) rfl (.inr ⟨rfl, rfl, rfl⟩) le_rfl
  · rw [e]
    exact .in_phase (inv.elector i) rfl (.inl rfl) le_rfl

lemma LeaderInv.release (inv : LeaderInv g s) (i : Fin n) : LeaderInv g (s.release i) := by
  unfold Cluster.release
  have moves : Elector.Moves g s i (s.electors i) { s.electors i with epoch := 0, won := 0 } :=
    .in_phase (inv.elector i) rfl (.inl rfl) (Nat.zero_le _)
  have quit := inv.setElector moves
  dsimp only
  split
  · exact quit
  refine quit.send fun epoch hrel => ?_
  cases hrel
  refine ⟨(inv.elector i).won_le, ?_, ?_⟩
  · rw [setElector_self]
    intro epoch' t h
    exact ((inv.elector i).fresh epoch' t (moves.incoming epoch' t h).1).2
  rw [setElector_self]
  intro t h
  have hin := (moves.incoming _ t (h.incoming_of_not_leading rfl)).1
  exact absurd ((inv.elector i).fresh _ t hin).2 (lt_irrefl _)

lemma leaderInv_next (httl : ∀ i, 4000 ≤ g.leaseTTL i) (inv : LeaderInv g s) {l : Step n}
    (apart : AcquiresApart s l) : LeaderInv g (l.next g s) := by
  cases l with
  | tick d => exact inv.tick d
  | exec k => exact inv.exec httl apart
  | campaign i up => exact inv.campaign i up
  | acquired i answered => exact inv.acquired i answered
  | recordWin i => exact inv.recordWin i
  | hold i epoch => exact inv.hold i epoch
  | renew i => exact inv.renew i
  | deadline i => exact inv.deadline i
  | settle i sight => exact inv.settle i sight
  | stepDown i => exact inv.stepDown i
  | leave i => exact inv.leave i
  | lose i r => exact inv.lose i r
  | release i => exact inv.release i
  | upsertSelf i up =>
    obtain ⟨d, hd⟩ := (s.electors i).observeBroker_eq up (s.clockNow g i)
    simp only [Step.next, Cluster.upsertSelf, hd]
    exact inv.setElector (.in_phase (inv.elector i) rfl (.inr ⟨rfl, rfl, rfl⟩) le_rfl)

lemma leaderInv_init (g : Group n) : LeaderInv g (HA.electors g).init := by
  have notoken : ∀ epoch t, ¬ Elector.new.Token (HA.electors g).init.answer epoch t := by
    intro epoch t h
    cases h with
    | leads h => exact h rfl
    | renewed h => exact h rfl
    | incoming h => exact absurd h (Phase.Calm.not_incoming (by trivial))
  refine ⟨fun i => ⟨trivial, fun h => absurd rfl h, trivial, ?_, le_rfl, ?_, ?_⟩,
    nofun, nofun, nofun, nofun, nofun, nofun⟩
  · exact fun epoch t h => absurd h (notoken epoch t)
  · exact fun epoch t h => absurd (.incoming h) (notoken epoch t)
  · exact fun epoch t h => absurd h (notoken epoch t)

end

/-! ## One leader -/

/-- No two electors are ever authorized at the same instant. -/
theorem single_leader {n : Nat} {g : Group n} (httl : ∀ i, 4000 ≤ g.leaseTTL i)
    {h : List (Cluster n × Step n)} {s : Cluster n}
    (run : Run ((electors g).guarded fun _ s l => AcquiresApart s l) h s) {i j : Fin n}
    (hi : s.authorized g i) (hj : s.authorized g j) : i = j := by
  have inv : LeaderInv g s := by
    refine run.safe ?_ ?_
    · exact leaderInv_init g
    · exact fun _ _ _ _ inv e => leaderInv_next httl inv e.2
  have hbi := (inv.elector i).backed _ _ (.leads hi.1) hi.2
  have hbj := (inv.elector j).backed _ _ (.leads hj.1) hj.2
  have hgi := (inv.elector i).granted _ _ (.leads hi.1)
  have hgj := (inv.elector j).granted _ _ (.leads hj.1)
  rw [← hbi.epoch_eq] at hgi
  rw [← hbj.epoch_eq] at hgj
  exact inv.granted_unique i j _ hgi hgj

instance {n : Nat} (s : Cluster n) : DecidablePred (AcquiresApart s)
  | .exec _ => inferInstanceAs (Decidable (_ → _))
  | .tick _ | .campaign .. | .acquired .. | .recordWin _ | .hold .. | .renew _ | .deadline _
  | .settle .. | .stepDown _ | .leave _ | .lose .. | .release _ | .upsertSelf .. =>
    isTrue trivial

/-! ## The window of the broker-loss rule -/

def twoServers : Group 2 where
  leaseTTL := fun _ => 15000000000
  leaseTTL_pos := by decide
  clock := fun i => 7 * i
  dbClock := 0

def standbyReaches : BrokerSight := ⟨false, some ([⟨1, some 20000000⟩], 21000000)⟩

section

local instance two_servers_ne_zero : NeZero 2 := ⟨by decide⟩

def takenWhileSteppingDown : List (Step 2) :=
  [.campaign 0 true, .exec 0, .acquired 0 true, .recordWin 0, .hold 0 1,
    .tick 1000000000, .upsertSelf 0 false,
    .tick 10000000000, .renew 0, .exec 1, .settle 0 (some ⟨false, none⟩),
    .tick 10000000000, .renew 0, .exec 2, .settle 0 (some standbyReaches), .exec 3,
    .campaign 1 true, .exec 4, .acquired 1 true, .recordWin 1]

def takenAfterSteppingDown : List (Step 2) :=
  takenWhileSteppingDown.take 16 ++ [.stepDown 0, .campaign 1 true, .exec 4, .acquired 1 true, .recordWin 1]

end

theorem step_down_authorizes_two :
    ∃ h s, Run (electors twoServers) h s ∧ s.authorized twoServers 0 ∧ s.authorized twoServers 1 :=
  have permits : (electors twoServers).Permits takenWhileSteppingDown [] (electors twoServers).init := by
    decide +kernel
  ⟨_, _, Run.start.exec permits, by decide +kernel, by decide +kernel⟩

theorem single_leader_takenAfterSteppingDown :
    ∃ h s, Run ((electors twoServers).guarded fun _ s l => AcquiresApart s l) h s ∧
      s.authorized twoServers 1 ∧ ∀ i, s.authorized twoServers i → i = 1 := by
  have permits : ((electors twoServers).guarded fun _ s l => AcquiresApart s l).Permits
      takenAfterSteppingDown [] (electors twoServers).init := by decide +kernel
  have run := Run.start.exec permits
  have leads : Cluster.authorized twoServers
      (((electors twoServers).guarded fun _ s l => AcquiresApart s l).exec
        takenAfterSteppingDown [] (electors twoServers).init).2 1 := by decide +kernel
  exact ⟨_, _, run, leads, fun i hi => single_leader (by decide) run hi leads⟩

end Sqi.HA
