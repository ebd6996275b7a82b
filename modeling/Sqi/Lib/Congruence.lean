import Mathlib.RingTheory.Coprime.Lemmas
import Mathlib.Tactic.Linarith
import Mathlib.Tactic.Ring

/-! Two congruences at once: an integer that is `a` modulo `s` and `b` modulo `q`. -/

namespace Congruence

end Congruence
