import Sqi.Lib.Program
import Sqi.Expr.Syntax
import Sqi.Expr.Types
import Sqi.OpenJD.Range

/-! The budget of one evaluation (`meter.go`). -/

namespace Sqi.Expr
open Word GoText Program

inductive EvalError where
  | operationLimit (ops limit : Int)
  | deadlineExceeded (past : Int)
  | tooLarge (bound : TooLarge)
  | invalidRange (text : Text) (err : RangeError)
  | noRangeValues
  | indexOutOfRange
  | stillRunning
  | rangeZeroStep
  | intOverflow
  | divideByZero
  | moduloByZero
deriving DecidableEq

inductive Event where
  | charged (n ops : Int)
deriving DecidableEq

structure Meter where
  ops : Int
  opLimit : Int
  deadline : Option Int
  clock : Nat → Int
  reads : Nat
  sinceCheck : Int
  trace : List Event := []

def Meter.after (ops opLimit : Int) : Meter :=
  { ops, opLimit, deadline := none, clock := fun _ => 0, reads := 0, sinceCheck := 0 }

abbrev Eval := Prog EvalError Meter

def deadlineCheckInterval : Int := 1024
def deadlinePassed (deadline : Int) : Eval Unit := .tx fun m =>
  let now := m.clock m.reads
  let m := { m with reads := m.reads + 1 }
  if deadline < now then (.error (.deadlineExceeded (now - deadline)), m) else (.ok (), m)
def checkDeadline (deadline : Int) : Eval Unit := .tx fun m =>
  let since := m.sinceCheck + 1
  if since ≠ 1 ∧ since < deadlineCheckInterval then (.ok (), { m with sinceCheck := since })
  else deadlinePassed deadline { m with sinceCheck := if deadlineCheckInterval ≤ since then 1 else since }

def charge (n : Int) : Eval Unit := .tx fun m =>
  let m := { m with ops := wrap (m.ops + n), trace := .charged n (wrap (m.ops + n)) :: m.trace }
  if m.opLimit < m.ops then (.error (.operationLimit m.ops m.opLimit), m)
  else
    match m.deadline with
    | none => (.ok (), m)
    | some deadline => checkDeadline deadline m

def reserve (n : Int) : Eval Unit := .tx fun m =>
  if 0 < n ∧ m.opLimit < wrap (m.ops + n) then (.error (.operationLimit (wrap (m.ops + n)) m.opLimit), m)
  else
    match m.deadline with
    | none => (.ok (), m)
    | some deadline => deadlinePassed deadline m

/-- A sum that passes the largest integer wraps to a negative one, which no limit refuses. -/
lemma reserve_eq {m : Meter} {n : Int} (hdeadline : m.deadline = none) (hops : 0 ≤ m.ops ∧ m.ops ≤ maxInt)
    (hlimit : 0 ≤ m.opLimit ∧ m.opLimit ≤ maxInt) (hn : 0 < n ∧ n ≤ maxInt) :
    reserve n m = if m.ops + n ≤ m.opLimit ∨ maxInt < m.ops + n then (.ok (), m)
      else (.error (.operationLimit (m.ops + n) m.opLimit), m) := by
  unfold reserve Prog.tx
  dsimp only
  by_cases hfit : m.ops + n ≤ maxInt
  · have hwrap : wrap (m.ops + n) = m.ops + n := wrap_of_isInt ⟨by simp only [minInt]; omega, hfit⟩
    rw [hwrap, hdeadline]
    split
    · rw [if_neg (by omega)]
    · rw [if_pos (by omega)]
  · have hwrap : wrap (m.ops + n) = m.ops + n - 2 ^ 64 :=
      wrap_of_over (by omega) (by simp only [maxInt] at *; omega)
    rw [hwrap, hdeadline, if_neg (by simp only [maxInt] at *; omega), if_pos (by omega)]

end Sqi.Expr
