import Mathlib.Data.Option.Basic
import Sqi.Lib.Word

/-! Texts as lists of characters, with the few functions of Go's `strings`,
`strconv` and `unicode` packages that programs here call. -/

namespace GoText
open Word

abbrev Text := List Char

def isSpace (r : Char) : Prop :=
  (0x09 ≤ r.val ∧ r.val ≤ 0x0D) ∨ (0x2000 ≤ r.val ∧ r.val ≤ 0x200A) ∨
    r.val ∈ ([0x20, 0x85, 0xA0, 0x1680, 0x2028, 0x2029, 0x202F, 0x205F, 0x3000] : List UInt32)
deriving Decidable

def utf8Len (s : Text) : Nat := (s.map Char.utf8Size).sum
def trimSpace (s : Text) : Text :=
  ((s.dropWhile fun r => isSpace r).reverse.dropWhile fun r => isSpace r).reverse
def equalFold (foldRune : Char → Char) (a b : String) : Bool :=
  a.toList.map foldRune = b.toList.map foldRune
def cutLast (c : Char) (s : Text) : Option (Text × Text) :=
  match s.reverse.span (· ≠ c) with
  | (_, []) => none
  | (after, _ :: before) => some (before.reverse, after.reverse)

def cut (sep : Text) : Text → Option (Text × Text)
  | [] => if sep = [] then some ([], []) else none
  | c :: s =>
    if sep <+: c :: s then some ([], (c :: s).drop sep.length)
    else (cut sep s).map fun parts => (c :: parts.1, parts.2)

def contains (s sep : Text) : Bool := (cut sep s).isSome
def takeBytes : Nat → Text → Option Text
  | 0, _ => some []
  | _ + 1, [] => none
  | n + 1, c :: s => if c.utf8Size ≤ n + 1 then (takeBytes (n + 1 - c.utf8Size) s).map (c :: ·) else none

structure Casing where
  foldRune : Char → Char
  lowerRune : Char → Char

def Casing.lower (k : Casing) (s : String) : String := String.ofList (s.toList.map k.lowerRune)
def Casing.eqFold (k : Casing) (a b : String) : Bool := equalFold k.foldRune a b

def Casing.cutFold (k : Casing) (s word : String) : Option String :=
  match takeBytes word.utf8ByteSize s.toList with
  | none => none
  | some front =>
    if k.eqFold (String.ofList front) word then some (String.ofList (s.toList.drop front.length)) else none

def digitsValue (n : Nat) : Text → Option Nat
  | [] => some n
  | c :: cs => if c.isDigit then digitsValue (10 * n + (c.toNat - 48)) cs else none
def unsignedValue : Text → Option Nat
  | [] => none
  | cs => digitsValue 0 cs

def atoi (s : Text) : Option Int :=
  let n : Option Int :=
    match s with
    | '-' :: ds => (unsignedValue ds).map fun n => -(n : Int)
    | '+' :: ds => (unsignedValue ds).map fun n => (n : Int)
    | ds => (unsignedValue ds).map fun n => (n : Int)
  n.filter fun n => decide (IsInt n)

end GoText
