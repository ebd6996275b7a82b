import Sqi.Expr.Parser

/-! Printing an expression tree: its tokens, with parentheses where the level of an operand is looser than
its place takes, and the number of frames that reading them back takes. -/

namespace Sqi.Expr
open GoText Word

section
variable {F : Type}

def word (w : String) : Token F := .ident w.toList

def Op.level : Op → Nat
  | .or => 1
  | .and => 2
  | .not => 3
  | .lt | .gt | .le | .ge | .eq | .ne | .in_ | .notIn => 4
  | .add | .sub => 5
  | .mul | .div | .floorDiv | .mod => 6
  | .neg | .pos => 7
  | .pow => 8

def Op.tokens : Op → List (Token F)
  | .or => [word "or"]
  | .and => [word "and"]
  | .not => [word "not"]
  | .lt => [.symbol .lt]
  | .gt => [.symbol .gt]
  | .le => [.symbol .le]
  | .ge => [.symbol .ge]
  | .eq => [.symbol .eq]
  | .ne => [.symbol .ne]
  | .in_ => [word "in"]
  | .notIn => [word "not", word "in"]
  | .add | .pos => [.symbol .plus]
  | .sub | .neg => [.symbol .minus]
  | .mul => [.symbol .star]
  | .div => [.symbol .slash]
  | .floorDiv => [.symbol .doubleSlash]
  | .mod => [.symbol .percent]
  | .pow => [.symbol .doubleStar]

def Op.leftLevel : Op → Nat
  | .pow => 9
  | op => op.level
def Op.rightLevel : Op → Nat
  | .pow => 7
  | op => op.level + 1

def Node.level : Node F → Nat
  | .cond .. => 0
  | .compare .. => 4
  | .logical op .. | .unary op _ | .binary op .. => op.level
  | _ => 9

def Node.isName : Node F → Bool
  | .name _ => true
  | _ => false

def enclose (place level : Nat) (toks : List (Token F)) : List (Token F) :=
  if level < place then .symbol .lParen :: (toks ++ [.symbol .rParen]) else toks
def Node.receiverPlace (apart : Bool) (x : Node F) : Nat := if apart && x.isName then 10 else 9
def printDotted : List Text → List (Token F)
  | [] => []
  | part :: parts => .symbol .dot :: .ident part :: printDotted parts

mutual

def Node.print (apart : Bool) : Node F → List (Token F)
  | .int v => [.int v]
  | .float f => [.float f]
  | .string s => [.string s]
  | .bool b => [word (if b then "True" else "False")]
  | .null => [word "None"]
  | .name [] => []
  | .name (part :: parts) => .ident part :: printDotted parts
  | .unary op x => op.tokens ++ enclose op.level x.level (x.print apart)
  | .binary op l r =>
    enclose op.leftLevel l.level (l.print apart) ++ (op.tokens ++ enclose op.rightLevel r.level (r.print apart))
  | .logical op l r =>
    enclose op.leftLevel l.level (l.print apart) ++ (op.tokens ++ enclose op.rightLevel r.level (r.print apart))
  | .compare ops operands => printComparison apart ops operands
  | .cond then_ if_ else_ =>
    enclose 1 then_.level (then_.print apart) ++
      word "if" :: (enclose 1 if_.level (if_.print apart) ++ word "else" :: else_.print apart)
  | .list elems => .symbol .lBracket :: (printList apart elems ++ [.symbol .rBracket])
  | .index x idx =>
    enclose 9 x.level (x.print apart) ++ .symbol .lBracket :: (idx.print apart ++ [.symbol .rBracket])
  | .slice x start stop step =>
    enclose 9 x.level (x.print apart) ++ .symbol .lBracket :: (printOption apart start ++
      .symbol .colon :: (printOption apart stop ++ (printStep apart step ++ [.symbol .rBracket])))
  | .comp elem var iter filter =>
    .symbol .lBracket :: (elem.print apart ++ word "for" :: .ident var :: word "in" ::
      (enclose 1 iter.level (iter.print apart) ++ (printFilter apart filter ++ [.symbol .rBracket])))
  | .access x attr =>
    enclose (x.receiverPlace apart) x.level (x.print apart) ++ [.symbol .dot, .ident attr]
  | .call callee args =>
    enclose 9 callee.level (callee.print apart) ++ .symbol .lParen :: (printList apart args ++ [.symbol .rParen])

def printComparison (apart : Bool) : List Op → List (Node F) → List (Token F)
  | _, [] => []
  | ops, x :: xs => enclose 5 x.level (x.print apart) ++ printOperands apart ops xs
def printOperands (apart : Bool) : List Op → List (Node F) → List (Token F)
  | op :: ops, x :: xs => op.tokens ++ (enclose 5 x.level (x.print apart) ++ printOperands apart ops xs)
  | _, _ => []
def printList (apart : Bool) : List (Node F) → List (Token F)
  | [] => []
  | x :: xs => x.print apart ++ printMore apart xs
def printMore (apart : Bool) : List (Node F) → List (Token F)
  | [] => []
  | x :: xs => .symbol .comma :: (x.print apart ++ printMore apart xs)
def printOption (apart : Bool) : Option (Node F) → List (Token F)
  | none => []
  | some x => x.print apart
def printStep (apart : Bool) : Option (Node F) → List (Token F)
  | none => []
  | some x => .symbol .colon :: x.print apart
def printFilter (apart : Bool) : Option (Node F) → List (Token F)
  | none => []
  | some x => word "if" :: enclose 1 x.level (x.print apart)

end

def between (place level : Nat) : Nat :=
  (if place = 0 ∧ 0 < level then 1 else 0) + (if place ≤ 8 ∧ 9 ≤ level then 1 else 0)
def framesAt (place level frames : Nat) : Nat :=
  if level < place then frames + between 0 level + 1 + between place 9 else frames + between place level

mutual

def Node.frames (apart : Bool) : Node F → Nat
  | .int _ | .float _ | .string _ | .bool _ | .null | .name _ => 1
  | .unary op x => framesAt op.level x.level (x.frames apart) + 1
  | .binary op l r =>
    max (framesAt op.leftLevel l.level (l.frames apart)) (framesAt op.rightLevel r.level (r.frames apart)) +
      (if op = .pow then 1 else 0)
  | .logical op l r =>
    max (framesAt op.leftLevel l.level (l.frames apart)) (framesAt op.rightLevel r.level (r.frames apart))
  | .compare _ operands => framesAll apart 5 operands
  | .cond then_ if_ else_ =>
    max (framesAt 1 then_.level (then_.frames apart))
      (max (framesAt 1 if_.level (if_.frames apart)) (framesAt 0 else_.level (else_.frames apart))) + 1
  | .list elems => framesAll apart 0 elems + 1
  | .index x idx =>
    max (framesAt 9 x.level (x.frames apart)) (framesAt 0 idx.level (idx.frames apart) + 1)
  | .slice x start stop step =>
    max (framesAt 9 x.level (x.frames apart))
      (max (framesOption apart 0 start) (max (framesOption apart 0 stop) (framesOption apart 0 step)) + 1)
  | .comp elem _ iter filter =>
    max (framesAt 0 elem.level (elem.frames apart))
      (max (framesAt 1 iter.level (iter.frames apart)) (framesOption apart 1 filter)) + 1
  | .access x _ => framesAt (x.receiverPlace apart) x.level (x.frames apart)
  | .call callee args => max (framesAt 9 callee.level (callee.frames apart)) (framesAll apart 0 args + 1)

def framesAll (apart : Bool) (place : Nat) : List (Node F) → Nat
  | [] => 0
  | x :: xs => max (framesAt place x.level (x.frames apart)) (framesAll apart place xs)
def framesOption (apart : Bool) (place : Nat) : Option (Node F) → Nat
  | none => 0
  | some x => framesAt place x.level (x.frames apart)

end

def Node.nesting (apart : Bool) (t : Node F) : Nat := framesAt 0 t.level (t.frames apart)

def isIdentifier : Text → Bool
  | [] => false
  | c :: s => isIdentStart c && s.all isIdentPart
def reserved : List String := ["True", "true", "False", "false", "None", "null"] ++ primaryKeywords

mutual

def Node.Wellformed (IsFloat : F → Prop) : Node F → Prop
  | .int v => 0 ≤ v ∧ IsInt v
  | .float f => IsFloat f
  | .string _ | .bool _ | .null => True
  | .name [] => False
  | .name (part :: parts) =>
    isIdentifier part ∧ part ∉ reserved.map String.toList ∧ ∀ p ∈ parts, isIdentifier p
  | .unary op x => op ∈ [.neg, .pos, .not] ∧ x.Wellformed IsFloat
  | .binary op l r =>
    op ∈ [.add, .sub, .mul, .div, .floorDiv, .mod, .pow] ∧ l.Wellformed IsFloat ∧ r.Wellformed IsFloat
  | .compare ops operands =>
    ops ≠ [] ∧ operands.length = ops.length + 1 ∧
      (∀ op ∈ ops, op ∈ [.lt, .gt, .le, .ge, .eq, .ne, .in_, .notIn]) ∧ wellformedAll IsFloat operands
  | .logical op l r => op ∈ [.and, .or] ∧ l.Wellformed IsFloat ∧ r.Wellformed IsFloat
  | .cond then_ if_ else_ =>
    then_.Wellformed IsFloat ∧ if_.Wellformed IsFloat ∧ else_.Wellformed IsFloat
  | .list elems => wellformedAll IsFloat elems
  | .index x idx => x.Wellformed IsFloat ∧ idx.Wellformed IsFloat
  | .slice x start stop step =>
    x.Wellformed IsFloat ∧ wellformedOption IsFloat start ∧ wellformedOption IsFloat stop ∧
      wellformedOption IsFloat step
  | .comp elem var iter filter =>
    isUserIdentifier var ∧ elem.Wellformed IsFloat ∧ iter.Wellformed IsFloat ∧ wellformedOption IsFloat filter
  | .access x attr => isIdentifier attr ∧ x.Wellformed IsFloat
  | .call callee args => callee.Wellformed IsFloat ∧ wellformedAll IsFloat args

def wellformedAll (IsFloat : F → Prop) : List (Node F) → Prop
  | [] => True
  | x :: xs => x.Wellformed IsFloat ∧ wellformedAll IsFloat xs
def wellformedOption (IsFloat : F → Prop) : Option (Node F) → Prop
  | none => True
  | some x => x.Wellformed IsFloat

end
end
end Sqi.Expr
