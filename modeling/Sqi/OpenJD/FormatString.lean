import Sqi.OpenJD.Combination

/-! Format strings (`fmtstring`, and `resolveFormatStringExpr` of `resolve.go`). -/

namespace Sqi
open GoText

def openDelim : Text := "\x7b\x7b".toList
def closeDelim : Text := "\x7d\x7d".toList

structure FormatRef where
  literal : Text
  name : Text
deriving DecidableEq

inductive FormatError where
  | unclosed (ref : Text)
  | emptyName (ref : Text)
  | invalidName (ref : Text)
  | unresolved (names : List Text)
  | expression (text : String)
deriving DecidableEq

def hasRef (s : Text) : Bool := contains s openDelim
def validName (name : Text) : Bool := (name.splitOn '.').all fun seg => isIdentifier (String.ofList seg)

def scanRefs (validate : Text → Bool) : Nat → Text → Except FormatError (List FormatRef × Text)
  | 0, rest => .ok ([], rest)
  | fuel + 1, rest =>
    match cut openDelim rest with
    | none => .ok ([], rest)
    | some (literal, afterOpen) =>
      match cut closeDelim afterOpen with
      | none => .error (.unclosed (openDelim ++ afterOpen))
      | some (inner, more) =>
        let name := trimSpace inner
        let fullRef := openDelim ++ inner ++ closeDelim
        if name = [] then .error (.emptyName fullRef)
        else if !validate name then .error (.invalidName fullRef)
        else
          match scanRefs validate fuel more with
          | .error e => .error e
          | .ok (refs, trailing) => .ok (⟨literal, name⟩ :: refs, trailing)

def parseRefs (input : Text) : Except FormatError (List FormatRef × Text) :=
  scanRefs validName input.length input
def parseRaw (input : Text) : Except FormatError (List FormatRef × Text) :=
  scanRefs (fun _ => true) input.length input
def references (input : Text) : Except FormatError (List Text) :=
  if hasRef input then (parseRefs input).map fun p => (p.1.map (·.name)).eraseDups else .ok []

def resolveText (input : Text) (scope : Text → Option Text) : Except FormatError Text :=
  if hasRef input then do
    let (refs, trailing) ← parseRefs input
    let unknown := (refs.map (·.name)).filter fun name => (scope name).isNone
    if unknown = [] then
      return refs.flatMap (fun r => r.literal ++ (scope r.name).getD []) ++ trailing
    else .error (.unresolved unknown.eraseDups)
  else .ok input

inductive Segment where
  | literal (text : Text)
  | ref (body : Text)
deriving DecidableEq

def segmentsOf (refs : List FormatRef) (trailing : Text) : List Segment :=
  refs.flatMap (fun r => (if r.literal = [] then [] else [.literal r.literal]) ++ [.ref r.name]) ++
    if trailing = [] then [] else [.literal trailing]
def segments (input : Text) : Except FormatError (List Segment) :=
  if hasRef input then (parseRaw input).map fun p => segmentsOf p.1 p.2
  else .ok (if input = [] then [] else [.literal input])
def loneRef (input : Text) : Option Text :=
  match segments input with
  | .ok [.ref body] => some body
  | _ => none

inductive ExprTarget where
  | any
  | int
  | float
  | string
  | path
deriving DecidableEq

structure Expressions where
  lone : ExprTarget → Text → Except String Text
  embedded : Text → Except String Text
  rangeField : TaskParamType → Text → Except String (Text ⊕ List Text)

def Expressions.segment (x : Expressions) : Segment → Except FormatError Text
  | .literal text => .ok text
  | .ref body => (x.embedded body).mapError .expression

def resolveFormatStringExpr (x : Expressions) (target : ExprTarget) (s : Text) : Except FormatError Text :=
  match loneRef s with
  | some body => (x.lone target body).mapError .expression
  | none => do
    let segs ← segments s
    let texts ← segs.mapM x.segment
    return texts.flatten

end Sqi
