import Sqi.Lib.Descent
import Sqi.Expr.Lexer

/-! The parser of expressions (`parser.go`), one definition per production. -/

namespace Sqi.Expr
open GoText Descent

inductive Kind where
  | eof
  | int
  | float
  | string
  | ident
  | symbol (s : Symbol)
deriving DecidableEq

inductive ParseError where
  | tooLong (bytes : Int)
  | lex (e : LexError)
  | empty
  | afterExpression (found : Kind)
  | tooDeep
  | unexpected (found : Kind)
  | expected (kind found : Kind)
  | expectedElse (found : Kind)
  | expectedIn (found : Kind)
  | unexpectedKeyword (text : Text)
  | generator
  | oneElement
  | oneFilter
  | oneFor
  | loopVariable (text : Text)
deriving DecidableEq

section
variable {F : Type}

def peekKind : List (Token F) → Kind
  | [] => .eof
  | .int _ :: _ => .int
  | .float _ :: _ => .float
  | .string _ :: _ => .string
  | .ident _ :: _ => .ident
  | .symbol s :: _ => .symbol s

def keyword (word : String) : List (Token F) → Bool
  | .ident text :: _ => text = word.toList
  | _ => false
def accept (s : Symbol) : List (Token F) → Option (List (Token F))
  | .symbol s' :: rest => if s' = s then some rest else none
  | _ => none
def expectError (kind : Kind) (toks : List (Token F)) : ParseError :=
  if peekKind toks = .eof then .unexpected .eof else .expected kind (peekKind toks)
def expect (s : Symbol) (toks : List (Token F)) : Except ParseError (List (Token F)) :=
  match accept s toks with
  | some rest => .ok rest
  | none => .error (expectError (.symbol s) toks)
def expectIdent : List (Token F) → Except ParseError (Text × List (Token F))
  | .ident text :: rest => .ok (text, rest)
  | toks => .error (expectError .ident toks)

abbrev Production (F : Type) := Parser (Token F) ParseError (Node F)

structure Grammar (F : Type) where
  /-- `parseExpr` -/
  expr : Production F
  notExpr : Production F
  unaryExpr : Production F
  postfixExpr : Production F

def enter (below : Option (Grammar F)) (production : Grammar F → Production F) : Production F :=
  match below with
  | none => fun _ => .error .tooDeep
  | some g => production g

def parseLevel (operator : List (Token F) → Option (Op × List (Token F))) (node : Op → Node F → Node F → Node F)
    (next : Production F) : Production F := fun toks => do
  let (left, rest) ← next toks
  loop (fun left toks =>
    (operator toks).map fun (op, toks) => do
      let (right, rest) ← next toks
      .ok (node op left right, rest)) rest.length left rest

def parseLogicalLevel (word : String) (op : Op) (next : Production F) : Production F :=
  parseLevel (fun toks => if keyword word toks then some (op, toks.tail) else none) .logical next
def tableOperator (ops : Symbol → Option Op) : List (Token F) → Option (Op × List (Token F))
  | .symbol s :: rest => (ops s).map fun op => (op, rest)
  | _ => none
def parseBinaryLevel (ops : Symbol → Option Op) (next : Production F) : Production F :=
  parseLevel (tableOperator ops) .binary next
def addOps : Symbol → Option Op
  | .plus => some .add
  | .minus => some .sub
  | _ => none

def mulOps : Symbol → Option Op
  | .star => some .mul
  | .slash => some .div
  | .doubleSlash => some .floorDiv
  | .percent => some .mod
  | _ => none

def compareOps : Symbol → Option Op
  | .lt => some .lt
  | .gt => some .gt
  | .le => some .le
  | .ge => some .ge
  | .eq => some .eq
  | .ne => some .ne
  | _ => none

def parseAnd (g : Grammar F) : Production F := parseLogicalLevel "and" .and g.notExpr
def parseOr (g : Grammar F) : Production F := parseLogicalLevel "or" .or (parseAnd g)
def isUserIdentifier : Text → Bool
  | [] => false
  | c :: s => (c.isLower || c = '_') && s.all fun c => c.isLower || c.isUpper || c.isDigit || c = '_'
def primaryKeywords : List String := ["if", "else", "and", "or", "not", "for", "in"]
def parseDotted (parts : List Text) : Production F
  | .symbol .dot :: .ident attr :: rest => parseDotted (parts ++ [attr]) rest
  | .symbol .dot :: toks => .error (expectError .ident toks)
  | toks => .ok (.name parts, toks)

def parseIdentPrimary (text : Text) (rest : List (Token F)) : Except ParseError (Node F × List (Token F)) :=
  if text = "True".toList ∨ text = "true".toList then .ok (.bool true, rest)
  else if text = "False".toList ∨ text = "false".toList then .ok (.bool false, rest)
  else if text = "None".toList ∨ text = "null".toList then .ok (.null, rest)
  else if text ∈ primaryKeywords.map String.toList then .error (.unexpectedKeyword text)
  else parseDotted [text] rest

def parseFilter (g : Grammar F) (toks : List (Token F)) :
    Except ParseError (Option (Node F) × List (Token F)) :=
  if keyword "if" toks then do
    let (cond, rest) ← parseOr g toks.tail
    if keyword "if" rest then .error .oneFilter else .ok (some cond, rest)
  else .ok (none, toks)

def parseComprehensionRest (g : Grammar F) (elem : Node F) (toks : List (Token F)) :
    Except ParseError (Node F × List (Token F)) := do
  let (var, toks) ← expectIdent toks
  if !isUserIdentifier var then .error (.loopVariable var)
  else if !keyword "in" toks then .error (.expectedIn (peekKind toks))
  else do
    let (iter, toks) ← parseOr g toks.tail
    let (filter, toks) ← parseFilter g toks
    if keyword "for" toks then .error .oneFor
    else do
      let rest ← expect .rBracket toks
      .ok (.comp elem var iter filter, rest)

def parseElements (g : Grammar F) : Nat → List (Node F) → Production F
  | 0, _, toks => .error (expectError (.symbol .rBracket) toks)
  | n + 1, elems, toks =>
    match accept .comma toks with
    | none => do
      let rest ← expect .rBracket toks
      .ok (.list elems, rest)
    | some toks =>
      match accept .rBracket toks with
      | some rest => .ok (.list elems, rest)
      | none => do
        let (elem, rest) ← g.expr toks
        if keyword "for" rest then .error .oneElement else parseElements g n (elems ++ [elem]) rest

def parseListLiteral (g : Grammar F) (toks : List (Token F)) : Except ParseError (Node F × List (Token F)) :=
  match accept .rBracket toks with
  | some rest => .ok (.list [], rest)
  | none => do
    let (elem, rest) ← g.expr toks
    if keyword "for" rest then parseComprehensionRest g elem rest.tail
    else parseElements g (rest.length + 1) [elem] rest

def parsePrimary (g : Grammar F) : Production F
  | .int i :: rest => .ok (.int i, rest)
  | .float f :: rest => .ok (.float f, rest)
  | .string s :: rest => .ok (.string s, rest)
  | .ident text :: rest => parseIdentPrimary text rest
  | .symbol .lParen :: toks => do
    let (inner, toks) ← g.expr toks
    if keyword "for" toks then .error .generator
    else do
      let rest ← expect .rParen toks
      .ok (inner, rest)
  | .symbol .lBracket :: toks => parseListLiteral g toks
  | toks => .error (.unexpected (peekKind toks))

def parseSliceStep (g : Grammar F) (x : Node F) (start stop : Option (Node F)) (toks : List (Token F)) :
    Except ParseError (Node F × List (Token F)) := do
  let toks ← expect .colon toks
  match accept .rBracket toks with
  | some rest => .ok (.slice x start stop none, rest)
  | none => do
    let (step, toks) ← g.expr toks
    let rest ← expect .rBracket toks
    .ok (.slice x start stop (some step), rest)

def parseSliceRest (g : Grammar F) (x : Node F) (start : Option (Node F)) (toks : List (Token F)) :
    Except ParseError (Node F × List (Token F)) :=
  match accept .rBracket toks with
  | some rest => .ok (.slice x start none none, rest)
  | none =>
    if peekKind toks = .symbol .colon then parseSliceStep g x start none toks
    else do
      let (stop, toks) ← g.expr toks
      match accept .rBracket toks with
      | some rest => .ok (.slice x start (some stop) none, rest)
      | none => parseSliceStep g x start (some stop) toks

def parseSubscript (g : Grammar F) (x : Node F) (toks : List (Token F)) :
    Except ParseError (Node F × List (Token F)) :=
  match accept .colon toks with
  | some toks => parseSliceRest g x none toks
  | none => do
    let (first, toks) ← g.expr toks
    match accept .colon toks with
    | some toks => parseSliceRest g x (some first) toks
    | none => do
      let rest ← expect .rBracket toks
      .ok (.index x first, rest)

def parseArgs (g : Grammar F) (toks : List (Token F)) : Except ParseError (List (Node F) × List (Token F)) := do
  let (arg, rest) ← g.expr toks
  loop (fun args toks =>
    (accept .comma toks).map fun toks => do
      let (arg, rest) ← g.expr toks
      .ok (args ++ [arg], rest)) rest.length [arg] rest

def parseCall (g : Grammar F) (callee : Node F) (toks : List (Token F)) :
    Except ParseError (Node F × List (Token F)) :=
  match accept .rParen toks with
  | some rest => .ok (.call callee [], rest)
  | none => do
    let (args, toks) ← parseArgs g toks
    let rest ← expect .rParen toks
    .ok (.call callee args, rest)

def parseAccess (x : Node F) (toks : List (Token F)) : Except ParseError (Node F × List (Token F)) := do
  let (attr, rest) ← expectIdent toks
  .ok (.access x attr, rest)

def parseTrailer (g : Grammar F) (x : Node F) : List (Token F) → Option (Except ParseError (Node F × List (Token F)))
  | .symbol .lBracket :: toks => some (parseSubscript g x toks)
  | .symbol .lParen :: toks => some (parseCall g x toks)
  | .symbol .dot :: toks => some (parseAccess x toks)
  | _ => none

def parsePostfix (below : Option (Grammar F)) : Production F :=
  enter below fun g toks => do
    let (x, rest) ← parsePrimary g toks
    loop (parseTrailer g) rest.length x rest

def parsePower (below : Option (Grammar F)) : Production F :=
  enter below fun g toks => do
    let (base, toks) ← g.postfixExpr toks
    match accept .doubleStar toks with
    | none => .ok (base, toks)
    | some toks => do
      let (exp, rest) ← g.unaryExpr toks
      .ok (.binary .pow base exp, rest)

def signOp : Symbol → Option Op
  | .minus => some .neg
  | .plus => some .pos
  | _ => none

def parseUnary (below : Option (Grammar F)) : Production F := fun toks =>
  match tableOperator signOp toks with
  | none => parsePower below toks
  | some (op, toks) => enter below (fun g toks => do
      let (x, rest) ← g.unaryExpr toks
      .ok (.unary op x, rest)) toks

def parseMul (below : Option (Grammar F)) : Production F := parseBinaryLevel mulOps (parseUnary below)
def parseAdd (below : Option (Grammar F)) : Production F := parseBinaryLevel addOps (parseMul below)

def compareOperator (toks : List (Token F)) : Option (Op × List (Token F)) :=
  match tableOperator compareOps toks with
  | some found => some found
  | none =>
    if keyword "in" toks then some (.in_, toks.tail)
    else if keyword "not" toks ∧ keyword "in" toks.tail then some (.notIn, toks.tail.tail)
    else none

def parseComparison (below : Option (Grammar F)) : Parser (Token F) ParseError (List Op × List (Node F)) :=
  fun toks => do
    let (first, rest) ← parseAdd below toks
    loop (fun (ops, operands) toks =>
      (compareOperator toks).map fun (op, toks) => do
        let (operand, rest) ← parseAdd below toks
        .ok ((ops ++ [op], operands ++ [operand]), rest)) rest.length ([], [first]) rest

def comparison (ops : List Op) (operands : List (Node F)) : Node F :=
  match ops, operands with
  | [], [first] => first
  | ops, operands => .compare ops operands
def parseCompare (below : Option (Grammar F)) : Production F := fun toks => do
  let ((ops, operands), rest) ← parseComparison below toks
  .ok (comparison ops operands, rest)

def parseNot (below : Option (Grammar F)) : Production F := fun toks =>
  if keyword "not" toks then
    enter below (fun g toks => do
      let (x, rest) ← g.notExpr toks
      .ok (.unary .not x, rest)) toks.tail
  else parseCompare below toks

def parseConditional (below : Option (Grammar F)) : Production F :=
  enter below fun g toks => do
    let (then_, toks) ← parseOr g toks
    if keyword "if" toks then do
      let (cond, toks) ← parseOr g toks.tail
      if keyword "else" toks then do
        let (otherwise, rest) ← g.expr toks.tail
        .ok (.cond then_ cond otherwise, rest)
      else .error (.expectedElse (peekKind toks))
    else .ok (then_, toks)

def Grammar.above (below : Option (Grammar F)) : Grammar F where
  expr := parseConditional below
  notExpr := parseNot below
  unaryExpr := parseUnary below
  postfixExpr := parsePostfix below

def grammar : Nat → Grammar F
  | 0 => .above none
  | n + 1 => .above (some (grammar n))
def maxParseDepth : Nat := 500
def maxSourceBytes : Int := 10000

def parse (host : LexHost F) (src : Text) : Except ParseError (Node F) :=
  if maxSourceBytes < byteLen src then .error (.tooLong (byteLen src))
  else do
    let toks ← (tokenize host src).mapError .lex
    match toks with
    | [] => .error .empty
    | toks => do
      let (root, rest) ← (grammar maxParseDepth).expr toks
      match rest with
      | [] => .ok root
      | rest => .error (.afterExpression (peekKind rest))

end
end Sqi.Expr
