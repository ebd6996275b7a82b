import Sqi.Expr.Syntax

/-! Tokens and the lexer of expressions (`token.go`, `lexer.go`). -/

namespace Sqi.Expr
open GoText Word

inductive Symbol where
  | plus
  | minus
  | star
  | doubleStar
  | slash
  | doubleSlash
  | percent
  | lParen
  | rParen
  | lBracket
  | rBracket
  | comma
  | dot
  | colon
  | lt
  | gt
  | le
  | ge
  | eq
  | ne
deriving DecidableEq

inductive Token (F : Type) where
  | int (i : Int)
  | float (f : F)
  | string (s : Text)
  | ident (text : Text)
  | symbol (s : Symbol)

def Symbol.text : Symbol → Text
  | .doubleStar => ['*', '*']
  | .doubleSlash => ['/', '/']
  | .le => ['<', '=']
  | .ge => ['>', '=']
  | .eq => ['=', '=']
  | .ne => ['!', '=']
  | .plus => ['+']
  | .minus => ['-']
  | .star => ['*']
  | .slash => ['/']
  | .percent => ['%']
  | .lParen => ['(']
  | .rParen => [')']
  | .lBracket => ['[']
  | .rBracket => [']']
  | .comma => [',']
  | .dot => ['.']
  | .colon => [':']
  | .lt => ['<']
  | .gt => ['>']

def operators : List Symbol :=
  [.doubleStar, .doubleSlash, .le, .ge, .eq, .ne, .plus, .minus, .star, .slash, .percent, .lParen, .rParen,
    .lBracket, .rBracket, .comma, .dot, .colon, .lt, .gt]

inductive NumError where
  | badSyntax
  | range
deriving DecidableEq

structure LexHost (F : Type) where
  parseFloat : Text → Except NumError F
  unicodeByName : Text → Option Char

inductive LexError where
  | unexpectedChar (r : Char)
  | floatRange (text : Text)
  | floatInvalid (text : Text)
  | leadingZeros (text : Text)
  | intRange (text : Text)
  | intInvalid (text : Text)
  | unterminated
  | newline
  | loneBackslash
  | hexShort (marker : Char) (digits : Nat)
  | hexInvalid (marker : Char) (digits : Nat) (text : Option Text)
  | notCodePoint (marker : Char) (text : Text)
  | nameBraces
  | nameUnclosed
  | unknownName (name : Text)
deriving DecidableEq

def isIdentStart (c : Char) : Bool := c = '_' || c.isAlpha
def isIdentPart (c : Char) : Bool := isIdentStart c || c.isDigit
def isQuote (c : Char) : Bool := c = '\'' || c = '"'
def isBasePrefix (c : Char) : Bool := c ∈ ['x', 'X', 'o', 'O', 'b', 'B']
def isBaseDigit (c : Char) : Bool := c.isDigit || ('a' ≤ c && c ≤ 'f') || ('A' ≤ c && c ≤ 'F')
def scanDigits (ok : Char → Bool) (s : Text) : Text × Text := s.span fun c => ok c || c = '_'
def scanSign : Text → Text × Text
  | '+' :: s => (['+'], s)
  | '-' :: s => (['-'], s)
  | s => ([], s)

def scanExponent : Text → Text × Text
  | [] => ([], [])
  | c :: s =>
    if c = 'e' ∨ c = 'E' then
      let (sign, digits) := scanSign s
      if digits.head?.any Char.isDigit then
        let (run, rest) := scanDigits Char.isDigit digits
        (c :: sign ++ run, rest)
      else ([], c :: s)
    else ([], c :: s)

def scanFraction : Text → Text × Text
  | '.' :: s =>
    let (run, rest) := scanDigits Char.isDigit s
    ('.' :: run, rest)
  | s => ([], s)

structure Scanned where
  text : Text
  rest : Text
  isFloat : Bool
  based : Bool

def scanDecimal (s : Text) : Scanned :=
  let (whole, s) := scanDigits Char.isDigit s
  let (fraction, s) := scanFraction s
  let (exponent, s) := scanExponent s
  ⟨whole ++ fraction ++ exponent, s, fraction ≠ [] || exponent ≠ [], false⟩

def scanNumber : Text → Scanned
  | '0' :: base :: s =>
    if isBasePrefix base then
      let (run, rest) := scanDigits isBaseDigit s
      ⟨'0' :: base :: run, rest, false, true⟩
    else scanDecimal ('0' :: base :: s)
  | s => scanDecimal s

def hasLeadingZeros (text : Text) : Bool :=
  let digits := text.filter (· ≠ '_')
  1 < digits.length && digits.head? = some '0' && digits.any (· ≠ '0')

def digitOf (c : Char) : Option Nat :=
  if c.isDigit then some (c.toNat - '0'.toNat)
  else if c.isLower then some (c.toNat - 'a'.toNat + 10)
  else if c.isUpper then some (c.toNat - 'A'.toNat + 10)
  else none

def parseDigits (base : Nat) (n : Nat) : Text → Except NumError Nat
  | [] => .ok n
  | c :: cs =>
    if c = '_' then parseDigits base n cs
    else
      match digitOf c with
      | none => .error .badSyntax
      | some d =>
        if base ≤ d then .error .badSyntax
        else if 2 ^ 64 ≤ n * base + d then .error .range
        else parseDigits base (n * base + d) cs

def splitBase : Text → Nat × Text
  | '0' :: mark :: c :: cs =>
    if mark.toLower = 'b' then (2, c :: cs)
    else if mark.toLower = 'o' then (8, c :: cs)
    else if mark.toLower = 'x' then (16, c :: cs)
    else (8, mark :: c :: cs)
  | '0' :: cs => (8, cs)
  | cs => (10, cs)

inductive Before where
  | start
  | digit
  | underscore
  | other
deriving DecidableEq

def underscoresAfter (hex : Bool) (before : Before) : Text → Bool
  | [] => before ≠ .underscore
  | c :: cs =>
    if c.isDigit || (hex && 'a' ≤ c.toLower && c.toLower ≤ 'f') then underscoresAfter hex .digit cs
    else if c = '_' then before = .digit && underscoresAfter hex .underscore cs
    else before ≠ .underscore && underscoresAfter hex .other cs

def underscoreOK : Text → Bool
  | '0' :: mark :: cs =>
    if mark.toLower ∈ ['b', 'o', 'x'] then underscoresAfter (mark.toLower = 'x') .digit cs
    else underscoresAfter false .start ('0' :: mark :: cs)
  | cs => underscoresAfter false .start cs

def parseInt (text : Text) : Except NumError Int := do
  let (base, digits) := splitBase text
  let n ← parseDigits base 0 digits
  if '_' ∈ digits ∧ ¬ underscoreOK text then .error .badSyntax
  else if 2 ^ 63 ≤ n then .error .range
  else .ok n

section
variable {F : Type} (host : LexHost F)

def lexNumber (s : Text) : Except LexError (Token F × Text) :=
  let scanned := scanNumber s
  if scanned.isFloat then
    match host.parseFloat scanned.text with
    | .ok f => .ok (.float f, scanned.rest)
    | .error .range => .error (.floatRange scanned.text)
    | .error .badSyntax => .error (.floatInvalid scanned.text)
  else if !scanned.based && hasLeadingZeros scanned.text then .error (.leadingZeros scanned.text)
  else
    match parseInt scanned.text with
    | .ok i => .ok (.int i, scanned.rest)
    | .error .range => .error (.intRange scanned.text)
    | .error .badSyntax => .error (.intInvalid scanned.text)

def scanStringBody (delim : Text) : Text → Except LexError (Text × Text)
  | [] => .error .unterminated
  | c :: s =>
    if delim <+: c :: s then .ok ([], (c :: s).drop delim.length)
    else if c = '\\' then
      -- an escaped quote does not close the literal, raw or not
      match s with
      | [] => .error .unterminated
      | d :: s => do
        let (body, rest) ← scanStringBody delim s
        .ok (c :: d :: body, rest)
    else if c = '\n' ∧ delim.length ≠ 3 then .error .newline
    else do
      let (body, rest) ← scanStringBody delim s
      .ok (c :: body, rest)

def hexValue (n : Nat) : Text → Option Nat
  | [] => some n
  | c :: cs =>
    match digitOf c with
    | some d => if d < 16 then hexValue (n * 16 + d) cs else none
    | none => none

def writeHexEscape (marker : Char) (digits : Nat) (s : Text) : Except LexError (Text × Text) :=
  if byteLen s < digits then .error (.hexShort marker digits)
  else
    match takeBytes digits s with
    | none => .error (.hexInvalid marker digits none)
    | some text =>
      match hexValue 0 text with
      | none => .error (.hexInvalid marker digits (some text))
      | some v =>
        if marker ≠ 'x' ∧ (0x10FFFF < v ∨ (0xD800 ≤ v ∧ v ≤ 0xDFFF)) then .error (.notCodePoint marker text)
        else .ok ([Char.ofNat v], s.drop text.length)

def writeNamedEscape (s : Text) : Except LexError (Text × Text) :=
  match s with
  | [] => .error .nameBraces
  | c :: s =>
    if c ≠ '\x7b' then .error .nameBraces
    else
      match s.span (· ≠ '\x7d') with
      | (_, []) => .error .nameUnclosed
      | (name, _ :: rest) =>
        match host.unicodeByName name with
        | none => .error (.unknownName name)
        | some r => .ok ([r], rest)

def writeEscape : Text → Except LexError (Text × Text)
  | [] => .error .loneBackslash
  | c :: s =>
    if c = '\\' ∨ c = '\'' ∨ c = '"' then .ok ([c], s)
    else if c = 'n' then .ok (['\n'], s)
    else if c = 'r' then .ok (['\r'], s)
    else if c = 't' then .ok (['\t'], s)
    else if c = 'x' then writeHexEscape c 2 s
    else if c = 'u' then writeHexEscape c 4 s
    else if c = 'U' then writeHexEscape c 8 s
    else if c = 'N' then writeNamedEscape host s
    else .ok (['\\', c], s)

def decodeEscapes : Nat → Text → Except LexError Text
  | 0, _ => .ok []
  | _, [] => .ok []
  | n + 1, c :: s =>
    if c = '\\' then do
      let (out, rest) ← writeEscape host s
      let tail ← decodeEscapes n rest
      .ok (out ++ tail)
    else do
      let tail ← decodeEscapes n s
      .ok (c :: tail)

def lexString (raw : Bool) : Text → Except LexError (Token F × Text)
  | [] => .error .unterminated
  | quote :: s => do
    let (body, rest) ←
      if [quote, quote] <+: s then scanStringBody [quote, quote, quote] (s.drop 2) else scanStringBody [quote] s
    if raw then .ok (.string body, rest)
    else do
      let value ← decodeEscapes host body.length body
      .ok (.string value, rest)

def isBlank (c : Char) : Bool := c ∈ [' ', '\t', '\r', '\n', '\x0c', '\x0b']
def skipSpace (s : Text) : Text := s.dropWhile isBlank

def lexToken (c : Char) (s : Text) : Except LexError (Token F × Text) :=
  if c.isDigit ∨ (c = '.' ∧ s.head?.any Char.isDigit) then lexNumber host (c :: s)
  else if isQuote c then lexString host false (c :: s)
  else if (c = 'r' ∨ c = 'R') ∧ s.head?.any isQuote then lexString host true s
  else if isIdentStart c then
    let (text, rest) := (c :: s).span isIdentPart
    .ok (.ident text, rest)
  else
    match operators.find? fun op => op.text.isPrefixOf (c :: s) with
    | some op => .ok (.symbol op, (c :: s).drop op.text.length)
    | none => .error (.unexpectedChar c)

def nextToken (s : Text) : Except LexError (Option (Token F × Text)) :=
  match skipSpace s with
  | [] => .ok none
  | c :: s => some <$> lexToken host c s

def tokenizeFrom : Nat → Text → Except LexError (List (Token F))
  | 0, _ => .ok []
  | n + 1, s => do
    match ← nextToken host s with
    | none => .ok []
    | some (tok, rest) => do
      let toks ← tokenizeFrom n rest
      .ok (tok :: toks)

def tokenize (s : Text) : Except LexError (List (Token F)) := tokenizeFrom host s.length s

end
end Sqi.Expr
