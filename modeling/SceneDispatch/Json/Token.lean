import SceneDispatch.Json.Basic
/-!
The tokens of JSON text.
-/
namespace SceneDispatch.Json

inductive Token where
  | beginArray
  | endArray
  | beginObject
  | endObject
  | comma
  | colon
  | scalar (value : Json)

def isSpace (c : Char) : Bool := c = ' ' || c = '\t' || c = '\n' || c = '\r'

/-- A part of a string literal: a character, or a 16-bit unit given by its number. -/
inductive Piece where
  | char (c : Char)
  | unit (n : Nat)
  deriving DecidableEq, Repr

def hexDigit? (c : Char) : Option Nat :=
  if '0' ≤ c && c ≤ '9' then some (c.toNat - '0'.toNat)
  else if 'a' ≤ c && c ≤ 'f' then some (c.toNat - 'a'.toNat + 10)
  else if 'A' ≤ c && c ≤ 'F' then some (c.toNat - 'A'.toNat + 10)
  else none

def unit? (a b c d : Char) : Option Nat := do
  return (← hexDigit? a) * 4096 + (← hexDigit? b) * 256 + (← hexDigit? c) * 16 + (← hexDigit? d)

def escaped? (c : Char) : Option Char :=
  match c with
  | '"' => some '"'
  | '\\' => some '\\'
  | '/' => some '/'
  | 'b' => some '\x08'
  | 'f' => some '\x0c'
  | 'n' => some '\n'
  | 'r' => some '\r'
  | 't' => some '\t'
  | _ => none

/-- The pieces of a string literal behind its opening quote, and what follows the literal. -/
def pieces? : List Char → Option (List Piece × List Char)
  | [] => none
  | '"' :: s => some ([], s)
  | '\\' :: 'u' :: a :: b :: c :: d :: s => do
    let n ← unit? a b c d
    let (pieces, rest) ← pieces? s
    some (.unit n :: pieces, rest)
  | '\\' :: c :: s => do
    let c ← escaped? c
    let (pieces, rest) ← pieces? s
    some (.char c :: pieces, rest)
  | c :: s =>
    if c = '\\' || c.toNat < 0x20 then none
    else do
      let (pieces, rest) ← pieces? s
      some (.char c :: pieces, rest)

def isLeading (n : Nat) : Bool := 0xD800 ≤ n && n ≤ 0xDBFF

def isTrailing (n : Nat) : Bool := 0xDC00 ≤ n && n ≤ 0xDFFF

/-- The character that a leading and a trailing unit give together. -/
def paired (hi lo : Nat) : Char := .ofNat (0x10000 + (hi - 0xD800) * 0x400 + (lo - 0xDC00))

/-- The text that pieces spell; a leading unit needs a trailing one right behind it. -/
def spell? : List Piece → Option (List Char)
  | [] => some []
  | .char c :: ps => (c :: ·) <$> spell? ps
  | .unit n :: ps =>
    if isTrailing n then none
    else if isLeading n then
      match ps with
      | .unit m :: ps => if isTrailing m then (paired n m :: ·) <$> spell? ps else none
      | _ => none
    else (.ofNat n :: ·) <$> spell? ps

def literal (pieces : List Piece) : Literal := (spell? pieces).map .ofList

def digitsValue (digits : List Char) : Nat :=
  digits.foldl (fun n c => n * 10 + (c.toNat - '0'.toNat)) 0

/-- Passes over a fraction, if there is one. -/
def fraction? (s : List Char) : Option (List Char) :=
  match s with
  | '.' :: s => if (s.takeWhile Char.isDigit).isEmpty then none
    else some (s.dropWhile Char.isDigit)
  | s => some s

/-- Passes over an exponent, if there is one. -/
def exponent? (s : List Char) : Option (List Char) :=
  match s with
  | c :: s =>
    if c = 'e' || c = 'E' then
      let s := match s with
        | '+' :: s => s
        | '-' :: s => s
        | s => s
      if (s.takeWhile Char.isDigit).isEmpty then none else some (s.dropWhile Char.isDigit)
    else some (c :: s)
  | [] => some []

/-- An unsigned number. It has no superfluous zero in front, and it is an integer when it has
neither fraction nor exponent. -/
def unsigned? (s : List Char) : Option (Option Nat × List Char) := do
  let digits := s.takeWhile Char.isDigit
  if digits.isEmpty || (digits.head? = some '0' && digits ≠ ['0']) then none
  let s := s.dropWhile Char.isDigit
  let rest ← fraction? s >>= exponent?
  some (if rest.length = s.length then some (digitsValue digits) else none, rest)

/-- A number. Zero with a minus sign is no integer. -/
def number? (s : List Char) : Option (Json × List Char) :=
  match s with
  | '-' :: r => do
    let (value, rest) ← unsigned? r
    let text := String.ofList (s.take (s.length - rest.length))
    match value with
    | some (n + 1) => some (integer (.negSucc n), rest)
    | _ => some (real text, rest)
  | _ => do
    let (value, rest) ← unsigned? s
    match value with
    | some n => some (integer n, rest)
    | none => some (real (.ofList (s.take (s.length - rest.length))), rest)

def token? (s : List Char) : Option (Token × List Char) :=
  match s with
  | '[' :: s => some (.beginArray, s)
  | ']' :: s => some (.endArray, s)
  | '\x7b' :: s => some (.beginObject, s)
  | '\x7d' :: s => some (.endObject, s)
  | ',' :: s => some (.comma, s)
  | ':' :: s => some (.colon, s)
  | '"' :: s => (pieces? s).map fun (pieces, rest) => (.scalar (string (literal pieces)), rest)
  | 'n' :: 'u' :: 'l' :: 'l' :: s => some (.scalar null, s)
  | 't' :: 'r' :: 'u' :: 'e' :: s => some (.scalar (bool true), s)
  | 'f' :: 'a' :: 'l' :: 's' :: 'e' :: s => some (.scalar (bool false), s)
  | s => (number? s).map fun (value, rest) => (.scalar value, rest)

/-- The tokens of `s`, after passing over `skip` characters of it. -/
def tokensFrom : Nat → List Char → Option (List Token)
  | _, [] => some []
  | skip + 1, _ :: s => tokensFrom skip s
  | 0, c :: s =>
    if isSpace c then tokensFrom 0 s
    else do
      let (token, rest) ← token? (c :: s)
      (token :: ·) <$> tokensFrom (s.length - rest.length) s

def tokens? (s : List Char) : Option (List Token) := tokensFrom 0 s

end SceneDispatch.Json
