import SceneDispatch.Markup.Reference
import SceneDispatch.Text.Search
/-!
The tokens of scene markup. A lexeme keeps the source text of its token, and the lexemes of a
document follow one another without a gap, so their texts concatenate to the source.
-/
namespace SceneDispatch.Markup

/-- A name with the qualifier in front of its colon, which is empty when there is none. -/
structure QualifiedName where
  qualifier : String
  name : String
  deriving DecidableEq, Repr

structure WrittenAttribute where
  name : QualifiedName
  value : String
  deriving DecidableEq, Repr

inductive Token where
  | text
  | comment
  | instruction
  | verbatim
  | start (name : QualifiedName) (attributes : List WrittenAttribute) (closed : Bool)
  | stop (name : QualifiedName)
  deriving DecidableEq, Repr

structure Lexeme where
  token : Token
  text : List Char
  deriving DecidableEq, Repr

/-- What follows `p` when `s` begins with it. -/
def behind? (p s : List Char) : Option (List Char) :=
  if p.isPrefixOf s then some (s.drop p.length) else none

/-- The text up to the first `stop`, all of it document characters, and what follows `stop`. -/
def upTo? (stop : List Char) : List Char → Option (List Char × List Char)
  | [] => none
  | c :: s =>
    if stop.isPrefixOf (c :: s) then some ([], (c :: s).drop stop.length)
    else if isDocumentChar c then do
      let (body, rest) ← upTo? stop s
      some (c :: body, rest)
    else none

def beginsName (s : List Char) : Bool :=
  match s with
  | [] => false
  | c :: _ => isNameStart c

/-- A qualified name: at most one colon, with a name behind it and nothing or a name before it. -/
def qualifiedName? (s : List Char) : Option (QualifiedName × List Char) :=
  let inName := fun c => isNameChar c || c = ':'
  let rest := s.dropWhile inName
  match (s.takeWhile inName).splitOn ':' with
  | [name] => if beginsName name then some (⟨"", .ofList name⟩, rest) else none
  | [qualifier, name] =>
    if (qualifier.isEmpty || beginsName qualifier) && beginsName name then
      some (⟨.ofList qualifier, .ofList name⟩, rest)
    else none
  | _ => none

/-- The text between two equal quotes; it holds no `<`. -/
def quoted? : List Char → Option (List Char × List Char)
  | [] => none
  | q :: s =>
    if q = '"' || q = '\'' then
      let inValue := fun c => c ≠ q && c ≠ '<'
      let value := s.takeWhile inValue
      match s.dropWhile inValue with
      | c :: rest => if c = q && value.all isDocumentChar then some (value, rest) else none
      | [] => none
    else none

def attribute? (s : List Char) : Option (WrittenAttribute × List Char) := do
  let (name, s) ← qualifiedName? s
  let s ← behind? ['='] (s.dropWhile isSpace)
  let (text, rest) ← quoted? (s.dropWhile isSpace)
  let value ← attributeValue? text
  some (⟨name, .ofList value⟩, rest)

/-- The attributes of a start tag up to its end, each behind a space, whether the tag also closes
its element, and what follows the tag. `skip` characters are passed over first. -/
def attributesFrom : Nat → Bool → List Char → Option (List WrittenAttribute × Bool × List Char)
  | _, _, [] => none
  | skip + 1, _, _ :: s => attributesFrom skip false s
  | 0, spaced, c :: s =>
    if isSpace c then attributesFrom 0 true s
    else if c = '>' then some ([], false, s)
    else if c = '/' then (behind? ['>'] s).map ([], true, ·)
    else if spaced then do
      let (a, rest) ← attribute? (c :: s)
      let (as, closed, rest) ← attributesFrom (s.length - rest.length) false s
      some (a :: as, closed, rest)
    else none

def start? (s : List Char) : Option (Token × List Char) := do
  let (name, s) ← qualifiedName? s
  let (attributes, closed, rest) ← attributesFrom 0 false s
  some (.start name attributes closed, rest)

def stop? (s : List Char) : Option (Token × List Char) := do
  let (name, s) ← qualifiedName? s
  let rest ← behind? ['>'] (s.dropWhile isSpace)
  some (.stop name, rest)

/-- A comment holds no two hyphens in a row and does not end in one. -/
def comment? (s : List Char) : Option (Token × List Char) := do
  let (body, rest) ← upTo? ['-', '-', '>'] s
  if Text.occurs ['-', '-'] body || body.getLast? = some '-' then none else some (.comment, rest)

/-- An instruction begins with a name, in which colons may stand anywhere. -/
def instruction? (s : List Char) : Option (Token × List Char) :=
  match s with
  | [] => none
  | c :: s =>
    if isNameStart c || c = ':' then
      let s := s.dropWhile fun c => isNameChar c || c = ':'
      (upTo? ['?', '>'] (s.dropWhile isSpace)).map fun (_, rest) => (.instruction, rest)
    else none

def verbatim? (s : List Char) : Option (Token × List Char) :=
  (upTo? [']', ']', '>'] s).map fun (_, rest) => (.verbatim, rest)

/-- Character data reaches to the next tag. It does not hold the end of a verbatim section, and
its references are well formed. -/
def text? (s : List Char) : Option (Token × List Char) :=
  let body := s.takeWhile (· ≠ '<')
  if body.all isDocumentChar && !Text.occurs [']', ']', '>'] body &&
      (attributeValue? body).isSome then
    some (.text, s.dropWhile (· ≠ '<'))
  else none

/-- Opens the declaration of a document; it may stand only at its very beginning. -/
def declarationMark : List Char := ['<', '?', 'x', 'm', 'l', ' ']

def token? (s : List Char) : Option (Token × List Char) :=
  match s with
  | '<' :: '!' :: '-' :: '-' :: s => comment? s
  | '<' :: '!' :: '[' :: 'C' :: 'D' :: 'A' :: 'T' :: 'A' :: '[' :: s => verbatim? s
  | '<' :: '!' :: _ => none
  | '<' :: '?' :: r => if declarationMark.isPrefixOf s then none else instruction? r
  | '<' :: '/' :: s => stop? s
  | '<' :: s => start? s
  | s => text? s

/-- The lexemes of `s`, after passing over `skip` characters of it. -/
def lexemesFrom : Nat → List Char → Option (List Lexeme)
  | _, [] => some []
  | skip + 1, _ :: s => lexemesFrom skip s
  | 0, c :: s => do
    let (token, rest) ← token? (c :: s)
    let skip := s.length - rest.length
    (⟨token, c :: s.take skip⟩ :: ·) <$> lexemesFrom skip s

def lexemes? (s : List Char) : Option (List Lexeme) := lexemesFrom 0 s

/-- One item of a declaration, whose name begins with `word`. -/
def declared? (word s : List Char) : Option (List Char) :=
  if word.isPrefixOf s then do
    let (_, s) ← qualifiedName? s
    let s ← behind? ['='] (s.dropWhile isSpace)
    let (_, rest) ← quoted? (s.dropWhile isSpace)
    some rest
  else none

/-- Items of a declaration are followed by a space or by its end. -/
def itemEnd? (s : List Char) : Option (List Char) :=
  match s with
  | [] => some []
  | c :: _ =>
    if isSpace c then some (s.dropWhile isSpace)
    else if ['?', '>'].isPrefixOf s then some s
    else none

/-- Reads the version, the encoding if there is one, and the remark on being self-contained if
there is one, in this order; gives what follows the declaration. -/
def declaration? (s : List Char) : Option (List Char) := do
  let s ← behind? ['<', '?', 'x', 'm', 'l'] s
  let s ← declared? "version".toList (s.dropWhile isSpace)
  let s ← itemEnd? s
  let s ← if "encoding".toList.isPrefixOf s then declared? "encoding".toList s >>= itemEnd?
    else some s
  let s ← if "standalone".toList.isPrefixOf s then declared? "standalone".toList s else some s
  behind? ['?', '>'] (s.dropWhile isSpace)

/-- What follows the byte order mark and the declaration, either of which may be missing. -/
def documentBody? (s : List Char) : Option (List Char) :=
  let s := (behind? ['\ufeff'] s).getD s
  if declarationMark.isPrefixOf s then declaration? s else some s

end SceneDispatch.Markup
