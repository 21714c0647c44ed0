import SceneDispatch.Markup.Character
/-!
Character references, and the value an attribute has once they are resolved: a line end or a tab
written as such counts as one blank, while a referenced character is kept as it is.
-/
namespace SceneDispatch.Markup

def digitValue? (base : Nat) (c : Char) : Option Nat :=
  let value :=
    if '0' ≤ c && c ≤ '9' then c.toNat - '0'.toNat
    else if 'a' ≤ c && c ≤ 'f' then c.toNat - 'a'.toNat + 10
    else if 'A' ≤ c && c ≤ 'F' then c.toNat - 'A'.toNat + 10
    else base
  if value < base then some value else none

/-- The number written in `digits`, which may not be empty. -/
def number? (base : Nat) (digits : List Char) : Option Nat :=
  if digits.isEmpty then none
  else digits.foldlM (fun n c => (digitValue? base c).map (n * base + ·)) 0

/-- The character with number `n`, which must fit in 32 bits. A number that belongs to no character
gives the replacement character; a character that no document may hold is refused. -/
def numberedChar? (n : Nat) : Option Char :=
  let c := if n.isValidChar then Char.ofNat n else '\ufffd'
  if n < 0x100000000 && isDocumentChar c then some c else none

/-- The character that a reference names between its ampersand and its semicolon. -/
def namedChar? : List Char → Option Char
  | '#' :: 'x' :: digits => number? 16 digits >>= numberedChar?
  | '#' :: digits => number? 10 digits >>= numberedChar?
  | ['l', 't'] => some '<'
  | ['g', 't'] => some '>'
  | ['a', 'm', 'p'] => some '&'
  | ['q', 'u', 'o', 't'] => some '"'
  | ['a', 'p', 'o', 's'] => some '\''
  | _ => none

/-- Reads a reference behind its ampersand: the character, and how many characters it takes
there. -/
def reference? (s : List Char) : Option (Char × Nat) :=
  let name := s.takeWhile (· ≠ ';')
  if name.length < s.length then (namedChar? name).map (·, name.length + 1) else none

/-- The value of attribute text, after passing over `skip` characters of it. -/
def valueFrom : Nat → List Char → Option (List Char)
  | _, [] => some []
  | skip + 1, _ :: s => valueFrom skip s
  | 0, c :: s =>
    if c = '&' then do
      let (r, n) ← reference? s
      (r :: ·) <$> valueFrom n s
    else if c = '\r' && s.head? = some '\n' then valueFrom 0 s
    else if c = '\t' || c = '\n' || c = '\r' then (' ' :: ·) <$> valueFrom 0 s
    else (c :: ·) <$> valueFrom 0 s

/-- The value of attribute text; `none` when a reference in it is not well formed. -/
def attributeValue? (s : List Char) : Option (List Char) := valueFrom 0 s

end SceneDispatch.Markup
