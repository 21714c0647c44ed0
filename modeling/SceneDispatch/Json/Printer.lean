import SceneDispatch.Json.Basic
/-!
Writing JSON without spaces. In a string literal quotes, backslashes and control characters are
escaped and nothing else.
-/
namespace SceneDispatch.Json

def hexDigit (n : Nat) : Char := Nat.digitChar n

def escape (c : Char) : List Char :=
  if c = '"' || c = '\\' then ['\\', c]
  else if c = '\x08' then ['\\', 'b']
  else if c = '\t' then ['\\', 't']
  else if c = '\n' then ['\\', 'n']
  else if c = '\x0c' then ['\\', 'f']
  else if c = '\r' then ['\\', 'r']
  else if c.toNat < 0x20 then
    ['\\', 'u', '0', '0', hexDigit (c.toNat / 16), hexDigit (c.toNat % 16)]
  else [c]

/-- A literal that spells no text is written as a lone leading unit. -/
def quoted : Literal → List Char
  | some text => '"' :: text.toList.flatMap escape ++ ['"']
  | none => "\"\\ud800\"".toList

/-- Puts commas between texts. -/
def separated : List (List Char) → List Char
  | [] => []
  | [text] => text
  | text :: texts => text ++ ',' :: separated texts

mutual

def renderList : Json → List Char
  | null => ['n', 'u', 'l', 'l']
  | bool true => ['t', 'r', 'u', 'e']
  | bool false => ['f', 'a', 'l', 's', 'e']
  | integer value => (toString value).toList
  | real text => text.toList
  | string literal => quoted literal
  | array items => '[' :: separated (renderItems items) ++ [']']
  | object fields => '\x7b' :: separated (renderFields fields) ++ ['\x7d']

def renderItems : List Json → List (List Char)
  | [] => []
  | v :: vs => renderList v :: renderItems vs

def renderFields : List (Literal × Json) → List (List Char)
  | [] => []
  | f :: fs => renderField f :: renderFields fs

def renderField : Literal × Json → List Char
  | (name, v) => quoted name ++ ':' :: renderList v

end

def render (v : Json) : String := .ofList (renderList v)

end SceneDispatch.Json
