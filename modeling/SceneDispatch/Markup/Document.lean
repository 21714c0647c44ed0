import SceneDispatch.Markup.Scope
/-!
Documents: one element, with nothing around it but spaces, comments and instructions.
-/
namespace SceneDispatch.Markup

/-- An element whose end has not been read; its children stand in reverse. -/
structure OpenElement where
  name : QualifiedName
  scope : Scope
  attributes : OrderedTable Attribute.name
  opening : String
  start : Location
  children : List Element

namespace OpenElement

def close (o : OpenElement) (stop : Location) : Element :=
  .mk ⟨o.name.name, o.attributes, o.opening, o.start, stop⟩ o.children.reverse

end OpenElement

/-- The start tag's text through its first `>`. -/
def openingText (text : List Char) : String :=
  .ofList (text.takeWhile (· ≠ '>') ++ ['>'])

/-- Reading in progress: the finished root, if any, and the open elements, innermost first. -/
structure Progress where
  root : Option Element
  stack : List OpenElement

namespace Progress

def scope (p : Progress) : Scope :=
  match p.stack with
  | [] => []
  | o :: _ => o.scope

/-- Puts a finished element where it belongs; a document has only one root. -/
def add (p : Progress) (e : Element) : Option Progress :=
  match p.stack with
  | o :: rest => some { p with stack := { o with children := e :: o.children } :: rest }
  | [] => if p.root.isSome then none else some ⟨some e, []⟩

/-- One lexeme, from `here` to `after`. -/
def step (p : Progress) (here after : Location) (l : Lexeme) : Option Progress :=
  match l.token with
  | .comment | .instruction => some p
  | .text => if p.stack.isEmpty && !l.text.all isSpace then none else some p
  | .verbatim => if p.stack.isEmpty then none else some p
  | .start name written closed => do
    if p.stack.isEmpty && p.root.isSome then none
    let (scope, attributes) ← enter? p.scope name written
    let o : OpenElement := ⟨name, scope, attributes, openingText l.text, here, []⟩
    if closed then p.add (o.close after) else some { p with stack := o :: p.stack }
  | .stop name =>
    match p.stack with
    | [] => none
    | o :: rest => if name = o.name then add { p with stack := rest } (o.close after) else none

def run (p : Progress) (here : Location) : List Lexeme → Option Progress
  | [] => some p
  | l :: ls => do
    let after := here.past l.text
    (← p.step here after l).run after ls

end Progress

/-- The root element of a document; `none` when the source is not well formed. -/
def parse? (source : String) : Option Element := do
  let s := source.toList
  let body ← documentBody? s
  let lexemes ← lexemes? body
  let here := Location.first.past (s.take (s.length - body.length))
  let p ← Progress.run ⟨none, []⟩ here lexemes
  if p.stack.isEmpty then p.root else none

end SceneDispatch.Markup
