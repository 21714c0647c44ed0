import SceneDispatch.Markup.Element
import SceneDispatch.Markup.Token
/-!
Qualifiers and the resource names they are bound to. A start tag may bind qualifiers for itself
and its content; what it says beside that are its attributes, known by their local names.
-/
namespace SceneDispatch.Markup

/-- A qualifier with its resource name. -/
structure Binding where
  qualifier : String
  resource : String
  deriving DecidableEq, Repr

/-- The bindings in force, inner ones first. -/
abbrev Scope := List Binding

namespace Scope

def resource? (s : Scope) (qualifier : String) : Option String :=
  (s.find? (·.qualifier = qualifier)).map Binding.resource

def binds (s : Scope) (qualifier : String) : Bool := (s.resource? qualifier).isSome

end Scope

def builtInResource : String := "http://www.w3.org/XML/1998/namespace"

def bindingResource : String := "http://www.w3.org/2000/xmlns/"

/-- What an attribute of a start tag says. A binding is idle when it repeats the built-in one or is
for names without a qualifier: no lookup asks for it, and it may be made any number of times. -/
inductive Role where
  | bind (b : Binding)
  | idle
  | value

/-- The role of an attribute; `none` when it binds what may not be bound. -/
def WrittenAttribute.role? (a : WrittenAttribute) : Option Role :=
  if a.name.qualifier = "xmlns" then
    if a.value = bindingResource then none
    else if a.name.name = "xml" then if a.value = builtInResource then some .idle else none
    else if a.value = builtInResource then none
    else some (.bind ⟨a.name.name, a.value⟩)
  else if a.name.name = "xmlns" then
    if a.value = bindingResource || a.value = builtInResource then none
    else some .idle
  else some .value

/-- Parts the attributes of a tag into the bindings it makes, no qualifier bound twice, and its
values. -/
def bindings? : List WrittenAttribute → Option (Scope × List WrittenAttribute)
  | [] => some ([], [])
  | a :: as => do
    let role ← a.role?
    let (scope, values) ← bindings? as
    match role with
    | .bind b => if scope.binds b.qualifier then none else some (b :: scope, values)
    | .idle => some (scope, values)
    | .value => some (scope, a :: values)

/-- The resource name of an attribute; without a qualifier it has none. -/
def Scope.attributeResource? (s : Scope) (n : QualifiedName) : Option (Option String) :=
  if n.qualifier = "xml" then some (some builtInResource)
  else if n.qualifier = "" then some none
  else (s.resource? n.qualifier).map some

/-- The scope inside a start tag and the attributes of its element. Qualifiers have to be bound,
and no two attributes may have the same resource and local name. Of attributes that share only the
local name the last one counts. -/
def enter? (outer : Scope) (name : QualifiedName) (written : List WrittenAttribute) :
    Option (Scope × OrderedTable Attribute.name) := do
  if name.qualifier = "xmlns" then none
  let (inner, values) ← bindings? written
  let scope := inner ++ outer
  if name.qualifier ≠ "" && !scope.binds name.qualifier then none
  let identities ← values.mapM fun a => (scope.attributeResource? a.name).map (·, a.name.name)
  if identities.Nodup then
    some (scope, .ofList (values.map fun a => ⟨a.name.name, a.value⟩))
  else none

end SceneDispatch.Markup
