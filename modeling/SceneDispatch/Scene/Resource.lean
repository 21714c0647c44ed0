import SceneDispatch.Fault
/-!
Resource tables: texts that a scene refers to by name.
-/
namespace SceneDispatch

structure Resource where
  name : String
  text : String
  deriving DecidableEq, Repr

abbrev ResourceTable := OrderedTable Resource.name

namespace ResourceTable

def resolve? (t : ResourceTable) (name : String) : Option String :=
  (t.find? name).map Resource.text

/-- The text of that name, or the name itself as text. -/
def resolveOrLiteral (t : ResourceTable) (name : String) : String := (t.resolve? name).getD name

/-- Adds the resource that an entry defines; its text may be left out. -/
def define (t : ResourceTable) (entry : Element) : Except Fault ResourceTable := do
  let name ← entry.tag.require "name"
  if t.contains name then .error (.resourceDuplicate entry.tag name)
  else .ok (t.insert ⟨name, (entry.attribute? "text").getD ""⟩)

/-- The table that the children of an element define. -/
def ofElement (e : Element) : Except Fault ResourceTable := e.children.foldlM define .empty

end ResourceTable

end SceneDispatch
