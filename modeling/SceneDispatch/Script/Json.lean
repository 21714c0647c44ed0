import SceneDispatch.Json.Printer
import SceneDispatch.Json.Reader
import SceneDispatch.Script.Basic
/-!
Status contexts and scripts as JSON. Statuses are 32-bit signed integers there, and the number of
suspend points is a 64-bit unsigned one.
-/
namespace SceneDispatch

namespace StatusContext

def toJson (c : StatusContext) : Json := .array (c.toList.map .integer)

/-- The statuses may come in any order, and more than once. -/
def ofJson? (v : Json) : Option StatusContext :=
  (v.list? (Json.integer? (-0x80000000) 0x7fffffff)).map .ofList

end StatusContext

namespace Script

def fieldNames : List String := ["source", "dependencies", "statusGroups", "statusCount"]

def toJson (s : Script) : Json :=
  .object
    [(some "source", .ofText s.source),
      (some "dependencies", .array (s.dependencies.map .ofText)),
      (some "statusGroups", .array (s.statusGroups.map StatusContext.toJson)),
      (some "statusCount", .integer s.statusCount)]

def ofJson? (v : Json) : Option Script := do
  match ← v.record? fieldNames with
  | [some source, some dependencies, some groups, some count] =>
    return ⟨← source.text?, ← dependencies.list? Json.text?, ← groups.list? StatusContext.ofJson?,
      (← count.integer? 0 0xffffffffffffffff).toNat⟩
  | _ => none

end Script

end SceneDispatch
