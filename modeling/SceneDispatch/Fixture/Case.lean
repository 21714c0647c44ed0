import SceneDispatch.Script.Json
/-!
Recorded cases: what is expected of the script of a scene, or the code it is refused with.
-/
namespace SceneDispatch

structure FixtureCase where
  schemaVersion : String
  /-- Fragments of the script, in the order in which they appear. -/
  fragments : List String
  statusGroups : Option (List StatusContext)
  dependencies : Option (List String)
  /-- The code with which the scene is refused. -/
  refusal : Option String
  deriving DecidableEq

namespace FixtureCase

def currentSchema : String := "dlg-tool-case.v1"

def fieldNames : List String :=
  ["schemaVersion", "expectContains", "expectStatusGroups", "expectDependencies", "expectError"]

/-- Everything but the schema version may be left out; only the fragments may not be null. -/
def ofJson? (v : Json) : Option FixtureCase := do
  match ← v.record? fieldNames with
  | [some version, fragments, groups, dependencies, refusal] =>
    return ⟨← version.text?, ← (fragments.getD (.array [])).list? Json.text?,
      ← Json.optional? (Json.list? StatusContext.ofJson?) groups,
      ← Json.optional? (Json.list? Json.text?) dependencies,
      ← Json.optional? Json.text? refusal⟩
  | _ => none

end FixtureCase

end SceneDispatch
