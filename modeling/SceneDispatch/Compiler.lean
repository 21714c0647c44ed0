import SceneDispatch.Scene.Build
import SceneDispatch.Scene.Flow
import SceneDispatch.Script.Basic
import SceneDispatch.Script.Generate
/-!
Compiling scenes: building the graph of a scene's content, letting the statuses flow through it,
and writing its script.
-/
namespace SceneDispatch

namespace Registry

/-- Compiles the content of a scene with the given resources. -/
def compileContent (r : Registry) (resources : ResourceTable) (content : Element) (date : String) :
    Except Fault Script :=
  match (Vocabulary.mk r resources).scene content 0 with
  | .error fault _ => .error fault
  | .ok root statusCount =>
    match Drafting.scene r root.assignContexts.1 .empty with
    | .error fault _ => .error fault
    | .ok _ draft => .ok (.ofDraft r draft date statusCount)

def resourcesTag : String := "resources"

/-- The resources at the head of a scene, and the elements behind them. -/
def sceneParts (root : Element) : Except Fault (ResourceTable × List Element) :=
  match root.children with
  | [] => return (.empty, [])
  | e :: es =>
    if e.name = resourcesTag then return (← ResourceTable.ofElement e, es)
    else return (.empty, e :: es)

/-- Compiles a scene: its root holds its resources, if it has any, and one content element. -/
def compileElement (r : Registry) (root : Element) (date : String) : Except Fault Script := do
  let (resources, contents) ← sceneParts root
  match contents with
  | [content] => r.compileContent resources content date
  | _ => .error (.contentInvalid root.tag contents.length)

/-- Compiles the source text of a scene; the date appears in the script's first line. -/
def compile (r : Registry) (source date : String) : Except Fault Script :=
  match Markup.parse? source with
  | some root => r.compileElement root date
  | none => .error .markupMalformed

end Registry

end SceneDispatch
