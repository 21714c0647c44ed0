import SceneDispatch.Scene.Node
/-!
The flow of statuses through a scene. A node is reached from the statuses that flow into it; a
suspend point lets only its own status flow on, and what flows out of a fork is the union of what
flows out of its branches. A switch without a default arm can also be passed over.
-/
namespace SceneDispatch

namespace Node

/-- What flows into the children of a node. -/
def entry (kind : NodeKind) (incoming : StatusContext) : StatusContext :=
  match kind.status? with
  | some status => .singleton status
  | none => incoming

/-- A switch that may run none of its arms. -/
def fallsThrough (kind : NodeKind) (children : List Node) : Bool :=
  match kind with
  | .switch _ => !children.any isOtherwise
  | _ => false

mutual

/-- Adds to the contexts of a node and of what runs below it, and gives what flows out. Contexts
only grow. -/
def assign (incoming : StatusContext) : Node → Node × StatusContext
  | mk kind context children =>
    let context := context ∪ incoming
    let entry := entry kind incoming
    if kind.isParallel then
      let (assigned, joined) := assignBranches entry children
      let out := if fallsThrough kind children then joined ∪ entry else joined
      (mk kind context assigned, out)
    else if kind.hasChildren then
      let (assigned, out) := assignSerial entry children
      (mk kind context assigned, out)
    else (mk kind context children, entry)

/-- Every branch is entered alike; what flows out of them is joined. -/
def assignBranches (incoming : StatusContext) : List Node → List Node × StatusContext
  | [] => ([], .empty)
  | n :: ns =>
    let (n, out) := assign incoming n
    let (ns, joined) := assignBranches incoming ns
    (n :: ns, out ∪ joined)

/-- Each node is entered by what flows out of the one before it. -/
def assignSerial (incoming : StatusContext) : List Node → List Node × StatusContext
  | [] => ([], incoming)
  | n :: ns =>
    let (n, out) := assign incoming n
    let (ns, last) := assignSerial out ns
    (n :: ns, last)

end

/-- The contexts of a whole scene, entered by the start status. -/
def assignContexts (root : Node) : Node × StatusContext := assign .start root

end Node

end SceneDispatch
