import SceneDispatch.Feature.Basic
import SceneDispatch.Status.Context
/-!
Scene graphs. A node has a kind, children, and the context of statuses whose resumption can reach
it. Blocks, cases and options run their children one after another; a switch runs at most one of
its cases and an options node the chosen option. Messages and options suspend the scene.
-/
namespace SceneDispatch

inductive CaseTest where
  | values (values : List String)
  /-- A boolean expression in which `$x` stands for the subject of the switch. -/
  | condition (expression : String)
  | otherwise
  deriving DecidableEq, Repr

inductive MessageStyle where
  | next
  | previousNext
  | yesNo (refusal : String)
  | ok
  deriving DecidableEq, Repr

namespace MessageStyle

/-- The feature that shows a message of this style. -/
def featureName : MessageStyle → String
  | next => "dlg_Next"
  | previousNext => "dlg_PrevNext"
  | yesNo _ => "dlg_YesNo"
  | ok => "dlg_Ok"

end MessageStyle

inductive NodeKind where
  | block
  | switch (feature : Feature)
  | case (test : CaseTest)
  | message (status : Status) (style : MessageStyle) (text : String)
  | options (status : Status) (text : String)
  | option (label : String)
  | command (feature : Feature) (arguments : Arguments)
  deriving DecidableEq, Repr

namespace NodeKind

def name : NodeKind → String
  | block => "block"
  | switch _ => "switch"
  | case _ => "case"
  | message .. => "message"
  | options .. => "options"
  | option _ => "option"
  | command .. => "command"

/-- The status under which a suspend point resumes. -/
def status? : NodeKind → Option Status
  | message status .. => some status
  | options status _ => some status
  | _ => none

def suspends (k : NodeKind) : Bool := k.status?.isSome

/-- Kinds of which at most one child runs. -/
def isParallel : NodeKind → Bool
  | switch _ => true
  | options .. => true
  | _ => false

def hasChildren : NodeKind → Bool
  | message .. => false
  | command .. => false
  | _ => true

end NodeKind

inductive Node where
  | mk (kind : NodeKind) (context : StatusContext) (children : List Node)

namespace Node

def kind : Node → NodeKind
  | mk kind _ _ => kind

def context : Node → StatusContext
  | mk _ context _ => context

def children : Node → List Node
  | mk _ _ children => children

/-- A node whose context is still unknown. -/
def fresh (kind : NodeKind) (children : List Node) : Node := mk kind .empty children

def leaf (kind : NodeKind) : Node := fresh kind []

instance : Inhabited Node := ⟨leaf .block⟩

/-- The default arm of a switch. -/
def isOtherwise (n : Node) : Bool := n.kind = .case .otherwise

end Node

end SceneDispatch
