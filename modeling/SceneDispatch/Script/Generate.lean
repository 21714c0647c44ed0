import SceneDispatch.Feature.Registry
import SceneDispatch.Scene.Node
import SceneDispatch.Script.Draft
import SceneDispatch.Script.Place
import SceneDispatch.Text.Quoted
/-!
Writing the statements of a scene into a draft. Each node writes into the group of its own
context, and what follows a suspend point into the group of its status. What was written before a
failure stays written.
-/
namespace SceneDispatch

/-- Steps that write into a draft. -/
abbrev Drafting := EStateM Fault Draft

namespace Drafting

def touch (c : StatusContext) : Drafting Unit := modify (·.touch c)

def write (c : StatusContext) (statements : List Statement) : Drafting Unit :=
  modify (·.write c statements)

def endFeature : String := "special_End"

def optionsFeature : String := "dlg_Options"

def feature (r : Registry) (name : String) : Drafting Feature :=
  match r.lookup name with
  | .ok f => pure f
  | .error cause => throw (.lookup cause)

/-- The script text of a use of a feature, whose dependency is recorded. -/
def use (r : Registry) (f : Feature) (a : Arguments) : Drafting String := do
  modify (·.record f.dependency)
  return f.expand r.manager a

/-- The statement that uses a built-in feature. -/
def call (r : Registry) (name : String) (a : Arguments) : Drafting Statement := do
  let f ← feature r name
  return .terminated (← use r f a)

/-- The subject of a switch, whose dependency is recorded. -/
def subject (r : Registry) (f : Feature) : Drafting String :=
  match f.subject? r.manager with
  | none => throw (.lookup (.notSwitch f.name))
  | some text => do
    modify (·.record f.dependency)
    return text

def values (r : Registry) (f : Feature) : List String → Drafting (List String)
  | [] => return []
  | value :: rest => do
    let text ← use r f (.single value)
    return text :: (← values r f rest)

/-- The expression under which an arm is entered; a default arm has none. -/
def expression? (r : Registry) (f : Feature) : CaseTest → Drafting (Option String)
  | .otherwise => return none
  | .condition expression => do
    let subject ← subject r f
    return some (.ofList (Text.replaceAll ['$', 'x'] subject.toList expression.toList))
  | .values tests => do
    return some (" || ".intercalate (← values r f tests))

/-- The header of an arm. The only arm of a switch needs none when it is the default. -/
def header (first : Bool) : Option String → List Statement
  | none => if first then [] else [.otherwise]
  | some expression =>
    if first then [.branch (.test expression)] else [.alternative (.test expression)]

/-- The header of an entry of an options node. -/
def choice (index : Nat) : Statement :=
  if index = 0 then .branch (.selected index) else .alternative (.selected index)

/-- The lines that list the entries of an options node, numbered by their position. -/
def entryLines : Nat → List Node → List String
  | _, [] => []
  | index, n :: ns =>
    match n.kind with
    | .option label => s!"\\r\\n#L{index}#{label}#l" :: entryLines (index + 1) ns
    | _ => entryLines (index + 1) ns

def prompt (text : String) (children : List Node) : String :=
  text ++ "#b" ++ String.join (entryLines 0 children) ++ "#k"

/-- Shows a suspend point and remembers its status. -/
def suspend (r : Registry) (c : StatusContext) (status : Status) (send : Feature) (text : String) :
    Drafting Unit := do
  let shown ← use r send (.single (Text.quote text))
  write c [.setStatus status, .terminated shown]

/-- What happens when a message is refused or turned back. -/
def refusal (r : Registry) (place : Option Place) (c : StatusContext) :
    MessageStyle → Drafting Unit
  | .next | .ok => pure ()
  | .previousNext =>
    match previous place with
    | .error fault => throw fault
    | .ok status =>
      write c [.branch .refused, .opening, .setStatus status, .redispatch, .leave, .closing]
  | .yesNo text => do
    let shown ← call r MessageStyle.ok.featureName (.single (Text.quote text))
    let ended ← call r endFeature .empty
    write c [.branch .refused, .opening, shown, ended, .leave, .closing]

def message (r : Registry) (place : Option Place) (c : StatusContext) (status : Status)
    (style : MessageStyle) (text : String) : Drafting Unit := do
  let send ← feature r style.featureName
  suspend r c status send text
  if style = .ok then write c [← call r endFeature .empty]
  write c [.leave]
  let own := OrderedSet.singleton status
  touch own
  refusal r place own style

mutual

/-- The statements of a node. The place is missing when the node stands alone. -/
def node (r : Registry) (place : Option Place) : Node → Drafting Unit
  | .mk kind c children => do
    touch c
    match kind with
    | .block | .case _ | .option _ => serial r (.mk kind c children) 0 children
    | .switch f => arms r (.mk kind c children) f 0 children
    | .command f a => write c [.terminated (← use r f a)]
    | .message status style text => message r place c status style text
    | .options status text => do
      let send ← feature r optionsFeature
      suspend r c status send (prompt text children)
      write c [.leave]
      let own := OrderedSet.singleton status
      touch own
      choices r (.mk kind c children) own 0 children

/-- The statements of children that run one after another, numbered from `i`. -/
def serial (r : Registry) (parent : Node) (i : Nat) : List Node → Drafting Unit
  | [] => pure ()
  | n :: ns => do
    node r (some ⟨parent, i⟩) n
    serial r parent (i + 1) ns

/-- The arms of a switch, as a chain of branches in the group of the switch. -/
def arms (r : Registry) (parent : Node) (f : Feature) (i : Nat) : List Node → Drafting Unit
  | [] => pure ()
  | n :: ns => do
    match n.kind with
    | .case test => do
      write parent.context (header (i = 0) (← expression? r f test) ++ [.opening])
      node r (some ⟨parent, i⟩) n
      write parent.context [.closing]
      arms r parent f (i + 1) ns
    | kind => throw (.armNotCase i kind.name)

/-- The entries of an options node, as a chain of branches in the group of its status. -/
def choices (r : Registry) (parent : Node) (c : StatusContext) (i : Nat) :
    List Node → Drafting Unit
  | [] => pure ()
  | n :: ns => do
    write c [choice i, .opening]
    node r (some ⟨parent, i⟩) n
    write c [.closing]
    choices r parent c (i + 1) ns

end

/-- The statements of a scene that stands alone. -/
def scene (r : Registry) (root : Node) : Drafting Unit := node r none root

end Drafting

end SceneDispatch
