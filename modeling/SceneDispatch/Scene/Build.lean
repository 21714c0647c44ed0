import SceneDispatch.Scene.Node
import SceneDispatch.Scene.Outline
import SceneDispatch.Scene.Resource
import SceneDispatch.Text.Blank
/-!
Building scene graphs. Suspend points are numbered from 0 in the order in which they are reached;
the number given out last survives a failure.
-/
namespace SceneDispatch

/-- The names a scene may use. -/
structure Vocabulary where
  registry : Registry
  resources : ResourceTable

/-- Building steps count the statuses given out. -/
abbrev Build := EStateM Fault Nat

namespace Build

def ofExcept {α : Type} : Except Fault α → Build α
  | .ok a => pure a
  | .error fault => throw fault

/-- Gives out the next status. -/
def newStatus : Build Status := fun n => .ok (n : Int) (n + 1)

end Build

namespace Vocabulary

/-- The text an element shows: written in place, or the resource it names. -/
def shownText (v : Vocabulary) (t : Tag) : Except Fault String :=
  match t.attribute? "text" with
  | some text => .ok text
  | none =>
    match t.attribute? "rsrc" with
    | none => .error (.textMissing t)
    | some name =>
      match v.resources.resolve? name with
      | some text => .ok text
      | none => .error (.resourceUnknown t name)

/-- The feature that a switch of the given type compares with. -/
def switchFeature (v : Vocabulary) (t : Tag) (type : String) : Except Fault Feature :=
  match v.registry.lookupSwitch ("switch_" ++ type) with
  | .ok f => .ok f
  | .error cause => .error (.lookupAt t cause)

def messageStyle (v : Vocabulary) (t : Tag) : Except Fault MessageStyle :=
  match (t.attribute? "style").getD "" with
  | "n" => .ok .next
  | "pn" => .ok .previousNext
  | "yn" => .ok (.yesNo (v.resources.resolveOrLiteral ((t.attribute? "no").getD "")))
  | "ok" => .ok .ok
  | style => .error (.messageStyleUnknown t style)

def message (v : Vocabulary) (t : Tag) : Build Node := do
  let text ← .ofExcept (v.shownText t)
  let style ← .ofExcept (v.messageStyle t)
  let status ← .newStatus
  return .leaf (.message status style text)

/-- Any other element is a command; its name is that of a feature. -/
def command (v : Vocabulary) (t : Tag) : Build Node :=
  match v.registry.find? t.name with
  | none => throw (.tagUnknown t)
  | some f =>
    return .leaf (.command f ⟨t.attribute? "x", t.attribute? "y", t.attribute? "z"⟩)

/-- The values of a case: the trimmed fields between commas, empty ones left out. -/
def caseValues (text : String) : List String :=
  ((Text.commaFields text).map Text.trim).filter (· ≠ "")

/-- The test of an arm with siblings behind it or not; a default arm has to be the last. -/
def armTest (t : Tag) (last : Bool) : Except Fault CaseTest :=
  match t.name with
  | "case" =>
    match t.attribute? "cond" with
    | some expression => .ok (.condition expression)
    | none => do
      let values := caseValues (← t.require "val")
      if values.isEmpty then .error (.caseValueEmpty t) else .ok (.values values)
  | "default" => if last then .ok .otherwise else .error (.defaultNotLast t)
  | _ => .error (.switchChildInvalid t)

/-- The switch that an assertion stands for: `rest` runs when the condition holds, otherwise the
failure is shown. -/
def assertion (f : Feature) (condition : String) (failure : Node) (rest : List Node) : Node :=
  .fresh (.switch f)
    [.fresh (.case (.condition condition)) rest, .fresh (.case .otherwise) [failure]]

/-- What an assertion needs before the rest of its sequence is built: the switch feature, the
condition and the failure message, which takes the next status. -/
def assertionHead (v : Vocabulary) (t : Tag) : Build (Feature × String × Node) := do
  let type ← .ofExcept (t.require "type")
  let condition ← .ofExcept (t.require "cond")
  let failure ← .ofExcept (t.require "onFail")
  let f ← .ofExcept (v.switchFeature t type)
  let status ← .newStatus
  return (f, condition, .leaf (.message status .ok (v.resources.resolveOrLiteral failure)))

mutual

/-- One element that is no assertion. -/
def element (v : Vocabulary) : Outline → Build Node
  | .mk t content =>
    match t.name with
    | "switch" => do
      let f ← .ofExcept (t.require "type" >>= v.switchFeature t)
      return .fresh (.switch f) (← switchContent v content)
    | "options" => do
      let text ← .ofExcept (v.shownText t)
      let status ← .newStatus
      return .fresh (.options status text) (← optionsContent v t content)
    | "message" => v.message t
    | "case" | "default" => throw (.caseOutsideSwitch t)
    | "option" => throw (.optionOutsideOptions t)
    | _ => v.command t

/-- Elements that run one after another. An assertion takes everything behind it into the arm that
runs when its condition holds. -/
def sequence (v : Vocabulary) : List Outline → Build (List Node)
  | [] => return []
  | o :: rest =>
    if o.name = "assert" then do
      let (f, condition, failure) ← v.assertionHead o.tag
      return [assertion f condition failure (← sequence v rest)]
    else do
      let first ← element v o
      return first :: (← sequence v rest)

/-- The body of an arm or an option. -/
def body (v : Vocabulary) : Outline → Build (List Node)
  | .mk _ content => sequenceContent v content

def arms (v : Vocabulary) : List Outline → Build (List Node)
  | [] => return []
  | o :: rest => do
    let test ← .ofExcept (armTest o.tag rest.isEmpty)
    let arm := Node.fresh (.case test) (← body v o)
    return arm :: (← arms v rest)

def entries (v : Vocabulary) : List Outline → Build (List Node)
  | [] => return []
  | o :: rest => do
    if o.name ≠ "option" then throw (.optionsChildInvalid o.tag)
    let label ← .ofExcept (v.shownText o.tag)
    let entry := Node.fresh (.option label) (← body v o)
    return entry :: (← entries v rest)

def sequenceContent (v : Vocabulary) : Except Fault (List Outline) → Build (List Node)
  | .ok outlines => sequence v outlines
  | .error fault => throw fault

def switchContent (v : Vocabulary) : Except Fault (List Outline) → Build (List Node)
  | .ok outlines => arms v outlines
  | .error fault => throw fault

def optionsContent (v : Vocabulary) (t : Tag) : Except Fault (List Outline) → Build (List Node)
  | .ok [] => throw (.optionsEmpty t)
  | .ok outlines => entries v outlines
  | .error fault => throw fault

end

/-- The nodes for elements that stand side by side. -/
def elements (v : Vocabulary) (es : List Element) : Build (List Node) :=
  sequenceContent v (Outline.ofElements v.registry es)

/-- The graph of a scene's content. -/
def scene (v : Vocabulary) (content : Element) : Build Node := do
  return .fresh .block (← v.elements [content])

end Vocabulary

end SceneDispatch
