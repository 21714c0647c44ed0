import SceneDispatch.Fault
import SceneDispatch.Feature.Basic
import SceneDispatch.Markup.Document
/-!
Registries of features, and the configurations they are loaded from. A configuration holds its
definitions at any depth below its root; their names are distinct.
-/
namespace SceneDispatch

structure Registry where
  manager : String
  features : OrderedTable Feature.name
  deriving DecidableEq

namespace Registry

def defaultManager : String := "cm"

def withManager (manager : String) : Registry := ⟨manager, .empty⟩

def has (r : Registry) (name : String) : Bool := r.features.contains name

def find? (r : Registry) (name : String) : Option Feature := r.features.find? name

def lookup (r : Registry) (name : String) : Except LookupFault Feature :=
  match r.find? name with
  | some f => .ok f
  | none => .error (.unknown name)

theorem lookup_eq_ok {r : Registry} {name : String} {f : Feature} :
    r.lookup name = .ok f ↔ r.find? name = some f := by
  unfold lookup
  cases r.find? name <;> simp

/-- A feature that must be a switch feature. -/
def lookupSwitch (r : Registry) (name : String) : Except LookupFault Feature := do
  let f ← r.lookup name
  if f.isSwitch then .ok f else .error (.notSwitch name)

/-- Adds a feature under a new name; `place` is where it is defined. -/
def register (r : Registry) (f : Feature) (place : Option Span) : Except Fault Registry :=
  if r.has f.name then .error (.featureDuplicate f.name place)
  else .ok { r with features := r.features.insert f }

def definitionTag : String := "featureDefinition"

/-- The definitions of a configuration in document order. -/
def definitions (root : Element) : List Tag :=
  (root.descendants.filter (·.name = definitionTag)).map Element.tag

/-- The feature that a definition describes: plain with its script, otherwise a switch feature
with both sides of its comparison. -/
def definition (t : Tag) : Except Fault Feature := do
  let name ← t.require "name"
  let dependency := t.attribute? "dependsOn"
  match t.attribute? "js" with
  | some template => .ok ⟨name, template, dependency, .plain⟩
  | none => do
    let right ← t.require "right"
    let left ← t.require "left"
    .ok ⟨name, right, dependency, .switch left⟩

def define (r : Registry) (t : Tag) : Except Fault Registry := do
  r.register (← definition t) (some t.span)

def ofElement (root : Element) : Except Fault Registry :=
  (definitions root).foldlM define
    (withManager ((root.attribute? "manager").getD defaultManager))

def ofSource (source : String) : Except Fault Registry :=
  match Markup.parse? source with
  | some root => ofElement root
  | none => .error .configurationMalformed

end Registry

end SceneDispatch
