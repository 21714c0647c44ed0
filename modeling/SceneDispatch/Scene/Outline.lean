import SceneDispatch.Feature.Registry
/-!
Outlines: scene markup with its conditional sections resolved. The content of a section whose
condition holds takes the section's place, any other section is left out. An element in whose
content a section lacks its name has that fault in place of its content.
-/
namespace SceneDispatch

inductive Outline where
  | mk (tag : Tag) (content : Except Fault (List Outline))

namespace Outline

def tag : Outline → Tag
  | mk tag _ => tag

def content : Outline → Except Fault (List Outline)
  | mk _ content => content

def name (o : Outline) : String := o.tag.name

/-- Whether a conditional section is included; `none` for every other element. -/
def included? (r : Registry) (t : Tag) : Except Fault (Option Bool) :=
  if t.name = "ifdef" then return some (r.has (← t.require "name"))
  else if t.name = "ifndef" then return some (!r.has (← t.require "name"))
  else return none

mutual

/-- What one element contributes to the place where it stands. -/
def ofElement (r : Registry) : Element → Except Fault (List Outline)
  | .mk t children => do
    match ← included? r t with
    | none => return [mk t (ofElements r children)]
    | some true => ofElements r children
    | some false => return []

/-- The outlines of elements that stand side by side. -/
def ofElements (r : Registry) : List Element → Except Fault (List Outline)
  | [] => return []
  | e :: es => do
    let first ← ofElement r e
    let rest ← ofElements r es
    return first ++ rest

end

end Outline

end SceneDispatch
