import SceneDispatch.Ordered.Table
import SceneDispatch.Source
/-!
Elements of scene markup. Everything a scene says stands in tags and their attributes; text
between the tags is not kept.
-/
namespace SceneDispatch

structure Attribute where
  name : String
  value : String
  deriving DecidableEq, Repr

/-- An element without its content: its local name, its attributes by local name, the source text
from its `<` through the first `>`, and the place of the whole element. -/
structure Tag where
  name : String
  attributes : OrderedTable Attribute.name
  opening : String
  span : Span
  deriving DecidableEq

namespace Tag

def attribute? (t : Tag) (name : String) : Option String :=
  (t.attributes.find? name).map Attribute.value

end Tag

inductive Element where
  | mk (tag : Tag) (children : List Element)

namespace Element

def tag : Element → Tag
  | mk tag _ => tag

def children : Element → List Element
  | mk _ children => children

def name (e : Element) : String := e.tag.name

def attribute? (e : Element) (name : String) : Option String := e.tag.attribute? name

mutual

/-- The elements below this one, each before the elements below it. -/
def descendants : Element → List Element
  | mk _ children => descendantsOfAll children

def descendantsOfAll : List Element → List Element
  | [] => []
  | e :: es => e :: (descendants e ++ descendantsOfAll es)

end

end Element

end SceneDispatch
