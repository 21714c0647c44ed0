import SceneDispatch.Text.Search
/-!
Templates of script text. A template names the manager object by `$.` and its arguments by `$x`,
`$y` and `$z`.
-/
namespace SceneDispatch

structure Arguments where
  x : Option String
  y : Option String
  z : Option String
  deriving DecidableEq, Repr

namespace Arguments

def empty : Arguments := ⟨none, none, none⟩

def single (x : String) : Arguments := ⟨some x, none, none⟩

/-- The first three of a list of arguments. -/
def ofList (l : List String) : Arguments := ⟨l[0]?, l[1]?, l[2]?⟩

end Arguments

namespace Template

/-- Puts the manager reference for every `$.`, keeping the dot. -/
def fillManager (manager template : List Char) : List Char :=
  Text.replaceAll ['$', '.'] (manager ++ ['.']) template

/-- Replaces a placeholder in `text` when `template` has it; a missing value is empty text. -/
def fillPlaceholder (template : List Char) (name : Char) (value : Option String)
    (text : List Char) : List Char :=
  if Text.occurs ['$', name] template then
    Text.replaceAll ['$', name] (value.getD "").toList text
  else text

/-- Fills in the arguments one after another. Only placeholders of the template count, but a value
may itself bring in a placeholder that comes later. -/
def fillArguments (a : Arguments) (template : List Char) : List Char :=
  fillPlaceholder template 'z' a.z <|
    fillPlaceholder template 'y' a.y <|
      fillPlaceholder template 'x' a.x template

def fill (manager : String) (a : Arguments) (template : String) : String :=
  .ofList (fillArguments a (fillManager manager.toList template.toList))

/-- A template that takes no arguments. -/
def fillSubject (manager : String) (template : String) : String :=
  .ofList (fillManager manager.toList template.toList)

end Template

end SceneDispatch
