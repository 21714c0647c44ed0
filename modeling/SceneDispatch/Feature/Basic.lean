import SceneDispatch.Feature.Template
/-!
Features: named templates of script text. A plain feature is a piece of script; a switch feature
compares its subject with a value. A feature may depend on a package that the script then imports.
-/
namespace SceneDispatch

inductive Feature.Form where
  | plain
  | switch (subject : String)
  deriving DecidableEq, Repr

structure Feature where
  name : String
  template : String
  dependency : Option String
  form : Feature.Form
  deriving DecidableEq, Repr

namespace Feature

def isSwitch (f : Feature) : Bool :=
  match f.form with
  | .plain => false
  | .switch _ => true

/-- The script text of a use of the feature. -/
def expand (f : Feature) (manager : String) (a : Arguments) : String :=
  let text := Template.fill manager a f.template
  match f.form with
  | .plain => text
  | .switch subject => Template.fillSubject manager subject ++ " == " ++ text

/-- The subject of a switch feature as script text. -/
def subject? (f : Feature) (manager : String) : Option String :=
  match f.form with
  | .plain => none
  | .switch subject => some (Template.fillSubject manager subject)

end Feature

end SceneDispatch
