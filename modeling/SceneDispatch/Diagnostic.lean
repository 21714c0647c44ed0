import SceneDispatch.Source
/-!
What a failed compilation reports: a stable code, a message, and the place in the source when
there is one.
-/
namespace SceneDispatch

structure Diagnostic where
  code : String
  message : String
  span : Option Span
  deriving DecidableEq, Repr

namespace Diagnostic

def plain (code message : String) : Diagnostic := ⟨code, message, none⟩

/-- Says in front of the message where the failure happened; code and span stay. -/
def within (d : Diagnostic) (origin : String) : Diagnostic :=
  { d with message := origin ++ ": " ++ d.message }

def render (d : Diagnostic) : String := d.code ++ ": " ++ d.message

end Diagnostic

end SceneDispatch
