import SceneDispatch.Ordered.Set
/-!
Status contexts: the sets of statuses whose resumption can reach a place of a scene.
-/
namespace SceneDispatch

/-- A status names a suspend point; the dispatch routine resumes by it. -/
abbrev Status := Int

/-- The status before anything has been shown. -/
def Status.start : Status := -1

abbrev StatusContext := OrderedSet Status

namespace StatusContext

def start : StatusContext := OrderedSet.singleton Status.start

/-- The members in increasing order between braces. -/
def render (c : StatusContext) : String :=
  "\x7b" ++ ", ".intercalate (c.toList.map toString) ++ "\x7d"

end StatusContext

end SceneDispatch
