/-!
Indented listings: lines, and blocks in braces whose content stands one level deeper.
-/
namespace SceneDispatch

inductive LayoutItem where
  | line (text : String)
  | enter
  | leave
  deriving DecidableEq, Repr

namespace Layout

def indentUnit : String := "    "

/-- The depth of the statements in the dispatch routine. -/
def baseDepth : Nat := 3

def indented (depth : Nat) (text : String) : String :=
  String.join (List.replicate depth indentUnit) ++ text ++ "\n"

/-- The depth behind an item; a block is never left below depth 0. -/
def depthAfter (depth : Nat) : LayoutItem → Nat
  | .line _ => depth
  | .enter => depth + 1
  | .leave => depth - 1

/-- An opening brace stands at the depth before it, a closing brace at the depth behind it. -/
def text (depth : Nat) : LayoutItem → String
  | .line text => indented depth text
  | .enter => indented depth "\x7b"
  | .leave => indented (depth - 1) "\x7d"

/-- The text of each item, the first one standing at `depth`. -/
def texts : Nat → List LayoutItem → List String
  | _, [] => []
  | depth, i :: is => text depth i :: texts (depthAfter depth i) is

theorem texts_append (depth : Nat) (is js : List LayoutItem) :
    texts depth (is ++ js) = texts depth is ++ texts (is.foldl depthAfter depth) js := by
  induction is generalizing depth with
  | nil => rfl
  | cons i is ih => simp [texts, ih]

def render (depth : Nat) (items : List LayoutItem) : String := String.join (texts depth items)

end Layout

end SceneDispatch
