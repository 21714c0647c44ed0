import SceneDispatch.Script.Layout
import SceneDispatch.Status.Context
import SceneDispatch.Text.Blank
/-!
Statements of the dispatch routine, line by line. Template text is kept as it is; assignments of
the status, returns, branch headers and braces are known for what they are.
-/
namespace SceneDispatch

inductive Condition where
  /-- An expression of the script language. -/
  | test (expression : String)
  /-- The entry with this index was chosen. -/
  | selected (index : Nat)
  /-- The message was refused or turned back. -/
  | refused
  deriving DecidableEq, Repr

namespace Condition

def text : Condition → String
  | test expression => expression
  | selected index => s!"selection == {index}"
  | refused => "mode == 0"

end Condition

inductive Statement where
  | line (text : String)
  | setStatus (status : Status)
  /-- Runs the dispatch routine again, as if the script had just been started. -/
  | redispatch
  | leave
  | branch (condition : Condition)
  | alternative (condition : Condition)
  | otherwise
  | opening
  | closing
  deriving DecidableEq, Repr

namespace Statement

def item : Statement → LayoutItem
  | line text => .line text
  | setStatus status => .line s!"status = {status};"
  | redispatch => .line "action(1, 0, 0);"
  | leave => .line "return;"
  | branch condition => .line s!"if ({condition.text})"
  | alternative condition => .line s!"else if ({condition.text})"
  | otherwise => .line "else"
  | opening => .enter
  | closing => .leave

/-- A line of template text as a statement: it gets a semicolon in place of trailing white space,
unless it is blank or already ends a statement or a block. -/
def terminated (text : String) : Statement :=
  let trimmed := Text.trimEndList text.toList
  match trimmed.getLast? with
  | none => line text
  | some c => if c = ';' || c = '\x7d' then line text else line (.ofList (trimmed ++ [';']))

end Statement

end SceneDispatch
