import SceneDispatch.Script.Statement
/-!
Drafts of a script: the statements written so far, grouped by the context of the node they belong
to, and the packages they depend on. Groups stand in the order in which they were first touched,
and no two have the same context.
-/
namespace SceneDispatch

structure Group where
  context : StatusContext
  statements : List Statement
  deriving DecidableEq

structure Draft where
  groups : List Group
  dependencies : OrderedSet String
  deriving DecidableEq

namespace Draft

def empty : Draft := ⟨[], .empty⟩

/-- Makes sure that there is a group for the context. -/
def touch (d : Draft) (c : StatusContext) : Draft :=
  if d.groups.any (·.context = c) then d else { d with groups := d.groups ++ [⟨c, []⟩] }

/-- Writes at the end of the context's group. -/
def write (d : Draft) (c : StatusContext) (statements : List Statement) : Draft :=
  { d with
    groups := d.groups.map fun g =>
      if g.context = c then { g with statements := g.statements ++ statements } else g }

/-- Records a dependency, if there is one. -/
def record (d : Draft) : Option String → Draft
  | none => d
  | some dependency => { d with dependencies := d.dependencies.insert dependency }

section Contexts

variable {d : Draft} {c : StatusContext}

theorem any_context_iff :
    d.groups.any (·.context = c) = true ↔ c ∈ d.groups.map Group.context := by
  simp

theorem touch_of_mem (h : c ∈ d.groups.map Group.context) : d.touch c = d := by
  rw [touch, if_pos (any_context_iff.mpr h)]

theorem touch_of_not_mem (h : c ∉ d.groups.map Group.context) :
    d.touch c = { d with groups := d.groups ++ [⟨c, []⟩] } := by
  rw [touch, if_neg (mt any_context_iff.mp h)]

theorem contexts_write (d : Draft) (c : StatusContext) (xs : List Statement) :
    (d.write c xs).groups.map Group.context = d.groups.map Group.context := by
  rw [write, List.map_map]
  apply List.map_congr_left
  intro g _
  rw [Function.comp_apply]
  split <;> rfl

/-- What is written under a context without a group is lost. -/
theorem write_of_not_mem (h : c ∉ d.groups.map Group.context) (xs : List Statement) :
    d.write c xs = d := by
  have hgroup : ∀ g ∈ d.groups,
      (if g.context = c then { g with statements := g.statements ++ xs } else g) = g := by
    intro g hg
    have hne : g.context ≠ c := fun hc => h (hc ▸ List.mem_map_of_mem hg)
    rw [if_neg hne]
  rw [write, List.map_congr_left hgroup, List.map_id']

end Contexts

end Draft

end SceneDispatch
