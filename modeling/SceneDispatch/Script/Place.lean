import SceneDispatch.Fault
import SceneDispatch.Scene.Node
/-!
Places of nodes, and the way back from a message. The suspend point before a message is looked for
among the children of the node above it, which fails for a message that stands alone or is not
among them. A suspend point that is reached among its siblings is always found.
-/
namespace SceneDispatch

/-- Where a node stands: the node above it, and its position among the children there. A position
that no child has is that of a stranger. -/
structure Place where
  parent : Node
  position : Nat

namespace Drafting

/-- The status that leads back to the last suspend point among the siblings through `n`. -/
def backAfter (back : Status) (n : Node) : Status :=
  if n.kind.suspends then n.context.least?.getD .start else back

/-- Looks for the suspend point at a position among siblings that are numbered from `i`. What is
found is the status that leads to the one before it; `back` leads to the last one in front of them
all. -/
def backAmong (position i : Nat) (back : Status) : List Node → Option Status
  | [] => none
  | n :: ns =>
    if n.kind.suspends ∧ i = position then some back
    else backAmong position (i + 1) (backAfter back n) ns

/-- The status that leads to the suspend point before a message, or to the start of the scene. -/
def previous : Option Place → Except Fault Status
  | none => .error .messageDetached
  | some place =>
    match backAmong place.position 0 .start place.parent.children with
    | some status => .ok status
    | none => .error (.messageStray place.parent.kind.name)

theorem backAmong_append {n : Node} (hn : n.kind.suspends = true) (front ns : List Node) (i : Nat)
    (back : Status) :
    backAmong (i + front.length) i back (front ++ n :: ns) =
      some (front.foldl backAfter back) := by
  induction front generalizing i back with
  | nil => simp [backAmong, hn]
  | cons m front ih =>
    have hposition : i + (m :: front).length = i + 1 + front.length := by
      rw [List.length_cons]
      omega
    have hlater : ¬ (m.kind.suspends = true ∧ i = i + 1 + front.length) := by omega
    rw [hposition, List.cons_append, backAmong, if_neg hlater, List.foldl_cons]
    exact ih (i + 1) (backAfter back m)

/-- The children before the position `i` lead back to `back`, and `ns` are left. -/
def Reached (parent : Node) (i : Nat) (back : Status) (ns : List Node) : Prop :=
  ∃ front, parent.children = front ++ ns ∧ front.length = i ∧ front.foldl backAfter .start = back

section Reached

variable {parent n : Node} {i : Nat} {back : Status} {ns : List Node}

theorem reached_start {kind : NodeKind} {c : StatusContext} :
    Reached (.mk kind c ns) 0 .start ns :=
  ⟨[], rfl, rfl, rfl⟩

theorem Reached.next (h : Reached parent i back (n :: ns)) :
    Reached parent (i + 1) (backAfter back n) ns := by
  obtain ⟨front, hchildren, rfl, rfl⟩ := h
  exact ⟨front ++ [n], by simp [hchildren], by simp, by simp⟩

/-- A suspend point is found where it is reached. -/
theorem Reached.previous_eq (h : Reached parent i back (n :: ns)) (hn : n.kind.suspends = true) :
    previous (some ⟨parent, i⟩) = .ok back := by
  obtain ⟨front, hchildren, rfl, rfl⟩ := h
  have hfound := backAmong_append hn front ns 0 .start
  rw [Nat.zero_add] at hfound
  simp only [previous, hchildren, hfound]

-- a stranger among the children of a block
example : previous (some ⟨.mk .block .start [.mk (.message 0 .previousNext "x") .start []], 1⟩) =
    .error (.messageStray "block") :=
  rfl

/-- The way back from a node, which only suspend points ask for. -/
def Leads (place : Option Place) (n : Node) (back : Option Status) : Prop :=
  n.kind.suspends = true → (previous place).toOption = back

theorem leads_of_not_suspends {place : Option Place} (hn : n.kind.suspends = false)
    (back : Option Status) : Leads place n back := by
  intro hsuspends
  rw [hn] at hsuspends
  cases hsuspends

theorem leads_alone (n : Node) : Leads none n none := fun _ => rfl

theorem Reached.leads (h : Reached parent i back (n :: ns)) :
    Leads (some ⟨parent, i⟩) n (some back) := by
  intro hn
  rw [h.previous_eq hn]
  rfl

end Reached

end Drafting

end SceneDispatch
