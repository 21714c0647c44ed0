import Mathlib.Logic.Function.Iterate
import SceneDispatch.Proofs.Flow.Rules
/-!
Assigning contexts as a transfer function. What flows to a place of a graph and what flows out of
it is told from the kinds of the nodes alone, also for a graph that no scene builds. Main
statement: what flows in together flows on together, so that contexts only grow by what flows to
them, and assigning them again changes nothing.
-/
namespace SceneDispatch

/-- A graph without its contexts. -/
inductive Skeleton where
  | mk (kind : NodeKind) (children : List Skeleton)

namespace Skeleton

def kind : Skeleton → NodeKind
  | mk kind _ => kind

def children : Skeleton → List Skeleton
  | mk _ children => children

mutual

/-- What flows out of a graph into which `c` flows. -/
def outflow (c : StatusContext) : Skeleton → StatusContext
  | mk kind ks =>
    match kind with
    | .block | .case _ | .option _ => through c ks
    | .switch _ =>
      if ks.any (·.kind = .case .otherwise) then across c ks else across c ks ∪ c
    | .options status _ => across (.singleton status) ks
    | .message status .. => .singleton status
    | .command .. => c

/-- What flows out of the last of several siblings that run one after another. -/
def through (c : StatusContext) : List Skeleton → StatusContext
  | [] => c
  | k :: ks => through (outflow c k) ks

/-- What flows out of several siblings of which at most one runs. -/
def across (c : StatusContext) : List Skeleton → StatusContext
  | [] => .empty
  | k :: ks => outflow c k ∪ across c ks

end

/-- What flows into the child at the place `i`. -/
def entering (c : StatusContext) (k : Skeleton) (i : Nat) : StatusContext :=
  match k.kind with
  | .switch _ => c
  | .options status _ => .singleton status
  | _ => through c (k.children.take i)

/-- What flows into the node at the end of a path. -/
def inflow (c : StatusContext) (k : Skeleton) : Path → StatusContext
  | [] => c
  | i :: q =>
    match k.children[i]? with
    | none => .empty
    | some child => inflow (k.entering c i) child q

end Skeleton

namespace Node

mutual

def skeleton : Node → Skeleton
  | mk kind _ ns => .mk kind (skeletons ns)

def skeletons : List Node → List Skeleton
  | [] => []
  | n :: ns => skeleton n :: skeletons ns

end

@[simp] theorem kind_skeleton (n : Node) : n.skeleton.kind = n.kind := by
  cases n
  rfl

theorem skeletons_eq_map (ns : List Node) : skeletons ns = ns.map skeleton := by
  induction ns with
  | nil => rfl
  | cons n ns ih => rw [skeletons, ih, List.map_cons]

@[simp] theorem children_skeleton (n : Node) : n.skeleton.children = n.children.map skeleton := by
  cases n with
  | mk kind c ns => exact skeletons_eq_map ns

end Node

/-! ### What flows in together flows on together -/

namespace StatusContext

variable (a b c d : StatusContext)

theorem union_self : a ∪ a = a := OrderedSet.ext (by simp)

theorem union_union_self : a ∪ b ∪ b = a ∪ b := OrderedSet.ext (by simp)

theorem union_union_comm : a ∪ b ∪ (c ∪ d) = a ∪ c ∪ (b ∪ d) := by
  refine OrderedSet.ext fun s => ?_
  simp only [OrderedSet.mem_union]
  exact or_or_or_comm

end StatusContext

namespace Skeleton

open StatusContext

mutual

theorem outflow_union : ∀ (k : Skeleton) (a b : StatusContext),
    k.outflow (a ∪ b) = k.outflow a ∪ k.outflow b
  | mk kind ks, a, b => by
    cases kind with
    | block => exact through_union ks a b
    | case test => exact through_union ks a b
    | option label => exact through_union ks a b
    | switch f =>
      simp only [outflow]
      split
      · exact across_union ks a b
      · rw [across_union ks a b, union_union_comm]
    | options status text => exact (union_self _).symm
    | message status style text => exact (union_self _).symm
    | command f x => rfl

theorem through_union : ∀ (ks : List Skeleton) (a b : StatusContext),
    through (a ∪ b) ks = through a ks ∪ through b ks
  | [], _, _ => rfl
  | k :: ks, a, b => by
    simp only [through]
    rw [outflow_union k a b, through_union ks]

theorem across_union : ∀ (ks : List Skeleton) (a b : StatusContext),
    across (a ∪ b) ks = across a ks ∪ across b ks
  | [], _, _ => (union_self _).symm
  | k :: ks, a, b => by
    simp only [across]
    rw [outflow_union k a b, across_union ks a b, union_union_comm]

end

theorem entering_union (k : Skeleton) (a b : StatusContext) (i : Nat) :
    k.entering (a ∪ b) i = k.entering a i ∪ k.entering b i := by
  unfold entering
  split
  · rfl
  · exact (union_self _).symm
  · exact through_union _ a b

theorem inflow_union (k : Skeleton) (a b : StatusContext) (q : Path) :
    k.inflow (a ∪ b) q = k.inflow a q ∪ k.inflow b q := by
  induction q generalizing k a b with
  | nil => rfl
  | cons i q ih =>
    simp only [inflow]
    cases k.children[i]? with
    | none => exact (union_self _).symm
    | some child =>
      rw [entering_union]
      exact ih child _ _

end Skeleton

/-! ### Assigning follows the flow -/

namespace Node

open Skeleton

theorem any_otherwise_skeletons (ns : List Node) :
    (skeletons ns).any (·.kind = .case .otherwise) = ns.any isOtherwise := by
  rw [skeletons_eq_map, List.any_map]
  congr 1
  funext n
  simp [isOtherwise]

mutual

theorem assign_out : ∀ (n : Node) (c : StatusContext), (assign c n).2 = n.skeleton.outflow c
  | mk kind context ns, c => by
    cases kind with
    | block => exact assignSerial_out ns c
    | case test => exact assignSerial_out ns c
    | option label => exact assignSerial_out ns c
    | switch f =>
      rw [assign_switch, skeleton, outflow, any_otherwise_skeletons, assignBranches_out ns c]
    | options status text => exact assignBranches_out ns _
    | message status style text => rfl
    | command f a => rfl

theorem assignSerial_out : ∀ (ns : List Node) (c : StatusContext),
    (assignSerial c ns).2 = through c (skeletons ns)
  | [], _ => rfl
  | n :: ns, c => by
    rw [skeletons, through, ← assign_out n c]
    exact assignSerial_out ns _

theorem assignBranches_out : ∀ (ns : List Node) (c : StatusContext),
    (assignBranches c ns).2 = across c (skeletons ns)
  | [], _ => rfl
  | n :: ns, c => by
    rw [skeletons, across, ← assign_out n c, ← assignBranches_out ns c]
    rfl

end

section Places

variable (ns : List Node) (c : StatusContext) (i : Nat)

theorem getElem?_assignBranches :
    (assignBranches c ns).1[i]? = ns[i]?.map fun n => (assign c n).1 := by
  induction ns generalizing i with
  | nil => rfl
  | cons n ns ih =>
    cases i with
    | zero => rfl
    | succ i => exact ih i

theorem getElem?_assignSerial :
    (assignSerial c ns).1[i]? =
      ns[i]?.map fun n => (assign (through c ((ns.map skeleton).take i)) n).1 := by
  induction ns generalizing c i with
  | nil => rfl
  | cons n ns ih =>
    cases i with
    | zero => rfl
    | succ i =>
      rw [List.map_cons, List.take_succ_cons, through, ← assign_out n c]
      exact ih _ i

end Places

theorem context_assign (n : Node) (c : StatusContext) :
    (assign c n).1.context = n.context ∪ c := by
  obtain ⟨kind, context, ns⟩ := n
  rw [assign]
  split
  · rfl
  · split <;> rfl

/-- A child of a node that has any is assigned what flows into it. -/
theorem getElem?_children_assign {n : Node} (h : n.kind.hasChildren = true) (c : StatusContext)
    (i : Nat) : (assign c n).1.children[i]? =
      n.children[i]?.map fun child => (assign (n.skeleton.entering c i) child).1 := by
  obtain ⟨kind, context, ns⟩ := n
  have hserial : kind.isSerial = true → (assign c (mk kind context ns)).1.children[i]? =
      ns[i]?.map fun child => (assign (through c ((ns.map skeleton).take i)) child).1 := by
    intro hk
    rw [assign_serial c context ns hk]
    exact getElem?_assignSerial ns c i
  unfold entering
  rw [kind_skeleton, children_skeleton]
  cases kind with
  | block => exact hserial rfl
  | case test => exact hserial rfl
  | option label => exact hserial rfl
  | switch f =>
    rw [assign_switch]
    exact getElem?_assignBranches ns c i
  | options status text => exact getElem?_assignBranches ns _ i
  | message status style text => cases h
  | command f a => cases h

theorem children_assign_of_not {n : Node} (h : n.kind.hasChildren = false) (c : StatusContext) :
    (assign c n).1.children = n.children := by
  obtain ⟨kind, context, ns⟩ := n
  cases kind <;> first | rfl | cases h

/-- A node that is visited is assigned what flows to its place. -/
theorem at?_assign {n m : Node} {q : Path} (hm : n.at? q = some m) (hq : n.Visits q)
    (c : StatusContext) :
    (assign c n).1.at? q = some (assign (n.skeleton.inflow c q) m).1 := by
  induction q generalizing n c with
  | nil =>
    obtain rfl := Option.some.inj hm
    rfl
  | cons i q ih =>
    obtain ⟨hkind, hbelow⟩ := visits_cons.mp hq
    obtain ⟨child, hchild, hm⟩ := Option.bind_eq_some_iff.mp hm
    have hplace : n.skeleton.children[i]? = some child.skeleton := by
      rw [children_skeleton, List.getElem?_map, hchild]
      rfl
    have hflow : n.skeleton.inflow c (i :: q) =
        child.skeleton.inflow (n.skeleton.entering c i) q := by
      rw [inflow, hplace]
    rw [at?_cons, getElem?_children_assign hkind, hchild, hflow]
    exact ih hm (hbelow child hchild) _

theorem context_at?_assign {n m : Node} {q : Path} (hm : n.at? q = some m) (hq : n.Visits q)
    (c : StatusContext) :
    ((assign c n).1.at? q).map context = some (m.context ∪ n.skeleton.inflow c q) := by
  rw [at?_assign hm hq, Option.map_some, context_assign]

/-- What is not visited stays as it is. -/
theorem at?_assign_of_not_visits {n : Node} {q : Path} (hq : ¬ n.Visits q) (c : StatusContext) :
    (assign c n).1.at? q = n.at? q := by
  induction q generalizing n c with
  | nil => exact absurd (visits_nil n) hq
  | cons i q ih =>
    rw [at?_cons, at?_cons]
    cases hkind : n.kind.hasChildren with
    | false => rw [children_assign_of_not hkind]
    | true =>
      rw [getElem?_children_assign hkind]
      cases hchild : n.children[i]? with
      | none => rfl
      | some child =>
        have hbelow : ¬ child.Visits q := by
          intro hvisits
          refine hq (visits_cons.mpr ⟨hkind, fun other hother => ?_⟩)
          rw [hchild] at hother
          exact Option.some.inj hother ▸ hvisits
        exact ih hbelow _

/-! ### Assigning again -/

mutual

theorem assign_assign : ∀ (n : Node) (c : StatusContext), assign c (assign c n).1 = assign c n
  | mk kind context ns, c => by
    have hcontext := StatusContext.union_union_self context c
    have hserial : kind.isSerial = true →
        assign c (assign c (mk kind context ns)).1 = assign c (mk kind context ns) := by
      intro hk
      rw [assign_serial c context ns hk]
      rw [assign_serial c _ _ hk, hcontext, assignSerial_assignSerial ns c]
    cases kind with
    | block => exact hserial rfl
    | case test => exact hserial rfl
    | option label => exact hserial rfl
    | switch f =>
      rw [assign_switch, assign_switch, hcontext, assignBranches_assignBranches ns c,
        any_isOtherwise_congr (kinds_assignBranches ns c)]
    | options status text =>
      rw [assign_options, assign_options, hcontext, assignBranches_assignBranches ns _]
    | message status style text => exact congrArg (fun k => (mk _ k ns, _)) hcontext
    | command f a => exact congrArg (fun k => (mk _ k ns, _)) hcontext

theorem assignSerial_assignSerial : ∀ (ns : List Node) (c : StatusContext),
    assignSerial c (assignSerial c ns).1 = assignSerial c ns
  | [], _ => rfl
  | n :: ns, c => by
    have hfirst := assign_assign n c
    have hrest := assignSerial_assignSerial ns (assign c n).2
    simp only [assignSerial, hfirst, hrest]

theorem assignBranches_assignBranches : ∀ (ns : List Node) (c : StatusContext),
    assignBranches c (assignBranches c ns).1 = assignBranches c ns
  | [], _ => rfl
  | n :: ns, c => by
    have hfirst := assign_assign n c
    have hrest := assignBranches_assignBranches ns c
    simp only [assignBranches, hfirst, hrest]

end

theorem assignContexts_iterate (n : Node) (k : Nat) :
    (fun m => (assignContexts m).1)^[k] n.assignContexts.1 = n.assignContexts.1 := by
  have hagain : (assignContexts n.assignContexts.1).1 = n.assignContexts.1 :=
    congrArg Prod.fst (assign_assign n .start)
  exact Function.iterate_fixed hagain k

/-- Assigning contexts to any graph. What flows out for two contexts together is what flows out for
each of them. Every place keeps its kind. A node that is visited keeps its context and gets what
flows to its place, which is told from the kinds alone and for two contexts together is what flows
there for each; a node below a message or a command stays as it is. What flows out does not depend
on the contexts there were, and after the first time assigning contexts changes nothing. -/
theorem assign_unites (n : Node) (a b : StatusContext) :
    (assign (a ∪ b) n).2 = (assign a n).2 ∪ (assign b n).2 ∧
    (∀ q, n.skeleton.inflow (a ∪ b) q = n.skeleton.inflow a q ∪ n.skeleton.inflow b q) ∧
    (∀ c q, ((assign c n).1.at? q).map kind = (n.at? q).map kind) ∧
    (∀ c q m, n.at? q = some m → n.Visits q →
      ((assign c n).1.at? q).map context = some (m.context ∪ n.skeleton.inflow c q)) ∧
    (∀ c q, ¬ n.Visits q → (assign c n).1.at? q = n.at? q) ∧
    (∀ c m, m.skeleton = n.skeleton → (assign c m).2 = (assign c n).2) ∧
    ∀ k, ((fun m => (assignContexts m).1)^[k] n.assignContexts.1).assignContexts =
      n.assignContexts := by
  refine ⟨?_, n.skeleton.inflow_union a b, fun c q => kind_at?_assign n c q,
    fun c q m hm hq => context_at?_assign hm hq c, fun c q hq => at?_assign_of_not_visits hq c,
    fun c m hm => ?_, fun k => ?_⟩
  · simp only [assign_out]
    exact n.skeleton.outflow_union a b
  · rw [assign_out, assign_out, hm]
  · rw [assignContexts_iterate]
    exact assign_assign n .start

end Node

/-- A graph that no scene builds, with contexts of its own: a message in the place of an arm holds
a gift, and the prompt behind it has the same status and no entries. -/
def Sample.stray : Node :=
  .mk .block (.singleton 7)
    [.mk (.switch job) .empty [.mk (.message 4 .next "hi") (.singleton 9) [gift "5"]], gift "7",
      .mk (.options 4 "pick") .empty []]

namespace Node

/-- The message sends its status on and the switch all that flows in, so both come to the first
gift. The gift in the message stays as it is. -/
theorem stray_assign_unites :
    (assign (.ofList [1] ∪ .ofList [2]) Sample.stray).2 =
      (assign (.ofList [1]) Sample.stray).2 ∪ (assign (.ofList [2]) Sample.stray).2 ∧
    ((assign (.ofList [1]) Sample.stray).1.at? [1]).map context = some (.ofList [1, 4]) ∧
    (assign (.ofList [1]) Sample.stray).1.at? [0, 0, 0] = some (Sample.gift "5") ∧
    Sample.stray.assignContexts.1.assignContexts = Sample.stray.assignContexts := by
  obtain ⟨hout, -, -, hcontext, hbelow, -, hagain⟩ :=
    assign_unites Sample.stray (.ofList [1]) (.ofList [2])
  have hvisits : Sample.stray.Visits [1] :=
    visits_cons.mpr ⟨rfl, fun child _ => visits_nil child⟩
  have hburied : ¬ Sample.stray.Visits [0, 0, 0] := fun h =>
    Bool.false_ne_true (h [0, 0] _ ⟨[0], rfl⟩ (by decide) rfl)
  refine ⟨hout, ?_, hbelow _ _ hburied, hagain 0⟩
  rw [hcontext _ _ (Sample.gift "7") rfl hvisits]
  decide +kernel

end Node

end SceneDispatch
