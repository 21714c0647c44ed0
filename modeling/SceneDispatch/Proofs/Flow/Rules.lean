import SceneDispatch.Proofs.Scene.Construction
import SceneDispatch.Scene.Flow
/-!
The rules by which statuses flow through a scene. Main statement: assigning contexts to a built
graph gives a graph that obeys the rules, of the same shape and with the same suspend points.
-/
namespace SceneDispatch

mutual

/-- When `c` flows into the node, `out` flows out of it, and each context at the node and below it
holds what flows there. -/
inductive Flows : StatusContext → Node → StatusContext → Prop
  | serial {c out : StatusContext} {kind : NodeKind} {ns : List Node} :
    kind.isSerial = true → FlowsThrough c ns out → Flows c (.mk kind c ns) out
  /-- Every arm is entered alike; without a default arm all of them can be passed over. -/
  | switch {c joined out : StatusContext} {f : Feature} {ns : List Node} :
    FlowsAcross c ns joined →
    (∀ s, s ∈ out ↔ s ∈ joined ∨ s ∈ c ∧ ns.any Node.isOtherwise = false) →
    Flows c (.mk (.switch f) c ns) out
  | options {c out : StatusContext} {status : Status} {text : String} {ns : List Node} :
    FlowsAcross (.singleton status) ns out → Flows c (.mk (.options status text) c ns) out
  | message {c : StatusContext} {status : Status} {style : MessageStyle} {text : String} :
    Flows c (.mk (.message status style text) c []) (.singleton status)
  | command {c : StatusContext} {f : Feature} {a : Arguments} :
    Flows c (.mk (.command f a) c []) c

/-- The flow through siblings that run one after another. -/
inductive FlowsThrough : StatusContext → List Node → StatusContext → Prop
  | nil {c : StatusContext} : FlowsThrough c [] c
  | cons {c mid out : StatusContext} {n : Node} {ns : List Node} :
    Flows c n mid → FlowsThrough mid ns out → FlowsThrough c (n :: ns) out

/-- The flow through siblings of which at most one runs. -/
inductive FlowsAcross : StatusContext → List Node → StatusContext → Prop
  | nil {c : StatusContext} : FlowsAcross c [] .empty
  | cons {c out joined : StatusContext} {n : Node} {ns : List Node} :
    Flows c n out → FlowsAcross c ns joined → FlowsAcross c (n :: ns) (out ∪ joined)

end

theorem Flows.context {c out : StatusContext} {n : Node} (h : Flows c n out) : n.context = c := by
  cases h <;> rfl

theorem FlowsAcross.exists_flows : ∀ {c out : StatusContext} {ns : List Node} {n : Node},
    FlowsAcross c ns out → n ∈ ns → ∃ out', Flows c n out'
  | _, _, _, _, .cons h hrest, hn => by
    rcases List.mem_cons.mp hn with rfl | hn
    · exact ⟨_, h⟩
    · exact hrest.exists_flows hn

namespace Node

section Equations

variable (c context : StatusContext) (ns : List Node)

theorem assign_serial {kind : NodeKind} (h : kind.isSerial = true) :
    assign c (mk kind context ns) =
      (mk kind (context ∪ c) (assignSerial c ns).1, (assignSerial c ns).2) := by
  cases kind <;> first | rfl | simp [NodeKind.isSerial] at h

theorem assign_switch (f : Feature) :
    assign c (mk (.switch f) context ns) =
      (mk (.switch f) (context ∪ c) (assignBranches c ns).1,
        if ns.any isOtherwise then (assignBranches c ns).2 else (assignBranches c ns).2 ∪ c) := by
  have hfalls : fallsThrough (.switch f) ns = !ns.any isOtherwise := rfl
  change (mk (.switch f) (context ∪ c) (assignBranches c ns).1,
    if fallsThrough (.switch f) ns then (assignBranches c ns).2 ∪ c
    else (assignBranches c ns).2) = _
  rw [hfalls]
  cases ns.any isOtherwise <;> rfl

theorem assign_options (status : Status) (text : String) :
    assign c (mk (.options status text) context ns) =
      (mk (.options status text) (context ∪ c) (assignBranches (.singleton status) ns).1,
        (assignBranches (.singleton status) ns).2) := rfl

end Equations

mutual

theorem kind_assign : ∀ (n : Node) (c : StatusContext), (assign c n).1.kind = n.kind
  | mk kind _ ns, c => by
    rw [assign]
    split
    · rfl
    · split <;> rfl

theorem kinds_assignSerial : ∀ (ns : List Node) (c : StatusContext),
    (assignSerial c ns).1.map kind = ns.map kind
  | [], _ => rfl
  | n :: ns, c => by
    simp only [assignSerial, List.map_cons, kind_assign n, kinds_assignSerial ns]

theorem kinds_assignBranches : ∀ (ns : List Node) (c : StatusContext),
    (assignBranches c ns).1.map kind = ns.map kind
  | [], _ => rfl
  | n :: ns, c => by
    simp only [assignBranches, List.map_cons, kind_assign n, kinds_assignBranches ns]

end

mutual

/-- The assigned graph has the same places, each with a node of the same kind. -/
theorem kind_at?_assign : ∀ (n : Node) (c : StatusContext) (p : Path),
    ((assign c n).1.at? p).map kind = (n.at? p).map kind
  | n, c, [] => by simp [kind_assign n]
  | mk kind _ ns, c, i :: p => by
    rw [assign]
    split
    · exact kind_at?_assignBranches ns _ i p
    · split
      · exact kind_at?_assignSerial ns _ i p
      · rfl

theorem kind_at?_assignSerial : ∀ (ns : List Node) (c : StatusContext) (i : Nat) (p : Path),
    ((assignSerial c ns).1[i]?.bind (at? · p)).map kind = (ns[i]?.bind (at? · p)).map kind
  | [], _, _, _ => rfl
  | n :: _, c, 0, p => kind_at?_assign n c p
  | _ :: ns, _, i + 1, p => kind_at?_assignSerial ns _ i p

theorem kind_at?_assignBranches : ∀ (ns : List Node) (c : StatusContext) (i : Nat) (p : Path),
    ((assignBranches c ns).1[i]?.bind (at? · p)).map kind = (ns[i]?.bind (at? · p)).map kind
  | [], _, _, _ => rfl
  | n :: _, c, 0, p => kind_at?_assign n c p
  | _ :: ns, c, i + 1, p => kind_at?_assignBranches ns c i p

end

theorem any_isOtherwise_congr {ms ns : List Node} (h : ms.map kind = ns.map kind) :
    ms.any isOtherwise = ns.any isOtherwise := by
  have hany : ∀ l : List Node,
      l.any isOtherwise = (l.map kind).any fun k => decide (k = .case .otherwise) := by
    intro l
    rw [List.any_map]
    rfl
  rw [hany, hany, h]

mutual

theorem preorder_assign : ∀ (n : Node) (c : StatusContext), (assign c n).1.preorder = n.preorder
  | mk kind _ ns, c => by
    rw [assign]
    split
    · simp only [preorder, preorderIn_assignBranches ns]
    · split
      · simp only [preorder, preorderIn_assignSerial ns]
      · rfl

theorem preorderIn_assignSerial : ∀ (ns : List Node) (c : StatusContext),
    preorderIn (assignSerial c ns).1 = preorderIn ns
  | [], _ => rfl
  | n :: ns, c => by
    simp only [assignSerial, preorderIn, preorder_assign n, preorderIn_assignSerial ns]

theorem preorderIn_assignBranches : ∀ (ns : List Node) (c : StatusContext),
    preorderIn (assignBranches c ns).1 = preorderIn ns
  | [], _ => rfl
  | n :: ns, c => by
    simp only [assignBranches, preorderIn, preorder_assign n, preorderIn_assignBranches ns]

end

theorem statuses_assign (n : Node) (c : StatusContext) : (assign c n).1.statuses = n.statuses := by
  rw [statuses_eq_filterMap, statuses_eq_filterMap, preorder_assign]

mutual

theorem WellFormed.assign : ∀ {n : Node} (c : StatusContext),
    n.WellFormed → (Node.assign c n).1.WellFormed
  | mk kind _ ns, c, h => by
    obtain ⟨hkind, hns⟩ := wellFormed_mk.mp h
    rw [Node.assign]
    split
    · exact wellFormed_mk.mpr
        ⟨(kinds_assignBranches ns _).symm ▸ hkind, wellFormed_assignBranches _ hns⟩
    · split
      · exact wellFormed_mk.mpr
          ⟨(kinds_assignSerial ns _).symm ▸ hkind, wellFormed_assignSerial _ hns⟩
      · exact wellFormed_mk.mpr ⟨hkind, hns⟩

theorem wellFormed_assignSerial : ∀ {ns : List Node} (c : StatusContext),
    (∀ n ∈ ns, n.WellFormed) → ∀ n ∈ (assignSerial c ns).1, n.WellFormed
  | [], _, h => h
  | _ :: _, _, h => List.forall_mem_cons.mpr
    ⟨WellFormed.assign _ (List.forall_mem_cons.mp h).1,
      wellFormed_assignSerial _ (List.forall_mem_cons.mp h).2⟩

theorem wellFormed_assignBranches : ∀ {ns : List Node} (c : StatusContext),
    (∀ n ∈ ns, n.WellFormed) → ∀ n ∈ (assignBranches c ns).1, n.WellFormed
  | [], _, h => h
  | _ :: _, _, h => List.forall_mem_cons.mpr
    ⟨WellFormed.assign _ (List.forall_mem_cons.mp h).1,
      wellFormed_assignBranches _ (List.forall_mem_cons.mp h).2⟩

end

mutual

theorem assign_flows : ∀ {n : Node} (c : StatusContext), n.WellFormed → n.Fresh →
    Flows c (assign c n).1 (assign c n).2
  | mk kind context ns, c, hwf, hfresh => by
    obtain ⟨hkind, hns⟩ := wellFormed_mk.mp hwf
    obtain ⟨rfl, hfs⟩ := fresh_mk.mp hfresh
    have hc : OrderedSet.empty ∪ c = c := OrderedSet.ext (by simp)
    cases hk : kind with
    | block | case | option =>
      rw [assign_serial c _ ns rfl, hc]
      exact .serial rfl (assignSerial_flows c hns hfs)
    | switch f =>
      rw [assign_switch, hc]
      refine .switch (assignBranches_flows c hns hfs) fun s => ?_
      rw [any_isOtherwise_congr (kinds_assignBranches ns c)]
      cases ns.any isOtherwise <;> simp
    | options status text =>
      rw [assign_options, hc]
      exact .options (assignBranches_flows _ hns hfs)
    | message status style text =>
      subst hk
      obtain rfl : ns = [] := List.map_eq_nil_iff.mp hkind
      change Flows c (mk _ (OrderedSet.empty ∪ c) []) (.singleton status)
      rw [hc]
      exact .message
    | command f a =>
      subst hk
      obtain rfl : ns = [] := List.map_eq_nil_iff.mp hkind
      change Flows c (mk _ (OrderedSet.empty ∪ c) []) c
      rw [hc]
      exact .command

theorem assignSerial_flows : ∀ {ns : List Node} (c : StatusContext),
    (∀ n ∈ ns, n.WellFormed) → (∀ n ∈ ns, n.Fresh) →
    FlowsThrough c (assignSerial c ns).1 (assignSerial c ns).2
  | [], _, _, _ => .nil
  | n :: ns, c, hwf, hfresh => by
    obtain ⟨hn, hns⟩ := List.forall_mem_cons.mp hwf
    obtain ⟨hf, hfs⟩ := List.forall_mem_cons.mp hfresh
    exact .cons (assign_flows c hn hf) (assignSerial_flows _ hns hfs)

theorem assignBranches_flows : ∀ {ns : List Node} (c : StatusContext),
    (∀ n ∈ ns, n.WellFormed) → (∀ n ∈ ns, n.Fresh) →
    FlowsAcross c (assignBranches c ns).1 (assignBranches c ns).2
  | [], _, _, _ => .nil
  | n :: ns, c, hwf, hfresh => by
    obtain ⟨hn, hns⟩ := List.forall_mem_cons.mp hwf
    obtain ⟨hf, hfs⟩ := List.forall_mem_cons.mp hfresh
    exact .cons (assign_flows c hn hf) (assignBranches_flows c hns hfs)

end

end Node

/-- What holds of a scene once its contexts are assigned: it is a block of the shape of built
graphs, the start status flows through it, and its suspend points share out the statuses below the
count. -/
structure Prepared (scene : Node) (exit : StatusContext) (count : Nat) : Prop where
  kind : scene.kind = .block
  wellFormed : scene.WellFormed
  flows : Flows .start scene exit
  numbered : scene.statuses.Perm (Status.interval 0 count)

theorem Vocabulary.scene_prepared {v : Vocabulary} {content : Element} {root : Node} {count : Nat}
    (h : v.scene content 0 = .ok root count) :
    Prepared root.assignContexts.1 root.assignContexts.2 count := by
  have hbuilt := scene_built h
  have hroot : root ∈ [root] := by simp
  refine ⟨(Node.kind_assign root _).trans (scene_kind h), (hbuilt.wellFormed root hroot).assign _,
    Node.assign_flows _ (hbuilt.wellFormed root hroot) (hbuilt.fresh root hroot), ?_⟩
  rw [Node.assignContexts, Node.statuses_assign]
  simpa [Node.statusesIn] using hbuilt.numbered

end SceneDispatch
