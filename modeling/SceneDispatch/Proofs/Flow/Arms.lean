import SceneDispatch.Proofs.Flow.Transfer
import SceneDispatch.Proofs.Script.Table
/-!
What flows through an arm of a scene. The statuses that enter a place came in with the scene or
were sent on by suspend points that stand before it, and none of them belongs to a suspend point at
the place or below. Main statement: of what enters an arm all or nothing comes to a place in it and
to its end, and whatever else comes there was sent on by a suspend point of the arm that stands
before.
-/
namespace SceneDispatch

namespace Node

/-- The suspend point of a status stands at the end of the path. -/
def SuspendsAt (n : Node) (q : Path) (s : Status) : Prop :=
  ∃ m, n.at? q = some m ∧ m.kind.status? = some s

/-- All of `entered` has come here or nothing of it, and what else is here was sent on by suspend
points of the node, from places that are `before`. -/
structure AllOrNothing (n : Node) (entered here : StatusContext)
    (before : Path → Prop) : Prop where
  whole : (∀ s ∈ entered, s ∈ here) ∨ ∀ s ∈ entered, s ∉ here
  others : ∀ s ∈ here, s ∉ entered → ∃ q, before q ∧ n.SuspendsAt q s

theorem SuspendsAt.cons {n child : Node} {i : Nat} {q : Path} {s : Status}
    (h : child.SuspendsAt q s) (hchild : n.children[i]? = some child) :
    n.SuspendsAt (i :: q) s := by
  obtain ⟨m, hm, hs⟩ := h
  exact ⟨m, at?_cons_of_getElem? hchild hm, hs⟩

mutual

theorem exists_suspendsAt : ∀ {n : Node} {s : Status}, s ∈ n.statuses → ∃ q, n.SuspendsAt q s
  | mk kind c ns, s, hs => by
    rw [statuses, List.mem_append, Option.mem_toList] at hs
    rcases hs with hs | hs
    · exact ⟨[], mk kind c ns, rfl, hs⟩
    · obtain ⟨i, child, q, hchild, hq⟩ := exists_suspendsAt_among hs
      exact ⟨i :: q, hq.cons hchild⟩

theorem exists_suspendsAt_among : ∀ {ns : List Node} {s : Status}, s ∈ statusesIn ns →
    ∃ (i : Nat) (n : Node) (q : Path), ns[i]? = some n ∧ n.SuspendsAt q s
  | n :: ns, s, hs => by
    rw [statusesIn, List.mem_append] at hs
    rcases hs with hs | hs
    · obtain ⟨q, hq⟩ := exists_suspendsAt hs
      exact ⟨0, n, q, rfl, hq⟩
    · obtain ⟨i, m, q, hm, hq⟩ := exists_suspendsAt_among hs
      exact ⟨i + 1, m, q, hm, hq⟩

end

theorem suspendsAt_assign {n : Node} {c : StatusContext} {q : Path} {s : Status} :
    (assign c n).1.SuspendsAt q s ↔ n.SuspendsAt q s := by
  have hkind : ∀ k : Node, k.SuspendsAt q s ↔
      ((k.at? q).map kind).bind NodeKind.status? = some s := by
    intro k
    cases hq : k.at? q <;> simp [SuspendsAt, hq]
  rw [hkind, hkind, kind_at?_assign]

theorem AllOrNothing.of_assign {n : Node} {c entered here : StatusContext} {before : Path → Prop}
    (h : (assign c n).1.AllOrNothing entered here before) :
    n.AllOrNothing entered here before where
  whole := h.whole
  others s hs hentered := by
    obtain ⟨q, hq, hsuspends⟩ := h.others s hs hentered
    exact ⟨q, hq, suspendsAt_assign.mp hsuspends⟩

/-- In a graph built from markup every place is visited. -/
theorem WellFormed.visits {n m : Node} {q : Path} (h : n.WellFormed) (hm : n.at? q = some m) :
    n.Visits q := by
  induction q generalizing n with
  | nil => exact visits_nil n
  | cons i q ih =>
    obtain ⟨kind, c, ns⟩ := n
    obtain ⟨child, hchild, hm⟩ := Option.bind_eq_some_iff.mp hm
    obtain ⟨hkind, hns⟩ := wellFormed_mk.mp h
    refine visits_cons.mpr ⟨?_, fun other hother => ?_⟩
    · have hmem : child.kind ∈ ns.map Node.kind :=
        List.mem_map_of_mem (List.mem_of_getElem? hchild)
      cases kind with
      | message status style text => exact absurd (hkind ▸ hmem) List.not_mem_nil
      | command f a => exact absurd (hkind ▸ hmem) List.not_mem_nil
      | _ => rfl
    · obtain rfl := Option.some.inj (hchild.symm.trans hother)
      exact ih (hns child (List.mem_of_getElem? hchild)) hm

end Node

/-! ### What enters a place -/

/-- When `c` flows into the scene, `c'` flows into the node `m` at the place `p`. -/
structure Entered (c : StatusContext) (scene : Node) (p : Path) (c' : StatusContext) (m : Node) :
    Prop where
  flows : ∃ out, Flows c' m out
  origin : ∀ s ∈ c', s ∈ c ∨ ∃ q, q < p ∧ scene.SuspendsAt q s
  separate : Separate c scene.statuses → Separate c' m.statuses

section Entering

variable {c out : StatusContext} {n m : Node} {i : Nat} {p : Path} {s : Status}

theorem FlowsThrough.entered : ∀ {c out : StatusContext} {ns : List Node} {i : Nat},
    FlowsThrough c ns out → ns[i]? = some m →
    ∃ c', (∃ out', Flows c' m out') ∧
      (∀ s ∈ c', s ∈ c ∨ ∃ (j : Nat) (n : Node) (q : Path), j < i ∧ ns[j]? = some n ∧
        n.SuspendsAt q s) ∧
      (Separate c (Node.statusesIn ns) → Separate c' m.statuses)
  | c, _, _, 0, .cons h _, hm => by
    obtain rfl := Option.some.inj hm
    exact ⟨c, ⟨_, h⟩, fun s hs => .inl hs, fun hsep => hsep.left⟩
  | c, _, n :: ns, i + 1, .cons h hrest, hm => by
    obtain ⟨c', hflows, horigin, hseparate⟩ := hrest.entered hm
    refine ⟨c', hflows, fun s hs => ?_, fun hsep => hseparate (hsep.after h)⟩
    rcases horigin s hs with hmid | ⟨j, k, q, hj, hk, hq⟩
    · rcases h.mem_of_mem_out hmid with hc | hn
      · exact .inl hc
      · obtain ⟨q, hq⟩ := Node.exists_suspendsAt hn
        exact .inr ⟨0, n, q, Nat.succ_pos i, rfl, hq⟩
    · exact .inr ⟨j + 1, k, q, Nat.succ_lt_succ hj, hk, hq⟩

theorem Separate.of_mem {ns : List Node} (h : Separate c (Node.statusesIn ns)) (hn : n ∈ ns) :
    Separate c n.statuses := by
  induction ns with
  | nil => cases hn
  | cons k ns ih =>
    rcases List.mem_cons.mp hn with rfl | hn
    · exact h.left
    · exact ih h.right hn

/-- A child in a sequence is entered by what flows out in front of it, an arm by what flows into
its switch or by the status of its options node. -/
theorem Flows.child_entered (h : Flows c n out) (hm : n.children[i]? = some m) :
    ∃ c', Entered c n [i] c' m := by
  obtain ⟨kind, _, ns⟩ := n
  have hmem : m ∈ ns := List.mem_of_getElem? hm
  cases h with
  | serial hk h =>
    obtain ⟨c', hflows, horigin, hseparate⟩ := h.entered hm
    refine ⟨c', hflows, fun s hs => ?_,
      fun hsep => hseparate (Node.statuses_serial hk c ns ▸ hsep)⟩
    refine (horigin s hs).imp_right ?_
    rintro ⟨j, k, q, hj, hk, hq⟩
    exact ⟨j :: q, List.cons_lt_cons_iff.mpr (.inl hj), hq.cons hk⟩
  | switch h _ =>
    exact ⟨c, h.exists_flows hmem, fun s hs => .inl hs, fun hsep => hsep.of_mem hmem⟩
  | @options _ _ status text _ h =>
    refine ⟨.singleton status, h.exists_flows hmem,
      fun s hs => .inr ⟨[], List.nil_lt_cons _ _, ?_⟩,
      fun hsep => (Separate.behind hsep).of_mem hmem⟩
    exact ⟨_, rfl, congrArg some (OrderedSet.mem_singleton.mp hs).symm⟩
  | message => cases hm
  | command => cases hm

theorem Flows.entered (h : Flows c n out) (hm : n.at? p = some m) : Entered c n p m.context m := by
  induction p generalizing c out n with
  | nil =>
    obtain rfl := Option.some.inj hm
    rw [h.context]
    exact ⟨⟨out, h⟩, fun s hs => .inl hs, id⟩
  | cons i p ih =>
    obtain ⟨child, hchild, hm⟩ := Option.bind_eq_some_iff.mp hm
    obtain ⟨c', ⟨out', hflow⟩, horigin, hseparate⟩ := h.child_entered hchild
    obtain ⟨hflows, horigin', hseparate'⟩ := ih hflow hm
    refine ⟨hflows, fun s hs => ?_, fun hsep => hseparate' (hseparate hsep)⟩
    rcases horigin' s hs with hs | ⟨q, hq, hsuspends⟩
    · refine (horigin s hs).imp_right ?_
      rintro ⟨q, hq, hsuspends⟩
      -- a place before the child is before all that stands below the child
      refine ⟨q, ?_, hsuspends⟩
      cases q with
      | nil => exact List.nil_lt_cons _ _
      | cons j q =>
        rcases List.cons_lt_cons_iff.mp hq with hj | ⟨-, hq⟩
        · exact List.cons_lt_cons_iff.mpr (.inl hj)
        · exact absurd hq (List.not_lt_nil _)
    · exact .inr ⟨i :: q, List.cons_lt_cons_iff.mpr (.inr ⟨rfl, hq⟩), hsuspends.cons hchild⟩

end Entering

/-! ### All or nothing -/

section AllOrNothing

variable {c out : StatusContext} {n m : Node} {p : Path}

/-- It is all or nothing when one that has come brings the others along. -/
theorem all_or_none {here : StatusContext} (h : ∀ s ∈ c, s ∈ here → ∀ s' ∈ c, s' ∈ here) :
    (∀ s ∈ c, s ∈ here) ∨ ∀ s ∈ c, s ∉ here := by
  by_cases hsome : ∃ s ∈ c, s ∈ here
  · obtain ⟨s, hc, hs⟩ := hsome
    exact .inl (h s hc hs)
  · exact .inr fun s hc hs => hsome ⟨s, hc, hs⟩

theorem Flows.allOrNothing_at (h : Flows c n out) (hsep : Separate c n.statuses)
    (hm : n.at? p = some m) : n.AllOrNothing c m.context (· < p) where
  whole := all_or_none fun s hc hs => h.subset_context hm (fun hn => hsep.apart s hn hc) hs
  others s hs hc := ((h.entered hm).origin s hs).resolve_left hc

theorem Flows.allOrNothing_out (h : Flows c n out) (hsep : Separate c n.statuses) :
    n.AllOrNothing c out fun _ => True where
  whole := all_or_none fun s hc hs => h.subset_out (fun hn => hsep.apart s hn hc) hs
  others s hs hc := by
    obtain ⟨q, hq⟩ := Node.exists_suspendsAt ((h.mem_of_mem_out hs).resolve_left hc)
    exact ⟨q, trivial, hq⟩

end AllOrNothing

/-- What flows through a part of a scene, above all through an arm. The part is assigned what
enters it, which is its context. Of that, all or nothing comes to a place in the part and to its
end. What else comes to a place is the status of a suspend point in the part, one that stands
before the place, and what else comes to the end the status of one that stands anywhere in the
part. Places stand in the order of their paths, so that the arm in which an assertion holds comes
before the one in which it fails. -/
theorem flow_all_or_nothing {v : Vocabulary} {content : Element} {root part : Node} {count : Nat}
    {p : Path} (h : v.scene content 0 = .ok root count) (hpart : root.at? p = some part) :
    ∃ entered : StatusContext,
      root.assignContexts.1.at? p = some (part.assign entered).1 ∧
      (part.assign entered).1.context = entered ∧
      (∀ q n, (part.assign entered).1.at? q = some n →
        part.AllOrNothing entered n.context (· < q)) ∧
      part.AllOrNothing entered (part.assign entered).2 fun _ => True := by
  have hbuilt := Vocabulary.scene_built h
  have hwf : root.WellFormed := hbuilt.wellFormed root (by simp)
  have hfresh : root.Fresh := hbuilt.fresh root (by simp)
  obtain ⟨entered, hplace⟩ : ∃ entered : StatusContext,
      root.assignContexts.1.at? p = some (part.assign entered).1 :=
    ⟨_, Node.at?_assign hpart (hwf.visits hpart) .start⟩
  have hflow : Flows entered (part.assign entered).1 (part.assign entered).2 :=
    Node.assign_flows entered (hwf.at? hpart) (hfresh.at? hpart)
  have hscene := Vocabulary.scene_prepared h
  have hsep := (hscene.flows.entered hplace).separate hscene.separate
  rw [hflow.context] at hsep
  refine ⟨entered, hplace, hflow.context, fun q n hn => ?_, ?_⟩
  · exact (hflow.allOrNothing_at hsep hn).of_assign
  · exact (hflow.allOrNothing_out hsep).of_assign

/-- Behind the assertion of the sample scene nothing that entered is left once the prompt is
passed. What comes to the second assertion are the statuses of the prompt and of the message in its
first entry. -/
theorem quest_flow_all_or_nothing :
    ∃ arm, Sample.fullVocabulary.scene Sample.quest 0 = .ok Sample.questGraph 6 ∧
      Sample.questGraph.at? [1, 0] = some arm ∧
      arm.AllOrNothing (.singleton 0) (.ofList [2, 3]) (· < [1]) ∧
      arm.AllOrNothing (.singleton 0) (.ofList [4, 5]) fun _ => True := by
  refine ⟨_, Sample.quest_builds, rfl, ?_⟩
  obtain ⟨entered, hplace, hcontext, hbelow, hout⟩ :=
    flow_all_or_nothing (p := [1, 0]) Sample.quest_builds rfl
  have hentered : some (.singleton 0) = some entered :=
    (congrArg (Option.map Node.context) hplace).trans (congrArg some hcontext)
  obtain rfl := Option.some.inj hentered
  exact ⟨hbelow [1] _ rfl, hout⟩

end SceneDispatch
