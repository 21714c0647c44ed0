import Mathlib.Data.List.Induction
import SceneDispatch.Compiler
import SceneDispatch.Proofs.Flow.Exactness
import SceneDispatch.Proofs.Script.Emission
/-!
The contexts of the groups of a script, in their order. Each is the context of a node or the
singleton of a status. Main statement: the groups stand apart, the first is that of the start, and
the group of a status alone comes before every other group that the status runs.
-/
namespace SceneDispatch

namespace Node

/-- Nodes that write into the group of their context. -/
def writes (n : Node) : Bool :=
  match n.kind with
  | .block | .case _ | .option _ => false
  | .switch _ => !n.children.isEmpty
  | .command .. | .message .. | .options .. => true

/-- The node may be what an emission is written for: either it goes to the group of the node's
context, or the node suspends and it goes to the group of its status. -/
def Accounts (n : Node) (e : Emission) : Prop :=
  (e.context = n.context ∧ (e.statements ≠ [] → n.writes = true)) ∨
    ∃ s, n.kind.status? = some s ∧ e.context = .singleton s

variable {r : Registry} {e : Emission}

mutual

/-- Every emission of a node is accounted for by a node at or below it, and names its place or
one below that. -/
theorem accounts_of_mem_emissions : ∀ {n : Node} {back : Option Status} {p : Path},
    e ∈ n.emissions r back p → ∃ q m, n.at? q = some m ∧ p ++ q <+: e.origin ∧ m.Accounts e
  | mk kind c ns, back, p, he => by
    have hself : e.context = c → p <+: e.origin →
        (e.statements ≠ [] → (mk kind c ns).writes = true) →
        ∃ q m, (mk kind c ns).at? q = some m ∧ p ++ q <+: e.origin ∧ m.Accounts e := by
      intro hc hp hw
      exact ⟨[], _, rfl, by simpa using hp, .inl ⟨hc, hw⟩⟩
    have hbelow : (∃ j n q m, ns[j]? = some n ∧ n.at? q = some m ∧
        p ++ [0 + j] ++ q <+: e.origin ∧ m.Accounts e) →
        ∃ q m, (mk kind c ns).at? q = some m ∧ p ++ q <+: e.origin ∧ m.Accounts e := by
      rintro ⟨j, n, q, m, hn, hm, hq, hacc⟩
      exact ⟨j :: q, m, at?_cons_of_getElem? hn hm, by simpa using hq, hacc⟩
    have hstatus : ∀ s, kind.status? = some s → e.context = .singleton s → p <+: e.origin →
        ∃ q m, (mk kind c ns).at? q = some m ∧ p ++ q <+: e.origin ∧ m.Accounts e := by
      intro s hs hc hp
      exact ⟨[], _, rfl, by simpa using hp, .inr ⟨s, hs, hc⟩⟩
    cases hk : kind.isSerial with
    | true =>
      rw [emissions_serial r back p c ns hk, List.mem_cons] at he
      rcases he with rfl | he
      · exact hself rfl List.prefix_rfl (absurd rfl)
      · exact hbelow (accounts_of_mem_serial he)
    | false =>
      cases kind with
      | block => cases hk
      | case _ => cases hk
      | option _ => cases hk
      | switch f =>
        rw [emissions_switch, List.mem_cons] at he
        rcases he with rfl | he
        · exact hself rfl List.prefix_rfl (absurd rfl)
        · rcases accounts_of_mem_branches he with ⟨hc, hp⟩ | h
          · apply hself hc hp
            intro _
            cases ns with
            | nil => simp [branchEmissions] at he
            | cons n ns => rfl
          · exact hbelow h
      | command f a =>
        rw [emissions_command, List.mem_cons, List.mem_singleton] at he
        rcases he with rfl | rfl
        · exact hself rfl List.prefix_rfl fun _ => rfl
        · exact hself rfl List.prefix_rfl fun _ => rfl
      | message status style text =>
        rw [emissions_message, List.mem_cons, List.mem_cons, List.mem_singleton] at he
        rcases he with rfl | rfl | rfl
        · exact hself rfl List.prefix_rfl fun _ => rfl
        · exact hself rfl List.prefix_rfl fun _ => rfl
        · exact hstatus status rfl rfl List.prefix_rfl
      | options status text =>
        rw [emissions_options, List.mem_cons, List.mem_cons, List.mem_cons] at he
        rcases he with rfl | rfl | rfl | he
        · exact hself rfl List.prefix_rfl fun _ => rfl
        · exact hself rfl List.prefix_rfl fun _ => rfl
        · exact hstatus status rfl rfl List.prefix_rfl
        · rcases accounts_of_mem_branches he with ⟨hc, hp⟩ | h
          · exact hstatus status rfl hc hp
          · exact hbelow h

theorem accounts_of_mem_serial : ∀ {ns : List Node} {back : Status} {p : Path} {i : Nat},
    e ∈ serialEmissions r back p i ns →
    ∃ j n q m, ns[j]? = some n ∧ n.at? q = some m ∧ p ++ [i + j] ++ q <+: e.origin ∧ m.Accounts e
  | [], _, _, _, he => by simp [serialEmissions] at he
  | n :: ns, back, p, i, he => by
    rw [serialEmissions, List.mem_append] at he
    rcases he with he | he
    · obtain ⟨q, m, hm, hq, hacc⟩ := accounts_of_mem_emissions he
      exact ⟨0, n, q, m, rfl, hm, hq, hacc⟩
    · obtain ⟨j, n', q, m, hn, hm, hq, hacc⟩ := accounts_of_mem_serial he
      exact ⟨j + 1, n', q, m, hn, hm, by rwa [Nat.add_assoc, Nat.add_comm 1] at hq, hacc⟩

theorem accounts_of_mem_branches : ∀ {ns : List Node} {c : StatusContext}
    {guard : Nat → Node → Option Condition} {p : Path} {i : Nat},
    e ∈ branchEmissions r c guard p i ns → (e.context = c ∧ p <+: e.origin) ∨
    ∃ j n q m, ns[j]? = some n ∧ n.at? q = some m ∧ p ++ [i + j] ++ q <+: e.origin ∧ m.Accounts e
  | [], _, _, _, _, he => by simp [branchEmissions] at he
  | n :: ns, c, guard, p, i, he => by
    rw [branchEmissions, List.mem_cons, List.mem_cons, List.mem_append, List.mem_cons] at he
    rcases he with rfl | rfl | he | rfl | he
    · exact .inl ⟨rfl, List.prefix_rfl⟩
    · exact .inl ⟨rfl, List.prefix_append _ _⟩
    · obtain ⟨q, m, hm, hq, hacc⟩ := accounts_of_mem_emissions he
      exact .inr ⟨0, n, q, m, rfl, hm, hq, hacc⟩
    · exact .inl ⟨rfl, List.prefix_append _ _⟩
    · rcases accounts_of_mem_branches he with h | ⟨j, n', q, m, hn, hm, hq, hacc⟩
      · exact .inl h
      · exact .inr ⟨j + 1, n', q, m, hn, hm, by rwa [Nat.add_assoc, Nat.add_comm 1] at hq, hacc⟩

end

end Node

/-- The statuses are distinct, and none of them is in the context. -/
structure Separate (c : StatusContext) (ts : List Status) : Prop where
  nodup : ts.Nodup
  apart : ∀ t ∈ ts, t ∉ c

section Separation

variable {c mid out : StatusContext} {xs ys : List Status} {n : Node} {s t : Status}

theorem Separate.left (h : Separate c (xs ++ ys)) : Separate c xs :=
  ⟨(List.nodup_append.mp h.nodup).1, fun t ht => h.apart t (List.mem_append_left _ ht)⟩

theorem Separate.right (h : Separate c (xs ++ ys)) : Separate c ys :=
  ⟨(List.nodup_append.mp h.nodup).2.1, fun t ht => h.apart t (List.mem_append_right _ ht)⟩

theorem Separate.not_mem_right (h : Separate c (xs ++ ys)) (ht : t ∈ xs) : t ∉ ys := by
  intro ht'
  exact (List.nodup_append.mp h.nodup).2.2 t ht t ht' rfl

/-- What flows out of a node is separate from the statuses behind it. -/
theorem Separate.after (h : Separate c (n.statuses ++ ys)) (hflow : Flows c n mid) :
    Separate mid ys := by
  refine ⟨h.right.nodup, fun t ht hmid => ?_⟩
  rcases hflow.mem_of_mem_out hmid with hc | hn
  · exact h.right.apart t ht hc
  · exact h.not_mem_right hn ht

theorem Separate.behind (h : Separate c (s :: ys)) : Separate (.singleton s) ys := by
  refine ⟨(List.nodup_cons.mp h.nodup).2, fun t ht hts => ?_⟩
  rw [OrderedSet.mem_singleton.mp hts] at ht
  exact (List.nodup_cons.mp h.nodup).1 ht

theorem Prepared.mem_statuses {scene : Node} {count : Nat} (h : Prepared scene out count)
    {s : Int} : s ∈ scene.statuses ↔ 0 ≤ s ∧ s < count := by
  rw [h.numbered.mem_iff, Status.mem_interval]
  rfl

theorem Prepared.separate {scene : Node} {count : Nat} (h : Prepared scene out count) :
    Separate .start scene.statuses := by
  refine ⟨h.numbered.nodup_iff.mpr (Status.nodup_interval 0 count), fun t ht hstart => ?_⟩
  have hlo := (h.mem_statuses.mp ht).1
  rw [OrderedSet.mem_singleton.mp hstart] at hlo
  exact absurd hlo (by decide)

end Separation

section Contexts

variable {r : Registry} {c out : StatusContext} {n : Node} {e : Emission} {s : Status}

theorem Flows.mem_of_accounts {q : Path} {m : Node} (h : Flows c n out) (hm : n.at? q = some m)
    (he : m.Accounts e) (hs : s ∈ e.context) : s ∈ c ∨ s ∈ n.statuses := by
  rcases he with ⟨hc, -⟩ | ⟨t, ht, hc⟩
  · exact h.mem_of_mem_context hm (hc ▸ hs)
  · rw [hc, OrderedSet.mem_singleton] at hs
    exact .inr (Node.mem_statuses_of_at? hm (hs ▸ ht))

theorem Flows.mem_of_mem_emission {back : Option Status} {p : Path} (h : Flows c n out)
    (he : e ∈ n.emissions r back p) (hs : s ∈ e.context) : s ∈ c ∨ s ∈ n.statuses := by
  obtain ⟨q, m, hm, -, hacc⟩ := Node.accounts_of_mem_emissions he
  exact h.mem_of_accounts hm hacc hs

theorem Flows.not_mem_emission {back : Option Status} {p : Path} (h : Flows c n out) (hc : s ∉ c)
    (hn : s ∉ n.statuses) : ∀ e ∈ n.emissions r back p, s ∉ e.context := by
  intro e he hs
  rcases h.mem_of_mem_emission he hs with h | h
  · exact hc h
  · exact hn h

theorem FlowsAcross.not_mem_emission : ∀ {c out : StatusContext} {ns : List Node}
    {g : Nat → Node → Option Condition} {p : Path} {i : Nat}, FlowsAcross c ns out → s ∉ c →
    s ∉ Node.statusesIn ns → ∀ e ∈ Node.branchEmissions r c g p i ns, s ∉ e.context
  | _, _, _, _, _, _, .nil, _, _ => by simp [Node.branchEmissions]
  | _, _, _, _, _, _, .cons h hrest, hc, hs => by
    obtain ⟨hn, hns⟩ := not_or.mp (mt List.mem_append.mpr hs)
    intro e he
    rw [Node.branchEmissions, List.mem_cons, List.mem_cons, List.mem_append, List.mem_cons] at he
    rcases he with rfl | rfl | he | rfl | he
    · exact hc
    · exact hc
    · exact h.not_mem_emission hc hn e he
    · exact hc
    · exact hrest.not_mem_emission hc hns e he

theorem Prepared.inhabited {scene : Node} {count : Nat} (h : Prepared scene out count) :
    ∀ e ∈ scene.emissions r none [], ∃ s, s ∈ e.context := by
  intro e he
  obtain ⟨q, m, hm, -, ⟨hc, -⟩ | ⟨t, -, hc⟩⟩ := Node.accounts_of_mem_emissions he
  · rw [hc]
    exact (h.flows.inhabited h.wellFormed ⟨_, OrderedSet.mem_singleton.mpr rfl⟩).2 q m hm
  · exact ⟨t, hc ▸ OrderedSet.mem_singleton.mpr rfl⟩

end Contexts

/-- The first emission into a group that the status runs goes to the group of the status alone. -/
def OpensAlone (s : Status) (es : List Emission) : Prop :=
  ∃ before e after, es = before ++ e :: after ∧ e.context = .singleton s ∧
    ∀ e' ∈ before, s ∉ e'.context

section Opening

variable {r : Registry} {s : Status} {xs ys : List Emission} {e : Emission}

theorem OpensAlone.append_right (h : OpensAlone s xs) : OpensAlone s (xs ++ ys) := by
  obtain ⟨before, e, after, rfl, he, hbefore⟩ := h
  exact ⟨before, e, after ++ ys, by simp, he, hbefore⟩

theorem OpensAlone.append_left (hxs : ∀ e ∈ xs, s ∉ e.context) (h : OpensAlone s ys) :
    OpensAlone s (xs ++ ys) := by
  obtain ⟨before, e, after, rfl, he, hbefore⟩ := h
  refine ⟨xs ++ before, e, after, by simp, he, fun e' he' => ?_⟩
  rcases List.mem_append.mp he' with he' | he'
  · exact hxs e' he'
  · exact hbefore e' he'

theorem OpensAlone.cons (he : s ∉ e.context) (h : OpensAlone s ys) : OpensAlone s (e :: ys) :=
  OpensAlone.append_left (List.forall_mem_singleton.mpr he) h

theorem opensAlone_singleton {p : Path} {statements : List Statement} :
    OpensAlone s (⟨.singleton s, p, statements⟩ :: ys) :=
  ⟨[], _, ys, rfl, rfl, by simp⟩

mutual

theorem Flows.opensAlone : ∀ {c out : StatusContext} {n : Node} {back : Option Status} {p : Path},
    Flows c n out → Separate c n.statuses → s ∈ n.statuses → OpensAlone s (n.emissions r back p)
  | c, _, .mk kind _ ns, back, p, .serial hk h, hsep, hs => by
    rw [Node.statuses_serial hk] at hsep hs
    rw [Node.emissions_serial _ _ _ _ _ hk]
    exact (h.opensAlone hsep hs).cons (hsep.apart s hs)
  | c, _, _, back, p, .switch h _, hsep, hs => by
    rw [Node.emissions_switch]
    exact (h.opensAlone hsep hs).cons (hsep.apart s hs)
  | c, _, .mk (.options status text) _ ns, back, p, .options h, hsep, hs => by
    have hsc : s ∉ c := hsep.apart s hs
    rw [Node.emissions_options]
    refine .cons hsc (.cons hsc ?_)
    rcases List.mem_cons.mp hs with rfl | hs
    · exact opensAlone_singleton
    · have hbehind := Separate.behind hsep
      exact (h.opensAlone hbehind hs).cons (hbehind.apart s hs)
  | c, _, _, back, p, .message, hsep, hs => by
    have hsc : s ∉ c := hsep.apart s hs
    obtain rfl := List.mem_singleton.mp hs
    rw [Node.emissions_message]
    exact .cons hsc (.cons hsc opensAlone_singleton)
  | _, _, _, _, _, .command, _, hs => by
    simp [Node.statuses, Node.statusesIn, NodeKind.status?] at hs

theorem FlowsThrough.opensAlone : ∀ {c out : StatusContext} {ns : List Node} {back : Status}
    {p : Path} {i : Nat}, FlowsThrough c ns out → Separate c (Node.statusesIn ns) →
    s ∈ Node.statusesIn ns → OpensAlone s (Node.serialEmissions r back p i ns)
  | _, _, _, _, _, _, .nil, _, hs => by simp [Node.statusesIn] at hs
  | c, _, n :: ns, _, _, _, .cons h hns, hsep, hs => by
    rw [Node.serialEmissions]
    by_cases hn : s ∈ n.statuses
    · exact (h.opensAlone hsep.left hn).append_right
    · have hs : s ∈ Node.statusesIn ns := (List.mem_append.mp hs).resolve_left hn
      exact (hns.opensAlone (hsep.after h) hs).append_left
        (h.not_mem_emission (hsep.right.apart s hs) hn)

theorem FlowsAcross.opensAlone : ∀ {c out : StatusContext} {ns : List Node}
    {guard : Nat → Node → Option Condition} {p : Path} {i : Nat}, FlowsAcross c ns out →
    Separate c (Node.statusesIn ns) → s ∈ Node.statusesIn ns →
    OpensAlone s (Node.branchEmissions r c guard p i ns)
  | _, _, _, _, _, _, .nil, _, hs => by simp [Node.statusesIn] at hs
  | c, _, n :: ns, _, _, _, .cons h hns, hsep, hs => by
    have hsc : s ∉ c := hsep.apart s hs
    rw [Node.branchEmissions]
    refine .cons hsc (.cons hsc ?_)
    by_cases hn : s ∈ n.statuses
    · exact (h.opensAlone hsep.left hn).append_right
    · have hs : s ∈ Node.statusesIn ns := (List.mem_append.mp hs).resolve_left hn
      exact .append_left (h.not_mem_emission hsc hn) (.cons hsc (hns.opensAlone hsep.right hs))

end

end Opening

namespace Emission

variable {es : List Emission} {s : Status}

theorem nodup_contexts (es : List Emission) : (contexts es).Nodup := by
  induction es using List.reverseRecOn with
  | nil => simp [contexts]
  | append_singleton es e ih =>
    by_cases he : e.context ∈ contexts es
    · rwa [contexts_concat_of_mem he]
    · rw [contexts_concat_of_not_mem he]
      refine List.nodup_append.mpr ⟨ih, by simp, fun c hc c' hc' hcc => ?_⟩
      rw [hcc, List.mem_singleton.mp hc'] at hc
      exact he hc

theorem contexts_of_opensAlone (h : OpensAlone s es) :
    ∃ before after, contexts es = before ++ .singleton s :: after ∧ ∀ c ∈ before, s ∉ c := by
  obtain ⟨before, e, after, rfl, he, hbefore⟩ := h
  have hfresh : OrderedSet.singleton s ∉ before.map context := by
    intro hmem
    obtain ⟨e', he', hc⟩ := List.mem_map.mp hmem
    exact hbefore e' he' (hc ▸ OrderedSet.mem_singleton.mpr rfl)
  have hcontexts : ∃ rest, contexts (before ++ e :: after) =
      contexts before ++ .singleton s :: rest := by
    simp only [contexts, List.map_append, List.map_cons, List.eraseDups_append, List.removeAll, he]
    rw [List.filter_cons_of_pos (by simpa using hfresh), List.eraseDups_cons]
    exact ⟨_, rfl⟩
  obtain ⟨rest, hrest⟩ := hcontexts
  refine ⟨contexts before, rest, hrest, fun c hc => ?_⟩
  · obtain ⟨e', he', rfl⟩ := mem_contexts.mp hc
    exact hbefore e' he'

end Emission

theorem eq_ok_of_toOption {ε α : Type} {result : Except ε α} {value : α}
    (h : result.toOption = some value) : result = .ok value := by
  cases result with
  | error fault => cases h
  | ok _ =>
    cases h
    rfl

namespace Registry

variable {r : Registry} {source date : String} {script : Script}

theorem compileContent_ok {resources : ResourceTable} {content : Element}
    (h : r.compileContent resources content date = .ok script) :
    ∃ root count d, (Vocabulary.mk r resources).scene content 0 = .ok root count ∧
      Drafting.scene r root.assignContexts.1 .empty = .ok () d ∧
      script = .ofDraft r d date count := by
  unfold compileContent at h
  split at h
  · cases h
  · next root count hscene =>
    split at h
    · cases h
    · next u d hdraft => exact ⟨root, count, d, hscene, hdraft, (Except.ok.inj h).symm⟩

/-- The graph that a scene's content makes with the number of its suspend points, and the draft of
the script that is written from it. -/
structure Drafts (r : Registry) (resources : ResourceTable) (content : Element) (root : Node)
    (count : Nat) (d : Draft) : Prop where
  built : (Vocabulary.mk r resources).scene content 0 = .ok root count
  drafted : Drafting.scene r root.assignContexts.1 .empty = .ok () d

theorem compileContent_eq_ok {resources : ResourceTable} {content : Element} :
    r.compileContent resources content date = .ok script ↔
      ∃ root count d, r.Drafts resources content root count d ∧
        script = .ofDraft r d date count := by
  constructor
  · intro h
    obtain ⟨root, count, d, hbuilt, hdrafted, rfl⟩ := compileContent_ok h
    exact ⟨root, count, d, ⟨hbuilt, hdrafted⟩, rfl⟩
  · rintro ⟨root, count, d, ⟨hbuilt, hdrafted⟩, rfl⟩
    simp only [compileContent, hbuilt, hdrafted]

theorem compile_eq_ok :
    r.compile source date = .ok script ↔
      ∃ element resources content, Markup.parse? source = some element ∧
        sceneParts element = .ok (resources, [content]) ∧
        r.compileContent resources content date = .ok script := by
  unfold compile
  cases Markup.parse? source with
  | none => simp
  | some element =>
    simp only [Option.some.injEq, exists_and_left, exists_eq_left', compileElement]
    cases sceneParts element with
    | error fault => simp [bind, Except.bind]
    | ok parts =>
      obtain ⟨resources, contents⟩ := parts
      simp only [bind, Except.bind, Except.ok.injEq, Prod.mk.injEq]
      split
      · next content => simp
      · next hcontents =>
        simp only [reduceCtorEq, false_iff]
        rintro ⟨_, content, ⟨-, rfl⟩, -⟩
        exact hcontents content rfl

theorem compile_ok (h : r.compile source date = .ok script) :
    ∃ resources content, r.compileContent resources content date = .ok script := by
  obtain ⟨-, resources, content, -, -, hcontent⟩ := compile_eq_ok.mp h
  exact ⟨resources, content, hcontent⟩

/-- No two groups of a script have the same context, and the first is that of the start. Each is
inhabited, by the start or by statuses that were counted. A status that was counted has a group of
its own, and no group before that one holds it. -/
theorem statusGroups_shape (h : r.compile source date = .ok script) :
    script.statusGroups.Nodup ∧ script.statusGroups.head? = some .start ∧
    (∀ c ∈ script.statusGroups,
      c ≠ .empty ∧ ∀ s ∈ c, s = .start ∨ 0 ≤ s ∧ s < script.statusCount) ∧
    ∀ s : Status, 0 ≤ s → s < script.statusCount →
      ∃ before after, script.statusGroups = before ++ .singleton s :: after ∧
        ∀ c ∈ before, s ∉ c := by
  obtain ⟨resources, content, h⟩ := compile_ok h
  obtain ⟨root, count, d, hroot, hdraft, rfl⟩ := compileContent_ok h
  have hscene := Vocabulary.scene_prepared hroot
  have hgroups : (Script.ofDraft r d date count).statusGroups =
      Emission.contexts (root.assignContexts.1.emissions r none []) := by
    rw [Script.ofDraft, Drafting.scene_ok hscene.wellFormed hdraft, Emission.collect, List.map_map]
    exact List.map_id _
  rw [hgroups]
  refine ⟨Emission.nodup_contexts _, ?_, fun c hc => ⟨?_, fun s hs => ?_⟩, fun s hlo hhi => ?_⟩
  · obtain ⟨es, hes⟩ := Node.emissions_cons r none [] root.assignContexts.1
    rw [hes, Emission.contexts_cons, List.head?_cons, hscene.flows.context]
  · obtain ⟨e, he, rfl⟩ := Emission.mem_contexts.mp hc
    obtain ⟨s, hs⟩ := hscene.inhabited e he
    exact fun hempty => OrderedSet.not_mem_empty s (hempty ▸ hs)
  · obtain ⟨e, he, rfl⟩ := Emission.mem_contexts.mp hc
    rcases hscene.flows.mem_of_mem_emission he hs with hstart | hstatus
    · exact .inl (OrderedSet.mem_singleton.mp hstart)
    · exact .inr (hscene.mem_statuses.mp hstatus)
  · exact Emission.contexts_of_opensAlone
      (hscene.flows.opensAlone hscene.separate (hscene.mem_statuses.mpr ⟨hlo, hhi⟩))

end Registry

/-- The scene with the content `giftInArm`, as its source text. -/
def Sample.giftInArmSource : String :=
  "<scene><switch type='job'><case cond='$x > 100'>" ++
    "<switch type='job'><case val='110'><message style='n' text='hi'/></case></switch>" ++
    "<give x='5'/></case></switch></scene>"

namespace Registry

/-- In the script of the sample scene the message's own group stands before the gift's. -/
theorem giftInArm_statusGroups_shape :
    ∃ script, Sample.registry.compile Sample.giftInArmSource "today" = .ok script ∧
      script.statusGroups = [.start, .singleton 0, .ofList [-1, 0]] ∧
      ∃ before after, script.statusGroups = before ++ .singleton 0 :: after ∧
        ∀ c ∈ before, (0 : Status) ∉ c := by
  have hcompiled : (Sample.registry.compile Sample.giftInArmSource "today").toOption.map
      (fun script => (script.statusGroups, script.statusCount)) =
      some ([.start, .singleton 0, .ofList [-1, 0]], 1) := by
    decide +kernel
  obtain ⟨script, hscript, hvalues⟩ := Option.map_eq_some_iff.mp hcompiled
  obtain ⟨hgroups, hcount⟩ := Prod.mk.inj hvalues
  have hscript := eq_ok_of_toOption hscript
  obtain ⟨-, -, -, halone⟩ := statusGroups_shape hscript
  exact ⟨script, hscript, hgroups, halone 0 (by decide) (by simp [hcount])⟩

end Registry

end SceneDispatch
