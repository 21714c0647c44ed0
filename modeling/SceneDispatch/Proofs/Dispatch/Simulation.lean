import SceneDispatch.Proofs.Dispatch.Walk
/-!
Dispatch simulates the scene. In a scene whose arms are level, the contexts that hold a status grow
in the order of writing, so that taking the groups one after another changes nothing in the order
of the lines that the status runs. Main statement: a call of the dispatch routine then tells the
story of the scene.
-/
namespace SceneDispatch

open Machine

instance (c c' : StatusContext) : Decidable (∀ s ∈ c', s ∉ c) :=
  inferInstanceAs (Decidable (∀ s ∈ c'.toList, s ∉ c))

/-- Within an arm every context is that of the arm or has no status in common with it. -/
def Node.Level (n : Node) : Prop :=
  n.Everywhere fun kind c ns => kind.isArm = true →
    Node.EverywhereIn (fun _ c' _ => c' = c ∨ ∀ s ∈ c', s ∉ c) ns

instance (n : Node) : Decidable n.Level :=
  inferInstanceAs (Decidable (n.Everywhere fun kind c ns => kind.isArm = true →
    Node.EverywhereIn (fun _ c' _ => c' = c ∨ ∀ s ∈ c', s ∉ c) ns))

theorem Node.level_mk {kind : NodeKind} {c : StatusContext} {ns : List Node} :
    (Node.mk kind c ns).Level ↔
      (kind.isArm = true → Node.EverywhereIn (fun _ c' _ => c' = c ∨ ∀ s ∈ c', s ∉ c) ns) ∧
        ∀ n ∈ ns, n.Level :=
  and_congr_right fun _ => Node.everywhereIn_iff

theorem Node.Level.context_of_arm {n m : Node} {i : Nat} {p : Path} (h : n.Level)
    (harm : n.kind.isArm = true) (hm : n.at? (i :: p) = some m) :
    m.context = n.context ∨ ∀ s ∈ m.context, s ∉ n.context := by
  obtain ⟨kind, c, ns⟩ := n
  obtain ⟨child, hchild, hm⟩ := Option.bind_eq_some_iff.mp hm
  have hbelow := Node.everywhereIn_iff.mp ((Node.level_mk.mp h).1 harm) child
    (List.mem_of_getElem? hchild)
  obtain ⟨kind', c', ns'⟩ := m
  exact (hbelow.at? hm).1

section Order

variable {r : Registry} {s : Status}

/-- Every status of the first context is in the second. -/
def StatusContext.Within (c c' : StatusContext) : Prop := ∀ t ∈ c, t ∈ c'

instance (c c' : StatusContext) : Decidable (c.Within c') :=
  inferInstanceAs (Decidable (∀ t ∈ c.toList, t ∈ c'))

/-- The contexts that hold the status grow from one emission to the next, up to the context that
flows out if that holds it too. -/
structure Grows (s : Status) (es : List Emission) (out : StatusContext) : Prop where
  pairwise : (es.filter (s ∈ ·.context)).Pairwise fun e e' => e.context.Within e'.context
  within : s ∈ out → ∀ e ∈ es, s ∈ e.context → e.context.Within out

section Bounds

variable {c out : StatusContext} {n m : Node} {ns : List Node} {e : Emission}
  {p q : Path} {i : Nat}

/-- A status that flows into a node brings all that flows in with it wherever it goes. -/
theorem Flows.within_of_accounts (h : Flows c n out) (hm : n.at? q = some m) (he : m.Accounts e)
    (hn : s ∉ n.statuses) (hs : s ∈ e.context) : c.Within e.context := by
  rcases he with ⟨hc, -⟩ | ⟨t, ht, hc⟩
  · rw [hc] at hs ⊢
    exact h.subset_context hm hn hs
  · rw [hc, OrderedSet.mem_singleton] at hs
    exact absurd (Node.mem_statuses_of_at? hm (hs ▸ ht)) hn

-- siblings flow like the block that is made of them
theorem FlowsThrough.block (h : FlowsThrough c ns out) : Flows c (.mk .block c ns) out :=
  .serial rfl h

theorem FlowsThrough.mem_of_mem_emission {back : Status} (h : FlowsThrough c ns out)
    (he : e ∈ Node.serialEmissions r back p i ns) (hs : s ∈ e.context) :
    s ∈ c ∨ s ∈ Node.statusesIn ns := by
  obtain ⟨j, n, q, m, hn, hm, -, hacc⟩ := Node.accounts_of_mem_serial he
  exact h.block.mem_of_accounts (Node.at?_cons_of_getElem? hn hm) hacc hs

theorem FlowsThrough.within_emission {back : Status} (h : FlowsThrough c ns out)
    (hns : s ∉ Node.statusesIn ns) (he : e ∈ Node.serialEmissions r back p i ns)
    (hs : s ∈ e.context) : c.Within e.context := by
  obtain ⟨j, n, q, m, hn, hm, -, hacc⟩ := Node.accounts_of_mem_serial he
  exact h.block.within_of_accounts (Node.at?_cons_of_getElem? hn hm) hacc hns hs

/-- What a status runs in level arms that it flows into stands in the group of their context. -/
theorem FlowsAcross.context_eq {g : Nat → Node → Option Condition} (h : FlowsAcross c ns out)
    (hsep : Separate c (Node.statusesIn ns)) (harms : ∀ n ∈ ns, n.kind.isArm = true)
    (hlevel : ∀ n ∈ ns, n.Level) (hc : s ∈ c) (he : e ∈ Node.branchEmissions r c g p i ns)
    (hs : s ∈ e.context) : e.context = c := by
  rcases Node.accounts_of_mem_branches he with ⟨heq, -⟩ | ⟨j, n, q, m, hn, hm, -, hacc⟩
  · exact heq
  · have hmem := List.mem_of_getElem? hn
    obtain ⟨_, hflow⟩ := h.exists_flows hmem
    rcases hacc with ⟨heq, -⟩ | ⟨t, ht, heq⟩
    · rw [heq] at hs ⊢
      cases q with
      | nil =>
        cases hm
        exact hflow.context
      | cons j q =>
        rcases (hlevel n hmem).context_of_arm (harms n hmem) hm with hsame | hapart
        · rw [hsame, hflow.context]
        · exact absurd (hflow.context ▸ hc) (hapart s hs)
    · rw [heq, OrderedSet.mem_singleton] at hs
      have hstatus : s ∈ Node.statusesIn ns :=
        Node.mem_statusesIn.mpr ⟨n, hmem, Node.mem_statuses_of_at? hm (hs ▸ ht)⟩
      exact absurd hc (hsep.apart s hstatus)

end Bounds

section Growth

variable {xs ys es : List Emission} {e : Emission} {c mid out : StatusContext}

theorem Grows.nil : Grows s [] out := ⟨.nil, by simp⟩

theorem Grows.cons (h : Grows s es out)
    (hes : ∀ e' ∈ es, s ∈ e'.context → e.context.Within e'.context)
    (hout : s ∈ out → e.context.Within out) : Grows s (e :: es) out := by
  constructor
  · rw [List.filter_cons]
    split
    · refine List.pairwise_cons.mpr ⟨fun e' he' => ?_, h.pairwise⟩
      obtain ⟨he', hs⟩ := List.mem_filter.mp he'
      exact hes e' he' (by simpa using hs)
    · exact h.pairwise
  · intro hs
    exact List.forall_mem_cons.mpr ⟨fun _ => hout hs, h.within hs⟩

theorem Grows.append (hx : Grows s xs out) (hy : Grows s ys out)
    (h : ∀ e ∈ xs, ∀ e' ∈ ys, s ∈ e.context → s ∈ e'.context → e.context.Within e'.context) :
    Grows s (xs ++ ys) out := by
  constructor
  · rw [List.filter_append, List.pairwise_append]
    refine ⟨hx.pairwise, hy.pairwise, fun e he e' he' => ?_⟩
    obtain ⟨he, hs⟩ := List.mem_filter.mp he
    obtain ⟨he', hs'⟩ := List.mem_filter.mp he'
    exact h e he e' he' (by simpa using hs) (by simpa using hs')
  · intro hs
    exact List.forall_mem_append.mpr ⟨hx.within hs, hy.within hs⟩

theorem Grows.of_eq (h : ∀ e ∈ es, s ∈ e.context → e.context = c)
    (hout : s ∈ out → c.Within out) : Grows s es out := by
  constructor
  · apply List.pairwise_of_forall_mem_list
    intro e he e' he'
    obtain ⟨he, hs⟩ := List.mem_filter.mp he
    obtain ⟨he', hs'⟩ := List.mem_filter.mp he'
    rw [h e he (by simpa using hs), h e' he' (by simpa using hs')]
    exact fun t ht => ht
  · intro hs e he hse
    rw [h e he hse]
    exact hout hs

theorem Grows.of_not (h : ∀ e ∈ es, s ∉ e.context) : Grows s es out :=
  .of_eq (c := .empty) (fun e he hs => absurd hs (h e he))
    fun _ t ht => absurd ht (OrderedSet.not_mem_empty t)

theorem Grows.cons_of_not (h : Grows s es out) (he : s ∉ e.context) : Grows s (e :: es) out := by
  constructor
  · rw [List.filter_cons_of_neg (by simpa using he)]
    exact h.pairwise
  · intro hs
    exact List.forall_mem_cons.mpr ⟨fun hse => absurd hse he, h.within hs⟩

theorem Grows.widen (h : Grows s es mid) (hback : s ∈ out → s ∈ mid) (hout : mid.Within out) :
    Grows s es out := by
  refine ⟨h.pairwise, fun hs e he hse t ht => hout t ?_⟩
  exact h.within (hback hs) e he hse t ht

mutual

/-- In a node whose arms are level the contexts that hold a status grow, up to what flows out. -/
theorem Flows.grows : ∀ {c out : StatusContext} {n : Node} {back : Option Status} {p : Path},
    Flows c n out → n.WellFormed → Separate c n.statuses → n.Level →
    Grows s (n.emissions r back p) out
  | c, out, .mk kind _ ns, back, p, .serial hk h, hwf, hsep, hlevel => by
    rw [Node.statuses_serial hk] at hsep
    rw [Node.emissions_serial _ _ _ _ _ hk]
    have hgrows : Grows s (Node.serialEmissions r .start p 0 ns) out :=
      h.grows (Node.wellFormed_mk.mp hwf).2 hsep (Node.level_mk.mp hlevel).2
    by_cases hc : s ∈ c
    · have hns : s ∉ Node.statusesIn ns := fun hs => hsep.apart s hs hc
      exact hgrows.cons (fun e he => h.within_emission hns he) fun hs => h.block.subset_out hns hs
    · exact hgrows.cons_of_not hc
  | c, out, .mk (.switch f) _ ns, back, p, .switch h hout, hwf, hsep, hlevel => by
    obtain ⟨-, hns⟩ := Node.wellFormed_mk.mp hwf
    obtain ⟨-, hlevels⟩ := Node.level_mk.mp hlevel
    have harms : ∀ n ∈ ns, n.kind.isArm = true := hwf.isArm rfl
    rw [Node.emissions_switch]
    by_cases hc : s ∈ c
    · refine .of_eq (List.forall_mem_cons.mpr ⟨fun _ => rfl, fun e he hs => ?_⟩) fun hs => ?_
      · exact h.context_eq hsep harms hlevels hc he hs
      · exact (Flows.switch h hout).subset_out (fun hs' => hsep.apart s hs' hc) hs
    · refine Grows.cons_of_not ?_ hc
      refine (h.grows hns hsep hlevels hc).widen (fun hs => ?_) fun t ht => (hout t).mpr (.inl ht)
      exact ((hout s).mp hs).resolve_right fun hfall => hc hfall.1
  | c, _, .mk (.options status text) _ ns, back, p, .options h, hwf, hsep, hlevel => by
    obtain ⟨-, hns⟩ := Node.wellFormed_mk.mp hwf
    obtain ⟨-, hlevels⟩ := Node.level_mk.mp hlevel
    have harms : ∀ n ∈ ns, n.kind.isArm = true := hwf.isArm rfl
    have hbehind := Separate.behind hsep
    rw [Node.emissions_options]
    by_cases hc : s ∈ c
    · have hout : s ∉ (Node.mk (.options status text) c ns).statuses :=
        fun hs => hsep.apart s hs hc
      obtain ⟨hstatus, hns'⟩ := not_or.mp (mt List.mem_append.mpr hout)
      have hnot : s ∉ OrderedSet.singleton status := by simpa [NodeKind.status?] using hstatus
      refine .of_eq (c := c) (fun e he hs => ?_) fun hs => (Flows.options h).subset_out hout hs
      rw [List.mem_cons, List.mem_cons, List.mem_cons] at he
      rcases he with rfl | rfl | rfl | he
      · rfl
      · rfl
      · exact absurd hs hnot
      · exact absurd hs (h.not_mem_emission hnot hns' e he)
    · refine .cons_of_not (.cons_of_not ?_ hc) hc
      by_cases hstatus : s = status
      · subst hstatus
        have hown : s ∈ OrderedSet.singleton s := OrderedSet.mem_singleton.mpr rfl
        refine .of_eq (List.forall_mem_cons.mpr ⟨fun _ => rfl, fun e he hs => ?_⟩)
          fun hs t ht => ?_
        · exact h.context_eq hbehind harms hlevels hown he hs
        · rwa [OrderedSet.mem_singleton.mp ht]
      · have hnot : s ∉ OrderedSet.singleton status := mt OrderedSet.mem_singleton.mp hstatus
        exact (h.grows hns hbehind hlevels hnot).cons_of_not hnot
  | c, _, .mk (.message status style text) _ [], back, p, .message, hwf, hsep, hlevel => by
    rw [Node.emissions_message]
    by_cases hc : s ∈ c
    · have hnot : s ∉ OrderedSet.singleton status := by
        intro hs
        exact hsep.apart s (List.mem_singleton.mpr (OrderedSet.mem_singleton.mp hs)) hc
      refine .of_eq (c := c) (fun e he hs => ?_) fun hs => absurd hs hnot
      rw [List.mem_cons, List.mem_cons, List.mem_singleton] at he
      rcases he with rfl | rfl | rfl
      · rfl
      · rfl
      · exact absurd hs hnot
    · exact .cons_of_not (.cons_of_not (.of_eq (by simp) fun _ t ht => ht) hc) hc
  | c, _, .mk (.command f a) _ [], back, p, .command, _, _, _ => by
    rw [Node.emissions_command]
    exact .of_eq (c := c) (by simp) fun _ t ht => ht

theorem FlowsThrough.grows : ∀ {c out : StatusContext} {ns : List Node} {back : Status} {p : Path}
    {i : Nat}, FlowsThrough c ns out → (∀ n ∈ ns, n.WellFormed) →
    Separate c (Node.statusesIn ns) → (∀ n ∈ ns, n.Level) →
    Grows s (Node.serialEmissions r back p i ns) out
  | _, _, _, _, _, _, .nil, _, _, _ => .nil
  | c, out, n :: ns, back, p, i, .cons h hrest, hwf, hsep, hlevel => by
    obtain ⟨hn, hns⟩ := List.forall_mem_cons.mp hwf
    obtain ⟨hleveln, hlevels⟩ := List.forall_mem_cons.mp hlevel
    rw [Node.serialEmissions]
    have hgrows : Grows s (n.emissions r (some back) (p ++ [i])) _ := h.grows hn hsep.left hleveln
    have hlater : ∀ e ∈ n.emissions r (some back) (p ++ [i]), s ∈ e.context →
        s ∉ Node.statusesIn ns := by
      intro e he hs
      rcases h.mem_of_mem_emission he hs with hc | hsn
      · exact fun hs' => hsep.right.apart s hs' hc
      · exact hsep.not_mem_right hsn
    refine .append ⟨hgrows.pairwise, fun hs e he hse t ht => ?_⟩
      (hrest.grows hns (hsep.after h) hlevels) fun e he e' he' hse hse' t ht => ?_
    · have hmid := (hrest.block.mem_of_mem_out hs).resolve_right (hlater e he hse)
      exact hrest.block.subset_out (hlater e he hse) hs t (hgrows.within hmid e he hse t ht)
    · have hmid := (hrest.mem_of_mem_emission he' hse').resolve_right (hlater e he hse)
      exact hrest.within_emission (hlater e he hse) he' hse' t (hgrows.within hmid e he hse t ht)

/-- The same for arms that the status does not flow into. -/
theorem FlowsAcross.grows : ∀ {c out : StatusContext} {ns : List Node}
    {g : Nat → Node → Option Condition} {p : Path} {i : Nat}, FlowsAcross c ns out →
    (∀ n ∈ ns, n.WellFormed) → Separate c (Node.statusesIn ns) → (∀ n ∈ ns, n.Level) → s ∉ c →
    Grows s (Node.branchEmissions r c g p i ns) out
  | _, _, _, _, _, _, .nil, _, _, _, _ => .nil
  | c, _, n :: ns, g, p, i, .cons h hrest, hwf, hsep, hlevel, hc => by
    obtain ⟨hn, hns⟩ := List.forall_mem_cons.mp hwf
    obtain ⟨hleveln, hlevels⟩ := List.forall_mem_cons.mp hlevel
    rw [Node.branchEmissions]
    refine .cons_of_not (.cons_of_not ?_ hc) hc
    by_cases hsn : s ∈ n.statuses
    · have hsns := hsep.not_mem_right hsn
      have hnothing : ∀ e ∈ (⟨c, p ++ [i], [.closing]⟩ : Emission) ::
          Node.branchEmissions r c g p (i + 1) ns, s ∉ e.context :=
        List.forall_mem_cons.mpr ⟨hc, hrest.not_mem_emission hc hsns⟩
      refine .append ((h.grows hn hsep.left hleveln).widen (fun hs => ?_) ?_) (.of_not hnothing)
        fun e he e' he' _ hse' => absurd hse' (hnothing e' he')
      · apply (OrderedSet.mem_union.mp hs).resolve_right
        intro hs'
        rcases hrest.mem_of_mem_out hs' with hs' | hs'
        · exact hc hs'
        · exact hsns hs'
      · exact fun t ht => OrderedSet.mem_union.mpr (.inl ht)
    · have hnothing : ∀ e ∈ n.emissions r (some .start) (p ++ [i]), s ∉ e.context :=
        h.not_mem_emission hc hsn
      refine .append (.of_not hnothing) (.cons_of_not ?_ hc)
        fun e he e' he' hse _ => absurd hse (hnothing e he)
      refine (hrest.grows hns hsep.right hlevels hc).widen (fun hs => ?_) ?_
      · apply (OrderedSet.mem_union.mp hs).resolve_left
        intro hs'
        rcases h.mem_of_mem_out hs' with hs' | hs'
        · exact hc hs'
        · exact hsn hs'
      · exact fun t ht => OrderedSet.mem_union.mpr (.inr ht)

end

end Growth

end Order

namespace Emission

variable {s : Status} {c : StatusContext}

theorem contexts_filter (keep : StatusContext → Bool) (es : List Emission) :
    contexts (es.filter (keep ·.context)) = (contexts es).filter keep := by
  induction es using List.reverseRecOn with
  | nil => rfl
  | append_singleton es e ih =>
    have hmem : e.context ∈ contexts (es.filter (keep ·.context)) ↔
        e.context ∈ contexts es ∧ keep e.context = true := by
      rw [ih, List.mem_filter]
    rw [List.filter_append]
    by_cases hkeep : keep e.context = true
    · have hself : [e].filter (keep ·.context) = [e] := List.filter_cons_of_pos hkeep
      rw [hself]
      by_cases he : e.context ∈ contexts es
      · rw [contexts_concat_of_mem (hmem.mpr ⟨he, hkeep⟩), contexts_concat_of_mem he, ih]
      · rw [contexts_concat_of_not_mem fun h => he (hmem.mp h).1, contexts_concat_of_not_mem he,
          List.filter_append, ih, List.filter_cons_of_pos hkeep, List.filter_nil]
    · have hnone : [e].filter (keep ·.context) = [] := List.filter_cons_of_neg hkeep
      rw [hnone, List.append_nil]
      by_cases he : e.context ∈ contexts es
      · rw [contexts_concat_of_mem he, ih]
      · rw [contexts_concat_of_not_mem he, List.filter_append, ih, List.filter_cons_of_neg hkeep,
          List.filter_nil, List.append_nil]

/-- Where contexts grow from `c` on, those equal to it stand in front. -/
theorem filter_append_filter : ∀ {es : List Emission},
    es.Pairwise (fun e e' => e.context.Within e'.context) → (∀ e ∈ es, c.Within e.context) →
    es.filter (·.context = c) ++ es.filter (·.context ≠ c) = es
  | [], _, _ => rfl
  | e :: es, h, hc => by
    obtain ⟨he, hes⟩ := List.pairwise_cons.mp h
    obtain ⟨hce, hces⟩ := List.forall_mem_cons.mp hc
    by_cases heq : e.context = c
    · rw [List.filter_cons_of_pos (by simpa using heq),
        List.filter_cons_of_neg (by simpa using heq), List.cons_append,
        filter_append_filter hes hces]
    · have hnone : ∀ e' ∈ es, e'.context ≠ c := by
        rintro e' he' rfl
        exact heq (OrderedSet.ext fun t => ⟨he e' he' t, hce t⟩)
      rw [List.filter_cons_of_neg (by simpa using heq),
        List.filter_cons_of_pos (by simpa using heq),
        List.filter_eq_nil_iff.mpr (by simpa using hnone),
        List.filter_eq_self.mpr (by simpa using hnone), List.nil_append]

/-- Emissions whose contexts grow stand group by group already. -/
theorem flatMap_contexts {es : List Emission}
    (h : es.Pairwise fun e e' => e.context.Within e'.context) :
    (contexts es).flatMap (fun c => es.filter (·.context = c)) = es := by
  match es, h with
  | [], _ => rfl
  | e :: es, h =>
    obtain ⟨he, hes⟩ := List.pairwise_cons.mp h
    have ih := flatMap_contexts (hes.filter (·.context ≠ e.context))
    have hlater : (contexts (es.filter (·.context ≠ e.context))).flatMap
        (fun c => (e :: es).filter (·.context = c)) = es.filter (·.context ≠ e.context) := by
      refine Eq.trans (List.flatMap_congr fun c hc => ?_) ih
      obtain ⟨e', he', rfl⟩ := mem_contexts.mp hc
      have hne : e'.context ≠ e.context := by simpa using (List.mem_filter.mp he').2
      rw [List.filter_cons_of_neg (by simpa using hne.symm), List.filter_filter]
      apply List.filter_congr
      intro e'' _
      by_cases heq : e''.context = e'.context
      · simp [heq, hne]
      · simp [heq]
    rw [contexts_cons, List.flatMap_cons, List.filter_cons_of_pos (by simp), hlater,
      List.cons_append, filter_append_filter hes he]
termination_by es.length
decreasing_by
  have hle := List.length_filter_le (fun e' : Emission => decide (e'.context ≠ e.context)) es
  simp only [List.length_cons]
  omega

/-- Where contexts grow, running group by group is running in the order of writing. -/
theorem flatMap_passages {es : List Emission}
    (h : (es.filter (s ∈ ·.context)).Pairwise fun e e' => e.context.Within e'.context) :
    ((passages es).filter (s ∈ ·.context)).flatMap Passage.lines = select (s ∈ ·) es := by
  have hfiltered : (passages es).filter (s ∈ ·.context) =
      (contexts (es.filter (s ∈ ·.context))).map fun c => ⟨c, select (· = c) es⟩ := by
    rw [passages, List.filter_map, contexts_filter (fun c => s ∈ c)]
    rfl
  have hsame : ∀ c ∈ contexts (es.filter (s ∈ ·.context)),
      select (· = c) es = ((es.filter (s ∈ ·.context)).filter (·.context = c)).flatMap lines := by
    intro c hc
    obtain ⟨e, he, rfl⟩ := mem_contexts.mp hc
    have hs : s ∈ e.context := by simpa using (List.mem_filter.mp he).2
    rw [select, List.filter_filter]
    congr 1
    apply List.filter_congr
    intro e' _
    by_cases heq : e'.context = e.context
    · simp [heq, hs]
    · simp [heq]
  calc ((passages es).filter (s ∈ ·.context)).flatMap Passage.lines
      = (contexts (es.filter (s ∈ ·.context))).flatMap fun c => select (· = c) es := by
        rw [hfiltered, List.flatMap_map]
    _ = ((contexts (es.filter (s ∈ ·.context))).flatMap fun c =>
          (es.filter (s ∈ ·.context)).filter (·.context = c)).flatMap lines := by
        rw [List.flatMap_congr hsame, List.flatMap_assoc]
    _ = select (s ∈ ·) es := by
        rw [flatMap_contexts h]
        rfl

end Emission

section Scenes

variable {r : Registry} {k : Invocation} {s : Status} {scene : Node} {exit : StatusContext}
  {count : Nat}

theorem tame_passages (r : Registry) (k : Invocation) (n : Node) (back : Option Status)
    (p : Path) : ∀ g ∈ Emission.passages (n.emissions r back p), Tame k g.lines := by
  intro g hg
  obtain ⟨c, -, rfl⟩ := List.mem_map.mp hg
  exact Node.tame_emissions (fun c' => c' = c) n back p

/-- A call on the groups of a draft is a call on the passages that the scene writes. -/
theorem story_dispatch_groups {d : Draft} (hwf : scene.WellFormed)
    (h : Drafting.scene r scene .empty = .ok () d) :
    ((Machine.start s).dispatch k (d.groups.map Group.passage)).story =
      ((Machine.start s).dispatch k (Emission.passages (scene.emissions r none []))).story := by
  have hstart : (Machine.start s : Machine Unit) =
      (Machine.start s : Machine Path).relabel fun _ => () := rfl
  rw [Drafting.scene_ok hwf h, ← Emission.relabel_passages, hstart, relabel_dispatch]
  rfl

/-- In the order of writing, the lines that a status runs tell the story of the scene. -/
theorem Prepared.story_run (hscene : Prepared scene exit count)
    (hs : s = .start ∨ 0 ≤ s ∧ s < count) (hmode : k.mode = 1) (hselects : scene.Selects k s) :
    ((Machine.start s).run k (Emission.select (s ∈ ·) (scene.emissions r none []))).story =
      scene.tell r k s := by
  have hready : (Machine.start s : Machine Path).Ready := ⟨rfl, rfl⟩
  rcases hs with rfl | hs
  · have hstart : Status.start ∈ StatusContext.start := OrderedSet.mem_singleton.mpr rfl
    rw [Node.tell, if_pos rfl]
    exact (hscene.flows.story_run hscene.wellFormed hstart
      (fun hs => hscene.separate.apart _ hs hstart) hready rfl).1
  · have hne : s ≠ .start := by
      rintro rfl
      exact absurd hs.1 (by decide)
    rw [Node.tell, if_neg hne]
    exact (hscene.flows.story_resume hscene.wellFormed hscene.separate
      (hscene.mem_statuses.mpr hs) hselects hmode hready rfl).1

/-- Let a scene be built and drafted whose arms are level. Under every status, for every outcome of
the tests, and with an entry selected wherever the status belongs to an options node, a call of the
dispatch routine tells the story of the scene: the same tests and lines in the same order, and the
same status at the end. -/
theorem dispatch_simulates {v : Vocabulary} {content : Element} {root : Node} {d : Draft}
    (hbuild : v.scene content 0 = .ok root count)
    (hdraft : Drafting.scene v.registry root.assignContexts.1 .empty = .ok () d)
    (hlevel : root.assignContexts.1.Level) (hs : s = .start ∨ 0 ≤ s ∧ s < count)
    (hmode : k.mode = 1) (hselects : root.assignContexts.1.Selects k s) :
    ((Machine.start s).dispatch k (d.groups.map Group.passage)).story =
      root.assignContexts.1.tell v.registry k s := by
  have hscene := Vocabulary.scene_prepared hbuild
  have hgrows : Grows s (root.assignContexts.1.emissions v.registry none []) _ :=
    hscene.flows.grows hscene.wellFormed hscene.separate hlevel
  rw [story_dispatch_groups hscene.wellFormed hdraft,
    dispatch_eq_run (tame_passages _ _ _ _ _) (s := s) rfl,
    Emission.flatMap_passages hgrows.pairwise]
  exact hscene.story_run hs hmode hselects

end Scenes

namespace Sample

/-- Entries of which one shows a message, and a gift in the other. -/
def giftInEntry : Element :=
  element "options" [⟨"text", "pick"⟩]
    [element "option" [⟨"text", "talk"⟩]
      [element "message" [⟨"style", "n"⟩, ⟨"text", "hi"⟩] [], element "give" [⟨"x", "7"⟩] []],
      element "option" [⟨"text", "take"⟩] [element "give" [⟨"x", "5"⟩] []]]

def giftInEntryGraph : Node :=
  .fresh .block
    [.fresh (.options 0 "pick")
      [.fresh (.option "talk") [.leaf (.message 1 .next "hi"), gift "7"],
        .fresh (.option "take") [gift "5"]]]

theorem giftInEntry_builds : vocabulary.scene giftInEntry 0 = .ok giftInEntryGraph 2 := rfl

end Sample

/-- In the sample scene a call behind the prompt that selects the second entry makes its gift. -/
theorem giftInEntry_dispatch_simulates :
    ∃ d, Drafting.scene Sample.registry Sample.giftInEntryGraph.assignContexts.1 .empty =
        .ok () d ∧
      ((Machine.start 0).dispatch ⟨1, 1, fun _ _ => false⟩ (d.groups.map Group.passage)).story =
        ⟨0, [.line "cm.gainMeso(5);"], false⟩ := by
  obtain ⟨d, hd⟩ : ∃ d, Drafting.scene Sample.registry
      Sample.giftInEntryGraph.assignContexts.1 .empty = .ok () d := ⟨_, rfl⟩
  refine ⟨d, hd, ?_⟩
  have hstory := dispatch_simulates (s := 0) (k := ⟨1, 1, fun _ _ => false⟩)
    Sample.giftInEntry_builds hd (by decide) (.inr (by decide)) rfl (by decide)
  rw [hstory]
  decide +kernel

end SceneDispatch
