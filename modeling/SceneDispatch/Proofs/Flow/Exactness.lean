import SceneDispatch.Proofs.Flow.Reach
import SceneDispatch.Proofs.Flow.Rules
/-!
Contexts are exact: a status is in the context of a node just when a run that starts there can come
to the node, and flows out of the scene just when a run can come to its end.
-/
namespace SceneDispatch

open Pending

variable {c out : StatusContext} {s : Status}

theorem any_isOtherwise_eq_false {ns : List Node} :
    ns.any Node.isOtherwise = false ↔ ∀ n ∈ ns, n.kind ≠ .case .otherwise := by
  simp [Node.isOtherwise]

mutual

/-- What flows out of a node came in and passed it, or is resumed in it and comes to its end. -/
theorem Flows.mem_out : ∀ {c out : StatusContext} {n : Node}, Flows c n out → ∀ (q : Path),
    (s ∈ out ↔ s ∈ c ∧ Run [⟨q, n⟩] [] ∨ ∃ rest, Resumes ⟨q, n⟩ s rest ∧ Run rest [])
  | _, _, _, .serial hk h, q => by
    simp only [run_nil_serial hk, resumes_serial hk]
    exact h.mem_out q 0
  | _, _, _, .switch h hout, q => by
    rw [hout, h.mem_out q 0, run_nil_switch, any_isOtherwise_eq_false]
    simp only [resumes_switch]
    constructor
    · rintro (⟨w, hw, ⟨hs, hrun⟩ | ⟨rest, hr, hrun⟩⟩ | ⟨hs, hd⟩)
      · exact .inl ⟨hs, .inl ⟨w, hw, hrun⟩⟩
      · exact .inr ⟨rest, ⟨w, hw, hr⟩, hrun⟩
      · exact .inl ⟨hs, .inr hd⟩
    · rintro (⟨hs, ⟨w, hw, hrun⟩ | hd⟩ | ⟨rest, ⟨w, hw, hr⟩, hrun⟩)
      · exact .inl ⟨w, hw, .inl ⟨hs, hrun⟩⟩
      · exact .inr ⟨hs, hd⟩
      · exact .inl ⟨w, hw, .inr ⟨rest, hr, hrun⟩⟩
  | _, _, _, .options h, q => by
    rw [h.mem_out q 0]
    simp only [resumes_options, OrderedSet.mem_singleton]
    constructor
    · rintro ⟨w, hw, ⟨rfl, hrun⟩ | ⟨rest, hr, hrun⟩⟩
      · exact .inr ⟨[w], ⟨w, hw, .inl ⟨rfl, rfl⟩⟩, hrun⟩
      · exact .inr ⟨rest, ⟨w, hw, .inr hr⟩, hrun⟩
    · rintro (⟨-, hrun⟩ | ⟨rest, ⟨w, hw, ⟨rfl, rfl⟩ | hr⟩, hrun⟩)
      · exact absurd hrun (not_run_nil_suspended rfl)
      · exact ⟨w, hw, .inl ⟨rfl, hrun⟩⟩
      · exact ⟨w, hw, .inr ⟨rest, hr, hrun⟩⟩
  | _, _, _, .message, q => by
    simp only [resumes_message, OrderedSet.mem_singleton]
    constructor
    · rintro rfl
      exact .inr ⟨[], ⟨rfl, rfl⟩, .refl⟩
    · rintro (⟨-, hrun⟩ | ⟨rest, ⟨rfl, -⟩, -⟩)
      · exact absurd hrun (not_run_nil_suspended rfl)
      · rfl
  | _, _, _, .command, q => by
    simp [run_nil_command, not_resumes_command]

theorem FlowsThrough.mem_out : ∀ {c out : StatusContext} {ns : List Node}, FlowsThrough c ns out →
    ∀ (q : Path) (i : Nat),
    (s ∈ out ↔ s ∈ c ∧ Run (siblings q i ns) [] ∨
      ∃ rest, ResumesIn (siblings q i ns) s rest ∧ Run rest [])
  | _, _, _, .nil, q, i => by
    have hdone : Run [] [] := .refl
    simp [siblings, not_resumesIn_nil, hdone]
  | _, _, n :: ns, .cons h hs, q, i => by
    have hrun : Run (⟨q ++ [i], n⟩ :: siblings q (i + 1) ns) [] ↔ _ := run_nil_cons
    rw [hs.mem_out q (i + 1), h.mem_out (q ++ [i])]
    simp only [siblings, resumesIn_cons, hrun]
    constructor
    · rintro (⟨⟨hc, hn⟩ | ⟨left, hr, hn⟩, hns⟩ | ⟨rest, hr, hns⟩)
      · exact .inl ⟨hc, hn, hns⟩
      · exact .inr ⟨_, .inl ⟨left, hr, rfl⟩, run_append_nil.mpr ⟨hn, hns⟩⟩
      · exact .inr ⟨rest, .inr hr, hns⟩
    · rintro (⟨hc, hn, hns⟩ | ⟨_, ⟨left, hr, rfl⟩ | hr, hns⟩)
      · exact .inl ⟨.inl ⟨hc, hn⟩, hns⟩
      · obtain ⟨hn, hns⟩ := run_append_nil.mp hns
        exact .inl ⟨.inr ⟨left, hr, hn⟩, hns⟩
      · exact .inr ⟨_, hr, hns⟩

theorem FlowsAcross.mem_out : ∀ {c out : StatusContext} {ns : List Node}, FlowsAcross c ns out →
    ∀ (q : Path) (i : Nat),
    (s ∈ out ↔ ∃ w ∈ siblings q i ns,
      s ∈ c ∧ Run [w] [] ∨ ∃ rest, Resumes w s rest ∧ Run rest [])
  | _, _, _, .nil, q, i => by simp [siblings]
  | _, _, _, .cons h hs, q, i => by
    rw [OrderedSet.mem_union, h.mem_out (q ++ [i]), hs.mem_out q (i + 1)]
    simp [siblings]

end

theorem Flows.mem_context_self {n : Node} (h : Flows c n out) (q : Path) :
    s ∈ n.context ↔
      s ∈ c ∧ Arrives [⟨q, n⟩] q ∨ ∃ rest, Resumes ⟨q, n⟩ s rest ∧ Arrives rest q := by
  rw [h.context]
  constructor
  · intro hs
    exact .inl ⟨hs, n, [], .refl⟩
  · rintro (⟨hs, -⟩ | ⟨rest, hr, harrives⟩)
    · exact hs
    · obtain ⟨u, hu, hprefix⟩ := harrives.descends_resumed hr
      obtain ⟨j, -, hpath⟩ := mem_siblings.mp hu
      have hlength : (q ++ [0 + j]).length ≤ q.length := hpath ▸ hprefix.length_le
      rw [List.length_append, List.length_singleton] at hlength
      omega

mutual

/-- A status in a context came in and arrives there, or is resumed and arrives there. -/
theorem Flows.mem_context : ∀ {c out : StatusContext} {n : Node}, Flows c n out →
    ∀ (q p : Path) {m : Node}, n.at? p = some m →
    (s ∈ m.context ↔ s ∈ c ∧ Arrives [⟨q, n⟩] (q ++ p) ∨
      ∃ rest, Resumes ⟨q, n⟩ s rest ∧ Arrives rest (q ++ p))
  | _, _, _, h, q, [], m, hm => by
    cases hm
    simpa using h.mem_context_self q
  | _, _, _, .serial hk h, q, i :: p, m, hm => by
    simp only [arrives_serial hk (show q ++ i :: p ≠ q by simp), resumes_serial hk]
    simpa using h.mem_context q 0 hm
  | _, _, _, .switch h _, q, i :: p, m, hm => by
    have hctx := h.mem_context q 0 hm
    rw [Nat.zero_add] at hctx
    simp only [arrives_switch (show q ++ i :: p ≠ q by simp), resumes_switch, hctx]
    constructor
    · rintro ⟨w, hw, ⟨hs, ha⟩ | ⟨rest, hr, ha⟩⟩
      · exact .inl ⟨hs, w, hw, ha⟩
      · exact .inr ⟨rest, ⟨w, hw, hr⟩, ha⟩
    · rintro (⟨hs, w, hw, ha⟩ | ⟨rest, ⟨w, hw, hr⟩, ha⟩)
      · exact ⟨w, hw, .inl ⟨hs, ha⟩⟩
      · exact ⟨w, hw, .inr ⟨rest, hr, ha⟩⟩
  | _, _, _, .options h, q, i :: p, m, hm => by
    have hctx := h.mem_context q 0 hm
    rw [Nat.zero_add] at hctx
    simp only [resumes_options, hctx, OrderedSet.mem_singleton]
    constructor
    · rintro ⟨w, hw, ⟨rfl, ha⟩ | ⟨rest, hr, ha⟩⟩
      · exact .inr ⟨[w], ⟨w, hw, .inl ⟨rfl, rfl⟩⟩, ha⟩
      · exact .inr ⟨rest, ⟨w, hw, .inr hr⟩, ha⟩
    · rintro (⟨-, ha⟩ | ⟨rest, ⟨w, hw, ⟨rfl, rfl⟩ | hr⟩, ha⟩)
      · exact absurd ha (not_arrives_suspended rfl (by simp))
      · exact ⟨w, hw, .inl ⟨rfl, ha⟩⟩
      · exact ⟨w, hw, .inr ⟨rest, hr, ha⟩⟩

theorem FlowsThrough.mem_context : ∀ {c out : StatusContext} {ns : List Node},
    FlowsThrough c ns out → ∀ (q : Path) (j : Nat) {i : Nat} {p : Path} {m : Node},
    ns[i]?.bind (Node.at? · p) = some m →
    (s ∈ m.context ↔ s ∈ c ∧ Arrives (siblings q j ns) (q ++ (j + i) :: p) ∨
      ∃ rest, ResumesIn (siblings q j ns) s rest ∧ Arrives rest (q ++ (j + i) :: p))
  | _, _, n :: ns, .cons h hs, q, j, 0, p, m, hm => by
    have hctx := h.mem_context (q ++ [j]) p hm
    have hplace : q ++ [j] ++ p = q ++ j :: p := by simp
    have hlater : ¬ Arrives (siblings q (j + 1) ns) (q ++ j :: p) :=
      not_arrives_siblings (Nat.lt_succ_self j)
    have hfirst : Arrives (⟨q ++ [j], n⟩ :: siblings q (j + 1) ns) (q ++ j :: p) ↔
        Arrives [⟨q ++ [j], n⟩] (q ++ j :: p) := by
      rw [arrives_cons, and_iff_right_of_imp fun h => absurd h hlater, or_iff_left hlater]
    rw [hplace] at hctx
    simp only [Nat.add_zero, siblings, resumesIn_cons, hfirst, hctx]
    constructor
    · rintro (h | ⟨left, hr, ha⟩)
      · exact .inl h
      · exact .inr ⟨_, .inl ⟨left, hr, rfl⟩, arrives_append.mpr (.inl ha)⟩
    · rintro (h | ⟨_, ⟨left, hr, rfl⟩ | hr, ha⟩)
      · exact .inl h
      · rcases arrives_append.mp ha with ha | ⟨-, ha⟩
        · exact .inr ⟨left, hr, ha⟩
        · exact absurd ha hlater
      · exact absurd ha (not_arrives_resumedIn (Nat.lt_succ_self j) hr)
  | _, _, n :: ns, .cons h hs, q, j, i + 1, p, m, hm => by
    have hctx := hs.mem_context q (j + 1) (i := i) (p := p) hm
    have hne : j ≠ j + 1 + i := by omega
    have hplace : j + (i + 1) = j + 1 + i := by omega
    have hrest : Arrives (⟨q ++ [j], n⟩ :: siblings q (j + 1) ns) (q ++ (j + 1 + i) :: p) ↔
        Run [⟨q ++ [j], n⟩] [] ∧ Arrives (siblings q (j + 1) ns) (q ++ (j + 1 + i) :: p) := by
      rw [arrives_cons, or_iff_right (not_arrives_other hne)]
    rw [hplace, hctx, h.mem_out (q ++ [j])]
    simp only [siblings, resumesIn_cons, hrest]
    constructor
    · rintro (⟨⟨hc, hn⟩ | ⟨left, hr, hn⟩, ha⟩ | ⟨rest, hr, ha⟩)
      · exact .inl ⟨hc, hn, ha⟩
      · exact .inr ⟨_, .inl ⟨left, hr, rfl⟩, arrives_append.mpr (.inr ⟨hn, ha⟩)⟩
      · exact .inr ⟨rest, .inr hr, ha⟩
    · rintro (⟨hc, hn, ha⟩ | ⟨_, ⟨left, hr, rfl⟩ | hr, ha⟩)
      · exact .inl ⟨.inl ⟨hc, hn⟩, ha⟩
      · rcases arrives_append.mp ha with ha | ⟨hn, ha⟩
        · exact absurd ha (not_arrives_resumed hne hr)
        · exact .inl ⟨.inr ⟨left, hr, hn⟩, ha⟩
      · exact .inr ⟨_, hr, ha⟩

theorem FlowsAcross.mem_context : ∀ {c out : StatusContext} {ns : List Node},
    FlowsAcross c ns out → ∀ (q : Path) (j : Nat) {i : Nat} {p : Path} {m : Node},
    ns[i]?.bind (Node.at? · p) = some m →
    (s ∈ m.context ↔ ∃ w ∈ siblings q j ns, s ∈ c ∧ Arrives [w] (q ++ (j + i) :: p) ∨
      ∃ rest, Resumes w s rest ∧ Arrives rest (q ++ (j + i) :: p))
  | _, _, n :: ns, .cons h hs, q, j, 0, p, m, hm => by
    have hctx := h.mem_context (q ++ [j]) p hm
    have hplace : q ++ [j] ++ p = q ++ j :: p := by simp
    rw [hplace] at hctx
    simp only [Nat.add_zero, siblings, List.exists_mem_cons_iff, hctx]
    refine (or_iff_left ?_).symm
    rintro ⟨w, hw, hcase⟩
    obtain ⟨k, -, hpath⟩ := mem_siblings.mp hw
    obtain ⟨wpath, wnode⟩ := w
    obtain rfl : wpath = q ++ [j + 1 + k] := hpath
    have hne : j + 1 + k ≠ j := by omega
    rcases hcase with ⟨-, ha⟩ | ⟨rest, hr, ha⟩
    · exact not_arrives_other hne ha
    · exact not_arrives_resumed hne hr ha
  | _, _, n :: ns, .cons h hs, q, j, i + 1, p, m, hm => by
    have hctx := hs.mem_context q (j + 1) (i := i) (p := p) hm
    have hne : j ≠ j + 1 + i := by omega
    have hplace : j + (i + 1) = j + 1 + i := by omega
    simp only [hplace, siblings, List.exists_mem_cons_iff, hctx]
    refine (or_iff_right ?_).symm
    rintro (⟨-, ha⟩ | ⟨rest, hr, ha⟩)
    · exact not_arrives_other hne ha
    · exact not_arrives_resumed hne hr ha

end

mutual

theorem Resumes.mem_statuses : ∀ {v : Pending} {rest : List Pending}, Resumes v s rest →
    s ∈ v.node.statuses
  | v, _, .message hk => Node.mem_statuses_of_at? v.node.at?_nil (by rw [hk]; rfl)
  | v, _, .options hk _ => Node.mem_statuses_of_at? v.node.at?_nil (by rw [hk]; rfl)
  | ⟨q, .mk kind c ns⟩, _, .sequence _ h => by
    obtain ⟨w, hw, hs⟩ := h.mem_statuses
    obtain ⟨j, hj, -⟩ := mem_siblings.mp hw
    exact Node.statuses_subset_of_at? (Node.at?_cons_of_getElem? hj (Node.at?_nil _)) s hs
  | ⟨q, .mk kind c ns⟩, _, .branch _ hw h => by
    obtain ⟨j, hj, -⟩ := mem_siblings.mp hw
    exact Node.statuses_subset_of_at? (Node.at?_cons_of_getElem? hj (Node.at?_nil _)) s
      h.mem_statuses

theorem ResumesIn.mem_statuses : ∀ {vs rest : List Pending}, ResumesIn vs s rest →
    ∃ w ∈ vs, s ∈ w.node.statuses
  | _, _, .here h => ⟨_, List.mem_cons_self, h.mem_statuses⟩
  | _, _, .later h => by
    obtain ⟨w, hw, hs⟩ := h.mem_statuses
    exact ⟨w, List.mem_cons_of_mem _ hw, hs⟩

end

section Bounds

variable {n m : Node} {p : Path}

theorem Flows.mem_of_mem_out (h : Flows c n out) (hs : s ∈ out) : s ∈ c ∨ s ∈ n.statuses := by
  rcases (h.mem_out []).mp hs with ⟨hc, -⟩ | ⟨rest, hr, -⟩
  · exact .inl hc
  · exact .inr hr.mem_statuses

theorem FlowsAcross.mem_of_mem_out : ∀ {c out : StatusContext} {ns : List Node},
    FlowsAcross c ns out → s ∈ out → s ∈ c ∨ s ∈ Node.statusesIn ns
  | _, _, _, .nil, hs => absurd hs (OrderedSet.not_mem_empty s)
  | _, _, _, .cons h hrest, hs => by
    rw [Node.statusesIn, List.mem_append]
    rcases OrderedSet.mem_union.mp hs with hs | hs
    · rcases h.mem_of_mem_out hs with hc | hn
      · exact .inl hc
      · exact .inr (.inl hn)
    · rcases hrest.mem_of_mem_out hs with hc | hns
      · exact .inl hc
      · exact .inr (.inr hns)

theorem Flows.mem_of_mem_context (h : Flows c n out) (hm : n.at? p = some m)
    (hs : s ∈ m.context) : s ∈ c ∨ s ∈ n.statuses := by
  rcases (h.mem_context [] p hm).mp hs with ⟨hc, -⟩ | ⟨rest, hr, -⟩
  · exact .inl hc
  · exact .inr hr.mem_statuses

/-- Of what flows into a node, all comes to its end or nothing. -/
theorem Flows.subset_out (h : Flows c n out) (hn : s ∉ n.statuses) (hs : s ∈ out) :
    ∀ t ∈ c, t ∈ out := by
  intro t ht
  rcases (h.mem_out []).mp hs with ⟨-, hrun⟩ | ⟨rest, hr, -⟩
  · exact (h.mem_out []).mpr (.inl ⟨ht, hrun⟩)
  · exact absurd hr.mem_statuses hn

/-- Of what flows into a node, all comes to a place in it or nothing. -/
theorem Flows.subset_context (h : Flows c n out) (hm : n.at? p = some m)
    (hn : s ∉ n.statuses) (hs : s ∈ m.context) : ∀ t ∈ c, t ∈ m.context := by
  intro t ht
  rcases (h.mem_context [] p hm).mp hs with ⟨-, harrives⟩ | ⟨rest, hr, -⟩
  · exact (h.mem_context [] p hm).mpr (.inl ⟨ht, harrives⟩)
  · exact absurd hr.mem_statuses hn

end Bounds

mutual

/-- When anything flows into a well-formed node, something flows to every place in it and out. -/
theorem Flows.inhabited : ∀ {c out : StatusContext} {n : Node}, Flows c n out → n.WellFormed →
    (∃ s, s ∈ c) → (∃ s, s ∈ out) ∧ ∀ p m, n.at? p = some m → ∃ s, s ∈ m.context
  | c, out, .mk kind context ns, h, hwf, hc => by
    obtain ⟨hkind, hns⟩ := Node.wellFormed_mk.mp hwf
    suffices hbelow : (∃ s, s ∈ out) ∧
        ∀ (i : Nat) p m, ns[i]?.bind (Node.at? · p) = some m → ∃ s, s ∈ m.context by
      refine ⟨hbelow.1, fun p m hm => ?_⟩
      cases p with
      | nil =>
        cases hm
        rwa [h.context]
      | cons i p => exact hbelow.2 i p m hm
    cases h with
    | serial _ h => exact h.inhabited hns hc
    | switch h hout =>
      obtain ⟨hjoined, hplaces⟩ := h.inhabited hns hc
      refine ⟨?_, hplaces⟩
      obtain ⟨s, hs⟩ := hc
      cases ns with
      | nil => exact ⟨s, (hout s).mpr (.inr ⟨hs, rfl⟩)⟩
      | cons n ns =>
        obtain ⟨t, ht⟩ := hjoined (by simp)
        exact ⟨t, (hout t).mpr (.inl ht)⟩
    | options h =>
      obtain ⟨hjoined, hplaces⟩ := h.inhabited hns ⟨_, OrderedSet.mem_singleton.mpr rfl⟩
      exact ⟨hjoined (by simpa using hkind.1), hplaces⟩
    | message => exact ⟨⟨_, OrderedSet.mem_singleton.mpr rfl⟩, by simp⟩
    | command => exact ⟨hc, by simp⟩

theorem FlowsThrough.inhabited : ∀ {c out : StatusContext} {ns : List Node},
    FlowsThrough c ns out → (∀ n ∈ ns, n.WellFormed) → (∃ s, s ∈ c) →
    (∃ s, s ∈ out) ∧ ∀ (i : Nat) p m, ns[i]?.bind (Node.at? · p) = some m → ∃ s, s ∈ m.context
  | _, _, _, .nil, _, hc => ⟨hc, by simp⟩
  | _, _, _, .cons h hs, hwf, hc => by
    obtain ⟨hn, hns⟩ := List.forall_mem_cons.mp hwf
    obtain ⟨hmid, hplaces⟩ := h.inhabited hn hc
    obtain ⟨hout, hrest⟩ := hs.inhabited hns hmid
    refine ⟨hout, fun i p m hm => ?_⟩
    cases i with
    | zero => exact hplaces p m hm
    | succ i => exact hrest i p m hm

theorem FlowsAcross.inhabited : ∀ {c out : StatusContext} {ns : List Node},
    FlowsAcross c ns out → (∀ n ∈ ns, n.WellFormed) → (∃ s, s ∈ c) →
    (ns ≠ [] → ∃ s, s ∈ out) ∧
      ∀ (i : Nat) p m, ns[i]?.bind (Node.at? · p) = some m → ∃ s, s ∈ m.context
  | _, _, _, .nil, _, _ => ⟨by simp, by simp⟩
  | _, _, _, .cons h hs, hwf, hc => by
    obtain ⟨hn, hns⟩ := List.forall_mem_cons.mp hwf
    obtain ⟨⟨s, hs'⟩, hplaces⟩ := h.inhabited hn hc
    obtain ⟨-, hrest⟩ := hs.inhabited hns hc
    refine ⟨fun _ => ⟨s, OrderedSet.mem_union.mpr (.inl hs')⟩, fun i p m hm => ?_⟩
    cases i with
    | zero => exact hplaces p m hm
    | succ i => exact hrest i p m hm

end

/-- Where the runs of a status begin: at the whole scene for the start status, and otherwise with
what is left behind the suspend point of the status. -/
inductive Begins (scene : Node) : Status → List Pending → Prop
  | start : Begins scene .start [⟨[], scene⟩]
  | resumed {s : Status} {rest : List Pending} :
    Resumes ⟨[], scene⟩ s rest → Begins scene s rest

theorem exists_begins {scene : Node} {E : List Pending → Prop} :
    (∃ vs, Begins scene s vs ∧ E vs) ↔
      s ∈ StatusContext.start ∧ E [⟨[], scene⟩] ∨ ∃ rest, Resumes ⟨[], scene⟩ s rest ∧ E rest := by
  rw [StatusContext.start, OrderedSet.mem_singleton]
  constructor
  · rintro ⟨vs, hbegins, hE⟩
    cases hbegins with
    | start => exact .inl ⟨rfl, hE⟩
    | resumed hr => exact .inr ⟨vs, hr, hE⟩
  · rintro (⟨rfl, hE⟩ | ⟨rest, hr, hE⟩)
    · exact ⟨_, .start, hE⟩
    · exact ⟨rest, .resumed hr, hE⟩

/-- After assignment the places and kinds of a scene are what they were. The context of every node
holds exactly the statuses from which some run arrives there, what flows out of the scene exactly
those from which some run comes to its end, and none of these is empty. -/
theorem contexts_exact {v : Vocabulary} {content : Element} {root : Node} {count : Nat}
    (h : v.scene content 0 = .ok root count) :
    (∀ p, (root.assignContexts.1.at? p).map Node.kind = (root.at? p).map Node.kind) ∧
    (∀ p n, root.assignContexts.1.at? p = some n → n.context ≠ .empty ∧
      ∀ s, s ∈ n.context ↔ ∃ vs, Begins root.assignContexts.1 s vs ∧ Arrives vs p) ∧
    root.assignContexts.2 ≠ .empty ∧
    ∀ s, s ∈ root.assignContexts.2 ↔ ∃ vs, Begins root.assignContexts.1 s vs ∧ Run vs [] := by
  have hscene := Vocabulary.scene_prepared h
  have hnonempty : ∀ c : StatusContext, (∃ s, s ∈ c) → c ≠ .empty := by
    rintro c ⟨s, hs⟩ rfl
    exact OrderedSet.not_mem_empty s hs
  obtain ⟨hexit, hplaces⟩ :=
    hscene.flows.inhabited hscene.wellFormed ⟨_, OrderedSet.mem_singleton.mpr rfl⟩
  refine ⟨Node.kind_at?_assign root _, fun p n hn => ⟨hnonempty _ (hplaces p n hn), fun s => ?_⟩,
    hnonempty _ hexit, fun s => ?_⟩
  · rw [exists_begins, hscene.flows.mem_context [] p hn, List.nil_append]
  · rw [exists_begins, hscene.flows.mem_out []]

namespace Sample

/-- A gift behind a message that only some runs show, both in one arm of a switch. -/
def giftInArm : Element :=
  element "switch" [⟨"type", "job"⟩]
    [element "case" [⟨"cond", "$x > 100"⟩]
      [element "switch" [⟨"type", "job"⟩]
        [element "case" [⟨"val", "110"⟩]
          [element "message" [⟨"style", "n"⟩, ⟨"text", "hi"⟩] []]],
        element "give" [⟨"x", "5"⟩] []]]

def giftInArmGraph : Node :=
  .fresh .block
    [.fresh (.switch job)
      [.fresh (.case (.condition "$x > 100"))
        [.fresh (.switch job)
          [.fresh (.case (.values ["110"])) [.leaf (.message 0 .next "hi")]],
          gift "5"]]]

theorem giftInArm_builds : vocabulary.scene giftInArm 0 = .ok giftInArmGraph 1 := rfl

end Sample

/-- Behind its message the sample scene comes to the gift, and not to the message again. -/
theorem giftInArm_contexts_exact :
    Sample.vocabulary.scene Sample.giftInArm 0 = .ok Sample.giftInArmGraph 1 ∧
    (∃ vs, Begins Sample.giftInArmGraph.assignContexts.1 0 vs ∧ Arrives vs [0, 0, 1]) ∧
    ¬ ∃ vs, Begins Sample.giftInArmGraph.assignContexts.1 0 vs ∧ Arrives vs [0, 0, 0, 0, 0] := by
  obtain ⟨-, hplaces, -⟩ := contexts_exact Sample.giftInArm_builds
  refine ⟨Sample.giftInArm_builds, ?_, fun h => ?_⟩
  · exact ((hplaces [0, 0, 1] _ rfl).2 0).mp (by decide)
  · exact absurd (((hplaces [0, 0, 0, 0, 0] _ rfl).2 0).mpr h) (by decide)

end SceneDispatch
