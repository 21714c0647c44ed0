import SceneDispatch.Proofs.Script.Table
/-!
Where in a script the lines of a node stand. Main statement: all that is written at or below a node
stands in one stretch, between its braces if the node is an arm, and nothing that is written before
it goes to a group that a status of the node runs.
-/
namespace SceneDispatch

namespace Node

/-- The last suspend point among the children in front of the place `j`. -/
def suspendedBefore (n : Node) (j : Nat) : Option Node :=
  ((n.children.take j).filter (·.kind.suspends)).getLast?

theorem suspendedBefore_eq {parent m : Node} {i j : Nat} {s : Status}
    (hm : parent.children[i]? = some m) (hij : i < j) (hs : m.kind.status? = some s)
    (hnearest : ∀ l n, i < l → l < j → parent.children[l]? = some n → n.kind.status? = none) :
    parent.suspendedBefore j = some m := by
  have htaken : (parent.children.take j)[i]? = some m := by
    rw [List.getElem?_take_of_lt hij, hm]
  obtain ⟨hlength, hget⟩ := List.getElem?_eq_some_iff.mp htaken
  have hsplit : parent.children.take j =
      (parent.children.take j).take i ++ m :: (parent.children.take j).drop (i + 1) := by
    rw [← hget, List.getElem_cons_drop, List.take_append_drop]
  have hrear : ((parent.children.take j).drop (i + 1)).filter (·.kind.suspends) = [] := by
    refine List.filter_eq_nil_iff.mpr fun n hn => ?_
    obtain ⟨l, hl⟩ := List.mem_iff_getElem?.mp hn
    rw [List.getElem?_drop, List.getElem?_take] at hl
    split at hl
    · next hlj => simp [NodeKind.suspends, hnearest (i + 1 + l) n (by omega) hlj hl]
    · cases hl
  have hself : m.kind.suspends = true := by rw [NodeKind.suspends, hs]; rfl
  rw [suspendedBefore, hsplit, List.filter_append, List.filter_cons_of_pos (by exact hself),
    hrear]
  simp

/-- The least status of its context, by which a message at the place `j` is turned back; the start
status if there is none. -/
def backTo (n : Node) (j : Nat) : Status :=
  (n.suspendedBefore j).elim .start (·.context.least?.getD .start)

theorem foldl_backAfter (b : Status) (ns : List Node) :
    ns.foldl Drafting.backAfter b =
      ((ns.filter (·.kind.suspends)).getLast?).elim b (·.context.least?.getD .start) := by
  induction ns using List.reverseRecOn with
  | nil => rfl
  | append_singleton ns n ih =>
    rw [List.foldl_append, ih, List.filter_append, List.foldl_cons, List.foldl_nil,
      Drafting.backAfter]
    cases hn : n.kind.suspends with
    | true => simp [hn]
    | false => simp [hn]

end Node

/-- All that is written at or below the place `a` stands in one stretch, and before it nothing goes
to a group that one of the statuses runs. -/
structure Stretch (a : Path) (ts : List Status) (es before inner after : List Emission) :
    Prop where
  eq : es = before ++ (inner ++ after)
  before_origin : ∀ e ∈ before, ¬ a <+: e.origin
  after_origin : ∀ e ∈ after, ¬ a <+: e.origin
  before_context : ∀ t ∈ ts, ∀ e ∈ before, t ∉ e.context

section Stretches

variable {r : Registry} {a p q : Path} {ts us : List Status} {l es ds : List Emission}
  {before before' inner after after' : List Emission}

theorem not_prefix_append {o : Path} (h : ¬ a <+: o) : ¬ a ++ q <+: o :=
  fun hq => h ((List.prefix_append a q).trans hq)

theorem not_prefix_self {j : Nat} : ¬ p ++ j :: q <+: p := by
  intro h
  have hlength := h.length_le
  simp only [List.length_append, List.length_cons] at hlength
  omega

theorem not_prefix_sibling {i j : Nat} {o : Path} (h : p ++ [i] <+: o) (hij : i ≠ j) :
    ¬ p ++ [j] <+: o := by
  intro hj
  have hsame := List.prefix_of_prefix_length_le h hj (by simp)
  exact hij (index_eq_of_isPrefix hsame)

/-- A stretch of a stretch. -/
theorem Stretch.trans (h : Stretch a ts es before ds after)
    (h' : Stretch (a ++ q) us ds before' inner after') (hsub : ∀ t ∈ us, t ∈ ts) :
    Stretch (a ++ q) us es (before ++ before') inner (after' ++ after) := by
  refine ⟨by rw [h.eq, h'.eq]; simp, ?_, ?_, ?_⟩
  · exact List.forall_mem_append.mpr
      ⟨fun e he => not_prefix_append (h.before_origin e he), h'.before_origin⟩
  · exact List.forall_mem_append.mpr
      ⟨h'.after_origin, fun e he => not_prefix_append (h.after_origin e he)⟩
  · intro t ht
    exact List.forall_mem_append.mpr ⟨h.before_context t (hsub t ht), h'.before_context t ht⟩

theorem Stretch.prepend (h : Stretch a ts es before inner after)
    (horigin : ∀ e ∈ l, ¬ a <+: e.origin) (hcontext : ∀ t ∈ ts, ∀ e ∈ l, t ∉ e.context) :
    Stretch a ts (l ++ es) (l ++ before) inner after :=
  ⟨by rw [h.eq, List.append_assoc], List.forall_mem_append.mpr ⟨horigin, h.before_origin⟩,
    h.after_origin, fun t ht => List.forall_mem_append.mpr ⟨hcontext t ht, h.before_context t ht⟩⟩

theorem not_prefix_of_mem_emissions {n : Node} {back : Option Status} {e : Emission} {i j : Nat}
    (he : e ∈ n.emissions r back (p ++ [i])) (hij : i ≠ j) : ¬ p ++ [j] <+: e.origin := by
  obtain ⟨q, m, -, hq, -⟩ := Node.accounts_of_mem_emissions he
  exact not_prefix_sibling ((List.prefix_append _ q).trans hq) hij

/-- What one of several siblings writes is a stretch of what they write. -/
theorem FlowsThrough.stretch : ∀ {c out : StatusContext} {ns : List Node} {n : Node} {b : Status}
    {i j : Nat}, FlowsThrough c ns out → Separate c (Node.statusesIn ns) → ns[j]? = some n →
    ∃ c' out' before after, Flows c' n out' ∧ Separate c' n.statuses ∧
      Stretch (p ++ [i + j]) n.statuses (Node.serialEmissions r b p i ns) before
        (n.emissions r (some ((ns.take j).foldl Drafting.backAfter b)) (p ++ [i + j])) after
  | _, _, _, _, _, _, _, .nil, _, hn => by simp at hn
  | c, _, m :: ns, n, b, i, 0, .cons h hrest, hsep, hn => by
    cases hn
    refine ⟨c, _, [], _, h, hsep.left, rfl, by simp, fun e he => ?_, by simp⟩
    obtain ⟨j, n', q, m', -, -, hq, -⟩ := Node.accounts_of_mem_serial he
    exact not_prefix_sibling ((List.prefix_append _ q).trans hq) (by omega)
  | c, _, m :: ns, n, b, i, j + 1, .cons h hrest, hsep, hn => by
    obtain ⟨c', out', before, after, hflow, hsep', hstretch⟩ :=
      hrest.stretch (b := Drafting.backAfter b m) (i := i + 1) (hsep.after h) hn
    have hlater : ∀ t ∈ n.statuses, t ∈ Node.statusesIn ns := fun t ht =>
      Node.mem_statusesIn.mpr ⟨n, List.mem_of_getElem? hn, ht⟩
    rw [show i + 1 + j = i + (j + 1) by omega] at hstretch
    refine ⟨c', out', _, after, hflow, hsep', hstretch.prepend (fun e he => ?_) fun t ht => ?_⟩
    · exact not_prefix_of_mem_emissions he (by omega)
    · apply h.not_mem_emission (hsep.right.apart t (hlater t ht))
      intro hm
      exact hsep.not_mem_right hm (hlater t ht)

theorem origin_of_mem_branches : ∀ {ns : List Node} {c : StatusContext}
    {g : Nat → Node → Option Condition} {i : Nat} {e : Emission},
    e ∈ Node.branchEmissions r c g p i ns → e.origin = p ∨ ∃ j, p ++ [i + j] <+: e.origin
  | [], _, _, _, _, he => by simp [Node.branchEmissions] at he
  | n :: ns, c, g, i, e, he => by
    rw [Node.branchEmissions, List.mem_cons, List.mem_cons, List.mem_append, List.mem_cons] at he
    rcases he with rfl | rfl | he | rfl | he
    · exact .inl rfl
    · exact .inr ⟨0, List.prefix_rfl⟩
    · obtain ⟨q, m, -, hq, -⟩ := Node.accounts_of_mem_emissions he
      exact .inr ⟨0, (List.prefix_append _ q).trans hq⟩
    · exact .inr ⟨0, List.prefix_rfl⟩
    · rcases origin_of_mem_branches he with h | ⟨j, hj⟩
      · exact .inl h
      · exact .inr ⟨1 + j, by rwa [Nat.add_assoc] at hj⟩

/-- What is written for an arm, with its braces. -/
def Node.braced (r : Registry) (p : Path) (n : Node) : List Emission :=
  ⟨n.context, p, [.opening]⟩ ::
    (n.emissions r (some .start) p ++ [⟨n.context, p, [.closing]⟩])

/-- What one of several arms writes, with its braces, is a stretch of what they write. -/
theorem FlowsAcross.stretch : ∀ {c out : StatusContext} {ns : List Node} {n : Node}
    {g : Nat → Node → Option Condition} {i j : Nat}, FlowsAcross c ns out →
    Separate c (Node.statusesIn ns) → ns[j]? = some n →
    ∃ out' before after, Flows c n out' ∧ Separate c n.statuses ∧
      Stretch (p ++ [i + j]) n.statuses (Node.branchEmissions r c g p i ns) before
        (n.braced r (p ++ [i + j])) after
  | _, _, _, _, _, _, _, .nil, _, hn => by simp at hn
  | c, _, m :: ns, n, g, i, 0, .cons h hrest, hsep, hn => by
    cases hn
    refine ⟨_, [⟨c, p, Condition.header (i = 0) (g i m)⟩], Node.branchEmissions r c g p (i + 1) ns,
      h, hsep.left, ?_, ?_, fun e he => ?_, ?_⟩
    · rw [Node.branchEmissions, Node.braced, h.context]
      simp
    · exact List.forall_mem_singleton.mpr not_prefix_self
    · rcases origin_of_mem_branches he with h | ⟨j, hj⟩
      · rw [h]
        exact not_prefix_self
      · exact not_prefix_sibling hj (by omega)
    · exact fun t ht => List.forall_mem_singleton.mpr (hsep.left.apart t ht)
  | c, _, m :: ns, n, g, i, j + 1, .cons h hrest, hsep, hn => by
    obtain ⟨out', before, after, hflow, hsep', hstretch⟩ :=
      hrest.stretch (g := g) (i := i + 1) hsep.right hn
    have hlater : ∀ t ∈ n.statuses, t ∈ Node.statusesIn ns := fun t ht =>
      Node.mem_statusesIn.mpr ⟨n, List.mem_of_getElem? hn, ht⟩
    have hbrace : ¬ p ++ [i + (j + 1)] <+: p ++ [i] :=
      not_prefix_sibling List.prefix_rfl (by omega)
    rw [show i + 1 + j = i + (j + 1) by omega] at hstretch
    have hfirst : Node.branchEmissions r c g p i (m :: ns) =
        (⟨c, p, Condition.header (i = 0) (g i m)⟩ :: m.braced r (p ++ [i])) ++
          Node.branchEmissions r c g p (i + 1) ns := by
      rw [Node.branchEmissions, Node.braced, h.context]
      simp
    rw [hfirst]
    refine ⟨out', _, after, hflow, hsep', hstretch.prepend (fun e he => ?_) fun t ht e he => ?_⟩
    · rw [Node.braced, List.mem_cons, List.mem_cons, List.mem_append, List.mem_singleton] at he
      rcases he with rfl | rfl | he | rfl
      · exact not_prefix_self
      · exact hbrace
      · exact not_prefix_of_mem_emissions he (by omega)
      · exact hbrace
    · have hc : t ∉ c := hsep.right.apart t (hlater t ht)
      rw [Node.braced, h.context, List.mem_cons, List.mem_cons, List.mem_append,
        List.mem_singleton] at he
      rcases he with rfl | rfl | he | rfl
      · exact hc
      · exact hc
      · exact h.not_mem_emission hc (fun hm => hsep.not_mem_right hm (hlater t ht)) e he
      · exact hc

/-- A stretch below an arm is one between its braces too. -/
theorem Stretch.braced {n : Node} {j : Nat}
    (h : Stretch (a ++ j :: q) ts (n.emissions r (some .start) a) before inner after)
    (hc : ∀ t ∈ ts, t ∉ n.context) :
    Stretch (a ++ j :: q) ts (n.braced r a) (⟨n.context, a, [.opening]⟩ :: before) inner
      (after ++ [⟨n.context, a, [.closing]⟩]) := by
  refine ⟨by rw [Node.braced, h.eq]; simp, ?_, ?_, fun t ht => ?_⟩
  · exact List.forall_mem_cons.mpr ⟨not_prefix_self, h.before_origin⟩
  · exact List.forall_mem_append.mpr
      ⟨h.after_origin, List.forall_mem_singleton.mpr not_prefix_self⟩
  · exact List.forall_mem_cons.mpr ⟨hc t ht, h.before_context t ht⟩

/-- What is written at and below a child `m` of `parent`, in the place `j`: within braces if the
child is an arm, and otherwise under the status that leads back from there. -/
def Node.written (r : Registry) (p : Path) (parent m : Node) (j : Nat) : List Emission :=
  if m.kind.isArm then m.braced r p else m.emissions r (some (parent.backTo j)) p

/-- What a child writes is a stretch of what the node writes. -/
theorem Flows.child_stretch {c out : StatusContext} {n m : Node} {b : Option Status} {j : Nat}
    (h : Flows c n out) (hwf : n.WellFormed) (hsep : Separate c n.statuses)
    (hm : n.children[j]? = some m) :
    ∃ c' out' before after, Flows c' m out' ∧ Separate c' m.statuses ∧
      Stretch (p ++ [j]) m.statuses (n.emissions r b p) before (n.written r (p ++ [j]) m j)
        after := by
  obtain ⟨kind, _, ns⟩ := n
  have hkind := (Node.wellFormed_mk.mp hwf).1
  have hmem : m.kind ∈ ns.map Node.kind := List.mem_map_of_mem (List.mem_of_getElem? hm)
  have hstatus : ∀ t ∈ m.statuses, t ∈ Node.statusesIn ns := fun t ht =>
    Node.mem_statusesIn.mpr ⟨m, List.mem_of_getElem? hm, ht⟩
  cases h with
  | serial hk h =>
    rw [Node.statuses_serial hk] at hsep
    obtain ⟨c', out', before, after, hflow, hsep', hstretch⟩ :=
      h.stretch (r := r) (p := p) (b := .start) (i := 0) hsep hm
    have harm : m.kind.isArm = false := by
      cases kind <;> first | exact hkind _ hmem | cases hk
    rw [Nat.zero_add, Node.foldl_backAfter] at hstretch
    refine ⟨c', out', ⟨c, p, []⟩ :: before, after, hflow, hsep', ?_⟩
    rw [Node.emissions_serial _ _ _ _ _ hk, Node.written, if_neg (by simp [harm])]
    exact hstretch.prepend (List.forall_mem_singleton.mpr not_prefix_self)
      fun t ht => List.forall_mem_singleton.mpr (hsep.apart t (hstatus t ht))
  | @switch _ _ _ f _ h =>
    obtain ⟨out', before, after, hflow, hsep', hstretch⟩ :=
      h.stretch (r := r) (p := p) (g := fun _ n => r.condition f n.test) (i := 0) hsep hm
    have harm : m.kind.isArm = true := hwf.isArm rfl m (List.mem_of_getElem? hm)
    rw [Nat.zero_add] at hstretch
    refine ⟨c, out', ⟨c, p, []⟩ :: before, after, hflow, hsep', ?_⟩
    rw [Node.written, if_pos harm]
    exact hstretch.prepend (List.forall_mem_singleton.mpr not_prefix_self)
      fun t ht => List.forall_mem_singleton.mpr (hsep.apart t (hstatus t ht))
  | @options _ _ status text _ h =>
    have hbehind := Separate.behind hsep
    obtain ⟨out', before, after, hflow, hsep', hstretch⟩ :=
      h.stretch (r := r) (p := p) (g := fun i _ => some (.selected i)) (i := 0) hbehind hm
    have harm : m.kind.isArm = true := hwf.isArm rfl m (List.mem_of_getElem? hm)
    rw [Nat.zero_add] at hstretch
    refine ⟨_, out', ⟨c, p, []⟩ :: ⟨c, p, .setStatus status :: r.prompted text ns ++ [.leave]⟩ ::
      ⟨.singleton status, p, []⟩ :: before, after, hflow, hsep', ?_⟩
    rw [Node.written, if_pos harm]
    refine hstretch.prepend (l := [_, _, _]) ?_ fun t ht => ?_
    · simp only [List.forall_mem_cons]
      exact ⟨not_prefix_self, not_prefix_self, not_prefix_self, by simp⟩
    · have hc : t ∉ c := hsep.apart t (List.mem_append_right _ (hstatus t ht))
      simp only [List.forall_mem_cons]
      exact ⟨hc, hc, hbehind.apart t (hstatus t ht), by simp⟩
  | message => cases hm
  | command => cases hm

/-- All that is written at or below a node stands in one stretch, and no status of the node runs
anything that is written before. -/
theorem Flows.node_stretch : ∀ {c out : StatusContext} {n parent m : Node} {b : Option Status}
    {p q : Path} {j : Nat}, Flows c n out → n.WellFormed → Separate c n.statuses →
    n.at? q = some parent → parent.children[j]? = some m →
    ∃ c' out' before after, Flows c' m out' ∧ Separate c' m.statuses ∧
      Stretch (p ++ q ++ [j]) m.statuses (n.emissions r b p) before
        (parent.written r (p ++ q ++ [j]) m j) after
  | c, out, n, parent, m, b, p, [], j, h, hwf, hsep, hparent, hm => by
    cases hparent
    rw [List.append_nil]
    exact h.child_stretch hwf hsep hm
  | c, out, n, parent, m, b, p, i :: q, j, h, hwf, hsep, hparent, hm => by
    obtain ⟨child, hchild, hq⟩ := Option.bind_eq_some_iff.mp hparent
    have hwf' : child.WellFormed := hwf.at? (Node.at?_cons_of_getElem? hchild child.at?_nil)
    have hsub : ∀ t ∈ m.statuses, t ∈ child.statuses :=
      Node.statuses_subset_of_at? (p := q ++ [j])
        (by simp [Node.at?_append, hq, Node.at?_cons, hm])
    have hplace : p ++ i :: q ++ [j] = p ++ [i] ++ (q ++ [j]) := by simp
    obtain ⟨c', out', before, after, hflow, hsep', hstretch⟩ :=
      h.child_stretch (r := r) (p := p) (b := b) hwf hsep hchild
    rw [hplace]
    unfold Node.written at hstretch
    split at hstretch
    -- the braces of an arm on the way stand outside the stretch
    · obtain ⟨c'', out'', before', after', hflow', hsep'', hstretch'⟩ :=
        hflow.node_stretch (b := some .start) (p := p ++ [i]) hwf' hsep' hq hm
      rw [List.append_assoc] at hstretch'
      obtain ⟨x, y, hxy⟩ : ∃ x y, q ++ [j] = x :: y := by cases q <;> exact ⟨_, _, rfl⟩
      have hbraced := Stretch.braced (hxy ▸ hstretch') fun t ht =>
        hflow.context ▸ hsep'.apart t (hsub t ht)
      rw [← hxy] at hbraced
      exact ⟨c'', out'', _, _, hflow', hsep'', hstretch.trans hbraced hsub⟩
    · obtain ⟨c'', out'', before', after', hflow', hsep'', hstretch'⟩ :=
        hflow.node_stretch (b := some (n.backTo i)) (p := p ++ [i]) hwf' hsep' hq hm
      rw [List.append_assoc] at hstretch'
      exact ⟨c'', out'', _, _, hflow', hsep'', hstretch.trans hstretch' hsub⟩

theorem Node.exists_parent {n m : Node} {a : Path} (h : n.at? a = some m) (ha : a ≠ []) :
    ∃ q j parent, a = q ++ [j] ∧ n.at? q = some parent ∧ parent.children[j]? = some m := by
  obtain ⟨q, j, rfl⟩ := (List.eq_nil_or_concat a).resolve_left ha
  rw [List.concat_eq_append] at h ⊢
  rw [at?_append] at h
  obtain ⟨parent, hparent, hm⟩ := Option.bind_eq_some_iff.mp h
  refine ⟨q, j, parent, rfl, hparent, ?_⟩
  rw [at?_cons] at hm
  obtain ⟨child, hchild, hm⟩ := Option.bind_eq_some_iff.mp hm
  cases hm
  exact hchild

/-- All that is written at or below an arm stands within its braces. -/
theorem Flows.arm_stretch {arm : Node} (harm : arm.kind.isArm = true) {c out : StatusContext}
    {n : Node} {b : Option Status} {p : Path} (h : Flows c n out) (hwf : n.WellFormed)
    (hsep : Separate c n.statuses) (hat : n.at? a = some arm) (ha : a ≠ []) :
    ∃ out' before after, Flows arm.context arm out' ∧ Separate arm.context arm.statuses ∧
      Stretch (p ++ a) arm.statuses (n.emissions r b p) before (arm.braced r (p ++ a)) after := by
  obtain ⟨q, j, parent, rfl, hparent, hm⟩ := Node.exists_parent hat ha
  obtain ⟨c', out', before, after, hflow, hsep', hstretch⟩ :=
    h.node_stretch (r := r) (p := p) (b := b) hwf hsep hparent hm
  rw [Node.written, if_pos harm, List.append_assoc] at hstretch
  rw [hflow.context]
  exact ⟨out', before, after, hflow, hsep', hstretch⟩

/-- What a node below writes is among what the node writes. -/
theorem Flows.exists_emissions {c out : StatusContext} {n m : Node} {b : Option Status}
    (h : Flows c n out) (hwf : n.WellFormed) (hsep : Separate c n.statuses)
    (hat : n.at? q = some m) : ∃ b', ∀ e ∈ m.emissions r b' (p ++ q), e ∈ n.emissions r b p := by
  rcases eq_or_ne q [] with rfl | hq
  · cases hat
    exact ⟨b, by simp⟩
  · obtain ⟨q, j, parent, rfl, hparent, hm⟩ := Node.exists_parent hat hq
    obtain ⟨c', out', before, after, -, -, hstretch⟩ :=
      h.node_stretch (r := r) (p := p) (b := b) hwf hsep hparent hm
    have hinner : ∃ b', ∀ e ∈ m.emissions r b' (p ++ q ++ [j]),
        e ∈ parent.written r (p ++ q ++ [j]) m j := by
      unfold Node.written
      split
      · exact ⟨some .start, fun e he => List.mem_cons_of_mem _ (List.mem_append_left _ he)⟩
      · exact ⟨_, fun e he => he⟩
    obtain ⟨b', hsub⟩ := hinner
    refine ⟨b', fun e he => ?_⟩
    rw [← List.append_assoc] at he
    rw [hstretch.eq]
    exact List.mem_append_right _ (List.mem_append_left _ (hsub e he))

theorem Node.exists_emission_of_writes {n : Node} {b : Option Status} (h : n.writes = true) :
    ∃ e ∈ n.emissions r b p, e.context = n.context ∧ e.statements ≠ [] := by
  obtain ⟨kind, c, ns⟩ := n
  cases kind with
  | block => cases h
  | case _ => cases h
  | option _ => cases h
  | switch f =>
    cases ns with
    | nil => cases h
    | cons m ns =>
      refine ⟨⟨c, p ++ [0], [.opening]⟩, ?_, rfl, by simp⟩
      rw [emissions_switch, branchEmissions]
      simp
  | command f a =>
    exact ⟨_, List.mem_cons_of_mem _ List.mem_cons_self, rfl, List.cons_ne_nil _ _⟩
  | message status style text =>
    exact ⟨_, List.mem_cons_of_mem _ List.mem_cons_self, rfl, List.cons_ne_nil _ _⟩
  | options status text =>
    exact ⟨_, List.mem_cons_of_mem _ List.mem_cons_self, rfl, List.cons_ne_nil _ _⟩

end Stretches

end SceneDispatch
