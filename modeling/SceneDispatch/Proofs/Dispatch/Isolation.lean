import SceneDispatch.Proofs.Dispatch.Simulation
import SceneDispatch.Proofs.Dispatch.Trace
import SceneDispatch.Proofs.Script.Stretch
/-!
Which arms a call runs lines of. The braces of an arm stand in the group of its context, and lines
of the arm that go to a larger group stand there without them. Main statement: a call keeps to the
arms that it entered or was resumed in exactly when it enters every arm for which it comes to such
a group.
-/
namespace SceneDispatch

open Machine

theorem Emission.exists_of_mem_select {keep : StatusContext → Bool} {es : List Emission}
    {x : Path × Statement} (h : x ∈ select keep es) :
    ∃ e ∈ es, keep e.context = true ∧ e.statements ≠ [] ∧ x.1 = e.origin := by
  obtain ⟨e, he, hkeep, horigin, hstatement⟩ := mem_select.mp h
  exact ⟨e, he, hkeep, List.ne_nil_of_mem hstatement, horigin⟩

theorem Emission.select_ne_nil {keep : StatusContext → Bool} {es : List Emission} {e : Emission}
    (he : e ∈ es) (hkeep : keep e.context = true) (h : e.statements ≠ []) :
    select keep es ≠ [] := by
  obtain ⟨statement, hstatement⟩ := List.exists_mem_of_ne_nil _ h
  have hline : (e.origin, statement) ∈ select keep es :=
    mem_select.mpr ⟨e, he, hkeep, rfl, hstatement⟩
  exact List.ne_nil_of_mem hline

namespace Node

variable (r : Registry) (k : Invocation) (s : Status) (scene : Node)

/-- The groups of a scene, each line with the place of the node that it is written for. -/
def passages : List (Passage Path) := Emission.passages (scene.emissions r none [])

/-- The lines that a call executes. -/
def trace : List (Path × Statement) := ((Machine.start s).dispatch k (scene.passages r)).trace

/-- A call executes lines of an arm only if it entered the arm, or if it was resumed within. -/
def Isolated : Prop :=
  ∀ x ∈ scene.trace r k s, ∀ a arm, scene.at? a = some arm → arm.kind.isArm = true → a <+: x.1 →
    (a, .opening) ∈ scene.trace r k s ∨ s ∈ arm.statuses

/-- The call has not ended when it comes to the group of the context. -/
def Reaches (c : StatusContext) : Prop :=
  ∃ before g after, scene.passages r = before ++ g :: after ∧ g.context = c ∧
    ((Machine.start s : Machine Path).dispatch k before).story.ended = false

/-- The node writes, and into a larger group than that of the arm. -/
structure Outgrows (arm n : Node) : Prop where
  writes : n.writes = true
  within : arm.context.Within n.context
  ne : n.context ≠ arm.context

end Node

section Isolation

variable {r : Registry} {k : Invocation} {s : Status} {scene arm n : Node} {exit : StatusContext}
  {count : Nat} {a q : Path} {x : Path × Statement} {before after : List (Passage Path)}
  {g : Passage Path}

theorem Node.lines_of_split (h : scene.passages r = before ++ g :: after) :
    g.lines = Emission.select (· = g.context) (scene.emissions r none []) := by
  have hmem : g ∈ scene.passages r := by simp [h]
  obtain ⟨c, -, rfl⟩ := List.mem_map.mp hmem
  rfl

theorem Node.ready_before (h : scene.passages r = before ++ g :: after)
    (hended : ((Machine.start s : Machine Path).dispatch k before).story.ended = false) :
    ((Machine.start s : Machine Path).dispatch k before).Ready ∧
      ((Machine.start s : Machine Path).dispatch k before).story.status = s := by
  refine ready_dispatch (fun g' hg' => ?_) ⟨rfl, rfl⟩ hended
  have hmem : g' ∈ scene.passages r := by simp [h, hg']
  exact tame_passages r k scene none [] g' hmem

/-- The stretch of an arm of a scene. -/
theorem Prepared.arm_stretch (h : Prepared scene exit count) (ha : scene.at? a = some arm)
    (harm : arm.kind.isArm = true) :
    ∃ out before after, Flows arm.context arm out ∧ Separate arm.context arm.statuses ∧
      Stretch a arm.statuses (scene.emissions r none []) before (arm.braced r a) after := by
  cases a with
  | nil =>
    cases ha
    rw [h.kind] at harm
    cases harm
  | cons j q =>
    exact h.flows.arm_stretch harm (p := []) h.wellFormed h.separate ha (List.cons_ne_nil j q)

section Groups

variable {ts : List Status} {es front rear : List Emission} {out : StatusContext}

/-- In the group of an arm's context, lines of the arm run only if the arm is entered. -/
theorem Stretch.opening_mem_trace {m : Machine Path}
    (h : Stretch a ts es front (arm.braced r a) rear) (ha : a <+: x.1) (hm : x ∉ m.trace)
    (hx : x ∈ (m.run k (Emission.select (· = arm.context) es)).trace) :
    (a, .opening) ∈ (m.run k (Emission.select (· = arm.context) es)).trace := by
  have hlines : Emission.select (· = arm.context) es =
      Emission.select (· = arm.context) front ++ (a, .opening) ::
        (Emission.select (· = arm.context) (arm.emissions r (some .start) a) ++ (a, .closing) ::
          Emission.select (· = arm.context) rear) := by
    rw [h.eq, Node.braced]
    simp [Emission.select_cons_of_keep, Emission.lines]
  have houtside : ∀ l : List Emission, (∀ e ∈ l, ¬ a <+: e.origin) →
      x ∉ Emission.select (· = arm.context) l := by
    intro l hl hmem
    obtain ⟨e, he, -, -, horigin⟩ := Emission.exists_of_mem_select hmem
    exact hl e he (horigin ▸ ha)
  rw [hlines] at hx ⊢
  exact Machine.opening_mem_trace (Node.tame_emissions _ arm _ a) (houtside front h.before_origin)
    (houtside rear h.after_origin) hm hx

/-- A line of an arm in another group that a status runs, which is not one of the arm, is written
for a node that outgrows the arm. -/
theorem Stretch.exists_outgrows {e : Emission} (h : Stretch a ts es front (arm.braced r a) rear)
    (hflow : Flows arm.context arm out) (he : e ∈ es) (ha : a <+: e.origin)
    (hwritten : e.statements ≠ []) (hne : e.context ≠ arm.context) (hs : s ∈ e.context)
    (hsarm : s ∉ arm.statuses) :
    s ∈ arm.context ∧ ∃ q n, arm.at? q = some n ∧ n.context = e.context ∧ arm.Outgrows n := by
  have hinner : e ∈ arm.emissions r (some .start) a := by
    rw [h.eq, List.mem_append, List.mem_append, Node.braced, List.mem_cons, List.mem_append,
      List.mem_singleton] at he
    rcases he with he | (rfl | he | rfl) | he
    · exact absurd ha (h.before_origin e he)
    · exact absurd rfl hne
    · exact he
    · exact absurd rfl hne
    · exact absurd ha (h.after_origin e he)
  obtain ⟨q, n, hn, -, hacc⟩ := Node.accounts_of_mem_emissions hinner
  have hwithin := hflow.within_of_accounts hn hacc hsarm hs
  refine ⟨(hflow.mem_of_mem_emission hinner hs).resolve_right hsarm, q, n, hn, ?_⟩
  rcases hacc with ⟨hc, hwrites⟩ | ⟨t, ht, hc⟩
  · exact ⟨hc.symm, hwrites hwritten, hc ▸ hwithin, hc ▸ hne⟩
  · rw [hc, OrderedSet.mem_singleton] at hs
    exact absurd (Node.mem_statuses_of_at? hn (hs ▸ ht)) hsarm

/-- The group of a node that outgrows an arm starts with a line of the arm. -/
theorem Stretch.exists_first_line (h : Stretch a arm.statuses es front (arm.braced r a) rear)
    (hflow : Flows arm.context arm out) (hwf : arm.WellFormed)
    (hsep : Separate arm.context arm.statuses) (hn : arm.at? q = some n)
    (hgrows : arm.Outgrows n) :
    ∃ x xs, Emission.select (· = n.context) es = x :: xs ∧ a <+: x.1 := by
  -- what the larger context has more is a status of the arm, so nothing written before the arm
  -- goes to the group
  obtain ⟨t, ht, hnot⟩ : ∃ t, t ∈ n.context ∧ t ∉ arm.context := by
    by_contra! hsub
    exact hgrows.ne (OrderedSet.ext fun t => ⟨hsub t, hgrows.within t⟩)
  have htarm : t ∈ arm.statuses := (hflow.mem_of_mem_context hn ht).resolve_left hnot
  have hfront : Emission.select (· = n.context) front = [] := by
    refine Emission.select_eq_nil fun e he => decide_eq_false fun hc => ?_
    exact h.before_context t htarm e he (hc ▸ ht)
  have hbrace : decide (arm.context = n.context) = false := decide_eq_false hgrows.ne.symm
  obtain ⟨b, hsub⟩ := hflow.exists_emissions (r := r) (b := some .start) (p := a) hwf hsep hn
  obtain ⟨e, he, hc, hwritten⟩ :=
    Node.exists_emission_of_writes (r := r) (p := a ++ q) (b := b) hgrows.writes
  have hinner : Emission.select (· = n.context) (arm.emissions r (some .start) a) ≠ [] :=
    Emission.select_ne_nil (hsub e he) (decide_eq_true hc) hwritten
  obtain ⟨x, xs, hx⟩ := List.exists_cons_of_ne_nil hinner
  refine ⟨x, xs ++ Emission.select (· = n.context) rear, ?_, ?_⟩
  · rw [h.eq, Emission.select_append, hfront, Node.braced, Emission.select_append,
      Emission.select_cons_of_not hbrace, Emission.select_append,
      Emission.select_cons_of_not hbrace, hx]
    simp
  · have hmem : x ∈ Emission.select (· = n.context) (arm.emissions r (some .start) a) := by
      rw [hx]
      exact List.mem_cons_self
    obtain ⟨e', he', -, -, horigin⟩ := Emission.exists_of_mem_select hmem
    obtain ⟨q', m, -, hq', -⟩ := Node.accounts_of_mem_emissions he'
    rw [horigin]
    exact (List.prefix_append a q').trans hq'

end Groups

/-- A call that enters every arm for which it comes to the group of a node that outgrows the arm
is isolated. -/
theorem Prepared.isolated (h : Prepared scene exit count)
    (hentered : ∀ a arm q n, scene.at? a = some arm → arm.kind.isArm = true →
      scene.at? (a ++ q) = some n → arm.Outgrows n → s ∈ arm.context →
      scene.Reaches r k s n.context → (a, .opening) ∈ scene.trace r k s) :
    scene.Isolated r k s := by
  intro x hx a arm ha harm hax
  by_cases hsarm : s ∈ arm.statuses
  · exact .inr hsarm
  left
  obtain ⟨out, front, rear, hflow, -, hstretch⟩ := h.arm_stretch (r := r) ha harm
  obtain ⟨before, g, after, hsplit, hstatus, hfresh, hrun⟩ :=
    exists_of_mem_trace_dispatch hx (List.not_mem_nil)
  have hended : ((Machine.start s : Machine Path).dispatch k before).story.ended = false := by
    cases hended : ((Machine.start s : Machine Path).dispatch k before).story.ended with
    | false => rfl
    | true =>
      rw [run_of_ended k hended] at hrun
      exact absurd hrun hfresh
  have hs := hstatus
  rw [(Node.ready_before hsplit hended).2] at hs
  have hlines := Node.lines_of_split hsplit
  -- only in the group of its own context do the lines of the arm stand within its braces
  by_cases hc : g.context = arm.context
  · rw [hlines, hc] at hrun
    have hopening := hstretch.opening_mem_trace hax hfresh hrun
    rw [← hc, ← hlines] at hopening
    rw [Node.trace, hsplit]
    exact mem_trace_dispatch_of_run hstatus hopening
  · have hline := (mem_of_mem_trace_run hrun).resolve_left hfresh
    rw [hlines] at hline
    obtain ⟨e, he, hec, hwritten, horigin⟩ := Emission.exists_of_mem_select hline
    have hec : e.context = g.context := of_decide_eq_true hec
    rw [← hec] at hc hs
    obtain ⟨hsc, q, n, hn, hnc, hgrows⟩ :=
      hstretch.exists_outgrows hflow he (horigin ▸ hax) hwritten hc hs hsarm
    refine hentered a arm q n ha harm ?_ hgrows hsc ⟨before, g, after, hsplit, ?_, hended⟩
    · rw [Node.at?_append, ha]
      exact hn
    · exact (hnc.trans hec).symm

/-- An isolated call enters every such arm. -/
theorem Prepared.opening_mem_trace (h : Prepared scene exit count)
    (hisolated : scene.Isolated r k s) (ha : scene.at? a = some arm)
    (harm : arm.kind.isArm = true) (hn : scene.at? (a ++ q) = some n) (hgrows : arm.Outgrows n)
    (hs : s ∈ arm.context) (hreach : scene.Reaches r k s n.context) :
    (a, .opening) ∈ scene.trace r k s := by
  obtain ⟨out, front, rear, hflow, hsep, hstretch⟩ := h.arm_stretch (r := r) ha harm
  rw [Node.at?_append, ha] at hn
  obtain ⟨x, xs, hx, hax⟩ :=
    hstretch.exists_first_line hflow (h.wellFormed.at? ha) hsep hn hgrows
  obtain ⟨before, g, after, hsplit, hgc, hended⟩ := hreach
  obtain ⟨hready, hstatus⟩ := Node.ready_before hsplit hended
  have hlines := Node.lines_of_split hsplit
  rw [hgc, hx] at hlines
  have hxmem : x ∈ scene.trace r k s := by
    rw [Node.trace, hsplit]
    refine mem_trace_dispatch_of_run ?_ ?_
    · rw [hstatus, hgc]
      exact hgrows.within s hs
    · rw [hlines]
      exact mem_trace_run_head hready hended x xs
  apply (hisolated x hxmem a arm ha harm hax).resolve_right
  intro hsarm
  exact hsep.apart s hsarm hs

/-- In a scene whose arms are level every call is isolated. -/
theorem Prepared.isolated_of_level (h : Prepared scene exit count) (hlevel : scene.Level) :
    scene.Isolated r k s := by
  apply h.isolated
  intro a arm q n ha harm hn hgrows hs _
  rw [Node.at?_append, ha] at hn
  cases q with
  | nil =>
    cases hn
    exact absurd rfl hgrows.ne
  | cons j q =>
    have hlevel' : arm.Level := hlevel.at? ha
    rcases hlevel'.context_of_arm harm hn with hsame | hapart
    · exact absurd hsame hgrows.ne
    · exact absurd hs (hapart s (hgrows.within s hs))

/-- Let a scene be built and drafted. The lines of its passages are those of the groups of the
draft. Under every status and for every outcome of the tests, a call keeps to the arms that it
entered or was resumed in if and only if it enters every arm that lets its status in and for which
it comes to the group of a node below that outgrows the arm. So it does where the arms are
level. -/
theorem isolated_iff {v : Vocabulary} {content : Element} {root : Node} {d : Draft}
    (hbuild : v.scene content 0 = .ok root count)
    (hdraft : Drafting.scene v.registry root.assignContexts.1 .empty = .ok () d) :
    (root.assignContexts.1.passages v.registry).map (Passage.relabel fun _ => ()) =
        d.groups.map Group.passage ∧
      (root.assignContexts.1.Level → root.assignContexts.1.Isolated v.registry k s) ∧
      (root.assignContexts.1.Isolated v.registry k s ↔
        ∀ a arm q n, root.assignContexts.1.at? a = some arm → arm.kind.isArm = true →
          root.assignContexts.1.at? (a ++ q) = some n → arm.Outgrows n → s ∈ arm.context →
          root.assignContexts.1.Reaches v.registry k s n.context →
          (a, .opening) ∈ root.assignContexts.1.trace v.registry k s) := by
  have hscene := Vocabulary.scene_prepared hbuild
  refine ⟨?_, hscene.isolated_of_level, fun hisolated a arm q n ha harm hn hgrows hs hreach => ?_,
    hscene.isolated⟩
  · rw [Drafting.scene_ok hscene.wellFormed hdraft]
    exact Emission.relabel_passages _
  · exact hscene.opening_mem_trace hisolated ha harm hn hgrows hs hreach

/-- In the sample scene a call from the start makes the gift of the arm although no test holds: the
gift outgrows the arm. -/
theorem giftInArm_isolated_iff :
    ∃ d, Drafting.scene Sample.registry Sample.giftInArmGraph.assignContexts.1 .empty =
        .ok () d ∧
      Sample.giftInArmGraph.assignContexts.1.trace Sample.registry ⟨1, 0, fun _ _ => false⟩ (-1) =
        [([0], .branch (.test "cm.getJob() > 100")), ([0, 0, 1], .line "cm.gainMeso(5);")] ∧
      ¬ Sample.giftInArmGraph.assignContexts.1.Isolated Sample.registry
        ⟨1, 0, fun _ _ => false⟩ (-1) := by
  obtain ⟨d, hd⟩ : ∃ d, Drafting.scene Sample.registry
      Sample.giftInArmGraph.assignContexts.1 .empty = .ok () d := ⟨_, rfl⟩
  have htrace : Sample.giftInArmGraph.assignContexts.1.trace Sample.registry
      ⟨1, 0, fun _ _ => false⟩ (-1) =
        [([0], .branch (.test "cm.getJob() > 100")), ([0, 0, 1], .line "cm.gainMeso(5);")] := by
    decide +kernel
  refine ⟨d, hd, htrace, fun hisolated => ?_⟩
  have hreach : Sample.giftInArmGraph.assignContexts.1.Reaches Sample.registry
      ⟨1, 0, fun _ _ => false⟩ (-1) (.ofList [-1, 0]) :=
    ⟨(Sample.giftInArmGraph.assignContexts.1.passages Sample.registry).take 2, _, [], rfl,
      by decide +kernel, by decide +kernel⟩
  have hopening := (isolated_iff (s := -1) (k := ⟨1, 0, fun _ _ => false⟩)
    Sample.giftInArm_builds hd).2.2.mp hisolated [0, 0] _ [1] _ rfl rfl rfl
    ⟨rfl, by decide, by decide⟩ (by decide) hreach
  have hopening := htrace ▸ hopening
  simp at hopening

end Isolation

end SceneDispatch
