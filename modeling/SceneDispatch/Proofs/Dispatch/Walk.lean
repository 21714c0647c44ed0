import SceneDispatch.Proofs.Dispatch.Passages
import SceneDispatch.Proofs.Dispatch.Trace
import SceneDispatch.Proofs.Script.Table
/-!
What a scene means: the story that is told by walking its graph from the start, or from behind a
suspend point, up to the next one. Main statements: the lines of a scene that a status runs, taken
in the order in which they were written, tell that story.
-/
namespace SceneDispatch

namespace Node

mutual

/-- The story goes on through a node. -/
def walk (r : Registry) (k : Invocation) : Node → Story → Story
  | mk kind _ ns, y =>
    match kind with
    | .block | .case _ | .option _ => walkSerial r k ns y
    | .switch f => walkFirst r k (fun _ n => r.condition f n.test) 0 ns y
    | .command f a => y.tell (r.statement f a).event?.toList
    | .message status style text =>
      y.suspend status ((r.shown style text).filterMap Statement.event?)
    | .options status text => y.suspend status ((r.prompted text ns).filterMap Statement.event?)

/-- Siblings are walked one after another until the story ends. -/
def walkSerial (r : Registry) (k : Invocation) : List Node → Story → Story
  | [], y => y
  | n :: ns, y =>
    let y := walk r k n y
    if y.ended then y else walkSerial r k ns y

/-- The first arm whose condition holds is walked; one without a condition always is. -/
def walkFirst (r : Registry) (k : Invocation) (guard : Nat → Node → Option Condition) :
    Nat → List Node → Story → Story
  | _, [], y => y
  | i, n :: ns, y =>
    match guard i n with
    | none => walk r k n y
    | some condition =>
      if y.holds k condition then walk r k n (y.weigh k condition)
      else walkFirst r k guard (i + 1) ns (y.weigh k condition)

end

mutual

/-- The story goes on from behind the suspend point of a status that lies in the node. At an
options node it goes on with the entry that was selected. -/
def resume (r : Registry) (k : Invocation) (s : Status) : Node → Story → Story
  | mk kind _ ns, y =>
    match kind with
    | .block | .case _ | .option _ => resumeSerial r k s ns y
    | .switch _ => resumeBranch r k s ns y
    | .options status _ =>
      if status = s then
        match ns[k.selection.toNat]? with
        | some n => walk r k n y
        | none => y
      else resumeBranch r k s ns y
    | .command .. | .message .. => y

def resumeSerial (r : Registry) (k : Invocation) (s : Status) : List Node → Story → Story
  | [], y => y
  | n :: ns, y =>
    if s ∈ n.statuses then
      let y := resume r k s n y
      if y.ended then y else walkSerial r k ns y
    else resumeSerial r k s ns y

def resumeBranch (r : Registry) (k : Invocation) (s : Status) : List Node → Story → Story
  | [], y => y
  | n :: ns, y => if s ∈ n.statuses then resume r k s n y else resumeBranch r k s ns y

end

/-- The story that a call tells of a scene under a status. -/
def tell (r : Registry) (k : Invocation) (scene : Node) (s : Status) : Story :=
  if s = .start then scene.walk r k (.start s) else scene.resume r k s (.start s)

section Equations

variable (r : Registry) (k : Invocation) (c : StatusContext) (ns : List Node) (y : Story)

theorem walk_serial {kind : NodeKind} (h : kind.isSerial = true) :
    walk r k (mk kind c ns) y = walkSerial r k ns y := by
  cases kind <;> first | rfl | cases h

theorem resume_serial {kind : NodeKind} (h : kind.isSerial = true) (s : Status) :
    resume r k s (mk kind c ns) y = resumeSerial r k s ns y := by
  cases kind <;> first | rfl | cases h

end Equations

end Node

open Machine

section Headers

variable {k : Invocation} {m : Machine Path} {p : Path} {first : Bool}

/-- An arm without a condition is entered unless its chain has had its branch. -/
theorem run_header_none (h : m.Ready) (hended : m.story.ended = false)
    (htaken : first = false → m.taken = false) :
    let after := m.run k ((Condition.header first none).map (Prod.mk p))
    after.skipping = 0 ∧ after.next = true ∧ after.story = m.story := by
  cases first with
  | true => exact ⟨h.skipping, h.next, rfl⟩
  | false =>
    simp only [Condition.header_otherwise, List.map_cons, List.map_nil, run_cons, run_nil]
    rw [step_performed k h.skipping hended (by simp)]
    simp [perform, log, h.skipping, htaken rfl]

/-- An arm with a condition is entered when the condition holds. -/
theorem run_header_some (condition : Condition) (h : m.Ready) (hended : m.story.ended = false)
    (htaken : first = false → m.taken = false) :
    let after := m.run k ((Condition.header first (some condition)).map (Prod.mk p))
    after.skipping = 0 ∧ after.next = m.story.holds k condition ∧
      after.taken = m.story.holds k condition ∧ after.story = m.story.weigh k condition := by
  cases first with
  | true =>
    simp only [Condition.header_first, List.map_cons, List.map_nil, run_cons, run_nil]
    rw [step_performed k h.skipping hended (by simp)]
    exact ⟨h.skipping, rfl, rfl, rfl⟩
  | false =>
    simp only [Condition.header_later, List.map_cons, List.map_nil, run_cons, run_nil]
    rw [step_performed k h.skipping hended (by simp), perform, if_neg (by simp [htaken rfl])]
    exact ⟨h.skipping, rfl, rfl, rfl⟩

/-- Behind the branch that was entered no other arm of the chain is. -/
theorem run_header_taken {guard : Option Condition} (h : m.Ready) (hended : m.story.ended = false)
    (htaken : m.taken = true) :
    let after := m.run k ((Condition.header false guard).map (Prod.mk p))
    after.skipping = 0 ∧ after.next = false ∧ after.taken = true ∧ after.story = m.story := by
  cases guard with
  | none =>
    simp only [Condition.header_otherwise, List.map_cons, List.map_nil, run_cons, run_nil]
    rw [step_performed k h.skipping hended (by simp)]
    simp [perform, log, h.skipping, htaken]
  | some condition =>
    simp only [Condition.header_later, List.map_cons, List.map_nil, run_cons, run_nil]
    rw [step_performed k h.skipping hended (by simp), perform, if_pos htaken]
    exact ⟨h.skipping, rfl, htaken, rfl⟩

end Headers

section Walking

variable {r : Registry} {k : Invocation} {s : Status}

/-- A status runs nothing of a node that it neither flows into nor is resumed in. -/
theorem Flows.select_eq_nil {c out : StatusContext} {n : Node} {back : Option Status} {p : Path}
    (h : Flows c n out) (hc : s ∉ c) (hs : s ∉ n.statuses) :
    Emission.select (s ∈ ·) (n.emissions r back p) = [] :=
  Emission.select_eq_nil fun e he => decide_eq_false (h.not_mem_emission hc hs e he)

theorem FlowsAcross.select_eq_nil {c out : StatusContext} {ns : List Node}
    {g : Nat → Node → Option Condition} {p : Path} {i : Nat} (h : FlowsAcross c ns out)
    (hc : s ∉ c) (hs : s ∉ Node.statusesIn ns) :
    Emission.select (s ∈ ·) (Node.branchEmissions r c g p i ns) = [] :=
  Emission.select_eq_nil fun e he => decide_eq_false (h.not_mem_emission hc hs e he)

/-- Behind the branch that was entered, the rest of a chain tells nothing, and only its headers are
executed. -/
theorem run_taken {ns : List Node} {c : StatusContext} {keep : StatusContext → Bool}
    {guard : Nat → Node → Option Condition} {p : Path} {i : Nat} {m : Machine Path}
    (hkeep : keep c = true) (h : m.Ready) (hended : m.story.ended = false)
    (htaken : m.taken = true) :
    let after := m.run k (Emission.select keep (Node.branchEmissions r c guard p (i + 1) ns))
    after.story = m.story ∧ ∀ x ∈ after.trace, x ∈ m.trace ∨ x.1 = p := by
  induction ns generalizing m i with
  | nil => exact ⟨rfl, fun x hx => .inl hx⟩
  | cons n ns ih =>
    rw [Node.branchEmissions, Emission.select_arm_of_keep hkeep, Machine.run_append,
      Machine.run_append, decide_eq_false (Nat.succ_ne_zero i)]
    obtain ⟨hskipping, hnext, htaken', hstory⟩ :=
      @run_header_taken k m p (guard (i + 1) n) h hended htaken
    rw [run_braces_passed (Node.tame_emissions _ n _ _) hskipping (hstory ▸ hended) hnext]
    obtain ⟨hrest, htrace⟩ := ih (i := i + 1) (m := { m.run k ((Condition.header false
      (guard (i + 1) n)).map (Prod.mk p)) with next := true }) ⟨hskipping, rfl⟩ (hstory ▸ hended)
      htaken'
    refine ⟨hrest.trans hstory, fun x hx => ?_⟩
    rcases htrace x hx with hx | hx
    · rcases mem_of_mem_trace_run (show x ∈ (m.run k _).trace from hx) with hx | hx
      · exact .inl hx
      · obtain ⟨_, -, rfl⟩ := List.mem_map.mp hx
        exact .inr rfl
    · exact .inr hx

/-- An arm that is entered tells its own story, whatever arms stand behind it. -/
theorem story_run_arm {n : Node} {c out : StatusContext} {m : Machine Path} (ns : List Node)
    (guard : Nat → Node → Option Condition) (p : Path) (i : Nat) (hs : s ∈ c)
    (hinner : ∀ {m : Machine Path}, m.Ready → m.story.ended = false →
      (m.run k (Emission.select (s ∈ ·) (n.emissions r (some .start) (p ++ [i])))).story =
        n.walk r k m.story ∧ ((n.walk r k m.story).ended = false → s ∈ out))
    (h : m.skipping = 0) (hended : m.story.ended = false) (hnext : m.next = true) :
    ((m.run k ((p ++ [i], .opening) ::
        (Emission.select (s ∈ ·) (n.emissions r (some .start) (p ++ [i])) ++
          [(p ++ [i], .closing)]))).run k
      (Emission.select (s ∈ ·) (Node.branchEmissions r c guard p (i + 1) ns))).story =
      n.walk r k m.story ∧ ((n.walk r k m.story).ended = false → s ∈ out) := by
  obtain ⟨hstory, hafter⟩ :=
    ready_of_entered (a := p ++ [i]) (b := p ++ [i]) (Node.tame_emissions _ n _ _) h hended hnext
  have hlogged : (m.log (p ++ [i], .opening)).Ready := ⟨h, hnext⟩
  obtain ⟨hwalk, hout⟩ := hinner hlogged hended
  refine ⟨?_, hout⟩
  rw [← show _ = n.walk r k m.story from hstory.trans hwalk]
  cases hended' : (m.run k ((p ++ [i], .opening) ::
      (Emission.select (s ∈ ·) (n.emissions r (some .start) (p ++ [i])) ++
        [(p ++ [i], .closing)]))).story.ended with
  | true => rw [run_of_ended k hended']
  | false =>
    obtain ⟨hready, htaken⟩ := hafter hended'
    exact (run_taken (by simpa using hs) hready hended' htaken).1

/-- A suspend point that the call comes to tells what it shows and ends. -/
theorem run_suspended {c : StatusContext} {keep : StatusContext → Bool} {p : Path}
    {status : Status} {shown : List Statement} {rest : List Emission} {m : Machine Path}
    (hkeep : keep c = true) (h : m.Ready) (hended : m.story.ended = false)
    (hshown : ∀ x ∈ shown.map (Prod.mk p), x.2.event?.isSome = true) :
    m.run k (Emission.select keep (⟨c, p, .setStatus status :: shown ++ [.leave]⟩ :: rest)) =
      { m with
        story := m.story.suspend status (shown.filterMap Statement.event?)
        trace := m.trace ++
          (Statement.setStatus status :: shown ++ [Statement.leave]).map (Prod.mk p) } := by
  have hlines : Emission.select keep (⟨c, p, .setStatus status :: shown ++ [.leave]⟩ :: rest) =
      (p, .setStatus status) ::
        (shown.map (Prod.mk p) ++ (p, .leave) :: Emission.select keep rest) := by
    rw [Emission.select_cons_of_keep hkeep, Emission.lines_suspension]
    simp
  rw [hlines, run_suspension status h.skipping hended hshown]
  simp [List.filterMap_map]

/-- What stands behind the first lines is told unless they end the story. -/
theorem story_run_then {m : Machine Path} {xs ys : List (Path × Statement)} {y w : Story}
    {out : StatusContext} (hfirst : (m.run k xs).story = y)
    (hrest : y.ended = false →
      ((m.run k xs).run k ys).story = w ∧ (w.ended = false → s ∈ out)) :
    ((m.run k xs).run k ys).story = (if y.ended then y else w) ∧
      ((if y.ended then y else w).ended = false → s ∈ out) := by
  cases hended : y.ended with
  | true =>
    rw [run_of_ended k (by rw [hfirst, hended]), hfirst, if_pos rfl, hended]
    exact ⟨rfl, nofun⟩
  | false =>
    rw [if_neg Bool.false_ne_true]
    exact hrest hended

/-- Every arm has a condition, and it failed. -/
def Refused (k : Invocation) (guard : Nat → Node → Option Condition) (i : Nat)
    (ns : List Node) : Prop :=
  ∀ j n, ns[j]? = some n → ∃ condition y, guard (i + j) n = some condition ∧
    Story.holds k y condition = false

mutual

/-- The lines that a status runs which flows into a node tell the story of walking it, and unless
that ends the status flows out again. -/
theorem Flows.story_run : ∀ {c out : StatusContext} {n : Node} {back : Option Status} {p : Path}
    {m : Machine Path}, Flows c n out → n.WellFormed → s ∈ c → s ∉ n.statuses → m.Ready →
    m.story.ended = false →
    (m.run k (Emission.select (s ∈ ·) (n.emissions r back p))).story = n.walk r k m.story ∧
      ((n.walk r k m.story).ended = false → s ∈ out)
  | _, _, .mk kind _ ns, back, p, m, .serial hk h, hwf, hc, hs, hm, hended => by
    obtain ⟨hkind, hns⟩ := Node.wellFormed_mk.mp hwf
    rw [Node.emissions_serial _ _ _ _ _ hk, Emission.select_touch,
      Node.walk_serial _ _ _ _ _ hk]
    exact h.story_run hns hc (fun hs' => hs (List.mem_append_right _ hs')) hm hended
  | _, _, .mk (.switch f) _ ns, back, p, m, .switch h hout, hwf, hc, hs, hm, hended => by
    obtain ⟨hkind, hns⟩ := Node.wellFormed_mk.mp hwf
    rw [Node.emissions_switch, Emission.select_touch]
    obtain ⟨hstory, hleft⟩ := h.story_run (p := p) (i := 0) hns hc hs hm hended (absurd rfl)
    refine ⟨hstory, fun hopen => (hout s).mpr ?_⟩
    rcases hleft hopen with hjoined | hrefused
    · exact .inl hjoined
    · refine .inr ⟨hc, any_isOtherwise_eq_false.mpr fun n hn hotherwise => ?_⟩
      obtain ⟨j, hj⟩ := List.mem_iff_getElem?.mp hn
      obtain ⟨condition, y, hcondition, -⟩ := hrefused j n hj
      have htest : n.test = .otherwise := by simp [Node.test, hotherwise]
      simp only [htest] at hcondition
      cases hcondition
  | c, _, .mk (.options status text) _ ns, back, p, m, .options h, hwf, hc, hs, hm, hended => by
    rw [Node.emissions_options, Emission.select_touch,
      run_suspended (by simpa using hc) hm hended (Registry.plain_prompted _ _)]
    exact ⟨rfl, nofun⟩
  | _, _, .mk (.message status style text) _ [], back, p, m, .message, hwf, hc, hs, hm,
      hended => by
    rw [Node.emissions_message, Emission.select_touch,
      run_suspended (by simpa using hc) hm hended (Registry.plain_shown _ _)]
    exact ⟨rfl, nofun⟩
  | _, _, .mk (.command f a) _ [], back, p, m, .command, hwf, hc, hs, hm, hended => by
    have hplain : ∀ x ∈ [(p, r.statement f a)], x.2.event?.isSome = true := by
      simp [Registry.statement, Statement.plain_terminated]
    rw [Node.emissions_command, Emission.select_touch,
      Emission.select_cons_of_keep (by simpa using hc), Emission.select_nil, List.append_nil]
    refine ⟨?_, fun _ => hc⟩
    change (m.run k [(p, r.statement f a)]).story = _
    rw [run_plain hm.skipping hended hplain]
    simp only [Node.walk, List.filterMap_cons, List.filterMap_nil]
    cases (r.statement f a).event? <;> rfl

theorem FlowsThrough.story_run : ∀ {c out : StatusContext} {ns : List Node} {back : Status}
    {p : Path} {i : Nat} {m : Machine Path}, FlowsThrough c ns out → (∀ n ∈ ns, n.WellFormed) →
    s ∈ c → s ∉ Node.statusesIn ns → m.Ready → m.story.ended = false →
    (m.run k (Emission.select (s ∈ ·) (Node.serialEmissions r back p i ns))).story =
        Node.walkSerial r k ns m.story ∧
      ((Node.walkSerial r k ns m.story).ended = false → s ∈ out)
  | _, _, _, _, _, _, _, .nil, _, hc, _, _, _ => ⟨rfl, fun _ => hc⟩
  | _, _, n :: ns, back, p, i, m, .cons h hrest, hwf, hc, hs, hm, hended => by
    obtain ⟨hn, hns⟩ := List.forall_mem_cons.mp hwf
    obtain ⟨hsn, hsns⟩ := not_or.mp (mt List.mem_append.mpr hs)
    obtain ⟨hstory, hmid⟩ :
        (m.run k (Emission.select (s ∈ ·) (n.emissions r (some back) (p ++ [i])))).story = _ ∧ _ :=
      h.story_run hn hc hsn hm hended
    rw [Node.serialEmissions, Emission.select_append, Machine.run_append, Node.walkSerial]
    apply story_run_then hstory
    intro hgoes
    rw [← hstory] at hgoes hmid ⊢
    exact hrest.story_run hns (hmid hgoes) hsns
      ((Node.tame_emissions _ n _ _).ready m hm hgoes) hgoes

theorem FlowsAcross.story_run : ∀ {c joined : StatusContext} {ns : List Node}
    {g : Nat → Node → Option Condition} {p : Path} {i : Nat} {m : Machine Path},
    FlowsAcross c ns joined → (∀ n ∈ ns, n.WellFormed) → s ∈ c → s ∉ Node.statusesIn ns →
    m.Ready → m.story.ended = false → (i ≠ 0 → m.taken = false) →
    (m.run k (Emission.select (s ∈ ·) (Node.branchEmissions r c g p i ns))).story =
        Node.walkFirst r k g i ns m.story ∧
      ((Node.walkFirst r k g i ns m.story).ended = false → s ∈ joined ∨ Refused k g i ns)
  | _, _, _, _, _, _, _, .nil, _, _, _, _, _, _ => ⟨rfl, fun _ => .inr (by simp [Refused])⟩
  | _, _, n :: ns, guard, p, i, m, .cons h hrest, hwf, hc, hs, hm, hended, htaken => by
    obtain ⟨hn, hns⟩ := List.forall_mem_cons.mp hwf
    obtain ⟨hsn, hsns⟩ := not_or.mp (mt List.mem_append.mpr hs)
    have hfirst : decide (i = 0) = false → m.taken = false := fun hi => htaken (by simpa using hi)
    have harm := fun {m : Machine Path} => story_run_arm (r := r) (k := k) (m := m) ns guard p i hc
      fun hm hended => h.story_run hn hc hsn hm hended
    rw [Node.branchEmissions, Emission.select_arm_of_keep (by simpa using hc), Machine.run_append,
      Machine.run_append]
    cases hguard : guard i n with
    | none =>
      obtain ⟨hskipping, hnext, hstory⟩ := run_header_none (k := k) (p := p) hm hended hfirst
      obtain ⟨hwalk, hout⟩ := harm hskipping (hstory ▸ hended) hnext
      rw [hwalk, hstory]
      rw [hstory] at hout
      simp only [Node.walkFirst, hguard]
      exact ⟨trivial, fun hgoes => .inl (OrderedSet.mem_union.mpr (.inl (hout hgoes)))⟩
    | some condition =>
      obtain ⟨hskipping, hnext, htaken', hstory⟩ :=
        run_header_some (k := k) (p := p) condition hm hended hfirst
      have hopen : (m.run k ((Condition.header (decide (i = 0)) (some condition)).map
          (Prod.mk p))).story.ended = false := by
        rw [hstory, ended_weigh, hended]
      cases hholds : m.story.holds k condition with
      | true =>
        obtain ⟨hwalk, hout⟩ := harm hskipping hopen (hnext.trans hholds)
        rw [hwalk, hstory]
        rw [hstory] at hout
        simp only [Node.walkFirst, hguard, hholds, if_true]
        exact ⟨trivial, fun hgoes => .inl (OrderedSet.mem_union.mpr (.inl (hout hgoes)))⟩
      | false =>
        rw [run_braces_passed (Node.tame_emissions _ n _ _) hskipping hopen (hnext.trans hholds)]
        generalize m.run k ((Condition.header (decide (i = 0)) (some condition)).map (Prod.mk p)) =
          m₁ at *
        have hready : Ready { m₁ with next := true } := ⟨hskipping, rfl⟩
        obtain ⟨hwalk, hleft⟩ := hrest.story_run (g := guard) (p := p) (i := i + 1) hns hc hsns
          hready hopen fun _ => htaken'.trans hholds
        simp only [Node.walkFirst, hguard, hholds, if_neg Bool.false_ne_true]
        rw [← hstory]
        refine ⟨hwalk, fun hgoes => ?_⟩
        rcases hleft hgoes with hjoined | hrefused
        · exact .inl (OrderedSet.mem_union.mpr (.inr hjoined))
        · refine .inr fun j n' hn' => ?_
          cases j with
          | zero =>
            cases hn'
            exact ⟨condition, m.story, hguard, hholds⟩
          | succ j =>
            rw [← Nat.add_assoc, Nat.add_right_comm]
            exact hrefused j n' hn'

end

end Walking

section Resuming

variable {r : Registry} {k : Invocation} {s : Status}

/-- The selection is the number of an entry wherever the status belongs to an options node. -/
def Node.Selects (k : Invocation) (s : Status) (n : Node) : Prop :=
  n.Everywhere fun kind _ ns => kind.isParallel = true → kind.status? = some s →
    0 ≤ k.selection ∧ k.selection < ns.length

instance (n : Node) : Decidable (n.Selects k s) :=
  inferInstanceAs (Decidable (n.Everywhere fun kind _ ns => kind.isParallel = true →
    kind.status? = some s → 0 ≤ k.selection ∧ k.selection < ns.length))

theorem Node.selects_mk {kind : NodeKind} {c : StatusContext} {ns : List Node} :
    (Node.mk kind c ns).Selects k s ↔
      (kind.isParallel = true → kind.status? = some s →
        0 ≤ k.selection ∧ k.selection < ns.length) ∧ ∀ n ∈ ns, n.Selects k s :=
  and_congr_right fun _ => Node.everywhereIn_iff

/-- Nothing behind a message runs but what a refusal runs. -/
theorem story_run_refusal {back : Option Status} {style : MessageStyle} {p : Path}
    {m : Machine Path} (hmode : k.mode = 1) (h : m.Ready) (hended : m.story.ended = false) :
    (m.run k ((r.refusal back style).map (Prod.mk p))).story = m.story := by
  rcases r.refusal_cases k p back style with hnone | ⟨body, hbody, hblock⟩
  · rw [hnone]
    rfl
  · have hfirst : true = false → m.taken = false := by simp
    obtain ⟨hskipping, hnext, -, hstory⟩ :=
      run_header_some (k := k) (p := p) .refused h hended hfirst
    have hnot : m.story.holds k .refused = false := by simp [Story.holds, hmode]
    rw [hblock, Machine.run_append, run_braces_passed hbody hskipping
      (by rw [hstory]; exact hended) (hnext.trans hnot)]
    exact hstory

theorem Node.walkFirst_selected {ns : List Node} {i j : Nat} {n : Node} {y : Story}
    (hk : k.selection = (i + j : Nat)) (hn : ns[j]? = some n) :
    Node.walkFirst r k (fun i _ => some (.selected i)) i ns y = n.walk r k y := by
  induction ns generalizing i j with
  | nil => simp at hn
  | cons n' ns ih =>
    cases j with
    | zero =>
      cases hn
      simp [Node.walkFirst, Story.holds, Story.weigh, hk]
    | succ j =>
      have hnot : y.holds k (.selected i) = false := by
        simp only [Story.holds, hk]
        simp
        omega
      rw [Node.walkFirst]
      simp only [hnot, if_neg Bool.false_ne_true]
      exact ih (by rw [hk, Nat.add_assoc, Nat.add_comm 1]) hn

mutual

/-- The lines that a status runs whose suspend point lies in a node tell the story of resuming
there, and unless that ends the status flows out of the node. -/
theorem Flows.story_resume : ∀ {c out : StatusContext} {n : Node} {back : Option Status} {p : Path}
    {m : Machine Path}, Flows c n out → n.WellFormed → Separate c n.statuses → s ∈ n.statuses →
    n.Selects k s → k.mode = 1 → m.Ready → m.story.ended = false →
    (m.run k (Emission.select (s ∈ ·) (n.emissions r back p))).story = n.resume r k s m.story ∧
      ((n.resume r k s m.story).ended = false → s ∈ out)
  | c, _, .mk kind _ ns, back, p, m, .serial hk h, hwf, hsep, hs, hsel, hmode, hm, hended => by
    rw [Node.statuses_serial hk] at hsep hs
    rw [Node.emissions_serial _ _ _ _ _ hk, Emission.select_touch, Node.resume_serial _ _ _ _ _ hk]
    exact h.story_resume (Node.wellFormed_mk.mp hwf).2 hsep hs (Node.selects_mk.mp hsel).2 hmode hm
      hended
  | _, _, .mk (.switch f) _ ns, back, p, m, .switch h hout, hwf, hsep, hs, hsel, hmode, hm,
      hended => by
    rw [Node.emissions_switch, Emission.select_touch]
    obtain ⟨hstory, hjoined⟩ := h.story_resume (p := p) (i := 0) (Node.wellFormed_mk.mp hwf).2 hsep
      hs (Node.selects_mk.mp hsel).2 hmode hm hended
    exact ⟨hstory, fun hgoes => (hout s).mpr (.inl (hjoined hgoes))⟩
  | c, _, .mk (.options status text) _ ns, back, p, m, .options h, hwf, hsep, hs, hsel, hmode, hm,
      hended => by
    obtain ⟨-, hns⟩ := Node.wellFormed_mk.mp hwf
    obtain ⟨hselected, hselects⟩ := Node.selects_mk.mp hsel
    have hbehind := Separate.behind hsep
    rw [Node.emissions_options, Emission.select_touch,
      Emission.select_cons_of_not (by simpa using hsep.apart s hs), Emission.select_touch]
    by_cases hstatus : s = status
    · subst hstatus
      obtain ⟨hlo, hhi⟩ := hselected rfl rfl
      obtain ⟨j, hj⟩ := Int.eq_ofNat_of_zero_le hlo
      have hlt : j < ns.length := by omega
      obtain ⟨hstory, hleft⟩ := h.story_run (r := r) (k := k) (m := m)
        (g := fun i _ => some (.selected i)) (p := p) (i := 0) hns
        (OrderedSet.mem_singleton.mpr rfl) (fun hs' => hbehind.apart s hs' (by simp)) hm hended
        (absurd rfl)
      rw [Node.walkFirst_selected (by simpa using hj) (List.getElem?_eq_getElem hlt)]
        at hstory hleft
      have hresume : Node.resume r k s (.mk (.options s text) c ns) m.story =
          ns[j].walk r k m.story := by
        simp [Node.resume, hj, List.getElem?_eq_getElem hlt]
      rw [hresume]
      refine ⟨hstory, fun hgoes => (hleft hgoes).resolve_right fun hrefused => ?_⟩
      obtain ⟨condition, y, hcondition, hnot⟩ := hrefused j _ (List.getElem?_eq_getElem hlt)
      cases hcondition
      simp [Story.holds, hj] at hnot
    · have hs' : s ∈ Node.statusesIn ns := (List.mem_cons.mp hs).resolve_left hstatus
      have hresume : Node.resume r k s (.mk (.options status text) c ns) m.story =
          Node.resumeBranch r k s ns m.story := if_neg (Ne.symm hstatus)
      rw [hresume]
      exact h.story_resume hns hbehind hs' hselects hmode hm hended
  | c, _, .mk (.message status style text) _ [], back, p, m, .message, hwf, hsep, hs, hsel, hmode,
      hm, hended => by
    have hsc : s ∉ c := hsep.apart s hs
    obtain rfl := List.mem_singleton.mp hs
    rw [Node.emissions_message, Emission.select_touch,
      Emission.select_cons_of_not (by simpa using hsc),
      Emission.select_cons_of_keep (by simp), Emission.select_nil, List.append_nil]
    exact ⟨story_run_refusal hmode hm hended, fun _ => OrderedSet.mem_singleton.mpr rfl⟩
  | _, _, _, _, _, _, .command, _, _, hs, _, _, _, _ => by
    simp [Node.statuses, Node.statusesIn, NodeKind.status?] at hs

theorem FlowsThrough.story_resume : ∀ {c out : StatusContext} {ns : List Node} {back : Status}
    {p : Path} {i : Nat} {m : Machine Path}, FlowsThrough c ns out → (∀ n ∈ ns, n.WellFormed) →
    Separate c (Node.statusesIn ns) → s ∈ Node.statusesIn ns → (∀ n ∈ ns, n.Selects k s) →
    k.mode = 1 → m.Ready → m.story.ended = false →
    (m.run k (Emission.select (s ∈ ·) (Node.serialEmissions r back p i ns))).story =
        Node.resumeSerial r k s ns m.story ∧
      ((Node.resumeSerial r k s ns m.story).ended = false → s ∈ out)
  | _, _, _, _, _, _, _, .nil, _, _, hs, _, _, _, _ => by simp [Node.statusesIn] at hs
  | _, _, n :: ns, back, p, i, m, .cons h hrest, hwf, hsep, hs, hsel, hmode, hm, hended => by
    obtain ⟨hn, hns⟩ := List.forall_mem_cons.mp hwf
    obtain ⟨hseln, hselns⟩ := List.forall_mem_cons.mp hsel
    rw [Node.serialEmissions, Emission.select_append, Machine.run_append, Node.resumeSerial]
    by_cases hsn : s ∈ n.statuses
    · obtain ⟨hstory, hmid⟩ :
          (m.run k (Emission.select (s ∈ ·)
            (n.emissions r (some back) (p ++ [i])))).story = _ ∧ _ :=
        h.story_resume hn hsep.left hsn hseln hmode hm hended
      rw [if_pos hsn]
      apply story_run_then hstory
      intro hgoes
      rw [← hstory] at hgoes hmid ⊢
      exact hrest.story_run hns (hmid hgoes) (hsep.not_mem_right hsn)
        ((Node.tame_emissions _ n _ _).ready m hm hgoes) hgoes
    · have hs' : s ∈ Node.statusesIn ns := (List.mem_append.mp hs).resolve_left hsn
      rw [if_neg hsn, h.select_eq_nil (hsep.right.apart s hs') hsn, run_nil]
      exact hrest.story_resume hns (hsep.after h) hs' hselns hmode hm hended

theorem FlowsAcross.story_resume : ∀ {c joined : StatusContext} {ns : List Node}
    {g : Nat → Node → Option Condition} {p : Path} {i : Nat} {m : Machine Path},
    FlowsAcross c ns joined → (∀ n ∈ ns, n.WellFormed) → Separate c (Node.statusesIn ns) →
    s ∈ Node.statusesIn ns → (∀ n ∈ ns, n.Selects k s) → k.mode = 1 → m.Ready →
    m.story.ended = false →
    (m.run k (Emission.select (s ∈ ·) (Node.branchEmissions r c g p i ns))).story =
        Node.resumeBranch r k s ns m.story ∧
      ((Node.resumeBranch r k s ns m.story).ended = false → s ∈ joined)
  | _, _, _, _, _, _, _, .nil, _, _, hs, _, _, _, _ => by simp [Node.statusesIn] at hs
  | _, _, n :: ns, g, p, i, m, .cons h hrest, hwf, hsep, hs, hsel, hmode, hm, hended => by
    obtain ⟨hn, hns⟩ := List.forall_mem_cons.mp hwf
    obtain ⟨hseln, hselns⟩ := List.forall_mem_cons.mp hsel
    have hsc := hsep.apart s hs
    rw [Node.branchEmissions, Emission.select_arm_of_not (by simpa using hsc), Machine.run_append,
      Node.resumeBranch]
    by_cases hsn : s ∈ n.statuses
    · obtain ⟨hstory, hout⟩ :
          (m.run k (Emission.select (s ∈ ·)
            (n.emissions r (some .start) (p ++ [i])))).story = _ ∧ _ :=
        h.story_resume hn hsep.left hsn hseln hmode hm hended
      rw [if_pos hsn, hrest.select_eq_nil hsc (hsep.not_mem_right hsn), run_nil]
      exact ⟨hstory, fun hgoes => OrderedSet.mem_union.mpr (.inl (hout hgoes))⟩
    · have hs' : s ∈ Node.statusesIn ns := (List.mem_append.mp hs).resolve_left hsn
      rw [if_neg hsn, h.select_eq_nil hsc hsn, run_nil]
      obtain ⟨hstory, hout⟩ := hrest.story_resume (g := g) (p := p) (i := i + 1) hns hsep.right hs'
        hselns hmode hm hended
      exact ⟨hstory, fun hgoes => OrderedSet.mem_union.mpr (.inr (hout hgoes))⟩

end

end Resuming

end SceneDispatch
