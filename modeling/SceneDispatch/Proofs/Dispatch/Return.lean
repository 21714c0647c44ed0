import SceneDispatch.Proofs.Dispatch.Barrier
import SceneDispatch.Proofs.Dispatch.Refusal
/-!
The way back from a message to the suspend point before it. Turning back sets the least status that
leads to the suspend point, and the call that follows selects the first entry wherever that status
is one of an options node. Main statement: exactly when such a call can show the suspend point
again.
-/
namespace SceneDispatch

open Machine

/-- Wherever the way to the place `a` leads through an options node whose status makes up all of
`c`, it leads through the first entry. -/
def Node.ByFirstEntry (n : Node) (a : Path) (c : StatusContext) : Prop :=
  ∀ o prompt status text j rest, n.at? o = some prompt → prompt.kind = .options status text →
    a = o ++ j :: rest → c = .singleton status → j = 0

theorem Node.ByFirstEntry.child {n child : Node} {j : Nat} {a : Path} {c : StatusContext}
    (h : n.ByFirstEntry (j :: a) c) (hchild : n.children[j]? = some child) :
    child.ByFirstEntry a c := by
  intro o prompt status text i rest ho hkind ha hc
  exact h (j :: o) prompt status text i rest (Node.at?_cons_of_getElem? hchild ho) hkind
    (by rw [ha, List.cons_append]) hc

section Leading

variable {r : Registry} {k : Invocation} {c : StatusContext} {m child : Node} {a p : Path}
  {P : Machine Path → Prop}

/-- A node in front of one of the context does not bar the group of the context. -/
theorem Flows.bars_eq_false_of_before {ci mid out : StatusContext} {n : Node} {ns : List Node}
    {j : Nat} (h : Flows ci n mid) (hrest : FlowsThrough mid ns out) (hn : n.WellFormed)
    (hns : ∀ n ∈ ns, n.WellFormed) (hsep : Separate ci (n.statuses ++ Node.statusesIn ns))
    (hci : ∃ s, s ∈ ci) (hchild : ns[j]? = some child) (hm : child.at? a = some m)
    (hc : m.context = c) : n.bars c = false := by
  have hplace : (Node.mk .block mid ns).at? (j :: a) = some m :=
    Node.at?_cons_of_getElem? hchild hm
  obtain ⟨t, ht⟩ := (hrest.inhabited hns (h.inhabited hn hci).1).2 j a m hplace
  by_cases hlater : t ∈ Node.statusesIn ns
  · exact h.bars_eq_false_of_not_mem (hc ▸ ht) (hsep.right.apart t hlater)
      fun htn => hsep.not_mem_right htn hlater
  · exact h.bars_eq_false hn hsep.left hci fun t' ht' =>
      hc ▸ hrest.block.subset_context hplace hlater ht t' ht'

/-- A context in an arm, if it is not that of the arm, holds a status of the arm. -/
theorem Flows.exists_mem_statuses {ci out : StatusContext} (h : Flows ci child out)
    (hwf : child.WellFormed) (hci : ∃ s, s ∈ ci) (hm : child.at? a = some m) (hc : m.context = c)
    (hne : ci ≠ c) : ∃ t ∈ c, t ∈ child.statuses := by
  subst hc
  by_contra! hnone
  obtain ⟨t, ht⟩ := (h.inhabited hwf hci).2 a m hm
  refine hne (OrderedSet.ext fun t' => ⟨h.subset_context hm (hnone t ht) ht t', fun ht' => ?_⟩)
  exact (h.mem_of_mem_context hm ht').resolve_right (hnone t' ht')

variable (hmode : k.mode = 1) (hselection : k.selection = 0)
  (hP : ∀ x, P x → x.story.ended = true)

include hmode hselection hP

/-- Through siblings in front of it a call can come to a node of the context. -/
theorem FlowsThrough.may_reach : ∀ {ci out : StatusContext} {ns : List Node} {i j : Nat}
    {b : Status} {x : Machine Path}, FlowsThrough ci ns out → (∀ n ∈ ns, n.WellFormed) →
    Separate ci (Node.statusesIn ns) → (∃ s, s ∈ ci) → ns[j]? = some child →
    child.at? a = some m → m.context = c →
    (∀ (ci out : StatusContext) (b : Option Status) (x : Machine Path), Flows ci child out →
      Separate ci child.statuses → (∃ s, s ∈ ci) → x.Ready → x.story.ended = false →
      May k x (Emission.select (· = c) (child.emissions r b (p ++ [i + j]))) P) →
    x.Ready → x.story.ended = false →
    May k x (Emission.select (· = c) (Node.serialEmissions r b p i ns)) P
  | _, _, _, _, _, _, _, .nil, _, _, _, hchild, _, _, _, _, _ => by simp at hchild
  | ci, _, n :: ns, i, 0, b, x, .cons h hrest, hwf, hsep, hci, hchild, hm, hc, hinner, hx,
      hended => by
    cases hchild
    rw [Node.serialEmissions, Emission.select_append]
    exact may_append_of_ended hP (hinner _ _ _ _ h hsep.left hci hx hended)
  | ci, _, n :: ns, i, j + 1, b, x, .cons h hrest, hwf, hsep, hci, hchild, hm, hc, hinner, hx,
      hended => by
    obtain ⟨hn, hns⟩ := List.forall_mem_cons.mp hwf
    have hpassed : n.bars c = false :=
      h.bars_eq_false_of_before hrest hn hns hsep hci hchild hm hc
    have hsettles := Node.settles (r := r) (c := c) hmode hselection n (some b) (p ++ [i]) x hn hx
      hended
    rw [hpassed] at hsettles
    rw [Node.serialEmissions, Emission.select_append]
    refine May.append (Q := (·.story.ended = false)) hsettles fun w hopen => ?_
    refine hrest.may_reach hns (hsep.after h) (h.inhabited hn hci).1 hchild hm hc ?_
      ((Node.tame_emissions _ n _ _).ready x hx hopen) hopen
    rwa [show i + 1 + j = i + (j + 1) by omega]

/-- Arms of another group do not bar the way to one of them. -/
theorem FlowsAcross.may_reach : ∀ {ci joined : StatusContext} {ns : List Node}
    {g : Nat → Node → Option Condition} {i j : Nat} {x : Machine Path}, FlowsAcross ci ns joined →
    (∀ n ∈ ns, n.WellFormed) → Separate ci (Node.statusesIn ns) → ci ≠ c → ns[j]? = some child →
    (∃ t ∈ c, t ∈ child.statuses) →
    (∀ x : Machine Path, x.Ready → x.story.ended = false →
      May k x (Emission.select (· = c) (child.emissions r (some .start) (p ++ [i + j]))) P) →
    x.Ready → x.story.ended = false →
    May k x (Emission.select (· = c) (Node.branchEmissions r ci g p i ns)) P
  | _, _, _, _, _, _, _, .nil, _, _, _, hchild, _, _, _, _ => by simp at hchild
  | ci, _, n :: ns, g, i, 0, x, .cons h hrest, hwf, hsep, hne, hchild, ht, hinner, hx,
      hended => by
    cases hchild
    rw [Node.branchEmissions, Emission.select_arm_of_not (decide_eq_false hne)]
    exact may_append_of_ended hP (hinner _ hx hended)
  | ci, _, n :: ns, g, i, j + 1, x, .cons h hrest, hwf, hsep, hne, hchild, ht, hinner, hx,
      hended => by
    obtain ⟨hn, hns⟩ := List.forall_mem_cons.mp hwf
    have hpassed : n.bars c = false := by
      obtain ⟨t, htc, htchild⟩ := ht
      have hlater : t ∈ Node.statusesIn ns :=
        Node.mem_statusesIn.mpr ⟨child, List.mem_of_getElem? hchild, htchild⟩
      exact h.bars_eq_false_of_not_mem htc (hsep.right.apart t hlater)
        fun htn => hsep.not_mem_right htn hlater
    have hsettles := Node.settles (r := r) (c := c) hmode hselection n
      (some .start) (p ++ [i]) x hn hx hended
    rw [hpassed] at hsettles
    rw [Node.branchEmissions, Emission.select_arm_of_not (decide_eq_false hne)]
    refine May.append (Q := (·.story.ended = false)) hsettles fun w hopen => ?_
    refine hrest.may_reach hns hsep.right hne hchild ht ?_
      ((Node.tame_emissions _ n _ _).ready x hx hopen) hopen
    rwa [show i + 1 + j = i + (j + 1) by omega]

omit hmode hselection in
/-- Tests can come out so that a call enters any arm of a switch. -/
theorem may_reach_arm (f : Feature) {ns : List Node} {i j : Nat} {x : Machine Path}
    (hcases : ∀ n ∈ ns, ∃ test, n.kind = .case test)
    (hlast : ∀ n ∈ ns.dropLast, n.isOtherwise = false) (hchild : ns[j]? = some child)
    (hinner : ∀ x : Machine Path, x.Ready → x.story.ended = false →
      May k x (Emission.select (· = c) (child.emissions r (some .start) (p ++ [i + j]))) P)
    (hx : x.Ready) (hended : x.story.ended = false) (htaken : i ≠ 0 → x.taken = false) :
    May k x (Emission.select (· = c)
      (Node.branchEmissions r c (fun _ n => r.condition f n.test) p i ns)) P := by
  induction ns generalizing i j x with
  | nil => simp at hchild
  | cons n ns ih =>
    obtain ⟨⟨test, htest⟩, hcases⟩ := List.forall_mem_cons.mp hcases
    have hfirst : decide (i = 0) = false → x.taken = false := fun hi => htaken (by simpa using hi)
    have htame := fun w => Node.tame_emissions (r := r) (k := k.within w) (· = c) n (some .start)
      (p ++ [i])
    rw [select_arm]
    cases j with
    | zero =>
      cases hchild
      cases hotherwise : child.isOtherwise with
      | true =>
        simp only [condition_of_otherwise f hotherwise]
        exact may_arm hP htame (letsIn_none hx hended hfirst) hinner
      | false =>
        obtain ⟨e, he⟩ := condition_of_not_otherwise (r := r) f htest hotherwise
        simp only [he]
        exact may_arm_test hP htame hx hended hfirst hinner
    | succ j =>
      obtain ⟨n', ns, rfl⟩ : ∃ n' ns', ns = n' :: ns' := by
        cases ns with
        | nil => simp at hchild
        | cons n' ns => exact ⟨n', ns, rfl⟩
      obtain ⟨hotherwise, hlast⟩ := List.forall_mem_cons.mp hlast
      obtain ⟨e, he⟩ := condition_of_not_otherwise (r := r) f htest hotherwise
      simp only [he]
      refine may_arm_passed htame hx hended hfirst fun x hx hended hnot => ?_
      refine ih hcases hlast hchild ?_ hx hended fun _ => hnot
      rwa [show i + 1 + j = i + (j + 1) by omega]

/-- A call that selects the first entry can come to any node in the group of its context, unless
the way to it leads through another entry of an options node whose status makes up the context. -/
theorem Flows.may_reach : ∀ {a : Path} {ci out : StatusContext} {n : Node} {b : Option Status}
    {p : Path} {x : Machine Path}, Flows ci n out → n.WellFormed → Separate ci n.statuses →
    (∃ s, s ∈ ci) → n.at? a = some m → m.context = c → n.ByFirstEntry a c →
    (∀ (b : Option Status) (x : Machine Path), x.Ready → x.story.ended = false →
      May k x (Emission.select (· = c) (m.emissions r b (p ++ a))) P) →
    x.Ready → x.story.ended = false → May k x (Emission.select (· = c) (n.emissions r b p)) P
  | [], _, _, _, _, _, _, _, _, _, _, hm, _, _, hshown, hx, hended => by
    cases hm
    rw [List.append_nil] at hshown
    exact hshown _ _ hx hended
  | j :: a, ci, out, n, b, p, x, h, hwf, hsep, hci, hm, hc, hfirst, hshown, hx, hended => by
    obtain ⟨kind, _, ns⟩ := n
    obtain ⟨child, hchild, hbelow⟩ := Option.bind_eq_some_iff.mp hm
    obtain ⟨hkind, hns⟩ := Node.wellFormed_mk.mp hwf
    have hwf' : child.WellFormed := hns child (List.mem_of_getElem? hchild)
    have hinner : ∀ (ci out : StatusContext) (b : Option Status) (x : Machine Path),
        Flows ci child out → Separate ci child.statuses → (∃ s, s ∈ ci) → x.Ready →
        x.story.ended = false →
        May k x (Emission.select (· = c) (child.emissions r b (p ++ [0 + j]))) P := by
      intro ci out b x h hsep hci hx hended
      refine h.may_reach hwf' hsep hci hbelow hc (hfirst.child hchild) ?_ hx hended
      simpa using hshown
    cases h with
    | serial hk h =>
      rw [Node.statuses_serial hk] at hsep
      rw [Node.emissions_serial _ _ _ _ _ hk, Emission.select_touch]
      exact h.may_reach hmode hselection hP hns hsep hci hchild hbelow hc hinner hx hended
    | @switch _ _ _ f _ h hout =>
      obtain ⟨out', -, -, hflow, hsep', -⟩ := h.stretch (r := r) (p := p)
        (g := fun _ n => r.condition f n.test) (i := 0) hsep hchild
      have hinner := fun x => hinner ci out' (some .start) x hflow hsep' hci
      rw [Node.emissions_switch, Emission.select_touch]
      by_cases heq : ci = c
      · rw [heq]
        exact may_reach_arm hP f (by simpa using hkind.1) (Node.not_isOtherwise_of_admits hkind)
          hchild hinner hx hended (absurd rfl)
      · exact h.may_reach hmode hselection hP hns hsep heq hchild
          (hflow.exists_mem_statuses hwf' hci hbelow hc heq) hinner hx hended
    | @options _ _ status text _ h =>
      have hbehind := Separate.behind hsep
      have hstatus : ∃ s, s ∈ OrderedSet.singleton status :=
        ⟨status, OrderedSet.mem_singleton.mpr rfl⟩
      obtain ⟨out', -, -, hflow, hsep', -⟩ := h.stretch (r := r) (p := p)
        (g := fun i _ => some (.selected i)) (i := 0) hbehind hchild
      have hinner := fun x => hinner _ out' (some .start) x hflow hsep' hstatus
      have hprompt : ci ≠ c := by
        obtain ⟨t, ht⟩ := (hflow.inhabited hwf' hstatus).2 a m hbelow
        rintro rfl
        refine hsep.apart t ?_ (hc ▸ ht)
        rcases hflow.mem_of_mem_context hbelow ht with h | h
        · rw [OrderedSet.mem_singleton.mp h]
          exact List.mem_cons_self
        · exact List.mem_cons_of_mem _
            (Node.mem_statusesIn.mpr ⟨child, List.mem_of_getElem? hchild, h⟩)
      rw [Node.emissions_options, Emission.select_touch,
        Emission.select_cons_of_not (decide_eq_false hprompt), Emission.select_touch]
      by_cases heq : OrderedSet.singleton status = c
      · obtain rfl : j = 0 := hfirst [] _ status text j a rfl rfl rfl heq.symm
        obtain ⟨ns, rfl⟩ : ∃ ns', ns = child :: ns' := by
          cases ns with
          | nil => cases hchild
          | cons n ns => exact ⟨ns, by cases hchild; rfl⟩
        rw [heq, select_arm]
        exact may_arm hP (fun w => Node.tame_emissions _ child _ _)
          (letsIn_selected hx hended hselection) hinner
      · exact h.may_reach hmode hselection hP hns hbehind heq hchild
          (hflow.exists_mem_statuses hwf' hstatus hbelow hc heq) hinner hx hended
    | message => cases hchild
    | command => cases hchild

end Leading

/-- The call has ended under the status, and the lines are the last that it executed. -/
structure Machine.EndsWith (x : Machine Path) (lines : List (Path × Statement)) (s : Status) :
    Prop where
  ended : x.story.ended = true
  status : x.story.status = s
  suffix : lines <:+ x.trace

section Showing

variable {r : Registry} {k : Invocation} {m : Node} {a : Path} {s : Status}

/-- A call that comes to a suspend point ends with what it shows. -/
theorem Node.endsWith_display {x : Machine Path} {b : Option Status}
    (hs : m.kind.status? = some s) (hx : x.Ready) (hended : x.story.ended = false) :
    (x.run k (Emission.select (· = m.context) (m.emissions r b a))).EndsWith
      ((r.display m).map (Prod.mk a)) s := by
  obtain ⟨kind, c, ns⟩ := m
  have hkeep : decide (c = c) = true := by simp
  cases kind with
  | message status style text =>
    cases hs
    rw [Node.emissions_message, Emission.select_touch,
      run_suspended hkeep hx hended (Registry.plain_shown _ _)]
    exact ⟨rfl, rfl, List.suffix_append _ _⟩
  | options status text =>
    cases hs
    rw [Node.emissions_options, Emission.select_touch,
      run_suspended hkeep hx hended (Registry.plain_prompted _ _)]
    exact ⟨rfl, rfl, List.suffix_append _ _⟩
  | _ => cases hs

theorem Registry.leave_mem_display (hs : m.kind.status? = some s) :
    (a, Statement.leave) ∈ (r.display m).map (Prod.mk a) := by
  refine List.mem_map_of_mem ?_
  unfold display
  cases hkind : m.kind with
  | message status style text => simp
  | options status text => simp
  | _ =>
    rw [hkind] at hs
    cases hs

/-- A suspend point that was drafted is shown by a feature. -/
theorem Drafting.Drafted.display_feature (h : Drafting.Drafted r m)
    (hs : m.kind.status? = some s) :
    ∃ name send words rest, r.lookup name = .ok send ∧
      r.display m = .setStatus s :: r.statement send (.single (Text.quote words)) :: rest := by
  obtain ⟨kind, c, ns⟩ := m
  cases kind with
  | message status style text =>
    cases hs
    obtain ⟨send, hsend⟩ := h.message_feature
    refine ⟨_, send, text, (if style = .ok then r.builtIn Drafting.endFeature .empty else []) ++
      [.leave], hsend, ?_⟩
    simp [Registry.display, Node.kind, Registry.shown, Registry.builtIn, hsend]
  | options status text =>
    cases hs
    obtain ⟨send, hsend⟩ := h.options_feature
    refine ⟨_, send, Drafting.prompt text ns, [.leave], hsend, ?_⟩
    simp [Registry.display, Node.kind, Node.children, Registry.prompted, Registry.builtIn, hsend]
  | _ => cases hs

end Showing

section Groups

variable {r : Registry} {k : Invocation} {n : Node} {s : Status} {b : Option Status} {p : Path}
  {x : Machine Path}

/-- The lines of those groups of a node that the status runs. -/
def Node.groupLines (r : Registry) (n : Node) (s : Status) (cs : List StatusContext) :
    List (Path × Statement) :=
  (cs.filter (s ∈ ·)).flatMap fun c => Emission.select (· = c) (n.emissions r none [])

theorem Node.groupLines_cons_of_mem {c : StatusContext} {cs : List StatusContext} (hs : s ∈ c) :
    n.groupLines r s (c :: cs) =
      Emission.select (· = c) (n.emissions r none []) ++ n.groupLines r s cs := by
  rw [groupLines, List.filter_cons_of_pos (by simpa using hs), List.flatMap_cons]
  rfl

theorem Node.tame_groupLines (cs : List StatusContext) : Tame k (n.groupLines r s cs) := by
  induction cs with
  | nil => exact .nil
  | cons c cs ih =>
    by_cases hs : s ∈ c
    · rw [groupLines_cons_of_mem hs]
      exact (tame_emissions _ n _ _).append ih
    · rwa [groupLines, List.filter_cons_of_neg (by simpa using hs)]

/-- A call comes through groups unless one that its status runs is barred. -/
theorem Node.settles_groups (hmode : k.mode = 1) (hselection : k.selection = 0)
    (hwf : n.WellFormed)
    (hx : x.Ready) (hended : x.story.ended = false) (cs : List StatusContext) :
    Settles k x (n.groupLines r s cs) (cs.any fun c => decide (s ∈ c) && n.bars c) := by
  induction cs generalizing x with
  | nil => exact .nil hended
  | cons c cs ih =>
    rw [List.any_cons]
    by_cases hs : s ∈ c
    · rw [groupLines_cons_of_mem hs, decide_eq_true hs, Bool.true_and]
      exact (n.settles hmode hselection _ _ x hwf hx hended).append fun w hopen =>
        ih ((tame_emissions _ n _ _).ready x hx hopen) hopen
    · rw [groupLines, List.filter_cons_of_neg (by simpa using hs), decide_eq_false hs,
        Bool.false_and, Bool.false_or]
      exact ih hx hended

theorem Node.dispatch_groups (cs : List StatusContext) (hs : x.story.status = s) :
    x.dispatch k (cs.map fun c => ⟨c, Emission.select (· = c) (n.emissions r none [])⟩) =
      x.run k (n.groupLines r s cs) := by
  rw [dispatch_eq_run _ hs, List.filter_map, List.flatMap_map]
  · rfl
  · intro g hg
    obtain ⟨c, -, rfl⟩ := List.mem_map.mp hg
    exact tame_emissions (· = c) n none []

end Groups

section Return

variable {r : Registry} {k : Invocation} {scene m : Node} {exit : StatusContext} {count : Nat}
  {a : Path} {s t : Status} {before after : List StatusContext}

/-- A call comes to a suspend point if no group in front of that of the suspend point is barred,
and the way to it leads through first entries. -/
theorem Prepared.may_return (h : Prepared scene exit count) (hmode : k.mode = 1)
    (hselection : k.selection = 0) (hm : scene.at? a = some m) (hs : m.kind.status? = some s)
    (ht : t ∈ m.context)
    (hsplit : Emission.contexts (scene.emissions r none []) = before ++ m.context :: after)
    (hopen : ∀ c ∈ before, t ∈ c → scene.bars c = false)
    (hfirst : scene.ByFirstEntry a m.context) :
    ∃ w, ((Machine.start t).dispatch (k.within w) (scene.passages r)).EndsWith
      ((r.display m).map (Prod.mk a)) s := by
  have hready : (Machine.start t : Machine Path).Ready := ⟨rfl, rfl⟩
  have hpassed : Settles k (Machine.start t) (scene.groupLines r t before) false := by
    have hsettles := scene.settles_groups (r := r) (s := t) hmode hselection h.wellFormed
      hready rfl before
    have hnone : (before.any fun c => decide (t ∈ c) && scene.bars c) = false := by
      simpa using hopen
    rwa [hnone] at hsettles
  have hlines : scene.groupLines r t (Emission.contexts (scene.emissions r none [])) =
      scene.groupLines r t before ++
        (Emission.select (· = m.context) (scene.emissions r none []) ++
          scene.groupLines r t after) := by
    rw [hsplit, ← Node.groupLines_cons_of_mem ht]
    simp [Node.groupLines]
  have hmay : May k (Machine.start t)
      (scene.groupLines r t (Emission.contexts (scene.emissions r none [])))
      (·.EndsWith ((r.display m).map (Prod.mk a)) s) := by
    rw [hlines]
    refine May.append (Q := (·.story.ended = false)) hpassed fun w hended => ?_
    refine may_append_of_ended (fun x => EndsWith.ended) ?_
    refine h.flows.may_reach hmode hselection (fun x => EndsWith.ended) h.wellFormed h.separate
      ⟨_, OrderedSet.mem_singleton.mpr rfl⟩ hm rfl hfirst ?_
      ((Node.tame_groupLines before).ready _ hready hended) hended
    exact fun b x hx hended => ⟨k.world, Node.endsWith_display hs hx hended⟩
  obtain ⟨w, hw⟩ := hmay
  refine ⟨w, ?_⟩
  rw [Node.passages, Emission.passages, Node.dispatch_groups (s := t) _ rfl]
  exact hw

/-- All that a suspend point writes for a status that flows into it stands in one group. -/
theorem Flows.context_of_suspends {c out : StatusContext} {b : Option Status} {p : Path}
    {e : Emission} (h : Flows c m out) (hs : m.kind.status? = some s)
    (hsep : Separate c m.statuses)
    (he : e ∈ m.emissions r b p) (ht : t ∈ c) (hte : t ∈ e.context) : e.context = c := by
  have hnot : t ∉ m.statuses := fun htm => hsep.apart t htm ht
  cases h with
  | @serial _ _ kind _ hk _ =>
    cases kind <;> simp_all [NodeKind.isSerial, NodeKind.status?, Node.kind]
  | switch => cases hs
  | @options _ _ status text ns h =>
    obtain ⟨hstatus, hns⟩ := not_or.mp (mt List.mem_cons.mpr hnot)
    have hbehind : t ∉ OrderedSet.singleton status := mt OrderedSet.mem_singleton.mp hstatus
    rw [Node.emissions_options, List.mem_cons, List.mem_cons, List.mem_cons] at he
    rcases he with rfl | rfl | rfl | he
    · rfl
    · rfl
    · exact absurd hte hbehind
    · exact absurd hte (h.not_mem_emission hbehind hns e he)
  | @message _ status style text =>
    rw [Node.emissions_message, List.mem_cons, List.mem_cons, List.mem_singleton] at he
    rcases he with rfl | rfl | rfl
    · rfl
    · rfl
    · rw [OrderedSet.mem_singleton.mp hte] at hnot
      exact absurd List.mem_cons_self hnot
  | command => cases hs

theorem Prepared.context_of_origin (h : Prepared scene exit count) (hm : scene.at? a = some m)
    (hs : m.kind.status? = some s) (ht : t ∈ m.context) {e : Emission}
    (he : e ∈ scene.emissions r none []) (horigin : e.origin = a) (hte : t ∈ e.context) :
    e.context = m.context := by
  have ha : a ≠ [] := by
    rintro rfl
    cases hm
    rw [h.kind] at hs
    cases hs
  have harm : m.kind.isArm = false := by
    cases hkind : m.kind <;> rw [hkind] at hs <;> first | rfl | cases hs
  obtain ⟨q, j, parent, rfl, hparent, hchild⟩ := Node.exists_parent hm ha
  obtain ⟨c', out, front, rear, hflow, hsep, hstretch⟩ :=
    h.flows.node_stretch (r := r) (b := none) (p := []) h.wellFormed h.separate hparent hchild
  rw [Node.written, if_neg (by simp [harm])] at hstretch
  have hplace : q ++ [j] <+: e.origin := horigin ▸ List.prefix_rfl
  rw [hstretch.eq, List.mem_append, List.mem_append] at he
  rcases he with he | he | he
  · exact absurd hplace (hstretch.before_origin e he)
  · rw [hflow.context] at ht ⊢
    exact hflow.context_of_suspends hs hsep he ht hte
  · exact absurd hplace (hstretch.after_origin e he)

/-- A call that shows a suspend point does so in the group of its context. -/
theorem Prepared.exists_group (h : Prepared scene exit count) (hm : scene.at? a = some m)
    (hs : m.kind.status? = some s) (ht : t ∈ m.context) {x : Path × Statement} (hxa : x.1 = a)
    (hx : x ∈ scene.trace r k t) :
    ∃ before after, Emission.contexts (scene.emissions r none []) = before ++ m.context :: after ∧
      ((Machine.start t : Machine Path).run k (scene.groupLines r t before)).story.ended = false ∧
      x ∉ ((Machine.start t : Machine Path).run k (scene.groupLines r t before)).trace ∧
      x ∈ (((Machine.start t : Machine Path).run k (scene.groupLines r t before)).run k
        (Emission.select (· = m.context) (scene.emissions r none []))).trace := by
  obtain ⟨front, g, rear, hsplit, hstatus, hfresh, hrun⟩ :=
    exists_of_mem_trace_dispatch hx (List.not_mem_nil)
  obtain ⟨before, _, hcontexts, rfl, hrear⟩ := List.map_eq_append_iff.mp hsplit
  obtain ⟨c, after, rfl, rfl, -⟩ := List.map_eq_cons_iff.mp hrear
  rw [Node.dispatch_groups (s := t) _ rfl] at hstatus hfresh hrun
  have hended : ((Machine.start t : Machine Path).run k
      (scene.groupLines r t before)).story.ended = false := by
    refine Bool.eq_false_iff.mpr fun hended => hfresh ?_
    rwa [run_of_ended k hended] at hrun
  rw [(Node.tame_groupLines before).settled _ hended] at hstatus
  have hline : x ∈ Emission.select (· = c) (scene.emissions r none []) :=
    (mem_of_mem_trace_run hrun).resolve_left hfresh
  obtain ⟨e, he, hec, -, horigin⟩ := Emission.exists_of_mem_select hline
  obtain rfl : e.context = c := of_decide_eq_true hec
  have hcontext : e.context = m.context :=
    h.context_of_origin hm hs ht he (horigin.symm.trans hxa) hstatus
  rw [hcontext] at hcontexts hrun
  exact ⟨before, after, hcontexts, hended, hfresh, hrun⟩

theorem prefix_of_mem_block {keep : StatusContext → Bool} {n : Node} {b : Option Status} {p : Path}
    {x : Path × Statement}
    (hx : x ∈ (p, .opening) :: (Emission.select keep (n.emissions r b p) ++ [(p, .closing)])) :
    p <+: x.1 := by
  rw [List.mem_cons, List.mem_append, List.mem_singleton] at hx
  rcases hx with rfl | hx | rfl
  · exact List.prefix_rfl
  · obtain ⟨e, he, -, -, horigin⟩ := Emission.exists_of_mem_select hx
    obtain ⟨q, _, -, hq, -⟩ := Node.accounts_of_mem_emissions he
    exact horigin ▸ (List.prefix_append p q).trans hq
  · exact List.prefix_rfl

/-- Of the entries of an options node a call executes lines only of the first. -/
theorem prefix_of_mem_trace_entries {c : StatusContext} {ns : List Node} {p : Path}
    {y : Machine Path} {x : Path × Statement} (hselection : k.selection = 0) (hy : y.Ready)
    (hended : y.story.ended = false) (hfresh : x ∉ y.trace)
    (hx : x ∈ (y.run k (Emission.select (· = c)
      (Node.branchEmissions r c (fun i _ => some (.selected i)) p 0 ns))).trace) :
    x.1 = p ∨ p ++ [0] <+: x.1 := by
  cases ns with
  | nil => exact absurd hx hfresh
  | cons n ns =>
    rw [select_arm, armLines, Machine.run_append, Machine.run_append] at hx
    obtain ⟨hready, hopen⟩ := letsIn_selected (p := p) hy hended hselection k.world
    obtain ⟨-, hafter⟩ := ready_of_entered (a := p ++ [0]) (b := p ++ [0])
      (Node.tame_emissions (k := k) (r := r) (· = c) n (some .start) (p ++ [0])) hready.skipping
      hopen hready.next
    -- the header and the block of the first entry are run from `y`, the other entries from `z`
    obtain ⟨z, hz⟩ : ∃ z, (y.run k ((Condition.header (decide (0 = 0)) (some (.selected 0))).map
        (Prod.mk p))).run k ((p ++ [0], .opening) :: (Emission.select (· = c)
          (n.emissions r (some .start) (p ++ [0])) ++ [(p ++ [0], .closing)])) = z := ⟨_, rfl⟩
    have hentered : x ∈ z.trace → x.1 = p ∨ p ++ [0] <+: x.1 := by
      rw [← hz]
      intro hx
      rcases mem_of_mem_trace_run hx with hx | hx
      · obtain ⟨_, -, rfl⟩ := List.mem_map.mp ((mem_of_mem_trace_run hx).resolve_left hfresh)
        exact .inl rfl
      · exact .inr (prefix_of_mem_block hx)
    rw [hz] at hx
    cases hended' : z.story.ended with
    | true =>
      rw [run_of_ended k hended'] at hx
      exact hentered hx
    | false =>
      obtain ⟨hready', htaken⟩ := hafter (hz ▸ hended')
      rcases (run_taken (by simp) (hz ▸ hready') hended' (hz ▸ htaken)).2 x hx with hx | hx
      · exact hentered hx
      · exact .inl hx

/-- In the group of a status alone, a call comes only to what stands in the first entry. -/
theorem Prepared.byFirstEntry (h : Prepared scene exit count) (hselection : k.selection = 0)
    {c : StatusContext} {y : Machine Path} {x : Path × Statement} (hy : y.Ready)
    (hended : y.story.ended = false) (hfresh : x ∉ y.trace)
    (hx : x ∈ (y.run k (Emission.select (· = c) (scene.emissions r none []))).trace) :
    scene.ByFirstEntry x.1 c := by
  rintro o ⟨kind, c', ns⟩ status text j rest ho hkind hplace rfl
  obtain rfl : kind = .options status text := hkind
  have hroot : o ≠ [] := by
    rintro rfl
    cases ho
    cases h.kind
  obtain ⟨q, i, parent, rfl, hparent, hchild⟩ := Node.exists_parent ho hroot
  obtain ⟨c'', out, front, rear, hflow, hsep, hstretch⟩ :=
    h.flows.node_stretch (r := r) (b := none) (p := []) h.wellFormed h.separate hparent hchild
  obtain rfl : c' = c'' := hflow.context
  rw [Node.written, if_neg (by simp [Node.kind, NodeKind.isArm]), List.nil_append] at hstretch
  have hstatus : status ∈ (Node.mk (.options status text) c' ns).statuses := List.mem_cons_self
  have hmem : status ∈ OrderedSet.singleton status := OrderedSet.mem_singleton.mpr rfl
  have hfront : Emission.select (· = OrderedSet.singleton status) front = [] := by
    refine Emission.select_eq_nil fun e he => decide_eq_false fun hc => ?_
    exact hstretch.before_context status hstatus e he (hc ▸ hmem)
  have hprompt : c' ≠ OrderedSet.singleton status := by
    rintro rfl
    exact hsep.apart status hstatus hmem
  rw [hstretch.eq, Emission.select_append, Emission.select_append, hfront, List.nil_append,
    Node.emissions_options, Emission.select_touch,
    Emission.select_cons_of_not (decide_eq_false hprompt), Emission.select_touch,
    Machine.run_append] at hx
  have hrear : x ∉ Emission.select (· = OrderedSet.singleton status) rear := by
    intro hx
    obtain ⟨e, he, -, -, horigin⟩ := Emission.exists_of_mem_select hx
    exact hstretch.after_origin e he (horigin ▸ hplace ▸ List.prefix_append _ _)
  have hentries := (mem_of_mem_trace_run hx).resolve_right hrear
  rcases prefix_of_mem_trace_entries hselection hy hended hfresh hentries with hself | hzero
  · rw [hplace] at hself
    simp at hself
  · rw [hplace] at hzero
    exact (index_eq_of_isPrefix hzero).symm

/-- Every node of a scene has a group for its context. -/
theorem Prepared.mem_contexts (h : Prepared scene exit count) (hm : scene.at? a = some m) :
    m.context ∈ Emission.contexts (scene.emissions r none []) := by
  obtain ⟨b, hsub⟩ := h.flows.exists_emissions (r := r) (p := []) (b := none) h.wellFormed
    h.separate hm
  obtain ⟨es, hes⟩ := Node.emissions_cons r b ([] ++ a) m
  refine Emission.mem_contexts.mpr ⟨⟨m.context, [] ++ a, []⟩, hsub _ ?_, rfl⟩
  rw [hes]
  exact List.mem_cons_self

theorem StatusContext.exists_least {c : StatusContext} (h : ∃ s, s ∈ c) :
    ∃ t, c.least? = some t ∧ t ∈ c := by
  obtain ⟨s, hs⟩ := h
  obtain ⟨t, ts, hc⟩ := List.exists_cons_of_ne_nil (List.ne_nil_of_mem (OrderedSet.mem_iff.mp hs))
  refine ⟨t, by rw [OrderedSet.least?, hc]; rfl, OrderedSet.mem_iff.mpr ?_⟩
  rw [hc]
  exact List.mem_cons_self

/-- When a call that selects the first entry can show a suspend point, whose context holds the
status of the call. -/
theorem Prepared.may_return_iff (h : Prepared scene exit count) (hmode : k.mode = 1)
    (hselection : k.selection = 0) (hm : scene.at? a = some m) (hs : m.kind.status? = some s)
    (ht : t ∈ m.context)
    (hsplit : Emission.contexts (scene.emissions r none []) = before ++ m.context :: after) :
    (∃ w, ((Machine.start t).dispatch (k.within w) (scene.passages r)).EndsWith
        ((r.display m).map (Prod.mk a)) s) ↔
      (∀ c ∈ before, t ∈ c → scene.bars c = false) ∧ scene.ByFirstEntry a m.context := by
  constructor
  · rintro ⟨w, hw⟩
    have hleave : (a, Statement.leave) ∈ scene.trace r (k.within w) t :=
      hw.suffix.subset (Registry.leave_mem_display hs)
    obtain ⟨before', after', hsplit', hended, hfresh, hrun⟩ := h.exists_group hm hs ht rfl hleave
    obtain rfl : before = before' := by
      have hnodup := Emission.nodup_contexts (scene.emissions r none [])
      rw [hsplit, List.nodup_middle, List.nodup_cons, List.mem_append, not_or] at hnodup
      exact ((List.append_cons_inj_of_notMem hnodup.1.1 hnodup.1.2).mp
        (hsplit.symm.trans hsplit')).1
    have hready : (Machine.start t : Machine Path).Ready := ⟨rfl, rfl⟩
    refine ⟨fun c hc htc => Bool.eq_false_iff.mpr fun hbars => ?_, ?_⟩
    · have hsettles := scene.settles_groups (r := r) (s := t) hmode hselection h.wellFormed hready
        rfl before
      have hbarred : (before.any fun c => decide (t ∈ c) && scene.bars c) = true :=
        List.any_eq_true.mpr ⟨c, hc, by simp [htc, hbars]⟩
      rw [hbarred] at hsettles
      exact Bool.false_ne_true (hended.symm.trans (hsettles w))
    · exact h.byFirstEntry (x := (a, .leave)) (k := k.within w) hselection
        ((Node.tame_groupLines before).ready _ hready hended) hended hfresh hrun
  · rintro ⟨hopen, hfirst⟩
    exact h.may_return hmode hselection hm hs ht hsplit hopen hfirst

/-- Let a scene be built and drafted, and let a message that offers a way back have a suspend point
before it among its siblings, of which `m` is the nearest. The lines of its passages are those of
the groups of the draft, and a feature shows `m`. Turning back sets the least status of the context
of `m` and calls the routine once more. For some outcome of the tests that call shows `m` and ends
under its status, if and only if what the scene writes into the groups in front of that of `m` does
not bar the way for the status, and the way to `m` leads through the first entry of every options
node whose status makes up the context of `m`. -/
theorem shown_again_iff {v : Vocabulary} {content : Element} {root parent n : Node} {d : Draft}
    {q : Path} {i j : Nat} {text : String}
    (hbuild : v.scene content 0 = .ok root count)
    (hdraft : Drafting.scene v.registry root.assignContexts.1 .empty = .ok () d)
    (hparent : root.assignContexts.1.at? q = some parent)
    (hn : parent.children[j]? = some n) (hkind : n.kind = .message t .previousNext text)
    (hm : parent.children[i]? = some m) (hij : i < j) (hs : m.kind.status? = some s)
    (hnearest : ∀ l n, i < l → l < j → parent.children[l]? = some n → n.kind.status? = none) :
    (root.assignContexts.1.passages v.registry).map (Passage.relabel fun _ => ()) =
        d.groups.map Group.passage ∧
      (∃ name send words rest, v.registry.lookup name = .ok send ∧ v.registry.display m =
        .setStatus s :: v.registry.statement send (.single (Text.quote words)) :: rest) ∧
      ∃ back, m.context.least? = some back ∧
        (∀ k : Invocation, k.mode = 0 → root.assignContexts.1.trace v.registry k t =
          [(q ++ [j], .branch .refused), (q ++ [j], .opening), (q ++ [j], .setStatus back),
            (q ++ [j], .redispatch), (q ++ [j], .leave)]) ∧
        m.context ∈ d.groups.map Group.context ∧
        ∀ before after, d.groups.map Group.context = before ++ m.context :: after →
          ((∃ w, ((Machine.start back).dispatch ⟨1, 0, w⟩
              (root.assignContexts.1.passages v.registry)).EndsWith
                ((v.registry.display m).map (Prod.mk (q ++ [i]))) s) ↔
            (∀ c ∈ before, back ∈ c → root.assignContexts.1.bars c = false) ∧
              root.assignContexts.1.ByFirstEntry (q ++ [i]) m.context) := by
  have hscene := Vocabulary.scene_prepared hbuild
  have hgroups := Drafting.scene_ok hscene.wellFormed hdraft
  have hcontexts : d.groups.map Group.context =
      Emission.contexts (root.assignContexts.1.emissions v.registry none []) := by
    rw [hgroups, Emission.collect, List.map_map]
    exact List.map_id _
  have hplace : root.assignContexts.1.at? (q ++ [i]) = some m := by
    rw [Node.at?_append, hparent]
    exact Node.at?_cons_of_getElem? hm m.at?_nil
  have hdrafted : Drafting.Drafted v.registry root.assignContexts.1 := ⟨none, .empty, d, hdraft⟩
  refine ⟨?_, (hdrafted.at? hscene.wellFormed hplace).display_feature hs, ?_⟩
  · rw [hgroups]
    exact Emission.relabel_passages _
  · obtain ⟨back, hleast, hback⟩ := StatusContext.exists_least ((hscene.flows.inhabited
      hscene.wellFormed ⟨_, OrderedSet.mem_singleton.mpr rfl⟩).2 _ m hplace)
    have hturned : parent.backTo j = back := by
      rw [Node.backTo, Node.suspendedBefore_eq hm hij hs hnearest]
      simp [hleast]
    refine ⟨back, hleast, fun k hmode => ?_, ?_, fun before after hsplit => ?_⟩
    · obtain ⟨kind, c, ns⟩ := n
      obtain rfl : kind = .message t .previousNext text := hkind
      rw [← hturned]
      exact (hscene.dispatch_turned (r := v.registry) hparent hn hmode).1
    · rw [hcontexts]
      exact hscene.mem_contexts hplace
    · exact hscene.may_return_iff (k := ⟨1, 0, fun _ _ => false⟩) rfl rfl hplace hs hback
        (hcontexts.symm.trans hsplit)

end Return

namespace Sample

/-- The scene `offer` with the entries of its prompt the other way round. -/
def browse : Element :=
  element "ifndef" [⟨"name", "shop"⟩]
    [element "options" [⟨"text", "pick"⟩]
      [element "option" [⟨"text", "look"⟩] [],
        element "option" [⟨"text", "buy"⟩]
          [element "message" [⟨"style", "yn"⟩, ⟨"text", "sure?"⟩, ⟨"no", "bye"⟩] [],
            element "give" [⟨"x", "5"⟩] []]],
      say "n" "well", say "pn" "done"]

def browseGraph : Node :=
  .fresh .block
    [.fresh (.options 0 "pick")
      [.fresh (.option "look") [],
        .fresh (.option "buy") [.leaf (.message 1 (.yesNo "bye") "sure?"), gift "5"]],
      .leaf (.message 2 .next "well"), .leaf (.message 3 .previousNext "done")]

theorem browse_builds : fullVocabulary.scene browse 0 = .ok browseGraph 4 := rfl

end Sample

/-- In the sample scene turning back from the last message never shows the message before it again:
the call goes on in the first entry of the prompt and is stopped by the question there. With the
entries the other way round it can show the message. -/
theorem offer_browse_shown_again_iff :
    (¬ ∃ w, ((Machine.start 0).dispatch ⟨1, 0, w⟩
        (Sample.offerGraph.assignContexts.1.passages Sample.fullVocabulary.registry)).EndsWith
          [([1], .setStatus 2), ([1], .line "cm.sendNext(\"well\");"), ([1], .leave)] 2) ∧
      ∃ w, ((Machine.start 0).dispatch ⟨1, 0, w⟩
        (Sample.browseGraph.assignContexts.1.passages Sample.fullVocabulary.registry)).EndsWith
          [([1], .setStatus 2), ([1], .line "cm.sendNext(\"well\");"), ([1], .leave)] 2 := by
  have hlines : (Sample.fullVocabulary.registry.display
      (.mk (.message 2 .next "well") (.ofList [0, 1]) [])).map (Prod.mk ([] ++ [1])) =
        [([1], .setStatus 2), ([1], .line "cm.sendNext(\"well\");"), ([1], .leave)] := by
    decide +kernel
  constructor
  · obtain ⟨d, hd⟩ : ∃ d, Drafting.scene Sample.fullVocabulary.registry
        Sample.offerGraph.assignContexts.1 .empty = .ok () d := ⟨_, rfl⟩
    obtain ⟨-, -, back, hleast, -, -, hiff⟩ := shown_again_iff (q := []) (i := 1) (j := 2)
      (m := .mk (.message 2 .next "well") (.ofList [0, 1]) []) (t := 3)
      (n := .mk (.message 3 .previousNext "done") (.singleton 2) [])
      Sample.offer_builds hd rfl rfl rfl rfl (by decide) rfl (by omega)
    obtain rfl : 0 = back := Option.some.inj hleast
    have hgroups := Drafting.scene_ok (Vocabulary.scene_prepared Sample.offer_builds).wellFormed hd
    have hsplit : d.groups.map Group.context = [.start, .singleton 0, .singleton 1] ++
        .ofList [0, 1] :: [.singleton 2, .singleton 3] := by
      rw [hgroups]
      decide +kernel
    have hiff := hiff _ _ hsplit
    rw [hlines] at hiff
    rw [hiff]
    rintro ⟨hopen, -⟩
    have hbars : Sample.offerGraph.assignContexts.1.bars (.singleton 0) = true := by decide +kernel
    exact Bool.false_ne_true ((hopen _ (by simp) (by decide)).symm.trans hbars)
  · obtain ⟨d, hd⟩ : ∃ d, Drafting.scene Sample.fullVocabulary.registry
        Sample.browseGraph.assignContexts.1 .empty = .ok () d := ⟨_, rfl⟩
    obtain ⟨-, -, back, hleast, -, -, hiff⟩ := shown_again_iff (q := []) (i := 1) (j := 2)
      (m := .mk (.message 2 .next "well") (.ofList [0, 1]) []) (t := 3)
      (n := .mk (.message 3 .previousNext "done") (.singleton 2) [])
      Sample.browse_builds hd rfl rfl rfl rfl (by decide) rfl (by omega)
    obtain rfl : 0 = back := Option.some.inj hleast
    have hgroups := Drafting.scene_ok
      (Vocabulary.scene_prepared Sample.browse_builds).wellFormed hd
    have hsplit : d.groups.map Group.context = [.start, .singleton 0, .singleton 1] ++
        .ofList [0, 1] :: [.singleton 2, .singleton 3] := by
      rw [hgroups]
      decide +kernel
    have hiff := hiff _ _ hsplit
    rw [hlines] at hiff
    rw [hiff]
    refine ⟨by decide +kernel, ?_⟩
    intro o prompt status text j rest _ _ _ hsingle
    have hzero : (0 : Status) ∈ OrderedSet.singleton status := hsingle ▸ by decide
    have hone : (1 : Status) ∈ OrderedSet.singleton status := hsingle ▸ by decide
    rw [OrderedSet.mem_singleton] at hzero hone
    exact absurd (hzero.trans hone.symm) (by decide)

end SceneDispatch
