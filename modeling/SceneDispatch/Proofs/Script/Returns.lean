import SceneDispatch.Proofs.Script.Chains
/-!
Where a return stands in a group. Nothing that runs behind a suspend point has the context that the
suspend point has, so its return is the last that is written there. Main statement: behind each
return of a group its block is closed or the group ends.
-/
namespace SceneDispatch

open Statement Emission

namespace Statement

/-- Behind which statement another may stand: a return is followed by a closing brace only. -/
def Closed (x y : Statement) : Prop := x = .leave → y = .closing

section Returns

variable {xs ys : List Statement} {c out : StatusContext}

theorem closed_append (hxs : xs.IsChain Closed) (hys : ys.IsChain Closed)
    (hmeet : xs.getLast? = some .leave → ys = []) : (xs ++ ys).IsChain Closed := by
  refine List.isChain_append.mpr ⟨hxs, hys, fun x hx y hy hleave => ?_⟩
  have hnil := hmeet (hleave ▸ hx)
  rw [hnil] at hy
  cases hy

theorem closed_of_no_return (h : ∀ x ∈ xs, x ≠ .leave) : xs.IsChain Closed := by
  induction xs with
  | nil => exact .nil
  | cons x xs ih =>
    obtain ⟨hx, hxs⟩ := List.forall_mem_cons.mp h
    exact closed_append (List.isChain_singleton x) (ih hxs) (by simp [hx])

/-- A block may end in a return. -/
theorem closed_block (h : xs.IsChain Closed) :
    (Statement.opening :: xs ++ [Statement.closing]).IsChain Closed := by
  have hopened : (Statement.opening :: xs).IsChain Closed :=
    closed_append (List.isChain_singleton _) h (by simp)
  refine List.isChain_append.mpr ⟨hopened, List.isChain_singleton _, fun x _ y hy _ => ?_⟩
  cases hy
  rfl

theorem closed_suspension (h : ∀ x ∈ xs, x ≠ .leave) :
    (xs ++ [Statement.leave]).IsChain Closed := by
  refine closed_append (closed_of_no_return h) (List.isChain_singleton _) fun hlast => ?_
  exact absurd rfl (h _ (List.mem_of_getLast? hlast))

/-- Behind every return a brace is closed or nothing stands. If the last of the statements is a
return, then what flows on is not within the context. -/
structure Returning (c out : StatusContext) (xs : List Statement) : Prop where
  closed : xs.IsChain Closed
  onward : xs.getLast? = some .leave → ∃ t ∈ out, t ∉ c

theorem Returning.nil : Returning c out [] := ⟨.nil, by simp⟩

theorem Returning.mono {out' : StatusContext} (h : Returning c out xs)
    (hsub : ∀ t ∈ out, t ∈ out') : Returning c out' xs := by
  refine ⟨h.closed, fun hlast => ?_⟩
  obtain ⟨t, ht, hc⟩ := h.onward hlast
  exact ⟨t, hsub t ht, hc⟩

theorem Returning.of_closed (h : xs.IsChain Closed) (hlast : xs.getLast? ≠ some .leave) :
    Returning c out xs :=
  ⟨h, fun hleave => absurd hleave hlast⟩

theorem Returning.append (hys : Returning c out ys) (hxs : xs.IsChain Closed)
    (hlast : xs.getLast? ≠ some .leave) : Returning c out (xs ++ ys) := by
  refine ⟨closed_append hxs hys.closed fun hleave => absurd hleave hlast, fun hleave => ?_⟩
  rw [List.getLast?_append, Option.or_eq_some_iff] at hleave
  rcases hleave with hleave | ⟨-, hleave⟩
  · exact hys.onward hleave
  · exact absurd hleave hlast

end Returns

end Statement

section Contexts

variable {r : Registry} {c d out : StatusContext} {n : Node} {e : Emission}

/-- A context that holds all of another as soon as it holds some of it, and otherwise new statuses
only, is the other one or holds a new status. -/
theorem StatusContext.eq_or_exists {ts : List Status} (hd : ∃ s, s ∈ d)
    (hsub : ∀ s ∈ d, s ∈ c ∨ s ∈ ts) (hall : ∀ s ∈ d, s ∉ ts → ∀ t ∈ c, t ∈ d) :
    d = c ∨ ∃ s ∈ d, s ∈ ts := by
  by_cases hnew : ∃ s ∈ d, s ∈ ts
  · exact .inr hnew
  · have hold : ∀ s ∈ d, s ∉ ts := fun s hs hts => hnew ⟨s, hs, hts⟩
    obtain ⟨s, hs⟩ := hd
    refine .inl (OrderedSet.ext fun t => ⟨fun ht => ?_, hall s hs (hold s hs) t⟩)
    exact (hsub t ht).resolve_right (hold t ht)

theorem Flows.out_eq_or (h : Flows c n out) (hwf : n.WellFormed) (hc : ∃ s, s ∈ c) :
    out = c ∨ ∃ s ∈ out, s ∈ n.statuses :=
  StatusContext.eq_or_exists (h.inhabited hwf hc).1 (fun _ => h.mem_of_mem_out)
    fun _ hs hn => h.subset_out hn hs

/-- What a node writes goes to the group of its context, or to one that a status in it runs. -/
theorem Flows.context_eq_or {back : Option Status} {p : Path} (h : Flows c n out)
    (hwf : n.WellFormed) (hc : ∃ s, s ∈ c) (he : e ∈ n.emissions r back p) :
    e.context = c ∨ ∃ s ∈ e.context, s ∈ n.statuses := by
  obtain ⟨q, m, hm, -, ⟨hcontext, -⟩ | ⟨s, hs, hcontext⟩⟩ := Node.accounts_of_mem_emissions he
  · rw [hcontext]
    exact StatusContext.eq_or_exists ((h.inhabited hwf hc).2 q m hm)
      (fun _ => h.mem_of_mem_context hm) fun _ hs hn => h.subset_context hm hn hs
  · rw [hcontext]
    exact .inr ⟨s, OrderedSet.mem_singleton.mpr rfl, Node.mem_statuses_of_at? hm hs⟩

theorem FlowsThrough.out_eq_or {ns : List Node} (h : FlowsThrough c ns out)
    (hwf : ∀ n ∈ ns, n.WellFormed) (hc : ∃ s, s ∈ c) :
    out = c ∨ ∃ s ∈ out, s ∈ Node.statusesIn ns := by
  induction ns generalizing c with
  | nil =>
    cases h
    exact .inl rfl
  | cons n ns ih =>
    cases h with
    | cons h hrest =>
      obtain ⟨hn, hns⟩ := List.forall_mem_cons.mp hwf
      rw [Node.statusesIn]
      rcases ih hrest hns (h.inhabited hn hc).1 with rfl | ⟨s, hs, hnew⟩
      · rcases h.out_eq_or hn hc with heq | ⟨s, hs, hnew⟩
        · exact .inl heq
        · exact .inr ⟨s, hs, List.mem_append_left _ hnew⟩
      · exact .inr ⟨s, hs, List.mem_append_right _ hnew⟩

theorem FlowsThrough.context_eq_or {ns : List Node} {back : Status} {p : Path} {i : Nat}
    (h : FlowsThrough c ns out) (hwf : ∀ n ∈ ns, n.WellFormed) (hc : ∃ s, s ∈ c)
    (he : e ∈ Node.serialEmissions r back p i ns) :
    e.context = c ∨ ∃ s ∈ e.context, s ∈ Node.statusesIn ns := by
  induction ns generalizing c back i with
  | nil => simp [Node.serialEmissions] at he
  | cons n ns ih =>
    cases h with
    | cons h hrest =>
      obtain ⟨hn, hns⟩ := List.forall_mem_cons.mp hwf
      rw [Node.statusesIn]
      rw [Node.serialEmissions, List.mem_append] at he
      rcases he with he | he
      · rcases h.context_eq_or hn hc he with heq | ⟨s, hs, hnew⟩
        · exact .inl heq
        · exact .inr ⟨s, hs, List.mem_append_left _ hnew⟩
      · rcases ih hrest hns (h.inhabited hn hc).1 he with heq | ⟨s, hs, hnew⟩
        · rw [heq]
          rcases h.out_eq_or hn hc with heq | ⟨s, hs, hnew⟩
          · exact .inl heq
          · exact .inr ⟨s, hs, List.mem_append_left _ hnew⟩
        · exact .inr ⟨s, hs, List.mem_append_right _ hnew⟩

theorem FlowsAcross.context_eq_or {ns : List Node} {guard : Nat → Node → Option Condition}
    {p : Path} {i : Nat} (h : FlowsAcross c ns out) (hwf : ∀ n ∈ ns, n.WellFormed)
    (hc : ∃ s, s ∈ c) (he : e ∈ Node.branchEmissions r c guard p i ns) :
    e.context = c ∨ ∃ s ∈ e.context, s ∈ Node.statusesIn ns := by
  induction ns generalizing out i with
  | nil => simp [Node.branchEmissions] at he
  | cons n ns ih =>
    cases h with
    | cons h hrest =>
      obtain ⟨hn, hns⟩ := List.forall_mem_cons.mp hwf
      rw [Node.statusesIn]
      rw [Node.branchEmissions, List.mem_cons, List.mem_cons, List.mem_append, List.mem_cons] at he
      rcases he with rfl | rfl | he | rfl | he
      · exact .inl rfl
      · exact .inl rfl
      · rcases h.context_eq_or hn hc he with heq | ⟨s, hs, hnew⟩
        · exact .inl heq
        · exact .inr ⟨s, hs, List.mem_append_left _ hnew⟩
      · exact .inl rfl
      · rcases ih hrest hns he with heq | ⟨s, hs, hnew⟩
        · exact .inl heq
        · exact .inr ⟨s, hs, List.mem_append_right _ hnew⟩

theorem Emission.exists_of_under_ne_nil {es : List Emission} (h : under c es ≠ []) :
    ∃ e ∈ es, e.context = c := by
  obtain ⟨x, hx⟩ := List.exists_mem_of_ne_nil _ h
  obtain ⟨y, hy, -⟩ := List.mem_map.mp hx
  obtain ⟨e, he, hec, -⟩ := mem_select.mp hy
  exact ⟨e, he, of_decide_eq_true hec⟩

/-- No status behind a node runs a group that the node writes to. -/
theorem Flows.not_mem_of_under {mid : StatusContext} {ts : List Status} {back : Option Status}
    {p : Path} (h : Flows c n mid) (hsep : Separate c (n.statuses ++ ts))
    (hwrites : under d (n.emissions r back p) ≠ []) : ∀ s ∈ ts, s ∉ d := by
  intro s hs
  obtain ⟨e, he, rfl⟩ := exists_of_under_ne_nil hwrites
  exact h.not_mem_emission (hsep.right.apart s hs) (fun hn => hsep.not_mem_right hn hs) e he

end Contexts

section Suspending

variable {r : Registry}

theorem Statement.ne_leave_of_plain {x : Statement} (h : x.event?.isSome = true) : x ≠ .leave := by
  rintro rfl
  cases h

theorem Registry.builtIn_ne_leave (name : String) (a : Arguments) :
    ∀ x ∈ r.builtIn name a, x ≠ .leave := fun x hx =>
  ne_leave_of_plain (r.plain_builtIn (p := []) name a ([], x) (List.mem_map_of_mem hx))

theorem Registry.shown_ne_leave (style : MessageStyle) (text : String) :
    ∀ x ∈ r.shown style text, x ≠ .leave := fun x hx =>
  ne_leave_of_plain (r.plain_shown (p := []) style text ([], x) (List.mem_map_of_mem hx))

theorem Registry.closed_display (status : Status) {xs : List Statement}
    (h : ∀ x ∈ xs, x ≠ .leave) :
    (Statement.setStatus status :: xs ++ [Statement.leave]).IsChain Closed :=
  closed_suspension (List.forall_mem_cons.mpr ⟨by simp, h⟩)

theorem Registry.returning_refusal {c out : StatusContext} (back : Option Status)
    (style : MessageStyle) : Returning c out (r.refusal back style) := by
  have hrefused : ∀ {xs : List Statement}, (∀ x ∈ xs, x ≠ .leave) →
      Returning c out (.branch .refused :: (.opening :: (xs ++ [.leave]) ++ [.closing])) := by
    intro xs hxs
    refine .of_closed (closed_append (List.isChain_singleton _)
      (closed_block (closed_suspension hxs)) (by simp)) ?_
    rw [← List.cons_append, List.getLast?_concat]
    simp
  cases style with
  | next => exact .nil
  | ok => exact .nil
  | previousNext =>
    cases back with
    | none => exact .nil
    | some previous =>
      have hback : ∀ x ∈ [.setStatus previous, .redispatch], x ≠ Statement.leave := by simp
      exact hrefused hback
  | yesNo text =>
    have hshown : ∀ x ∈ r.builtIn MessageStyle.ok.featureName (.single (Text.quote text)) ++
        r.builtIn Drafting.endFeature .empty, x ≠ .leave :=
      List.forall_mem_append.mpr ⟨r.builtIn_ne_leave _ _, r.builtIn_ne_leave _ _⟩
    simpa [refusal] using hrefused hshown

theorem Condition.closed_arm (first : Bool) (guard : Option Condition) {xs : List Statement}
    (h : xs.IsChain Closed) :
    (header first guard ++ (Statement.opening :: xs ++ [Statement.closing])).IsChain Closed := by
  have hheader : ∀ x ∈ header first guard, x ≠ .leave := by
    cases guard <;> cases first <;> simp [header]
  refine closed_append (closed_of_no_return hheader) (closed_block h) fun hlast => ?_
  exact absurd rfl (hheader _ (List.mem_of_getLast? hlast))

mutual

/-- Whatever the group, a node that suspends in it sends on something else than its context. -/
theorem Flows.returning : ∀ {c out : StatusContext} {n : Node} (back : Option Status) (p : Path)
    (d : StatusContext), Flows c n out → n.WellFormed → (∃ s, s ∈ c) → Separate c n.statuses →
    Returning d out (under d (n.emissions r back p))
  | c, out, .mk kind _ ns, back, p, d, h, hwf, hc, hsep => by
    have hns := (Node.wellFormed_mk.mp hwf).2
    cases h with
    | serial hk h =>
      rw [Node.emissions_serial r back p c ns hk, under_touch]
      rw [Node.statuses_serial hk] at hsep
      exact h.returning _ p 0 d hns hc hsep
    | switch h hout =>
      rw [Node.emissions_switch, under_touch]
      exact (h.returning p 0 d hns hc hsep).mono fun t ht => (hout t).mpr (.inl ht)
    | @command _ f a =>
      rw [Node.emissions_command, under_touch]
      have hplain : ∀ x ∈ under d [⟨c, p, [r.statement f a]⟩], x ≠ .leave := by
        intro x hx
        obtain ⟨y, hy, rfl⟩ := List.mem_map.mp hx
        obtain ⟨e, he, -, -, hy⟩ := mem_select.mp hy
        cases List.mem_singleton.mp he
        rw [List.mem_singleton.mp hy]
        exact ne_leave_of_plain (plain_terminated _)
      exact .of_closed (closed_of_no_return hplain) fun hlast =>
        hplain _ (List.mem_of_getLast? hlast) rfl
    | @message _ status style text =>
      rw [Node.emissions_message, under_touch]
      have hstatus : status ∉ c :=
        hsep.apart status (Node.mem_statuses_of_at? (Node.at?_nil _) rfl)
      by_cases hd : c = d
      · subst hd
        have hother : OrderedSet.singleton status ≠ c := by
          rintro rfl
          exact hstatus (OrderedSet.mem_singleton.mpr rfl)
        rw [under_cons_of_eq (by rfl), under_cons_of_ne hother]
        refine ⟨?_, fun _ => ⟨status, OrderedSet.mem_singleton.mpr rfl, hstatus⟩⟩
        simpa [under] using Registry.closed_display status (r.shown_ne_leave style text)
      · rw [under_cons_of_ne hd]
        by_cases hd : OrderedSet.singleton status = d
        · rw [under_cons_of_eq hd]
          simpa [under] using r.returning_refusal back style
        · rw [under_cons_of_ne hd]
          exact .nil
    | @options _ _ status text _ h =>
      rw [Node.emissions_options, under_touch]
      have hown : ∃ s, s ∈ OrderedSet.singleton status :=
        ⟨status, OrderedSet.mem_singleton.mpr rfl⟩
      have hnew : ∀ s, s ∈ OrderedSet.singleton status ∨ s ∈ Node.statusesIn ns → s ∉ c := by
        intro s hs
        refine hsep.apart s ?_
        rw [Node.statuses, List.mem_append]
        simpa [NodeKind.status?] using hs
      by_cases hd : c = d
      · subst hd
        have hsilent : under c (⟨.singleton status, p, []⟩ ::
            Node.branchEmissions r (.singleton status) (fun i _ => some (.selected i)) p 0 ns) =
            [] := by
          rw [under_touch]
          by_contra hwrites
          obtain ⟨e, he, rfl⟩ := exists_of_under_ne_nil hwrites
          rcases h.context_eq_or hns hown he with heq | ⟨s, hs, hbelow⟩
          · obtain ⟨s, hs⟩ := hc
            exact hnew s (.inl (heq ▸ hs)) hs
          · exact hnew s (.inr hbelow) hs
        rw [under_cons_of_eq (by rfl), hsilent, List.append_nil]
        refine ⟨Registry.closed_display status (r.builtIn_ne_leave _ _), fun _ => ?_⟩
        have hentries : ns ≠ [] := fun hnil =>
          (Node.wellFormed_mk.mp hwf).1.1 (List.map_eq_nil_iff.mpr hnil)
        obtain ⟨t, ht⟩ := (h.inhabited hns hown).1 hentries
        exact ⟨t, ht, hnew t (h.mem_of_mem_out ht)⟩
      · rw [under_cons_of_ne hd, under_touch]
        exact h.returning p 0 d hns hown (Separate.behind hsep)

theorem FlowsThrough.returning : ∀ {c out : StatusContext} {ns : List Node} (back : Status)
    (p : Path) (i : Nat) (d : StatusContext), FlowsThrough c ns out → (∀ n ∈ ns, n.WellFormed) →
    (∃ s, s ∈ c) → Separate c (Node.statusesIn ns) →
    Returning d out (under d (Node.serialEmissions r back p i ns))
  | _, _, _, _, _, _, _, .nil, _, _, _ => .nil
  | c, out, n :: ns, back, p, i, d, .cons h hrest, hwf, hc, hsep => by
    obtain ⟨hn, hns⟩ := List.forall_mem_cons.mp hwf
    have hmid := (h.inhabited hn hc).1
    have hfirst := h.returning (some back) (p ++ [i]) d hn hc hsep.left
    have hlater := hrest.returning (Drafting.backAfter back n) p (i + 1) d hns hmid (hsep.after h)
    rw [Node.serialEmissions, under_append]
    by_cases hlast : (under d (n.emissions r (some back) (p ++ [i]))).getLast? = some .leave
    -- behind the return the node leaves the group to nobody
    · have hwrites : under d (n.emissions r (some back) (p ++ [i])) ≠ [] := by
        intro hnil
        rw [hnil] at hlast
        cases hlast
      have hfresh := h.not_mem_of_under hsep hwrites
      obtain ⟨t, ht, htd⟩ := hfirst.onward hlast
      have hsilent : under d (Node.serialEmissions r (Drafting.backAfter back n) p (i + 1) ns) =
          [] := by
        by_contra hlate
        obtain ⟨e, he, rfl⟩ := exists_of_under_ne_nil hlate
        rcases hrest.context_eq_or hns hmid he with heq | ⟨s, hs, hnew⟩
        · exact htd (heq ▸ ht)
        · exact hfresh s hnew hs
      rw [hsilent, List.append_nil]
      refine ⟨hfirst.closed, fun _ => ?_⟩
      rcases hrest.out_eq_or hns hmid with rfl | ⟨s, hs, hnew⟩
      · exact ⟨t, ht, htd⟩
      · exact ⟨s, hs, hfresh s hnew⟩
    · exact hlater.append hfirst.closed hlast

theorem FlowsAcross.returning : ∀ {c out : StatusContext} {ns : List Node}
    {guard : Nat → Node → Option Condition} (p : Path) (i : Nat) (d : StatusContext),
    FlowsAcross c ns out → (∀ n ∈ ns, n.WellFormed) → (∃ s, s ∈ c) →
    Separate c (Node.statusesIn ns) →
    Returning d out (under d (Node.branchEmissions r c guard p i ns))
  | _, _, _, _, _, _, _, .nil, _, _, _ => .nil
  | c, _, n :: ns, guard, p, i, d, .cons h hrest, hwf, hc, hsep => by
    obtain ⟨hn, hns⟩ := List.forall_mem_cons.mp hwf
    have hfirst := h.returning (some .start) (p ++ [i]) d hn hc hsep.left
    have hlater : Returning d _ (under d (Node.branchEmissions r c guard p (i + 1) ns)) :=
      hrest.returning p (i + 1) d hns hc hsep.right
    by_cases hd : c = d
    · subst hd
      rw [Node.under_branches]
      refine (hlater.append (Condition.closed_arm _ _ hfirst.closed) ?_).mono
        fun t ht => OrderedSet.mem_union.mpr (.inr ht)
      rw [← List.append_assoc, List.getLast?_concat]
      simp
    -- no other arm writes to a group that a status of the arm runs
    · rw [Node.under_branches_of_ne hd]
      by_cases hwrites : under d (n.emissions r (some .start) (p ++ [i])) = []
      · rw [hwrites]
        exact hlater.mono fun t ht => OrderedSet.mem_union.mpr (.inr ht)
      · have hsilent : under d (Node.branchEmissions r c guard p (i + 1) ns) = [] := by
          by_contra hlate
          obtain ⟨e, he, rfl⟩ := exists_of_under_ne_nil hlate
          rcases hrest.context_eq_or hns hc he with heq | ⟨s, hs, hnew⟩
          · exact hd heq.symm
          · exact h.not_mem_of_under hsep hwrites s hnew hs
        rw [hsilent, List.append_nil]
        exact hfirst.mono fun t ht => OrderedSet.mem_union.mpr (.inl ht)

end

end Suspending

namespace Registry

/-- A return is the last statement of its group, or its block is closed right behind it. So no
statement follows it in the same list. -/
theorem nothing_behind_return {r : Registry} {resources : ResourceTable} {content : Element}
    {root : Node} {count : Nat} {d : Draft} (h : r.Drafts resources content root count d)
    {g : Group} (hg : g ∈ d.groups) {before after : List Statement}
    (hsplit : g.statements = before ++ .leave :: after) :
    (after = [] ∨ ∃ outer inner rest, before = outer ++ .opening :: inner ∧
      Nested (inner ++ [.leave]) ∧ after = .closing :: rest) ∧
    ∀ front rest, after = front ++ rest → Sequence front → front = [] := by
  have hscene := Vocabulary.scene_prepared h.built
  have hstart : ∃ s, s ∈ StatusContext.start := ⟨_, OrderedSet.mem_singleton.mpr rfl⟩
  rw [Drafting.scene_ok hscene.wellFormed h.drafted, collect_eq] at hg
  obtain ⟨c, -, rfl⟩ := List.mem_map.mp hg
  have hclosed := (hscene.flows.returning (r := r) none [] c hscene.wellFormed hstart
    hscene.separate).closed
  have hnested := (Node.sequence_emissions (r := r) none [] c hscene.wellFormed).nested
  have hsplit : under c (root.assignContexts.1.emissions r none []) = before ++ .leave :: after :=
    hsplit
  rw [hsplit] at hclosed hnested
  cases after with
  | nil => exact ⟨.inl rfl, by simp⟩
  | cons y rest =>
    obtain rfl : y = .closing :=
      List.IsChain.rel (List.isChain_append.mp hclosed).2.1 rfl
    refine ⟨.inr ?_, fun front rest' hfront hsequence => ?_⟩
    · have hopened : before ++ .leave :: .closing :: rest =
          before ++ [.leave] ++ .closing :: rest := by
        simp
      obtain ⟨outer, inner, hbefore, hinner⟩ := hnested.exists_opening hopened
      rcases List.eq_nil_or_concat inner with rfl | ⟨inner, x, rfl⟩
      · cases (List.append_inj' hbefore rfl).2
      · rw [List.concat_eq_append] at hbefore hinner
        rw [← List.cons_append, ← List.append_assoc] at hbefore
        obtain ⟨rfl, hlast⟩ := List.append_inj' hbefore rfl
        cases hlast
        exact ⟨outer, inner, rest, rfl, hinner, rfl⟩
    · cases front with
      | nil => rfl
      | cons x front =>
        obtain rfl : .closing = x := (List.cons.inj hfront).1
        obtain ⟨outer, inner, hempty, -⟩ :=
          hsequence.nested.exists_opening (List.nil_append _).symm
        simp at hempty

/-- Behind the refusal of a question its block is closed, and the gift follows. -/
theorem offer_nothing_behind_return :
    ∃ d g before after, Sample.fullRegistry.Drafts .empty Sample.offer Sample.offerGraph 4 d ∧
      g ∈ d.groups ∧ g.context = .singleton 1 ∧ g.statements = before ++ .leave :: after ∧
      after = [.closing, .line "cm.gainMeso(5);"] ∧
      ∀ front rest, after = front ++ rest → Sequence front → front = [] := by
  obtain ⟨d, hd⟩ : ∃ d, Drafting.scene Sample.fullRegistry
      Sample.offerGraph.assignContexts.1 .empty = .ok () d := ⟨_, rfl⟩
  have hdrafts : Sample.fullRegistry.Drafts .empty Sample.offer Sample.offerGraph 4 d :=
    ⟨Sample.offer_builds, hd⟩
  have hscene := Vocabulary.scene_prepared hdrafts.built
  have hg : (⟨.singleton 1,
      [.branch .refused, .opening, .line "cm.sendOk(\"bye\");", .line "cm.dispose();"] ++
        .leave :: [.closing, .line "cm.gainMeso(5);"]⟩ : Group) ∈ d.groups := by
    rw [Drafting.scene_ok hscene.wellFormed hd]
    decide +kernel
  exact ⟨d, _, _, _, hdrafts, hg, rfl, rfl, rfl, (nothing_behind_return hdrafts hg rfl).2⟩

end Registry

end SceneDispatch
