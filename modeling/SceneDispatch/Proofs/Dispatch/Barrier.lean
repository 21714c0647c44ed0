import SceneDispatch.Proofs.Dispatch.Choice
import SceneDispatch.Proofs.Dispatch.Simulation
/-!
What bars the way through a group. Main statements: whether a call that selects the first entry can
come through what a node writes into a group is decided by the node, and what statuses flow through
does not bar the groups that they reach.
-/
namespace SceneDispatch

open Machine

namespace Node

mutual

/-- What the node writes into the group of `c` ends every call that goes on with the first entry,
however tests come out. -/
def bars (c : StatusContext) : Node → Bool
  | mk kind context ns =>
    match kind with
    | .block | .case _ | .option _ => barsAny c ns
    | .switch _ => if context = c then ns.any isOtherwise && barsAll c ns else barsAny c ns
    | .command .. => false
    | .message .. => context = c
    | .options status _ =>
      context = c || if OrderedSet.singleton status = c then barsFirst c ns else barsAny c ns

def barsAny (c : StatusContext) : List Node → Bool
  | [] => false
  | n :: ns => bars c n || barsAny c ns

def barsAll (c : StatusContext) : List Node → Bool
  | [] => true
  | n :: ns => bars c n && barsAll c ns

def barsFirst (c : StatusContext) : List Node → Bool
  | [] => false
  | n :: _ => bars c n

end

theorem bars_serial {kind : NodeKind} (h : kind.isSerial = true) (c context : StatusContext)
    (ns : List Node) : (mk kind context ns).bars c = barsAny c ns := by
  cases kind <;> first | rfl | cases h

theorem barsAny_eq_any (c : StatusContext) (ns : List Node) : barsAny c ns = ns.any (bars c) := by
  induction ns with
  | nil => rfl
  | cons n ns ih => rw [barsAny, ih, List.any_cons]

theorem barsAll_eq_all (c : StatusContext) (ns : List Node) : barsAll c ns = ns.all (bars c) := by
  induction ns with
  | nil => rfl
  | cons n ns ih => rw [barsAll, ih, List.all_cons]

theorem barsAny_eq_false {c : StatusContext} {ns : List Node} (h : ∀ n ∈ ns, n.bars c = false) :
    barsAny c ns = false := by
  rw [barsAny_eq_any]
  exact List.any_eq_false.mpr fun n hn => Bool.eq_false_iff.mp (h n hn)

theorem barsAny_of_barsFirst {c : StatusContext} {ns : List Node} (h : barsFirst c ns = true) :
    barsAny c ns = true := by
  cases ns with
  | nil => cases h
  | cons n ns => exact Bool.or_eq_true_iff.mpr (.inl h)

end Node

section Settling

variable {r : Registry} {k : Invocation} {c : StatusContext}

theorem select_arm (g : Nat → Node → Option Condition) (p : Path) (i : Nat) (n : Node)
    (ns : List Node) :
    Emission.select (· = c) (Node.branchEmissions r c g p i (n :: ns)) =
      armLines p i (Condition.header (i = 0) (g i n))
        (Emission.select (· = c) (n.emissions r (some .start) (p ++ [i])))
        (Emission.select (· = c) (Node.branchEmissions r c g p (i + 1) ns)) := by
  rw [Node.branchEmissions, Emission.select_arm_of_keep (by simp), armLines, List.append_assoc]

section Leaves

variable {context : StatusContext} {ns : List Node} {x : Machine Path}

/-- A suspend point of the context ends every call that comes to it. -/
theorem settles_suspended {p : Path} {status : Status} {shown : List Statement}
    {rest : List Emission} (hc : context = c) (hx : x.Ready) (hended : x.story.ended = false)
    (hshown : ∀ y ∈ shown.map (Prod.mk p), y.2.event?.isSome = true) :
    Settles k x (Emission.select (· = c)
      (⟨context, p, .setStatus status :: shown ++ [.leave]⟩ :: rest)) true := by
  intro w
  rw [run_suspended (decide_eq_true hc) hx hended hshown]
  rfl

theorem settles_command (f : Feature) (a : Arguments) (b : Option Status) (p : Path) (hx : x.Ready)
    (hended : x.story.ended = false) :
    Settles k x (Emission.select (· = c) (Node.emissions r b p (.mk (.command f a) context ns)))
      false := by
  have hplain : ∀ y ∈ [(p, r.statement f a)], y.2.event?.isSome = true := by
    simp [Registry.statement, Statement.plain_terminated]
  rw [Node.emissions_command, Emission.select_touch]
  by_cases hc : context = c
  · rw [Emission.select_cons_of_keep (decide_eq_true hc)]
    refine ⟨k.world, ?_⟩
    change (x.run _ [(p, r.statement f a)]).story.ended = false
    rw [run_plain hx.skipping hended hplain]
    exact hended
  · rw [Emission.select_cons_of_not (decide_eq_false hc)]
    exact .nil hended

/-- Behind a message nothing stands in the way of a call that is not refused. -/
theorem settles_message (status : Status) (style : MessageStyle) (text : String)
    (b : Option Status) (p : Path) (hmode : k.mode = 1) (hx : x.Ready)
    (hended : x.story.ended = false) :
    Settles k x (Emission.select (· = c)
      (Node.emissions r b p (.mk (.message status style text) context ns))) (context = c) := by
  rw [Node.emissions_message, Emission.select_touch]
  by_cases hc : context = c
  · rw [decide_eq_true hc]
    exact settles_suspended hc hx hended (Registry.plain_shown _ _)
  · rw [decide_eq_false hc, Emission.select_cons_of_not (decide_eq_false hc)]
    by_cases hstatus : OrderedSet.singleton status = c
    · rw [Emission.select_cons_of_keep (decide_eq_true hstatus), Emission.select_nil,
        List.append_nil]
      exact ⟨k.world, (congrArg Story.ended
        (story_run_refusal (k := k.within k.world) hmode hx hended)).trans hended⟩
    · rw [Emission.select_cons_of_not (decide_eq_false hstatus)]
      exact .nil hended

end Leaves

mutual

/-- Whether a call that goes on with the first entry comes through what a node writes into a
group. -/
theorem Node.settles (hmode : k.mode = 1) (hselection : k.selection = 0) : ∀ (n : Node)
    (b : Option Status) (p : Path) (x : Machine Path), n.WellFormed → x.Ready →
    x.story.ended = false →
    Settles k x (Emission.select (· = c) (n.emissions r b p)) (n.bars c)
  | .mk kind context ns, b, p, x, hwf, hx, hended => by
    obtain ⟨hkind, hns⟩ := Node.wellFormed_mk.mp hwf
    cases hk : kind.isSerial with
    | true =>
      rw [Node.emissions_serial r b p context ns hk, Emission.select_touch, Node.bars_serial hk]
      exact Node.settles_serial hmode hselection ns _ _ _ x hns hx hended
    | false =>
      cases kind with
      | block => cases hk
      | case _ => cases hk
      | option _ => cases hk
      | switch f =>
        rw [Node.emissions_switch, Emission.select_touch, Node.bars]
        split
        · next hc =>
          rw [hc]
          exact Node.settles_arms hmode hselection f ns _ _ x hns (by simpa using hkind.1)
            (Node.not_isOtherwise_of_admits hkind) hx hended (absurd rfl)
        · next hc =>
          exact Node.settles_apart hmode hselection hc ns _ _ _ x hns hx hended
      | command f a => exact settles_command f a b p hx hended
      | message status style text => exact settles_message status style text b p hmode hx hended
      | options status text =>
        rw [Node.emissions_options, Emission.select_touch, Node.bars]
        by_cases hc : context = c
        · rw [decide_eq_true hc, Bool.true_or]
          exact settles_suspended hc hx hended (Registry.plain_prompted _ _)
        · rw [decide_eq_false hc, Bool.false_or, Emission.select_cons_of_not (decide_eq_false hc),
            Emission.select_touch]
          split
          · next hstatus =>
            rw [hstatus]
            exact Node.settles_entries hmode hselection ns p x hns hx hended
          · next hstatus =>
            exact Node.settles_apart hmode hselection hstatus ns _ _ _ x hns hx hended

theorem Node.settles_serial (hmode : k.mode = 1) (hselection : k.selection = 0) :
    ∀ (ns : List Node) (b : Status) (p : Path) (i : Nat) (x : Machine Path),
    (∀ n ∈ ns, n.WellFormed) → x.Ready → x.story.ended = false →
    Settles k x (Emission.select (· = c) (Node.serialEmissions r b p i ns)) (Node.barsAny c ns)
  | [], _, _, _, x, _, _, hended => .nil hended
  | n :: ns, b, p, i, x, hwf, hx, hended => by
    obtain ⟨hn, hns⟩ := List.forall_mem_cons.mp hwf
    rw [Node.serialEmissions, Emission.select_append, Node.barsAny]
    refine (Node.settles hmode hselection n _ _ x hn hx hended).append fun w hended' => ?_
    exact Node.settles_serial hmode hselection ns _ _ _ _ hns
      ((Node.tame_emissions _ n _ _).ready x hx hended') hended'

/-- Arms of another group stand in the group without their braces. -/
theorem Node.settles_apart (hmode : k.mode = 1) (hselection : k.selection = 0)
    {context : StatusContext} (hc : context ≠ c) : ∀ (ns : List Node)
    (g : Nat → Node → Option Condition) (p : Path) (i : Nat) (x : Machine Path),
    (∀ n ∈ ns, n.WellFormed) → x.Ready → x.story.ended = false →
    Settles k x (Emission.select (· = c) (Node.branchEmissions r context g p i ns))
      (Node.barsAny c ns)
  | [], _, _, _, x, _, _, hended => .nil hended
  | n :: ns, g, p, i, x, hwf, hx, hended => by
    obtain ⟨hn, hns⟩ := List.forall_mem_cons.mp hwf
    rw [Node.branchEmissions, Emission.select_arm_of_not (decide_eq_false hc), Node.barsAny]
    refine (Node.settles hmode hselection n _ _ x hn hx hended).append fun w hended' => ?_
    exact Node.settles_apart hmode hselection hc ns _ _ _ _ hns
      ((Node.tame_emissions _ n _ _).ready x hx hended') hended'

/-- Through a switch leads any arm that can be passed, and the way past all arms if there is no
default. -/
theorem Node.settles_arms (hmode : k.mode = 1) (hselection : k.selection = 0) (f : Feature) :
    ∀ (ns : List Node) (p : Path) (i : Nat) (x : Machine Path), (∀ n ∈ ns, n.WellFormed) →
    (∀ n ∈ ns, ∃ test, n.kind = .case test) → (∀ n ∈ ns.dropLast, n.isOtherwise = false) →
    x.Ready → x.story.ended = false → (i ≠ 0 → x.taken = false) →
    Settles k x (Emission.select (· = c)
      (Node.branchEmissions r c (fun _ n => r.condition f n.test) p i ns))
      (ns.any Node.isOtherwise && Node.barsAll c ns)
  | [], _, _, x, _, _, _, _, hended, _ => .nil hended
  | n :: ns, p, i, x, hwf, hcases, hlast, hx, hended, htaken => by
    obtain ⟨hn, hns⟩ := List.forall_mem_cons.mp hwf
    obtain ⟨⟨test, htest⟩, hcases⟩ := List.forall_mem_cons.mp hcases
    have hfirst : decide (i = 0) = false → x.taken = false := fun hi => htaken (by simpa using hi)
    have htame := fun w => Node.tame_emissions (r := r) (k := k.within w) (· = c) n (some .start)
      (p ++ [i])
    have hinner := fun (x : Machine Path) hx hended =>
      Node.settles hmode hselection n (some .start) (p ++ [i]) x hn hx hended
    have hchain : ∀ w (x : Machine Path), x.Ready → x.story.ended = false → x.taken = true →
        (x.run (k.within w) (Emission.select (· = c)
          (Node.branchEmissions r c (fun _ n => r.condition f n.test) p (i + 1) ns))).story =
          x.story :=
      fun w x hx hended htaken => (run_taken (by simp) hx hended htaken).1
    rw [select_arm, Node.barsAll, List.any_cons]
    cases hotherwise : n.isOtherwise with
    | true =>
      -- a default arm is the last
      obtain rfl : ns = [] := by
        cases ns with
        | nil => rfl
        | cons n' ns =>
          have := hlast n (by simp)
          rw [hotherwise] at this
          cases this
      simp only [condition_of_otherwise f hotherwise, Node.barsAll, Bool.true_or, Bool.true_and,
        Bool.and_true]
      exact settles_arm htame (letsIn_none hx hended hfirst) hinner hchain
    | false =>
      obtain ⟨e, he⟩ := condition_of_not_otherwise (r := r) f htest hotherwise
      have hlast' : ∀ n ∈ ns.dropLast, n.isOtherwise = false :=
        fun n' hn' => hlast n' (Node.mem_dropLast_cons hn')
      rw [Bool.false_or, ← Bool.and_assoc, Bool.and_comm (ns.any _), Bool.and_assoc]
      simp only [he]
      refine settles_arm_test htame hx hended hfirst hinner hchain fun x hx hended htaken => ?_
      exact Node.settles_arms hmode hselection f ns p (i + 1) x hns hcases hlast' hx hended
        fun _ => htaken

/-- Of the entries of an options node the first one is entered. -/
theorem Node.settles_entries (hmode : k.mode = 1) (hselection : k.selection = 0) :
    ∀ (ns : List Node) (p : Path) (x : Machine Path), (∀ n ∈ ns, n.WellFormed) → x.Ready →
    x.story.ended = false →
    Settles k x (Emission.select (· = c)
      (Node.branchEmissions r c (fun i _ => some (.selected i)) p 0 ns)) (Node.barsFirst c ns)
  | [], _, x, _, _, hended => .nil hended
  | n :: ns, p, x, hwf, hx, hended => by
    rw [select_arm]
    have hn : n.WellFormed := hwf n List.mem_cons_self
    exact settles_arm (fun w => Node.tame_emissions _ n _ _) (letsIn_selected hx hended hselection)
      (fun x hx hended => Node.settles hmode hselection n _ _ x hn hx hended)
      fun w x hx hended htaken => (run_taken (by simp) hx hended htaken).1

end

end Settling

section Passing

variable {c : StatusContext}

mutual

/-- What bars the group of a context is written for a node of that context. -/
theorem Node.exists_at?_of_bars : ∀ {n : Node}, n.bars c = true →
    ∃ q m, n.at? q = some m ∧ m.context = c
  | .mk kind context ns, h => by
    have hbelow : Node.barsAny c ns = true →
        ∃ q m, (Node.mk kind context ns).at? q = some m ∧ m.context = c := by
      intro h
      obtain ⟨j, n, q, m, hn, hm, hc⟩ := Node.exists_at?_of_barsAny h
      exact ⟨j :: q, m, Node.at?_cons_of_getElem? hn hm, hc⟩
    by_cases hself : context = c
    · exact ⟨[], _, rfl, hself⟩
    · apply hbelow
      cases kind with
      | block => exact h
      | case _ => exact h
      | option _ => exact h
      | switch f => rwa [Node.bars, if_neg hself] at h
      | command f a => cases h
      | message status style text => exact absurd (of_decide_eq_true h) hself
      | options status text =>
        rw [Node.bars, decide_eq_false hself, Bool.false_or] at h
        split at h
        · exact Node.barsAny_of_barsFirst h
        · exact h

theorem Node.exists_at?_of_barsAny : ∀ {ns : List Node}, Node.barsAny c ns = true →
    ∃ (j : Nat) (n : Node) (q : Path) (m : Node), ns[j]? = some n ∧ n.at? q = some m ∧
      m.context = c
  | n :: ns, h => by
    rcases Bool.or_eq_true_iff.mp h with h | h
    · obtain ⟨q, m, hm, hc⟩ := Node.exists_at?_of_bars h
      exact ⟨0, n, q, m, rfl, hm, hc⟩
    · obtain ⟨j, n', q, m, hn, hm, hc⟩ := Node.exists_at?_of_barsAny h
      exact ⟨j + 1, n', q, m, hn, hm, hc⟩

end

/-- A node whose statuses lie apart from some of the context does not bar its group. -/
theorem Flows.bars_eq_false_of_not_mem {ci out : StatusContext} {n : Node} {t : Status}
    (h : Flows ci n out) (ht : t ∈ c) (hci : t ∉ ci) (hn : t ∉ n.statuses) : n.bars c = false := by
  refine Bool.eq_false_iff.mpr fun hbars => ?_
  obtain ⟨q, m, hm, rfl⟩ := Node.exists_at?_of_bars hbars
  rcases h.mem_of_mem_context hm ht with h | h
  · exact hci h
  · exact hn h

mutual

/-- What flows out of a node has come through every group that it goes on in. -/
theorem Flows.bars_eq_false : ∀ {ci out : StatusContext} {n : Node}, Flows ci n out →
    n.WellFormed → Separate ci n.statuses → (∃ s, s ∈ ci) → out.Within c → n.bars c = false
  | _, _, .mk kind _ ns, .serial hk h, hwf, hsep, hci, hout => by
    rw [Node.statuses_serial hk] at hsep
    rw [Node.bars_serial hk]
    exact h.barsAny_eq_false (Node.wellFormed_mk.mp hwf).2 hsep hci hout
  | ci, out, .mk (.switch f) _ ns, .switch h hjoined, hwf, hsep, hci, hout => by
    have harms := h.bars_eq_false (Node.wellFormed_mk.mp hwf).2 hsep hci fun t ht =>
      hout t ((hjoined t).mpr (.inl ht))
    rw [Node.bars]
    split
    · refine Bool.eq_false_iff.mpr fun hbars => ?_
      obtain ⟨hany, hall⟩ := Bool.and_eq_true_iff.mp hbars
      obtain ⟨n, hn, -⟩ := List.any_eq_true.mp hany
      rw [Node.barsAll_eq_all, List.all_eq_true] at hall
      exact Bool.false_ne_true ((harms n hn).symm.trans (hall n hn))
    · exact Node.barsAny_eq_false harms
  | ci, out, .mk (.options status text) _ ns, .options h, hwf, hsep, hci, hout => by
    obtain ⟨hkind, hns⟩ := Node.wellFormed_mk.mp hwf
    have hstatus : ∃ s, s ∈ OrderedSet.singleton status :=
      ⟨status, OrderedSet.mem_singleton.mpr rfl⟩
    have hentries := h.bars_eq_false hns (Separate.behind hsep) hstatus hout
    obtain ⟨t, ht⟩ := (h.inhabited hns hstatus).1 (by simpa using hkind.1)
    have hself : ci ≠ c := by
      rintro rfl
      refine hsep.apart t ?_ (hout t ht)
      rcases h.mem_of_mem_out ht with h | h
      · rw [OrderedSet.mem_singleton.mp h]
        exact List.mem_cons_self
      · exact List.mem_cons_of_mem _ h
    rw [Node.bars, decide_eq_false hself, Bool.false_or]
    split
    · refine Bool.eq_false_iff.mpr fun hbars => ?_
      exact Bool.false_ne_true ((Node.barsAny_eq_false hentries).symm.trans
        (Node.barsAny_of_barsFirst hbars))
    · exact Node.barsAny_eq_false hentries
  | ci, _, .mk (.message status style text) _ [], .message, hwf, hsep, hci, hout => by
    refine decide_eq_false ?_
    rintro rfl
    exact hsep.apart status List.mem_cons_self (hout status (OrderedSet.mem_singleton.mpr rfl))
  | _, _, _, .command, _, _, _, _ => rfl

theorem FlowsThrough.barsAny_eq_false : ∀ {ci out : StatusContext} {ns : List Node},
    FlowsThrough ci ns out → (∀ n ∈ ns, n.WellFormed) → Separate ci (Node.statusesIn ns) →
    (∃ s, s ∈ ci) → out.Within c → Node.barsAny c ns = false
  | _, _, _, .nil, _, _, _, _ => rfl
  | ci, out, n :: ns, .cons h hrest, hwf, hsep, hci, hout => by
    obtain ⟨hn, hns⟩ := List.forall_mem_cons.mp hwf
    have hmid := (h.inhabited hn hci).1
    have hbehind := hsep.after h
    obtain ⟨t, ht⟩ := (hrest.inhabited hns hmid).1
    have hfirst : n.bars c = false := by
      by_cases hlater : t ∈ Node.statusesIn ns
      · refine h.bars_eq_false_of_not_mem (hout t ht) (hsep.right.apart t hlater) fun htn => ?_
        exact hsep.not_mem_right htn hlater
      · exact h.bars_eq_false hn hsep.left hci fun t' ht' =>
          hout t' (hrest.block.subset_out hlater ht t' ht')
    rw [Node.barsAny, hfirst, Bool.false_or]
    exact hrest.barsAny_eq_false hns hbehind hmid hout

theorem FlowsAcross.bars_eq_false : ∀ {ci joined : StatusContext} {ns : List Node},
    FlowsAcross ci ns joined → (∀ n ∈ ns, n.WellFormed) → Separate ci (Node.statusesIn ns) →
    (∃ s, s ∈ ci) → joined.Within c → ∀ n ∈ ns, n.bars c = false
  | _, _, _, .nil, _, _, _, _ => by simp
  | _, _, n :: ns, .cons h hrest, hwf, hsep, hci, hjoined => by
    obtain ⟨hn, hns⟩ := List.forall_mem_cons.mp hwf
    refine List.forall_mem_cons.mpr ⟨?_, ?_⟩
    · exact h.bars_eq_false hn hsep.left hci fun t ht =>
        hjoined t (OrderedSet.mem_union.mpr (.inl ht))
    · exact hrest.bars_eq_false hns hsep.right hci fun t ht =>
        hjoined t (OrderedSet.mem_union.mpr (.inr ht))

end

end Passing

end SceneDispatch
