import Mathlib.Data.List.Chain
import SceneDispatch.Proofs.Dispatch.Passages
import SceneDispatch.Proofs.Script.Listing
import SceneDispatch.Proofs.Script.Stretch
/-!
The syntax of what is written into a group. Statements are lines, chains of branches and bare
blocks. Main statement: every group of a scene is a list of statements, to which a fork adds one
chain with a block for each of its arms.
-/
namespace SceneDispatch

namespace Statement

/-- Statements that are neither a header nor a brace. -/
def isPlain : Statement → Bool
  | line _ => true
  | setStatus _ => true
  | redispatch => true
  | leave => true
  | _ => false

mutual

/-- Statements one behind another: lines, chains and bare blocks. -/
inductive Sequence : List Statement → Prop
  | nil : Sequence []
  | line {x : Statement} {xs : List Statement} :
    x.isPlain = true → Sequence xs → Sequence (x :: xs)
  | chain {xs ys : List Statement} : Chain xs → Sequence ys → Sequence (xs ++ ys)
  | bare {xs ys : List Statement} : Block xs → Sequence ys → Sequence (xs ++ ys)

/-- A branch with its alternatives. -/
inductive Chain : List Statement → Prop
  | mk {condition : Condition} {xs ys : List Statement} :
    Block xs → Alternatives ys → Chain (.branch condition :: xs ++ ys)

/-- Any number of alternatives with a condition, and behind them at most one without. -/
inductive Alternatives : List Statement → Prop
  | nil : Alternatives []
  | alternative {condition : Condition} {xs ys : List Statement} :
    Block xs → Alternatives ys → Alternatives (.alternative condition :: xs ++ ys)
  | otherwise {xs : List Statement} : Block xs → Alternatives (.otherwise :: xs)

inductive Block : List Statement → Prop
  | mk {xs : List Statement} : Sequence xs → Block (.opening :: xs ++ [.closing])

end

section Sequences

variable {xs ys : List Statement}

theorem Sequence.append : ∀ {xs ys : List Statement}, Sequence xs → Sequence ys →
    Sequence (xs ++ ys)
  | _, _, .nil, h => h
  | _, _, .line hx hxs, h => .line hx (hxs.append h)
  | _, _, .chain hc hxs, h => by
    rw [List.append_assoc]
    exact .chain hc (hxs.append h)
  | _, _, .bare hb hxs, h => by
    rw [List.append_assoc]
    exact .bare hb (hxs.append h)

theorem Chain.sequence (h : Chain xs) : Sequence xs := by
  have hsequence := Sequence.chain h .nil
  rwa [List.append_nil] at hsequence

theorem Block.sequence (h : Block xs) : Sequence xs := by
  have hsequence := Sequence.bare h .nil
  rwa [List.append_nil] at hsequence

theorem isHeader_of_plain {x : Statement} (h : x.event?.isSome = true) : x.isHeader = false := by
  cases x <;> first | rfl | cases h

theorem isPlain_terminated (text : String) : (terminated text).isPlain = true := by
  simp only [terminated]
  split
  · rfl
  · split <;> rfl

mutual

theorem Sequence.nested : ∀ {xs : List Statement}, Sequence xs → Nested xs
  | _, .nil => .nil
  | x :: _, .line hx hxs => by
    have hline : Nested [x] := .line (by cases x <;> first | rfl | cases hx)
    exact hline.append hxs.nested
  | _, .chain hc hxs => hc.nested.append hxs.nested
  | _, .bare hb hxs => hb.nested.append hxs.nested

theorem Chain.nested : ∀ {xs : List Statement}, Chain xs → Nested xs
  | _, @Chain.mk condition _ _ hb ha => by
    have hheader : Nested [.branch condition] := .line rfl
    exact (hheader.append hb.nested).append ha.nested

theorem Alternatives.nested : ∀ {xs : List Statement}, Alternatives xs → Nested xs
  | _, .nil => .nil
  | _, @Alternatives.alternative condition _ _ hb ha => by
    have hheader : Nested [.alternative condition] := .line rfl
    exact (hheader.append hb.nested).append ha.nested
  | _, .otherwise hb => by
    have hheader : Nested [.otherwise] := .line rfl
    exact hheader.append hb.nested

theorem Block.nested : ∀ {xs : List Statement}, Block xs → Nested xs
  | _, .mk hxs => hxs.nested.braces

end

/-- Headers that go on with a chain. -/
def continues : Statement → Bool
  | alternative _ => true
  | otherwise => true
  | _ => false

/-- Behind which statement another may stand: the chain goes on behind a block only. -/
def Attached (x y : Statement) : Prop := y.continues = true → x = .closing

theorem attached_append (hxs : xs.IsChain Attached) (hys : ys.IsChain Attached)
    (hmeet : (∀ x ∈ xs.getLast?, x = .closing) ∨ ∀ y ∈ ys.head?, y.continues = false) :
    (xs ++ ys).IsChain Attached := by
  refine List.isChain_append.mpr ⟨hxs, hys, fun x hx y hy hcontinues => ?_⟩
  rcases hmeet with hlast | hhead
  · exact hlast x hx
  · rw [hhead y hy] at hcontinues
    cases hcontinues

theorem Block.getLast?_eq (h : Block xs) : xs.getLast? = some .closing := by
  cases h
  exact List.getLast?_concat

theorem Sequence.head_not_continues (h : Sequence xs) : ∀ y ∈ xs.head?, y.continues = false := by
  intro y hy
  cases h with
  | nil => cases hy
  | line hx _ =>
    cases hy
    cases y <;> first | rfl | cases hx
  | chain hc _ =>
    cases hc
    cases hy
    rfl
  | bare hb _ =>
    cases hb
    cases hy
    rfl

mutual

theorem Sequence.attached : ∀ {xs : List Statement}, Sequence xs → xs.IsChain Attached
  | _, .nil => .nil
  | x :: _, .line _ hxs =>
    attached_append (List.isChain_singleton x) hxs.attached (.inr hxs.head_not_continues)
  | _, .chain hc hxs => attached_append hc.attached hxs.attached (.inr hxs.head_not_continues)
  | _, .bare hb hxs => attached_append hb.attached hxs.attached (.inr hxs.head_not_continues)

theorem Chain.attached : ∀ {xs : List Statement}, Chain xs → xs.IsChain Attached
  | _, @Chain.mk condition xs _ hb ha => by
    have hheader : (.branch condition :: xs).IsChain Attached :=
      attached_append (List.isChain_singleton _) hb.attached (.inr hb.sequence.head_not_continues)
    refine attached_append hheader ha.attached (.inl ?_)
    simp [List.getLast?_cons, hb.getLast?_eq]

theorem Alternatives.attached : ∀ {xs : List Statement}, Alternatives xs → xs.IsChain Attached
  | _, .nil => .nil
  | _, @Alternatives.alternative condition xs _ hb ha => by
    have hheader : (.alternative condition :: xs).IsChain Attached :=
      attached_append (List.isChain_singleton _) hb.attached (.inr hb.sequence.head_not_continues)
    refine attached_append hheader ha.attached (.inl ?_)
    simp [List.getLast?_cons, hb.getLast?_eq]
  | _, .otherwise hb =>
    attached_append (List.isChain_singleton _) hb.attached (.inr hb.sequence.head_not_continues)

theorem Block.attached : ∀ {xs : List Statement}, Block xs → xs.IsChain Attached
  | _, @Block.mk xs hxs => by
    have hopened : (.opening :: xs).IsChain Attached :=
      attached_append (List.isChain_singleton _) hxs.attached (.inr hxs.head_not_continues)
    exact attached_append hopened (List.isChain_singleton _) (.inr (by simp [continues]))

end

/-- A header that goes on with a chain stands right behind the closing brace of the arm before. -/
theorem Sequence.closing_before {before after : List Statement} {x : Statement}
    (h : Sequence (before ++ x :: after)) (hx : x.continues = true) :
    ∃ earlier, before = earlier ++ [.closing] := by
  rcases List.eq_nil_or_concat before with rfl | ⟨earlier, y, rfl⟩
  · rw [h.head_not_continues x rfl] at hx
    cases hx
  · rw [List.concat_eq_append] at h ⊢
    obtain ⟨-, -, hmeet⟩ := List.isChain_append.mp h.attached
    exact ⟨earlier, by rw [hmeet y (by simp) x rfl hx]⟩

end Sequences

end Statement

open Statement

/-! ### What nodes write for themselves -/

namespace Registry

variable (r : Registry)

theorem sequence_builtIn (name : String) (a : Arguments) : Sequence (r.builtIn name a) := by
  unfold builtIn
  split
  · exact .line (isPlain_terminated _) .nil
  · exact .nil

theorem sequence_shown (style : MessageStyle) (text : String) : Sequence (r.shown style text) := by
  unfold shown
  split
  · exact (r.sequence_builtIn _ _).append (r.sequence_builtIn _ _)
  · exact (r.sequence_builtIn _ _).append .nil

theorem sequence_suspension (status : Status) {xs : List Statement} (h : Sequence xs) :
    Sequence (.setStatus status :: xs ++ [.leave]) :=
  .line rfl (h.append (.line rfl .nil))

theorem sequence_refusal (back : Option Status) (style : MessageStyle) :
    Sequence (r.refusal back style) := by
  have hrefused : ∀ {xs : List Statement}, Sequence xs →
      Sequence (.branch .refused :: (.opening :: xs ++ [.closing])) := by
    intro xs hxs
    have hchain : Chain (.branch .refused :: (.opening :: xs ++ [.closing]) ++ []) :=
      .mk (.mk hxs) .nil
    rw [List.append_nil] at hchain
    exact hchain.sequence
  cases style with
  | next => exact .nil
  | ok => exact .nil
  | previousNext =>
    cases back with
    | none => exact .nil
    | some previous => exact hrefused (.line rfl (.line rfl (.line rfl .nil)))
  | yesNo text =>
    have hshown := r.sequence_builtIn MessageStyle.ok.featureName (.single (Text.quote text))
    have hended := r.sequence_builtIn Drafting.endFeature .empty
    simpa [refusal] using hrefused ((hshown.append hended).append (.line (x := .leave) rfl .nil))

end Registry

/-! ### What a scene writes into a group -/

namespace Emission

/-- What is written under a context. -/
def under (c : StatusContext) (es : List Emission) : List Statement :=
  (select (· = c) es).map Prod.snd

variable {c : StatusContext} {e : Emission}

theorem under_append (c : StatusContext) (es es' : List Emission) :
    under c (es ++ es') = under c es ++ under c es' := by
  simp [under]

theorem under_touch (c c' : StatusContext) (p : Path) (es : List Emission) :
    under c (⟨c', p, []⟩ :: es) = under c es := by
  simp [under]

theorem under_cons_of_eq (h : e.context = c) (es : List Emission) :
    under c (e :: es) = e.statements ++ under c es := by
  rw [under, select_cons_of_keep (by simpa using h)]
  simp [lines, under, Function.comp_def]

theorem under_cons_of_ne (h : e.context ≠ c) (es : List Emission) :
    under c (e :: es) = under c es := by
  rw [under, select_cons_of_not (by simpa using h), under]

theorem sequence_under_cons {es : List Emission} (he : Sequence e.statements)
    (hes : Sequence (under c es)) : Sequence (under c (e :: es)) := by
  by_cases hc : e.context = c
  · rw [under_cons_of_eq hc]
    exact he.append hes
  · rwa [under_cons_of_ne hc]

theorem collect_eq (es : List Emission) :
    collect es = (contexts es).map fun c => ⟨c, under c es⟩ := by
  refine List.map_congr_left fun c _ => ?_
  simp [under, select, List.map_flatMap, lines, Function.comp_def]

end Emission

open Emission

namespace Node

variable {r : Registry} {c : StatusContext} {guard : Nat → Node → Option Condition}

/-- What the arms of a fork write into the group of its braces. -/
theorem under_branches (p : Path) (i : Nat) (n : Node) (ns : List Node) :
    under c (branchEmissions r c guard p i (n :: ns)) =
      Condition.header (i = 0) (guard i n) ++
        (.opening :: under c (n.emissions r (some .start) (p ++ [i])) ++ [.closing]) ++
        under c (branchEmissions r c guard p (i + 1) ns) := by
  rw [branchEmissions, under, select_arm_of_keep (by simp)]
  simp [under, Function.comp_def]

theorem under_branches_of_ne {c' : StatusContext} (h : c' ≠ c) (p : Path) (i : Nat) (n : Node)
    (ns : List Node) :
    under c (branchEmissions r c' guard p i (n :: ns)) =
      under c (n.emissions r (some .start) (p ++ [i])) ++
        under c (branchEmissions r c' guard p (i + 1) ns) := by
  rw [branchEmissions, under, select_arm_of_not (by simpa using h), List.map_append]
  rfl

/-- Only the last arm of a switch can be without a condition. -/
theorem isSome_condition {f : Feature} {n : Node} {ns : List Node}
    (h : (NodeKind.switch f).Admits (ns.map kind)) (hn : n ∈ ns.dropLast) (_ : Nat) :
    (r.condition f n.test).isSome = true := by
  obtain ⟨test, htest⟩ := h.1 n.kind (List.mem_map_of_mem ((List.dropLast_sublist ns).subset hn))
  obtain ⟨e, he⟩ := condition_of_not_otherwise (r := r) f htest (not_isOtherwise_of_admits h n hn)
  rw [he]
  rfl

/-- The arms of a fork whose first arm has a condition make a chain; a single arm without one makes
a bare block. -/
theorem chain_of_arms {p : Path} {n : Node} {ns : List Node}
    (hfirst : Sequence (under c (n.emissions r (some .start) (p ++ [0]))))
    (hrest : Alternatives (under c (branchEmissions r c guard p 1 ns))) :
    ((guard 0 n).isSome = true → Chain (under c (branchEmissions r c guard p 0 (n :: ns)))) ∧
      (guard 0 n = none → ns = [] →
        Block (under c (branchEmissions r c guard p 0 (n :: ns)))) := by
  rw [under_branches]
  constructor
  · intro hguard
    obtain ⟨condition, hguard⟩ := Option.isSome_iff_exists.mp hguard
    rw [hguard]
    exact .mk (.mk hfirst) hrest
  · rintro hguard rfl
    have hblock := Block.mk hfirst
    simpa [hguard, Condition.header, branchEmissions, under] using hblock

mutual

/-- Whatever the group, a node writes a sequence into it. -/
theorem sequence_emissions : ∀ {n : Node} (back : Option Status) (p : Path) (c : StatusContext),
    n.WellFormed → Sequence (under c (n.emissions r back p))
  | mk kind context ns, back, p, c, hwf => by
    obtain ⟨hkind, hns⟩ := wellFormed_mk.mp hwf
    cases hk : kind.isSerial with
    | true =>
      rw [emissions_serial r back p context ns hk, under_touch]
      exact sequence_serial _ p 0 c hns
    | false =>
      cases kind with
      | block => cases hk
      | case _ => cases hk
      | option _ => cases hk
      | switch f =>
        rw [emissions_switch, under_touch]
        by_cases hc : context = c
        · subst hc
          exact sequence_arms p hns fun n hn => isSome_condition hkind hn
        · exact sequence_apart p 0 hc hns
      | command f a =>
        rw [emissions_command, under_touch]
        exact sequence_under_cons (.line (isPlain_terminated _) .nil) .nil
      | message status style text =>
        rw [emissions_message, under_touch]
        refine sequence_under_cons (Registry.sequence_suspension _ (r.sequence_shown _ _)) ?_
        exact sequence_under_cons (r.sequence_refusal _ _) .nil
      | options status text =>
        rw [emissions_options, under_touch]
        refine sequence_under_cons (Registry.sequence_suspension _ (r.sequence_builtIn _ _)) ?_
        rw [under_touch]
        by_cases hc : OrderedSet.singleton status = c
        · subst hc
          exact sequence_arms p hns fun n _ i => rfl
        · exact sequence_apart p 0 hc hns

theorem sequence_serial : ∀ {ns : List Node} (back : Status) (p : Path) (i : Nat)
    (c : StatusContext), (∀ n ∈ ns, n.WellFormed) →
    Sequence (under c (serialEmissions r back p i ns))
  | [], _, _, _, _, _ => .nil
  | n :: ns, back, p, i, c, hwf => by
    obtain ⟨hn, hns⟩ := List.forall_mem_cons.mp hwf
    rw [serialEmissions, under_append]
    exact (sequence_emissions _ _ c hn).append (sequence_serial _ p (i + 1) c hns)

/-- Into another group than that of the braces, arms write one behind the other. -/
theorem sequence_apart : ∀ {ns : List Node} {c c' : StatusContext}
    {guard : Nat → Node → Option Condition} (p : Path) (i : Nat), c' ≠ c →
    (∀ n ∈ ns, n.WellFormed) → Sequence (under c (branchEmissions r c' guard p i ns))
  | [], _, _, _, _, _, _, _ => .nil
  | n :: ns, c, c', guard, p, i, hc, hwf => by
    obtain ⟨hn, hns⟩ := List.forall_mem_cons.mp hwf
    rw [under_branches_of_ne hc]
    exact (sequence_emissions _ _ c hn).append (sequence_apart p (i + 1) hc hns)

theorem sequence_arms : ∀ {ns : List Node} {c : StatusContext}
    {guard : Nat → Node → Option Condition} (p : Path), (∀ n ∈ ns, n.WellFormed) →
    (∀ n ∈ ns.dropLast, ∀ i, (guard i n).isSome = true) →
    Sequence (under c (branchEmissions r c guard p 0 ns))
  | [], _, _, _, _, _ => .nil
  | n :: ns, c, guard, p, hwf, hguard => by
    obtain ⟨hn, hns⟩ := List.forall_mem_cons.mp hwf
    have harms := chain_of_arms (sequence_emissions _ (p ++ [0]) c hn)
      (alternatives_arms p 0 hns fun m hm => hguard m (mem_dropLast_cons hm))
    cases hfirst : guard 0 n with
    | some condition => exact (harms.1 (by rw [hfirst]; rfl)).sequence
    | none =>
      cases ns with
      | nil => exact (harms.2 hfirst rfl).sequence
      | cons m ns =>
        have hsome := hguard n List.mem_cons_self 0
        rw [hfirst] at hsome
        cases hsome

theorem alternatives_arms : ∀ {ns : List Node} {c : StatusContext}
    {guard : Nat → Node → Option Condition} (p : Path) (i : Nat), (∀ n ∈ ns, n.WellFormed) →
    (∀ n ∈ ns.dropLast, ∀ i, (guard i n).isSome = true) →
    Alternatives (under c (branchEmissions r c guard p (i + 1) ns))
  | [], _, _, _, _, _, _ => .nil
  | n :: ns, c, guard, p, i, hwf, hguard => by
    obtain ⟨hn, hns⟩ := List.forall_mem_cons.mp hwf
    have hblock := Block.mk (sequence_emissions (some .start) (p ++ [i + 1]) c hn)
    have hrest := alternatives_arms (c := c) p (i + 1) hns fun m hm =>
      hguard m (mem_dropLast_cons hm)
    rw [under_branches]
    cases hthis : guard (i + 1) n with
    | some condition => exact .alternative hblock hrest
    | none =>
      cases ns with
      | nil => simpa [Condition.header, branchEmissions, under] using Alternatives.otherwise hblock
      | cons m ns =>
        have hsome := hguard n List.mem_cons_self (i + 1)
        rw [hthis] at hsome
        cases hsome

end

/-- The lines of an arm, in the group of its braces. -/
def armLines (r : Registry) (c : StatusContext) (guard : Nat → Node → Option Condition) (p : Path)
    (i : Nat) (n : Node) : List (Path × Statement) :=
  (Condition.header (i = 0) (guard i n)).map (Prod.mk p) ++ (p ++ [i], .opening) ::
    (select (· = c) (n.emissions r (some .start) (p ++ [i])) ++ [(p ++ [i], .closing)])

def forkLines (r : Registry) (c : StatusContext) (guard : Nat → Node → Option Condition) (p : Path)
    (ns : List Node) : List (Path × Statement) :=
  (ns.mapIdx (armLines r c guard p)).flatten

theorem select_branches (p : Path) (i : Nat) (ns : List Node) :
    select (· = c) (branchEmissions r c guard p i ns) =
      (ns.mapIdx fun j n => armLines r c guard p (i + j) n).flatten := by
  induction ns generalizing i with
  | nil => rfl
  | cons n ns ih =>
    rw [branchEmissions, select_arm_of_keep (by simp), ih, List.mapIdx_cons, List.flatten_cons]
    simp only [armLines, Nat.add_zero, Nat.add_assoc, Nat.add_comm 1]

theorem forkLines_eq (p : Path) (ns : List Node) :
    forkLines r c guard p ns = select (· = c) (branchEmissions r c guard p 0 ns) := by
  rw [select_branches]
  simp [forkLines]

theorem context_of_mem_branches {p : Path} {i : Nat} {ns : List Node} {e : Emission}
    (he : e ∈ branchEmissions r c guard p i ns) (horigin : e.origin = p) : e.context = c := by
  induction ns generalizing i with
  | nil => simp [branchEmissions] at he
  | cons n ns ih =>
    rw [branchEmissions, List.mem_cons, List.mem_cons, List.mem_append, List.mem_cons] at he
    rcases he with rfl | rfl | he | rfl | he
    · rfl
    · rfl
    · obtain ⟨q, m, -, hq, -⟩ := accounts_of_mem_emissions he
      rw [horigin] at hq
      exact absurd ((List.prefix_append _ q).trans hq) not_prefix_self
    · rfl
    · exact ih he

/-- The arms of the fork at the place `q` stand one behind the other in the group of the context,
with nothing between them. There is nothing else of the fork in the group, and it has no header in
another. -/
structure ForksInto (r : Registry) (es : List Emission) (q : Path) (c : StatusContext)
    (guard : Nat → Node → Option Condition) (ns : List Node) : Prop where
  group : c ∈ contexts es
  adjacent : ∃ before after, select (· = c) es = before ++ forkLines r c guard q ns ++ after ∧
    ∀ x ∈ before ++ after, ¬ q <+: x.1
  block : ∀ i n, ns[i]? = some n → ∃ body, Sequence (body.map Prod.snd) ∧
    armLines r c guard q i n = (Condition.header (i = 0) (guard i n)).map (Prod.mk q) ++
      (q ++ [i], .opening) :: (body ++ [(q ++ [i], .closing)])
  nowhere_else : ∀ c', c' ≠ c → ∀ x ∈ select (· = c') es, x.1 = q → x.2.isHeader = false

/-- The arms of a switch make a chain, unless there is nothing but a default. -/
theorem chain_of_switch {f : Feature} {p : Path} {ns : List Node}
    (hwf : (mk (.switch f) c ns).WellFormed) (hns : ns ≠ []) :
    (ns.map kind = [.case .otherwise] →
      Block ((forkLines r c (fun _ n => r.condition f n.test) p ns).map Prod.snd)) ∧
    (ns.map kind ≠ [.case .otherwise] →
      Chain ((forkLines r c (fun _ n => r.condition f n.test) p ns).map Prod.snd)) := by
  obtain ⟨hkind, hbelow⟩ := wellFormed_mk.mp hwf
  obtain ⟨n, ns, rfl⟩ := List.exists_cons_of_ne_nil hns
  obtain ⟨hn, hrest⟩ := List.forall_mem_cons.mp hbelow
  have harms := chain_of_arms (r := r) (sequence_emissions _ (p ++ [0]) c hn)
    (alternatives_arms p 0 hrest fun m hm =>
      isSome_condition (r := r) hkind (mem_dropLast_cons hm))
  rw [forkLines_eq]
  constructor
  · intro hkinds
    obtain ⟨hdefault, hnil⟩ := List.cons.inj hkinds
    exact harms.2 (condition_of_otherwise f (decide_eq_true hdefault))
      (List.map_eq_nil_iff.mp hnil)
  · intro hkinds
    refine harms.1 ?_
    cases ns with
    | cons m ns => exact isSome_condition hkind List.mem_cons_self 0
    | nil =>
      obtain ⟨test, htest⟩ := hkind.1 n.kind (by simp)
      obtain ⟨e, he⟩ := condition_of_not_otherwise (r := r) f htest
        (decide_eq_false fun hdefault => hkinds (by rw [List.map_singleton, hdefault]))
      rw [he]
      rfl

theorem chain_of_options {status : Status} {text : String} {p : Path} {ns : List Node}
    (hwf : (mk (.options status text) c ns).WellFormed) :
    Chain ((forkLines r (.singleton status) (fun i _ => some (.selected i)) p ns).map
      Prod.snd) := by
  obtain ⟨hkind, hbelow⟩ := wellFormed_mk.mp hwf
  have hns : ns ≠ [] := fun hnil => hkind.1 (List.map_eq_nil_iff.mpr hnil)
  obtain ⟨n, ns, rfl⟩ := List.exists_cons_of_ne_nil hns
  obtain ⟨hn, hrest⟩ := List.forall_mem_cons.mp hbelow
  rw [forkLines_eq]
  exact (chain_of_arms (sequence_emissions _ (p ++ [0]) _ hn)
    (alternatives_arms p 0 hrest fun _ _ _ => rfl)).1 rfl

end Node

section Forks

variable {r : Registry} {scene n : Node} {exit : StatusContext} {count : Nat} {q : Path}

/-- All that a node other than an arm writes with those below it stands in one stretch. -/
theorem Prepared.node_stretch (h : Prepared scene exit count) (hat : scene.at? q = some n)
    (harm : n.kind.isArm = false) :
    ∃ back c out before after, Flows c n out ∧ Separate c n.statuses ∧
      Stretch q n.statuses (scene.emissions r none []) before (n.emissions r back q) after := by
  rcases eq_or_ne q [] with rfl | hq
  · cases hat
    refine ⟨none, _, exit, [], [], h.flows, h.separate, ?_, by simp, by simp, by simp⟩
    simp
  · obtain ⟨p, j, parent, rfl, hparent, hn⟩ := Node.exists_parent hat hq
    obtain ⟨c, out, before, after, hflow, hsep, hstretch⟩ :=
      h.flows.node_stretch (r := r) (b := none) (p := []) h.wellFormed h.separate hparent hn
    rw [Node.written, if_neg (by simp [harm])] at hstretch
    exact ⟨_, c, out, before, after, hflow, hsep, hstretch⟩

variable {ts : List Status} {es before inner after : List Emission} {c : StatusContext}
  {guard : Nat → Node → Option Condition} {ns : List Node}

/-- What a fork writes in front of its arms holds no header and goes to another group. -/
theorem Stretch.forksInto (front : List Emission) (h : Stretch q ts es before inner after)
    (hinner : inner = front ++ Node.branchEmissions r c guard q 0 ns)
    (hns : ∀ n ∈ ns, n.WellFormed) (hgroup : ∃ e ∈ front, e.context = c)
    (hfront : ∀ e ∈ front, ∀ x ∈ e.statements, e.context ≠ c ∧ x.isHeader = false) :
    Node.ForksInto r es q c guard ns := by
  have houter : ∀ e, e ∈ before ∨ e ∈ after → ¬ q <+: e.origin := by
    rintro e (he | he)
    · exact h.before_origin e he
    · exact h.after_origin e he
  refine ⟨?_, ⟨select (· = c) before, select (· = c) after, ?_, fun x hx => ?_⟩,
    fun i n hn => ?_, ?_⟩
  · obtain ⟨e, he, hc⟩ := hgroup
    exact mem_contexts.mpr ⟨e, by simp [h.eq, hinner, he], hc⟩
  · have hsilent : select (· = c) front = [] := by
      refine List.eq_nil_iff_forall_not_mem.mpr fun x hx => ?_
      obtain ⟨e, he, hc, -, hx⟩ := mem_select.mp hx
      exact (hfront e he x.2 hx).1 (of_decide_eq_true hc)
    rw [h.eq, hinner, select_append, select_append, select_append, hsilent, Node.forkLines_eq]
    simp
  · rw [← select_append] at hx
    obtain ⟨e, he, -, horigin, -⟩ := mem_select.mp hx
    rw [horigin]
    exact houter e (List.mem_append.mp he)
  · exact ⟨_, Node.sequence_emissions _ _ c (hns n (List.mem_of_getElem? hn)), rfl⟩
  · intro c' hc' x hx horigin
    obtain ⟨e, he, hec, hplace, hx⟩ := mem_select.mp hx
    have hplace : e.origin = q := hplace.symm.trans horigin
    rw [h.eq, hinner, List.mem_append, List.mem_append, List.mem_append] at he
    rcases he with he | (he | he) | he
    · exact absurd (hplace ▸ List.prefix_rfl) (houter e (.inl he))
    · exact (hfront e he x.2 hx).2
    · exact absurd ((of_decide_eq_true hec).symm.trans
        (Node.context_of_mem_branches he hplace)) hc'
    · exact absurd (hplace ▸ List.prefix_rfl) (houter e (.inr he))

theorem Prepared.switch_forksInto {f : Feature} (h : Prepared scene exit count)
    (hat : scene.at? q = some (.mk (.switch f) c ns)) :
    Node.ForksInto r (scene.emissions r none []) q c (fun _ n => r.condition f n.test) ns := by
  obtain ⟨back, _, out, before, after, -, -, hstretch⟩ := h.node_stretch (r := r) hat rfl
  exact hstretch.forksInto [⟨c, q, []⟩] rfl (h.wellFormed.below hat)
    ⟨_, List.mem_singleton_self _, rfl⟩ (by simp)

theorem Prepared.options_forksInto {status : Status} {text : String}
    (h : Prepared scene exit count) (hat : scene.at? q = some (.mk (.options status text) c ns)) :
    Node.ForksInto r (scene.emissions r none []) q (.singleton status)
      (fun i _ => some (.selected i)) ns := by
  obtain ⟨back, _, out, before, after, hflow, hsep, hstretch⟩ := h.node_stretch (r := r) hat rfl
  have hother : c ≠ .singleton status := by
    intro hc
    have hstatus := hsep.apart status (Node.mem_statuses_of_at? (Node.at?_nil _) rfl)
    rw [← hflow.context, Node.context, hc] at hstatus
    exact hstatus (OrderedSet.mem_singleton.mpr rfl)
  have hshown : ∀ x ∈ r.prompted text ns, x.isHeader = false := by
    intro x hx
    exact isHeader_of_plain (r.plain_prompted (p := q) text ns (q, x) (List.mem_map_of_mem hx))
  refine hstretch.forksInto [⟨c, q, []⟩,
    ⟨c, q, .setStatus status :: r.prompted text ns ++ [.leave]⟩, ⟨.singleton status, q, []⟩] rfl
    (h.wellFormed.below hat) ⟨⟨.singleton status, q, []⟩, by simp, rfl⟩ fun e he x hx => ?_
  simp only [List.mem_cons, List.not_mem_nil, or_false] at he
  rcases he with rfl | rfl | rfl
  · cases hx
  · simp only [List.cons_append, List.mem_cons, List.mem_append, List.not_mem_nil, or_false] at hx
    rcases hx with rfl | hx | rfl
    · exact ⟨hother, rfl⟩
    · exact ⟨hother, hshown x hx⟩
    · exact ⟨hother, rfl⟩
  · cases hx

end Forks

/-- The entries of a prompt are numbered by their position. -/
theorem Drafting.getElem?_entryLines {ns : List Node}
    (h : ∀ n ∈ ns, ∃ label, n.kind = .option label) (k : Nat) :
    (entryLines k ns).length = ns.length ∧ ∀ i n, ns[i]? = some n →
      ∃ label, n.kind = .option label ∧
        (entryLines k ns)[i]? = some s!"\\r\\n#L{k + i}#{label}#l" := by
  induction ns generalizing k with
  | nil => simp [entryLines]
  | cons n ns ih =>
    obtain ⟨⟨label, hlabel⟩, hns⟩ := List.forall_mem_cons.mp h
    obtain ⟨hlength, hget⟩ := ih hns (k + 1)
    have hlines : entryLines k (n :: ns) = s!"\\r\\n#L{k}#{label}#l" :: entryLines (k + 1) ns := by
      rw [entryLines, hlabel]
    rw [hlines]
    refine ⟨by simp [hlength], fun i m hm => ?_⟩
    cases i with
    | zero =>
      cases hm
      exact ⟨label, hlabel, rfl⟩
    | succ i =>
      obtain ⟨label', hlabel', hline⟩ := hget i m hm
      refine ⟨label', hlabel', ?_⟩
      rw [List.getElem?_cons_succ, hline, Nat.add_assoc, Nat.add_comm 1]

namespace Registry

/-- Every group of a draft is a sequence of statements: a header that goes on with a chain follows
the closing brace of the arm before it, the group ends at the depth at which it begins, and no
brace is closed at depth 0. A switch with arms adds one chain to the group of its context, or a
bare block if there is only a default. A prompt adds one chain to the group of its status, whose
arms are the entries in the order in which the prompt numbers them. -/
theorem groups_follow_grammar {r : Registry} {resources : ResourceTable} {content : Element}
    {root : Node} {count : Nat} {d : Draft} (h : r.Drafts resources content root count d) :
    (d.groups = (contexts (root.assignContexts.1.emissions r none [])).map fun c =>
      ⟨c, (select (· = c) (root.assignContexts.1.emissions r none [])).map Prod.snd⟩) ∧
    (∀ g ∈ d.groups, Sequence g.statements ∧
      (∀ before x after, g.statements = before ++ x :: after → x.continues = true →
        ∃ earlier, before = earlier ++ [.closing]) ∧
      depthBehind Layout.baseDepth g.statements = Layout.baseDepth ∧
      ∀ before after, g.statements = before ++ .closing :: after →
        0 < depthBehind Layout.baseDepth before) ∧
    (∀ (q : Path) (f : Feature) (c : StatusContext) (ns : List Node),
      root.assignContexts.1.at? q = some (.mk (.switch f) c ns) → ns ≠ [] →
      Node.ForksInto r (root.assignContexts.1.emissions r none []) q c
        (fun _ n => r.condition f n.test) ns ∧
      (ns.map Node.kind = [.case .otherwise] →
        Block ((Node.forkLines r c (fun _ n => r.condition f n.test) q ns).map Prod.snd)) ∧
      (ns.map Node.kind ≠ [.case .otherwise] →
        Chain ((Node.forkLines r c (fun _ n => r.condition f n.test) q ns).map Prod.snd))) ∧
    ∀ (q : Path) (status : Status) (text : String) (c : StatusContext) (ns : List Node),
      root.assignContexts.1.at? q = some (.mk (.options status text) c ns) →
      Node.ForksInto r (root.assignContexts.1.emissions r none []) q (.singleton status)
        (fun i _ => some (.selected i)) ns ∧
      Chain ((Node.forkLines r (.singleton status) (fun i _ => some (.selected i)) q ns).map
        Prod.snd) ∧
      (∃ send, r.lookup Drafting.optionsFeature = .ok send ∧
        (q, r.statement send (.single (Text.quote
          (text ++ "#b" ++ String.join (Drafting.entryLines 0 ns) ++ "#k")))) ∈
            select (· = c) (root.assignContexts.1.emissions r none [])) ∧
      (Drafting.entryLines 0 ns).length = ns.length ∧
      ∀ (i : Nat) (n : Node), ns[i]? = some n → ∃ label, n.kind = .option label ∧
        (Drafting.entryLines 0 ns)[i]? = some s!"\\r\\n#L{i}#{label}#l" := by
  have hscene := Vocabulary.scene_prepared h.built
  have hgroups := Drafting.scene_ok hscene.wellFormed h.drafted
  rw [collect_eq] at hgroups
  refine ⟨hgroups, fun g hg => ?_, fun q f c ns hat hns => ?_, fun q status text c ns hat => ?_⟩
  · rw [hgroups] at hg
    obtain ⟨c, -, rfl⟩ := List.mem_map.mp hg
    have hsequence : Sequence (under c (root.assignContexts.1.emissions r none [])) :=
      Node.sequence_emissions none [] c hscene.wellFormed
    refine ⟨hsequence, fun before x after hsplit => ?_, hsequence.nested.depthBehind_eq _,
      fun before after hsplit => hsequence.nested.depthBehind_pos hsplit _⟩
    exact (show Sequence (before ++ x :: after) from hsplit ▸ hsequence).closing_before
  · exact ⟨hscene.switch_forksInto hat, Node.chain_of_switch (hscene.wellFormed.at? hat) hns⟩
  · have hwf := hscene.wellFormed.at? hat
    have hentries := Drafting.getElem?_entryLines (fun n hn =>
      (Node.wellFormed_mk.mp hwf).1.2 n.kind (List.mem_map_of_mem hn)) 0
    have hdrafted : Drafting.Drafted r root.assignContexts.1 := ⟨none, .empty, d, h.drafted⟩
    obtain ⟨send, hsend⟩ := (hdrafted.at? hscene.wellFormed hat).options_feature
    obtain ⟨back, hsub⟩ :=
      hscene.flows.exists_emissions (r := r) (p := []) (b := none) hscene.wellFormed
        hscene.separate hat
    refine ⟨hscene.options_forksInto hat, Node.chain_of_options hwf, ⟨send, hsend, ?_⟩, hentries.1,
      fun i n hn => ?_⟩
    · refine mem_select.mpr ⟨⟨c, q, .setStatus status :: r.prompted text ns ++ [.leave]⟩,
        hsub _ ?_, by simp, rfl, ?_⟩
      · rw [Node.emissions_options]
        simp
      · simp [prompted, builtIn, hsend, Drafting.prompt]
    · obtain ⟨label, hlabel, hline⟩ := hentries.2 i n hn
      rw [Nat.zero_add] at hline
      exact ⟨label, hlabel, hline⟩

theorem quest_groups_follow_grammar :
    ∃ d, Sample.fullRegistry.Drafts .empty Sample.quest Sample.questGraph 6 d ∧
      (∀ g ∈ d.groups, Sequence g.statements) ∧
      ∃ c ns, Sample.questGraph.assignContexts.1.at? [1, 0, 0] =
          some (.mk (.options 2 "pick") c ns) ∧
        Chain ((Node.forkLines Sample.fullRegistry (.singleton 2) (fun i _ => some (.selected i))
          [1, 0, 0] ns).map Prod.snd) ∧
        Drafting.entryLines 0 ns = ["\\r\\n#L0#talk#l", "\\r\\n#L1#leave#l"] := by
  obtain ⟨d, hd⟩ : ∃ d, Drafting.scene Sample.fullRegistry
      Sample.questGraph.assignContexts.1 .empty = .ok () d := ⟨_, rfl⟩
  have hdrafts : Sample.fullRegistry.Drafts .empty Sample.quest Sample.questGraph 6 d :=
    ⟨Sample.quest_builds, hd⟩
  obtain ⟨-, hgroups, -, hoptions⟩ := groups_follow_grammar hdrafts
  obtain ⟨c, ns, hat, hentries⟩ : ∃ c ns, Sample.questGraph.assignContexts.1.at? [1, 0, 0] =
      some (.mk (.options 2 "pick") c ns) ∧
        Drafting.entryLines 0 ns = ["\\r\\n#L0#talk#l", "\\r\\n#L1#leave#l"] := ⟨_, _, rfl, rfl⟩
  exact ⟨d, hdrafts, fun g hg => (hgroups g hg).1, c, ns, hat,
    (hoptions _ _ _ _ _ hat).2.1, hentries⟩

end Registry

end SceneDispatch
