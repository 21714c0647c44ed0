import SceneDispatch.Proofs.Dispatch.Machine
import SceneDispatch.Proofs.Script.Emission
/-!
The groups of a scene as passages whose lines carry the place of the node they are written for.
Main statements: without the places they are the groups of the draft, and whatever groups are
picked, what a scene writes into them is tame.
-/
namespace SceneDispatch

namespace Emission

def lines (e : Emission) : List (Path × Statement) := e.statements.map (Prod.mk e.origin)

/-- The lines of the emissions into those contexts that are picked. -/
def select (keep : StatusContext → Bool) (es : List Emission) : List (Path × Statement) :=
  (es.filter (keep ·.context)).flatMap lines

/-- The groups that emissions make, with the place of every line. -/
def passages (es : List Emission) : List (Passage Path) :=
  (contexts es).map fun c => ⟨c, select (· = c) es⟩

theorem relabel_passages (es : List Emission) :
    (passages es).map (Passage.relabel fun _ => ()) = (collect es).map Group.passage := by
  simp only [passages, collect, List.map_map]
  apply List.map_congr_left
  intro c _
  simp [Passage.relabel, Group.passage, select, List.map_flatMap, lines, Function.comp_def]

section Selection

variable {keep : StatusContext → Bool} {c : StatusContext} {p q : Path}
  {es inner rest : List Emission} {header : List Statement}

theorem mem_select {x : Path × Statement} :
    x ∈ select keep es ↔
      ∃ e ∈ es, keep e.context = true ∧ x.1 = e.origin ∧ x.2 ∈ e.statements := by
  obtain ⟨a, statement⟩ := x
  simp only [select, List.mem_flatMap, List.mem_filter, lines, List.mem_map, Prod.mk.injEq]
  constructor
  · rintro ⟨e, ⟨he, hkeep⟩, _, hstatement, rfl, rfl⟩
    exact ⟨e, he, hkeep, rfl, hstatement⟩
  · rintro ⟨e, he, hkeep, rfl, hstatement⟩
    exact ⟨e, ⟨he, hkeep⟩, statement, hstatement, rfl, rfl⟩

@[simp] theorem select_nil : select keep [] = [] := rfl

@[simp] theorem select_append (es es' : List Emission) :
    select keep (es ++ es') = select keep es ++ select keep es' := by
  simp [select]

theorem select_cons_of_keep {e : Emission} (h : keep e.context = true) :
    select keep (e :: es) = e.lines ++ select keep es := by
  simp [select, h]

theorem select_cons_of_not {e : Emission} (h : keep e.context = false) :
    select keep (e :: es) = select keep es := by
  simp [select, h]

@[simp] theorem select_touch : select keep (⟨c, p, []⟩ :: es) = select keep es := by
  cases h : keep c with
  | true => rw [select_cons_of_keep h]; rfl
  | false => rw [select_cons_of_not h]

theorem select_eq_nil (h : ∀ e ∈ es, keep e.context = false) : select keep es = [] := by
  rw [select, List.filter_eq_nil_iff.mpr (by simpa using h)]
  rfl

theorem select_arm_of_keep (h : keep c = true) :
    select keep (⟨c, p, header⟩ :: ⟨c, q, [.opening]⟩ ::
      (inner ++ ⟨c, q, [.closing]⟩ :: rest)) =
    header.map (Prod.mk p) ++ (q, .opening) :: (select keep inner ++ [(q, .closing)]) ++
      select keep rest := by
  rw [select_cons_of_keep h, select_cons_of_keep h, select_append, select_cons_of_keep h]
  simp [lines]

theorem select_arm_of_not (h : keep c = false) :
    select keep (⟨c, p, header⟩ :: ⟨c, q, [.opening]⟩ ::
      (inner ++ ⟨c, q, [.closing]⟩ :: rest)) = select keep inner ++ select keep rest := by
  rw [select_cons_of_not h, select_cons_of_not h, select_append, select_cons_of_not h]

end Selection

end Emission

open Machine

section Tameness

variable {r : Registry} {k : Invocation} {p : Path}

theorem Statement.plain_terminated (text : String) :
    (Statement.terminated text).event?.isSome = true := by
  simp only [terminated]
  split
  · rfl
  · split <;> rfl

theorem Registry.plain_builtIn (name : String) (a : Arguments) :
    ∀ x ∈ (r.builtIn name a).map (Prod.mk p), x.2.event?.isSome = true := by
  unfold builtIn
  split
  · simp [statement, Statement.plain_terminated]
  · simp

theorem Registry.plain_shown (style : MessageStyle) (text : String) :
    ∀ x ∈ (r.shown style text).map (Prod.mk p), x.2.event?.isSome = true := by
  intro x hx
  rw [shown, List.map_append, List.mem_append] at hx
  rcases hx with hx | hx
  · exact plain_builtIn _ _ x hx
  · split at hx
    · exact plain_builtIn _ _ x hx
    · simp at hx

theorem Registry.plain_prompted (text : String) (entries : List Node) :
    ∀ x ∈ (r.prompted text entries).map (Prod.mk p), x.2.event?.isSome = true :=
  plain_builtIn _ _

theorem Condition.header_isHeader (first : Bool) (guard : Option Condition) :
    ∀ x ∈ (Condition.header first guard).map (Prod.mk p), x.2.isHeader = true := by
  cases guard <;> cases first <;> simp [Condition.header, Statement.isHeader]

/-- What stands behind a message is nothing, or one block that a refusal enters. -/
theorem Registry.refusal_cases (k : Invocation) (p : Path) (back : Option Status)
    (style : MessageStyle) :
    r.refusal back style = [] ∨ ∃ body : List (Path × Statement), Tame k body ∧
      (r.refusal back style).map (Prod.mk p) =
        (Condition.header true (some .refused)).map (Prod.mk p) ++
          (p, .opening) :: (body ++ [(p, .closing)]) := by
  cases style with
  | next => exact .inl rfl
  | ok => exact .inl rfl
  | previousNext =>
    cases back with
    | none => exact .inl rfl
    | some previous =>
      have hplain : ∀ x ∈ [(p, Statement.redispatch)], x.2.event?.isSome = true := by
        simp [Statement.event?]
      exact .inr ⟨_, .suspension hplain, rfl⟩
  | yesNo text =>
    refine .inr
      ⟨(r.builtIn MessageStyle.ok.featureName (.single (Text.quote text))).map (Prod.mk p) ++
        (r.builtIn Drafting.endFeature .empty).map (Prod.mk p) ++ [(p, .leave)], ?_, ?_⟩
    · exact ((Tame.plain (plain_builtIn _ _)).append (.plain (plain_builtIn _ _))).append .leave
    · simp [refusal, Condition.header]

theorem Registry.tame_refusal (back : Option Status) (style : MessageStyle) :
    Tame k ((r.refusal back style).map (Prod.mk p)) := by
  rcases r.refusal_cases k p back style with h | ⟨body, hbody, h⟩
  · rw [h]
    exact .nil
  · rw [h]
    exact .braces (Condition.header_isHeader _ _) hbody

theorem Emission.lines_suspension (c : StatusContext) (status : Status)
    (shown : List Statement) :
    lines ⟨c, p, .setStatus status :: shown ++ [.leave]⟩ =
      (p, .setStatus status) :: (shown.map (Prod.mk p) ++ [(p, .leave)]) := by
  simp [lines]

variable (keep : StatusContext → Bool)

theorem Emission.tame_cons {e : Emission} {es : List Emission} (he : Tame k e.lines)
    (hes : Tame k (select keep es)) : Tame k (select keep (e :: es)) := by
  cases h : keep e.context with
  | true =>
    rw [select_cons_of_keep h]
    exact he.append hes
  | false => rwa [select_cons_of_not h]

namespace Node

mutual

theorem tame_emissions : ∀ (n : Node) (back : Option Status) (p : Path),
    Tame k (Emission.select keep (n.emissions r back p))
  | mk kind c ns, back, p => by
    cases hk : kind.isSerial with
    | true =>
      rw [emissions_serial r back p c ns hk, Emission.select_touch]
      exact tame_serial ns _ _ _
    | false =>
      cases kind with
      | block => cases hk
      | case _ => cases hk
      | option _ => cases hk
      | switch f =>
        rw [emissions_switch, Emission.select_touch]
        exact tame_branches ns _ _ _ _
      | command f a =>
        rw [emissions_command, Emission.select_touch]
        refine Emission.tame_cons keep (.plain ?_) .nil
        simp [Emission.lines, Registry.statement, Statement.plain_terminated]
      | message status style text =>
        rw [emissions_message, Emission.select_touch]
        refine Emission.tame_cons keep ?_
          (Emission.tame_cons keep (Registry.tame_refusal _ _) .nil)
        rw [Emission.lines_suspension]
        exact .suspension (Registry.plain_shown _ _)
      | options status text =>
        rw [emissions_options, Emission.select_touch]
        refine Emission.tame_cons keep ?_ ?_
        · rw [Emission.lines_suspension]
          exact .suspension (Registry.plain_prompted _ _)
        · rw [Emission.select_touch]
          exact tame_branches ns _ _ _ _

theorem tame_serial : ∀ (ns : List Node) (back : Status) (p : Path) (i : Nat),
    Tame k (Emission.select keep (serialEmissions r back p i ns))
  | [], _, _, _ => .nil
  | n :: ns, back, p, i => by
    rw [serialEmissions, Emission.select_append]
    exact (tame_emissions n _ _).append (tame_serial ns _ _ _)

theorem tame_branches : ∀ (ns : List Node) (c : StatusContext)
    (guard : Nat → Node → Option Condition) (p : Path) (i : Nat),
    Tame k (Emission.select keep (branchEmissions r c guard p i ns))
  | [], _, _, _, _ => .nil
  | n :: ns, c, guard, p, i => by
    rw [branchEmissions]
    cases h : keep c with
    | true =>
      rw [Emission.select_arm_of_keep h]
      exact (Tame.braces (Condition.header_isHeader _ _) (tame_emissions n _ _)).append
        (tame_branches ns _ _ _ _)
    | false =>
      rw [Emission.select_arm_of_not h]
      exact (tame_emissions n _ _).append (tame_branches ns _ _ _ _)

end

end Node

end Tameness

end SceneDispatch
