import Mathlib.Data.List.Nodup
import SceneDispatch.Proofs.Script.Edits
import SceneDispatch.Proofs.Script.Projection
import SceneDispatch.Proofs.Script.Table
/-!
How a draft changes while nodes are drafted into it one after another, some of them in vain. Groups
are only added and written on. Main statement: after any tasks an index that is kept along with the
draft finds every group at its position and nothing else, groups keep their place, context and
text, and a task that succeeds ends every group at the depth at which it began.
-/
namespace SceneDispatch

/-! ### Groups by an index -/

/-- A draft with the positions of its groups, by which they are found. -/
structure IndexedDraft where
  draft : Draft
  index : StatusContext → Option Nat

namespace IndexedDraft

def empty : IndexedDraft := ⟨.empty, fun _ => none⟩

/-- A context that is not found gets a group behind the others, and the index its position. -/
def touch (x : IndexedDraft) (c : StatusContext) : IndexedDraft :=
  match x.index c with
  | some _ => x
  | none =>
    ⟨{ x.draft with groups := x.draft.groups ++ [⟨c, []⟩] },
      fun k => if k = c then some x.draft.groups.length else x.index k⟩

/-- Writes at the end of the group at the position of the context. -/
def write (x : IndexedDraft) (c : StatusContext) (xs : List Statement) : IndexedDraft :=
  match x.index c with
  | some i =>
    { x with
      draft := { x.draft with
        groups := x.draft.groups.modify i fun g => { g with statements := g.statements ++ xs } } }
  | none => x

def edit (x : IndexedDraft) : Edit → IndexedDraft
  | .touch c => x.touch c
  | .write c xs => x.write c xs
  | .record dependency => { x with draft := x.draft.record dependency }

/-- The indexed draft stands for the draft: it holds it, and its index maps the context of each
group to its position, and nothing else. -/
structure Refines (x : IndexedDraft) (d : Draft) : Prop where
  draft : x.draft = d
  index : ∀ c i, x.index c = some i ↔ (d.groups.map Group.context)[i]? = some c

variable {x : IndexedDraft} {d : Draft} {c : StatusContext}

theorem Refines.mem_iff (h : x.Refines d) :
    c ∈ d.groups.map Group.context ↔ ∃ i, x.index c = some i := by
  simp only [List.mem_iff_getElem?, h.index c]

theorem Refines.not_mem (h : x.Refines d) (hc : x.index c = none) :
    c ∉ d.groups.map Group.context := by
  rw [h.mem_iff, hc]
  simp

theorem refines_empty : Refines empty .empty := by
  refine ⟨rfl, fun c i => ?_⟩
  simp [empty, Draft.empty]

theorem Refines.touch (h : x.Refines d) (c : StatusContext) : (x.touch c).Refines (d.touch c) := by
  unfold IndexedDraft.touch
  cases hc : x.index c with
  | some i =>
    rw [Draft.touch_of_mem (h.mem_iff.mpr ⟨i, hc⟩)]
    exact h
  | none =>
    rw [Draft.touch_of_not_mem (h.not_mem hc)]
    obtain ⟨rfl, hindex⟩ := h
    refine ⟨rfl, fun k j => ?_⟩
    have hlength : x.draft.groups.length = (x.draft.groups.map Group.context).length := by simp
    simp only [List.map_append, List.map_cons, List.map_nil, hlength]
    have hold := hindex k j
    grind

theorem Refines.write (h : x.Refines d) (c : StatusContext) (xs : List Statement) :
    (x.write c xs).Refines (d.write c xs) := by
  suffices hdraft : (x.write c xs).draft = d.write c xs ∧ (x.write c xs).index = x.index by
    refine ⟨hdraft.1, fun k j => ?_⟩
    rw [hdraft.2, Draft.contexts_write]
    exact h.index k j
  unfold IndexedDraft.write
  cases hc : x.index c with
  | none =>
    rw [Draft.write_of_not_mem (h.not_mem hc) xs]
    exact ⟨h.draft, rfl⟩
  | some i =>
    -- the group at the position is the only one of the context
    have hgroups : (d.groups.modify i fun g => { g with statements := g.statements ++ xs }) =
        (d.write c xs).groups := by
      refine List.ext_getElem? fun j => ?_
      rw [List.getElem?_modify, Draft.write, List.getElem?_map]
      cases hg : d.groups[j]? with
      | none => rfl
      | some g =>
        have hposition : g.context = c ↔ i = j := by
          have hj := h.index c j
          rw [List.getElem?_map, hg, hc] at hj
          simpa using hj.symm
        simp [hposition]
    refine ⟨?_, rfl⟩
    rw [h.draft]
    exact congrArg (fun gs => { d with groups := gs }) hgroups

theorem Refines.edit (h : x.Refines d) (e : Edit) : (x.edit e).Refines (d.edit e) := by
  cases e with
  | touch c => exact h.touch c
  | write c xs => exact h.write c xs
  | record dependency =>
    refine ⟨congrArg (·.record dependency) h.draft, fun c i => (h.index c i).trans ?_⟩
    rw [Draft.edit, Drafting.groups_record]

/-- Finding groups by an index refines looking for their contexts: under the same edits the indexed
draft goes on standing for the draft. -/
theorem Refines.edits (h : x.Refines d) (es : List Edit) :
    (es.foldl IndexedDraft.edit x).Refines (es.foldl Draft.edit d) := by
  induction es generalizing x d with
  | nil => exact h
  | cons e es ih => exact ih (h.edit e)

end IndexedDraft

/-! ### Growing -/

namespace Group

/-- The text of a group within its braces. -/
def lines (g : Group) : String := Layout.render Layout.baseDepth (g.statements.map Statement.item)

/-- The depth at which the next line of the group will stand. -/
def depth (g : Group) : Nat := Statement.depthBehind Layout.baseDepth g.statements

end Group

theorem Group.lines_append (c : StatusContext) (xs ys : List Statement) :
    (Group.mk c (xs ++ ys)).lines = (Group.mk c xs).lines ++
      Layout.render (Group.mk c xs).depth (ys.map Statement.item) := by
  simp only [lines, depth, Layout.render, List.map_append, Layout.texts_append, String.join_append]
  rfl

/-- Groups keep their place and their context, and what is written to them comes behind what stands
there; dependencies stay recorded. -/
structure Draft.Grows (d d' : Draft) : Prop where
  groups : ∀ (i : Nat) (g : Group), d.groups[i]? = some g →
    ∃ xs, d'.groups[i]? = some { g with statements := g.statements ++ xs }
  dependencies : ∀ package ∈ d.dependencies, package ∈ d'.dependencies

namespace Draft

variable {d d' d'' : Draft}

theorem Grows.refl (d : Draft) : d.Grows d :=
  ⟨fun _ g hg => ⟨[], by rw [List.append_nil]; exact hg⟩, fun _ => id⟩

theorem Grows.trans (h : d.Grows d') (h' : d'.Grows d'') : d.Grows d'' where
  groups i g hg := by
    obtain ⟨xs, hxs⟩ := h.groups i g hg
    obtain ⟨ys, hys⟩ := h'.groups i _ hxs
    exact ⟨xs ++ ys, by rw [hys, List.append_assoc]⟩
  dependencies package hp := h'.dependencies package (h.dependencies package hp)

theorem grows_touch (d : Draft) (c : StatusContext) : d.Grows (d.touch c) := by
  by_cases hc : c ∈ d.groups.map Group.context
  · rw [touch_of_mem hc]
    exact .refl d
  · rw [touch_of_not_mem hc]
    refine ⟨fun i g hg => ⟨[], ?_⟩, fun _ => id⟩
    rw [List.append_nil]
    exact List.getElem?_append_left (List.getElem?_eq_some_iff.mp hg).1 ▸ hg

theorem grows_write (d : Draft) (c : StatusContext) (xs : List Statement) :
    d.Grows (d.write c xs) := by
  refine ⟨fun i g hg => ?_, fun _ => id⟩
  rw [write, List.getElem?_map, hg, Option.map_some]
  by_cases hc : g.context = c
  · exact ⟨xs, by rw [if_pos hc]⟩
  · exact ⟨[], by rw [if_neg hc, List.append_nil]⟩

theorem grows_record (d : Draft) (dependency : Option String) : d.Grows (d.record dependency) := by
  cases dependency with
  | none => exact .refl d
  | some name =>
    refine ⟨(Grows.refl d).groups, fun package hp => ?_⟩
    exact OrderedSet.mem_insert.mpr (.inr hp)

theorem grows_edit (d : Draft) (e : Edit) : d.Grows (d.edit e) := by
  cases e with
  | touch c => exact d.grows_touch c
  | write c xs => exact d.grows_write c xs
  | record dependency => exact d.grows_record dependency

theorem grows_edits (d : Draft) (es : List Edit) : d.Grows (es.foldl edit d) := by
  induction es generalizing d with
  | nil => exact .refl d
  | cons e es ih => exact (d.grows_edit e).trans (ih _)

section Holds

variable {es : List Emission}

theorem Holds.nodup (h : d.Holds es) : (d.groups.map Group.context).Nodup := by
  rw [h.contexts]
  exact Emission.nodup_contexts es

theorem exists_holds_edit (h : ∃ es, d.Holds es) (e : Edit) : ∃ es, (d.edit e).Holds es := by
  obtain ⟨es, hes⟩ := h
  cases e with
  | touch c => exact ⟨_, hes.touch (p := [])⟩
  | record dependency => exact ⟨es, hes.record dependency⟩
  | write c xs =>
    by_cases hc : c ∈ Emission.contexts es
    · exact ⟨_, hes.write (p := []) hc xs⟩
    · have hmem : c ∉ d.groups.map Group.context := by rwa [hes.contexts]
      rw [edit, write_of_not_mem hmem]
      exact ⟨es, hes⟩

/-- Whatever the edits are, they leave what some emissions write. -/
theorem exists_holds_edits (h : ∃ es, d.Holds es) (edits : List Edit) :
    ∃ es, (edits.foldl edit d).Holds es := by
  induction edits generalizing d with
  | nil => exact h
  | cons e edits ih => exact ih (exists_holds_edit h e)

end Holds

end Draft

/-! ### Depths behind a success -/

namespace Drafting

variable {r : Registry} {n : Node} {place : Option Place} {u : Unit} {d d' : Draft}

/-- A node that is drafted adds nested statements to what a group held before. -/
theorem node_adds_nested {es : List Emission} {g : Group} (hd : d.Holds es)
    (h : node r place n d = .ok u d') (hg : g ∈ d'.groups) :
    ∃ xs, Statement.Nested xs ∧
      g.statements = (es.filter (·.context = g.context)).flatMap Emission.statements ++ xs := by
  obtain ⟨back, hback⟩ : ∃ back, Leads place n back := ⟨_, fun _ => rfl⟩
  have hd' : d'.Holds (es ++ (n.actions r back []).map Action.emission) := node_acts hback hd h
  refine ⟨Action.written g.context (n.actions r back []),
    (n.actions_orderly back [] []).nested g.context, ?_⟩
  rw [hd'.statements hg, List.filter_append, List.flatMap_append, Action.written, List.filter_map,
    List.flatMap_map]
  rfl

theorem node_depth {es : List Emission} {g : Group} (hd : d.Holds es)
    (h : node r place n d = .ok u d') (hg : g ∈ d'.groups) :
    g.depth = Statement.depthBehind Layout.baseDepth
      ((es.filter (·.context = g.context)).flatMap Emission.statements) := by
  obtain ⟨xs, hnested, hxs⟩ := node_adds_nested hd h hg
  rw [Group.depth, hxs, Statement.depthBehind_append, hnested.depthBehind_eq]

/-- A node that is drafted ends the groups that there were at the depth at which they stood, also
where that is too deep, and new groups at the depth at which they begin. -/
theorem node_keeps_depth (hd : ∃ es, d.Holds es) (h : node r place n d = .ok u d') :
    (∀ g ∈ d.groups, ∀ g' ∈ d'.groups, g'.context = g.context → g'.depth = g.depth) ∧
    ∀ g' ∈ d'.groups, g'.context ∉ d.groups.map Group.context → g'.depth = Layout.baseDepth := by
  obtain ⟨es, hes⟩ := hd
  refine ⟨fun g hg g' hg' hcontext => ?_, fun g' hg' hnew => ?_⟩
  · rw [node_depth hes h hg', hcontext, ← hes.statements hg]
    rfl
  · rw [hes.contexts, Emission.mem_contexts] at hnew
    have hnone : es.filter (·.context = g'.context) = [] := by
      simpa using hnew
    rw [node_depth hes h hg', hnone]
    rfl

/-- Drafting stays consistent, whatever is drafted and wherever it fails. After some tasks, an
index that is kept along with the draft and by which groups are found has the position of each
context that has a group, and nothing else, and no two groups have the same context. Further tasks
leave every group in its place and under its context, with its text as the first part of the new
one, and every dependency recorded. A task that succeeds ends the groups that there were at the
depth at which it found them, and new groups at depth 3. -/
theorem tasks_stay_consistent (r : Registry) (tasks more : List Task) :
    let d := after r tasks .empty
    let d' := after r more d
    (∃ edits : List Edit, (∀ d₀, after r tasks d₀ = edits.foldl Draft.edit d₀) ∧
      let x := edits.foldl IndexedDraft.edit .empty
      x.draft = d ∧
        ∀ c i, x.index c = some i ↔ (d.groups.map Group.context)[i]? = some c) ∧
    (d.groups.map Group.context).Nodup ∧
    (∀ (i : Nat) (g : Group), d.groups[i]? = some g →
      ∃ (g' : Group) (text : String), d'.groups[i]? = some g' ∧ g'.context = g.context ∧
        g'.lines = g.lines ++ text) ∧
    (∀ package ∈ d.dependencies, package ∈ d'.dependencies) ∧
    ∀ (t : Task) (u : Unit) (d₁ : Draft), node r t.place t.node d = .ok u d₁ →
      (∀ g ∈ d.groups, ∀ g₁ ∈ d₁.groups, g₁.context = g.context → g₁.depth = g.depth) ∧
      ∀ g₁ ∈ d₁.groups, g₁.context ∉ d.groups.map Group.context → g₁.depth = 3 := by
  intro d d'
  obtain ⟨edits, hedits⟩ := exists_edits r tasks
  obtain ⟨later, hlater⟩ := exists_edits r more
  have hd : edits.foldl Draft.edit .empty = d := (hedits _).symm
  obtain ⟨hdraft, hindex⟩ := hd ▸ IndexedDraft.refines_empty.edits edits
  have hholds : ∃ es, d.Holds es := hd ▸ Draft.exists_holds_edits ⟨[], Draft.holds_empty⟩ edits
  have hgrows : d.Grows d' := by
    rw [show d' = later.foldl Draft.edit d from hlater d]
    exact d.grows_edits later
  refine ⟨⟨edits, hedits, hdraft, hindex⟩, ?_, fun i g hg => ?_, hgrows.dependencies,
    fun t u d₁ h => node_keeps_depth hholds h⟩
  · obtain ⟨es, hes⟩ := hholds
    exact hes.nodup
  · obtain ⟨xs, hxs⟩ := hgrows.groups i g hg
    exact ⟨_, _, hxs, rfl, Group.lines_append g.context g.statements xs⟩

end Drafting

namespace Sample

def ferry : Feature := ⟨"ferry", "$.sail($x)", some "travel", .plain⟩

/-- A ride in an arm, and behind it a message for which some words have no feature. -/
def halted : Node :=
  .mk (.switch job) .start
    [.mk (.case (.values ["110"])) .start
      [.mk (.command ferry ⟨some "5", none, none⟩) .start [], .mk (.message 0 .ok "hi") .start []]]

/-- Gifts in two contexts. -/
def gifts : Node :=
  .mk .block .start
    [.mk (.command give ⟨some "5", none, none⟩) .start [],
      .mk (.command give ⟨some "7", none, none⟩) (.singleton 1) []]

end Sample

namespace Drafting

/-- A ride stands in an open brace when its task fails; the gifts after it are written behind the
ride, at its depth. -/
theorem gifts_behind_failure_consistent :
    let d := after Sample.registry [⟨none, Sample.halted⟩] .empty
    let d' := after Sample.registry [⟨none, Sample.gifts⟩] d
    ∃ g g' new : Group, node Sample.registry none Sample.gifts d = .ok () d' ∧
      d.groups = [g] ∧ d'.groups = [g', new] ∧ g.depth = 4 ∧ g'.depth = g.depth ∧ new.depth = 3 ∧
      (∃ text, g'.lines = g.lines ++ text) ∧
      "travel" ∈ d.dependencies ∧ "travel" ∈ d'.dependencies := by
  intro d d'
  obtain ⟨-, -, hgroups, hdependencies, hdepths⟩ :=
    tasks_stay_consistent Sample.registry [⟨none, Sample.halted⟩] [⟨none, Sample.gifts⟩]
  have hok : node Sample.registry none Sample.gifts d = .ok () d' := rfl
  obtain ⟨hold, hnew⟩ := hdepths ⟨none, Sample.gifts⟩ () d' hok
  obtain ⟨g, hg, hcontext, hdepth⟩ : ∃ g, d.groups = [g] ∧ g.context = .start ∧ g.depth = 4 :=
    ⟨_, rfl, rfl, rfl⟩
  obtain ⟨g', new, hg', hcontext', hnext⟩ : ∃ g' new, d'.groups = [g', new] ∧
      g'.context = .start ∧ new.context = .singleton 1 := ⟨_, _, rfl, rfl, rfl⟩
  have hmem : g ∈ d.groups := by simp [hg]
  have hmem' : g' ∈ d'.groups ∧ new ∈ d'.groups := by simp [hg']
  have hfirst : new.context ∉ d.groups.map Group.context := by
    rw [hg, List.map_singleton, List.mem_singleton, hnext, hcontext]
    decide
  have hride : "travel" ∈ d.dependencies := by decide
  obtain ⟨g₁, text, hg₁, -, hlines⟩ := hgroups 0 g (congrArg (·[0]?) hg)
  obtain rfl : g' = g₁ := Option.some.inj ((congrArg (·[0]?) hg').symm.trans hg₁)
  exact ⟨g, g', new, hok, hg, hg', hdepth,
    hold g hmem g' hmem'.1 (hcontext'.trans hcontext.symm), hnew new hmem'.2 hfirst,
    ⟨text, hlines⟩, hride, hdependencies _ hride⟩

end Drafting

end SceneDispatch
