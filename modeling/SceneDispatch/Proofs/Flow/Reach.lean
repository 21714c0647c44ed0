import Mathlib.Logic.Relation
import SceneDispatch.Proofs.Scene.Shape
/-!
Runs of a scene in which every test and every selection may come out either way. A run keeps the
nodes it has still to walk. It is stuck at a suspend point, and is resumed behind one with the
nodes that were left. Main statements: a run of two parts one after another is a run of the first
part, or of the whole first part and then of the second.
-/
namespace SceneDispatch

/-- A node that is still to be walked, with its place in the scene. -/
structure Pending where
  path : Path
  node : Node

namespace Pending

/-- Siblings below the node at `p`, numbered from `i`. -/
def siblings (p : Path) : Nat → List Node → List Pending
  | _, [] => []
  | i, n :: ns => ⟨p ++ [i], n⟩ :: siblings p (i + 1) ns

def children (v : Pending) : List Pending := siblings v.path 0 v.node.children

theorem mem_siblings {p : Path} {w : Pending} {i : Nat} {ns : List Node} :
    w ∈ siblings p i ns ↔ ∃ j, ns[j]? = some w.node ∧ w.path = p ++ [i + j] := by
  induction ns generalizing i with
  | nil => simp [siblings]
  | cons n ns ih =>
    rw [siblings, List.mem_cons, ih]
    constructor
    · rintro (rfl | ⟨j, hj, hw⟩)
      · exact ⟨0, rfl, rfl⟩
      · exact ⟨j + 1, hj, by rw [hw, Nat.add_right_comm, Nat.add_assoc]⟩
    · rintro ⟨j, hj, hw⟩
      cases j with
      | zero =>
        obtain ⟨path, node⟩ := w
        exact .inl (by simp_all)
      | succ j => exact .inr ⟨j, hj, by rw [hw, Nat.add_right_comm, Nat.add_assoc]⟩

end Pending

/-- One step of a run. There is none at a suspend point. -/
inductive Step : List Pending → List Pending → Prop
  | sequence {v : Pending} {rest : List Pending} :
    v.node.kind.isSerial = true → Step (v :: rest) (v.children ++ rest)
  | arm {v w : Pending} {rest : List Pending} {f : Feature} :
    v.node.kind = .switch f → w ∈ v.children → Step (v :: rest) (w :: rest)
  /-- A switch without a default arm may run none of its arms. -/
  | pass {v : Pending} {rest : List Pending} {f : Feature} :
    v.node.kind = .switch f → (∀ n ∈ v.node.children, n.kind ≠ .case .otherwise) →
    Step (v :: rest) rest
  | command {v : Pending} {rest : List Pending} {f : Feature} {a : Arguments} :
    v.node.kind = .command f a → Step (v :: rest) rest

mutual

/-- What is left to walk of a node when it is resumed behind its suspend point of a status. An
options node goes on with any one of its entries. -/
inductive Resumes : Pending → Status → List Pending → Prop
  | message {v : Pending} {s : Status} {style : MessageStyle} {text : String} :
    v.node.kind = .message s style text → Resumes v s []
  | options {v w : Pending} {s : Status} {text : String} :
    v.node.kind = .options s text → w ∈ v.children → Resumes v s [w]
  | sequence {v : Pending} {s : Status} {rest : List Pending} :
    v.node.kind.isSerial = true → ResumesIn v.children s rest → Resumes v s rest
  | branch {v w : Pending} {s : Status} {rest : List Pending} :
    v.node.kind.isParallel = true → w ∈ v.children → Resumes w s rest → Resumes v s rest

/-- The same for nodes that are walked one after another. -/
inductive ResumesIn : List Pending → Status → List Pending → Prop
  | here {v : Pending} {vs rest : List Pending} {s : Status} :
    Resumes v s rest → ResumesIn (v :: vs) s (rest ++ vs)
  | later {v : Pending} {vs rest : List Pending} {s : Status} :
    ResumesIn vs s rest → ResumesIn (v :: vs) s rest

end

/-- Runs take any number of steps. -/
abbrev Run := Relation.ReflTransGen Step

/-- Some run of the pending nodes comes to the place `p`. -/
def Arrives (vs : List Pending) (p : Path) : Prop := ∃ n rest, Run vs (⟨p, n⟩ :: rest)

section Runs

variable {v w : Pending} {xs ys zs k : List Pending} {p q : Path}

theorem Step.append (h : Step xs ys) (k : List Pending) : Step (xs ++ k) (ys ++ k) := by
  cases h with
  | sequence hk =>
    rw [List.append_assoc]
    exact .sequence hk
  | arm hk hw => exact .arm hk hw
  | pass hk hd => exact .pass hk hd
  | command hk => exact .command hk

theorem not_step_nil : ¬ Step [] ys := nofun

/-- What stands behind the first pending node takes no part in a step. -/
theorem step_cons_append (h : Step (v :: xs ++ k) zs) :
    ∃ ys, Step (v :: xs) ys ∧ zs = ys ++ k := by
  cases h with
  | sequence hk => exact ⟨_, .sequence hk, by simp⟩
  | arm hk hw => exact ⟨_, .arm hk hw, rfl⟩
  | pass hk hd => exact ⟨_, .pass hk hd, rfl⟩
  | command hk => exact ⟨_, .command hk, rfl⟩

theorem Run.append (h : Run xs ys) (k : List Pending) : Run (xs ++ k) (ys ++ k) := by
  induction h with
  | refl => exact .refl
  | tail _ hstep ih => exact ih.tail (hstep.append k)

theorem run_append (h : Run (xs ++ k) zs) :
    (∃ ys, Run xs ys ∧ zs = ys ++ k) ∨ (Run xs [] ∧ Run k zs) := by
  generalize hstart : xs ++ k = start at h
  induction h using Relation.ReflTransGen.head_induction_on generalizing xs with
  | refl => exact .inl ⟨xs, .refl, hstart.symm⟩
  | head hstep hrun ih =>
    cases xs with
    | nil =>
      subst hstart
      exact .inr ⟨.refl, hrun.head hstep⟩
    | cons v xs =>
      subst hstart
      obtain ⟨ys, hys, rfl⟩ := step_cons_append hstep
      rcases ih rfl with ⟨us, hus, hzs⟩ | ⟨hnil, hk⟩
      · exact .inl ⟨us, hus.head hys, hzs⟩
      · exact .inr ⟨hnil.head hys, hk⟩

theorem run_append_nil : Run (xs ++ k) [] ↔ Run xs [] ∧ Run k [] := by
  constructor
  · intro h
    rcases run_append h with ⟨ys, hys, hnil⟩ | h
    · obtain ⟨rfl, rfl⟩ := List.append_eq_nil_iff.mp hnil.symm
      exact ⟨hys, .refl⟩
    · exact h
  · rintro ⟨hxs, hk⟩
    exact (Run.append hxs k).trans hk

theorem arrives_append : Arrives (xs ++ k) p ↔ Arrives xs p ∨ Run xs [] ∧ Arrives k p := by
  constructor
  · rintro ⟨n, rest, h⟩
    rcases run_append h with ⟨ys, hys, hsplit⟩ | ⟨hxs, hk⟩
    · cases ys with
      | nil => exact .inr ⟨hys, n, rest, hsplit ▸ .refl⟩
      | cons y ys =>
        obtain ⟨rfl, -⟩ := List.cons.inj hsplit
        exact .inl ⟨n, ys, hys⟩
    · exact .inr ⟨hxs, n, rest, hk⟩
  · rintro (⟨n, rest, h⟩ | ⟨hxs, n, rest, hk⟩)
    · exact ⟨n, rest ++ k, Run.append h k⟩
    · exact ⟨n, rest, (Run.append hxs k).trans hk⟩

theorem run_nil_cons : Run (v :: xs) [] ↔ Run [v] [] ∧ Run xs [] := by
  rw [← List.singleton_append, run_append_nil]

theorem arrives_cons : Arrives (v :: xs) p ↔ Arrives [v] p ∨ Run [v] [] ∧ Arrives xs p := by
  rw [← List.singleton_append, arrives_append]

theorem run_nil_singleton : Run [v] [] ↔ ∃ ys, Step [v] ys ∧ Run ys [] := by
  constructor
  · intro h
    rcases Relation.ReflTransGen.cases_head h with h | h
    · simp at h
    · exact h
  · rintro ⟨ys, hstep, hrun⟩
    exact hrun.head hstep

theorem arrives_singleton : Arrives [v] p ↔ p = v.path ∨ ∃ ys, Step [v] ys ∧ Arrives ys p := by
  constructor
  · rintro ⟨n, rest, h⟩
    rcases Relation.ReflTransGen.cases_head h with h | ⟨ys, hstep, hrun⟩
    · obtain ⟨rfl, -⟩ := List.cons.inj h
      exact .inl rfl
    · exact .inr ⟨ys, hstep, n, rest, hrun⟩
  · rintro (rfl | ⟨ys, hstep, n, rest, hrun⟩)
    · exact ⟨v.node, [], .refl⟩
    · exact ⟨n, rest, hrun.head hstep⟩

theorem not_arrives_nil : ¬ Arrives [] p := by
  rintro ⟨n, rest, h⟩
  rcases Relation.ReflTransGen.cases_head h with h | ⟨_, hstep, -⟩
  · simp at h
  · exact not_step_nil hstep

end Runs

section Kinds

variable {q p : Path} {kind : NodeKind} {c : StatusContext} {ns : List Node} {f : Feature}
  {a : Arguments} {s t : Status} {style : MessageStyle} {text : String} {rest ys : List Pending}

theorem step_serial (hk : kind.isSerial = true) :
    Step [⟨q, .mk kind c ns⟩] ys ↔ ys = Pending.siblings q 0 ns := by
  constructor
  · intro h
    cases h with
    | sequence _ => exact List.append_nil _
    | arm h' _ => cases h'; simp [NodeKind.isSerial] at hk
    | pass h' _ => cases h'; simp [NodeKind.isSerial] at hk
    | command h' => cases h'; simp [NodeKind.isSerial] at hk
  · rintro rfl
    have h : Step [⟨q, .mk kind c ns⟩] (Pending.siblings q 0 ns ++ []) := .sequence hk
    rwa [List.append_nil] at h

theorem step_switch :
    Step [⟨q, .mk (.switch f) c ns⟩] ys ↔
      (∃ w ∈ Pending.siblings q 0 ns, ys = [w]) ∨
        ys = [] ∧ ∀ n ∈ ns, n.kind ≠ .case .otherwise := by
  constructor
  · intro h
    cases h with
    | sequence h' => cases h'
    | arm _ hw => exact .inl ⟨_, hw, rfl⟩
    | pass _ hd => exact .inr ⟨rfl, hd⟩
    | command h' => cases h'
  · rintro (⟨w, hw, rfl⟩ | ⟨rfl, hd⟩)
    · exact .arm rfl hw
    · exact .pass rfl hd

theorem not_step_suspended (hk : kind.status? = some s) :
    ¬ Step [⟨q, .mk kind c ns⟩] ys := by
  intro h
  cases h with
  | sequence h' =>
    change kind.isSerial = true at h'
    cases kind <;> simp_all [NodeKind.isSerial, NodeKind.status?]
  | arm h' _ => cases h'; simp [NodeKind.status?] at hk
  | pass h' _ => cases h'; simp [NodeKind.status?] at hk
  | command h' => cases h'; simp [NodeKind.status?] at hk

theorem run_nil_serial (hk : kind.isSerial = true) :
    Run [⟨q, .mk kind c ns⟩] [] ↔ Run (Pending.siblings q 0 ns) [] := by
  simp only [run_nil_singleton, step_serial hk, exists_eq_left]

theorem run_nil_switch :
    Run [⟨q, .mk (.switch f) c ns⟩] [] ↔
      (∃ w ∈ Pending.siblings q 0 ns, Run [w] []) ∨ ∀ n ∈ ns, n.kind ≠ .case .otherwise := by
  rw [run_nil_singleton]
  constructor
  · rintro ⟨ys, hstep, hrun⟩
    rcases step_switch.mp hstep with ⟨w, hw, rfl⟩ | ⟨-, hd⟩
    · exact .inl ⟨w, hw, hrun⟩
    · exact .inr hd
  · rintro (⟨w, hw, hrun⟩ | hd)
    · exact ⟨[w], .arm rfl hw, hrun⟩
    · exact ⟨[], .pass rfl hd, .refl⟩

theorem run_nil_command : Run [⟨q, .mk (.command f a) c ns⟩] [] := .single (.command rfl)

theorem not_run_nil_suspended (hk : kind.status? = some s) :
    ¬ Run [⟨q, .mk kind c ns⟩] [] := by
  rw [run_nil_singleton]
  rintro ⟨ys, hstep, -⟩
  exact not_step_suspended hk hstep

theorem arrives_serial (hk : kind.isSerial = true) (hp : p ≠ q) :
    Arrives [⟨q, .mk kind c ns⟩] p ↔ Arrives (Pending.siblings q 0 ns) p := by
  simp only [arrives_singleton, hp, step_serial hk, exists_eq_left, false_or]

theorem arrives_switch (hp : p ≠ q) :
    Arrives [⟨q, .mk (.switch f) c ns⟩] p ↔
      ∃ w ∈ Pending.siblings q 0 ns, Arrives [w] p := by
  rw [arrives_singleton]
  constructor
  · rintro (h | ⟨ys, hstep, h⟩)
    · exact absurd h hp
    · rcases step_switch.mp hstep with ⟨w, hw, rfl⟩ | ⟨rfl, -⟩
      · exact ⟨w, hw, h⟩
      · exact absurd h not_arrives_nil
  · rintro ⟨w, hw, h⟩
    exact .inr ⟨[w], .arm rfl hw, h⟩

theorem not_arrives_suspended (hk : kind.status? = some s) (hp : p ≠ q) :
    ¬ Arrives [⟨q, .mk kind c ns⟩] p := by
  rw [arrives_singleton]
  rintro (h | ⟨ys, hstep, -⟩)
  · exact hp h
  · exact not_step_suspended hk hstep

theorem resumes_serial (hk : kind.isSerial = true) :
    Resumes ⟨q, .mk kind c ns⟩ s rest ↔ ResumesIn (Pending.siblings q 0 ns) s rest := by
  constructor
  · intro h
    cases h with
    | message h' => cases h'; simp [NodeKind.isSerial] at hk
    | options h' _ => cases h'; simp [NodeKind.isSerial] at hk
    | sequence _ h => exact h
    | branch h' _ _ =>
      change kind.isParallel = true at h'
      cases kind <;> simp_all [NodeKind.isSerial, NodeKind.isParallel]
  · intro h
    exact .sequence hk h

theorem resumes_switch :
    Resumes ⟨q, .mk (.switch f) c ns⟩ s rest ↔
      ∃ w ∈ Pending.siblings q 0 ns, Resumes w s rest := by
  constructor
  · intro h
    cases h with
    | message h' => cases h'
    | options h' _ => cases h'
    | sequence h' _ => cases h'
    | branch _ hw h => exact ⟨_, hw, h⟩
  · rintro ⟨w, hw, h⟩
    exact .branch rfl hw h

theorem resumes_options :
    Resumes ⟨q, .mk (.options t text) c ns⟩ s rest ↔
      ∃ w ∈ Pending.siblings q 0 ns, s = t ∧ rest = [w] ∨ Resumes w s rest := by
  constructor
  · intro h
    cases h with
    | message h' => cases h'
    | options h' hw => cases h'; exact ⟨_, hw, .inl ⟨rfl, rfl⟩⟩
    | sequence h' _ => cases h'
    | branch _ hw h => exact ⟨_, hw, .inr h⟩
  · rintro ⟨w, hw, ⟨rfl, rfl⟩ | h⟩
    · exact .options rfl hw
    · exact .branch rfl hw h

theorem resumes_message :
    Resumes ⟨q, .mk (.message t style text) c ns⟩ s rest ↔ s = t ∧ rest = [] := by
  constructor
  · intro h
    cases h with
    | message h' => cases h'; exact ⟨rfl, rfl⟩
    | options h' _ => cases h'
    | sequence h' _ => cases h'
    | branch h' _ _ => cases h'
  · rintro ⟨rfl, rfl⟩
    exact .message rfl

theorem not_resumes_command : ¬ Resumes ⟨q, .mk (.command f a) c ns⟩ s rest := by
  intro h
  cases h with
  | message h' => cases h'
  | options h' _ => cases h'
  | sequence h' _ => cases h'
  | branch h' _ _ => cases h'

theorem not_resumesIn_nil : ¬ ResumesIn [] s rest := nofun

theorem resumesIn_cons {v : Pending} {vs : List Pending} :
    ResumesIn (v :: vs) s rest ↔
      (∃ left, Resumes v s left ∧ rest = left ++ vs) ∨ ResumesIn vs s rest := by
  constructor
  · intro h
    cases h with
    | here h => exact .inl ⟨_, h, rfl⟩
    | later h => exact .inr h
  · rintro (⟨left, h, rfl⟩ | h)
    · exact .here h
    · exact .later h

end Kinds

section Places

variable {v w : Pending} {vs xs ys rest : List Pending} {s : Status} {p q : Path}

theorem path_prefix_of_mem_children (h : w ∈ v.children) : v.path <+: w.path := by
  obtain ⟨j, -, hw⟩ := Pending.mem_siblings.mp h
  rw [hw]
  exact List.prefix_append _ _

/-- Runs only go down. -/
theorem Step.descends (h : Step xs ys) : ∀ w ∈ ys, ∃ v ∈ xs, v.path <+: w.path := by
  intro w hw
  cases h with
  | sequence _ =>
    rcases List.mem_append.mp hw with hw | hw
    · exact ⟨_, List.mem_cons_self, path_prefix_of_mem_children hw⟩
    · exact ⟨w, List.mem_cons_of_mem _ hw, List.prefix_rfl⟩
  | arm _ hchild =>
    rcases List.mem_cons.mp hw with rfl | hw
    · exact ⟨_, List.mem_cons_self, path_prefix_of_mem_children hchild⟩
    · exact ⟨w, List.mem_cons_of_mem _ hw, List.prefix_rfl⟩
  | pass _ _ => exact ⟨w, List.mem_cons_of_mem _ hw, List.prefix_rfl⟩
  | command _ => exact ⟨w, List.mem_cons_of_mem _ hw, List.prefix_rfl⟩

theorem Run.descends (h : Run xs ys) : ∀ w ∈ ys, ∃ v ∈ xs, v.path <+: w.path := by
  induction h with
  | refl => exact fun w hw => ⟨w, hw, List.prefix_rfl⟩
  | tail _ hstep ih =>
    intro w hw
    obtain ⟨u, hu, huw⟩ := hstep.descends w hw
    obtain ⟨v, hv, hvu⟩ := ih u hu
    exact ⟨v, hv, hvu.trans huw⟩

theorem Arrives.descends (h : Arrives xs p) : ∃ v ∈ xs, v.path <+: p := by
  obtain ⟨n, rest, hrun⟩ := h
  exact Run.descends hrun ⟨p, n⟩ List.mem_cons_self

mutual

theorem Resumes.descends : ∀ {v : Pending} {rest : List Pending}, Resumes v s rest →
    ∀ w ∈ rest, ∃ u ∈ v.children, u.path <+: w.path
  | _, _, .message _ => by simp
  | _, _, .options _ hchild => by
    intro w hw
    rw [List.mem_singleton.mp hw]
    exact ⟨_, hchild, List.prefix_rfl⟩
  | _, _, .sequence _ h => h.descends
  | _, _, .branch _ hchild h => by
    intro w hw
    obtain ⟨u, hu, huw⟩ := h.descends w hw
    exact ⟨_, hchild, (path_prefix_of_mem_children hu).trans huw⟩

theorem ResumesIn.descends : ∀ {vs rest : List Pending}, ResumesIn vs s rest →
    ∀ w ∈ rest, ∃ u ∈ vs, u.path <+: w.path
  | _, _, .here h => by
    intro w hw
    rcases List.mem_append.mp hw with hw | hw
    · obtain ⟨u, hu, huw⟩ := h.descends w hw
      exact ⟨_, List.mem_cons_self, (path_prefix_of_mem_children hu).trans huw⟩
    · exact ⟨w, List.mem_cons_of_mem _ hw, List.prefix_rfl⟩
  | _, _, .later h => by
    intro w hw
    obtain ⟨u, hu, huw⟩ := h.descends w hw
    exact ⟨u, List.mem_cons_of_mem _ hu, huw⟩

end

theorem Arrives.descends_resumed (hr : Resumes v s rest) (h : Arrives rest p) :
    ∃ u ∈ v.children, u.path <+: p := by
  obtain ⟨w, hw, hwp⟩ := h.descends
  obtain ⟨u, hu, huw⟩ := hr.descends w hw
  exact ⟨u, hu, huw.trans hwp⟩

theorem Arrives.descends_resumedIn (hr : ResumesIn vs s rest) (h : Arrives rest p) :
    ∃ u ∈ vs, u.path <+: p := by
  obtain ⟨w, hw, hwp⟩ := h.descends
  obtain ⟨u, hu, huw⟩ := hr.descends w hw
  exact ⟨u, hu, huw.trans hwp⟩

/-- Of siblings, only one lies above a given place. -/
theorem index_eq_of_isPrefix {i j : Nat} (h : q ++ [i] <+: q ++ j :: p) : i = j := by
  rw [List.prefix_append_right_inj, List.singleton_prefix_cons_iff] at h
  exact h

/-- A run among siblings does not come to one that stands before them. -/
theorem not_arrives_siblings {i j : Nat} {ns : List Node} (h : i < j) :
    ¬ Arrives (Pending.siblings q j ns) (q ++ i :: p) := by
  intro harrives
  obtain ⟨u, hu, hprefix⟩ := harrives.descends
  obtain ⟨k, -, hpath⟩ := Pending.mem_siblings.mp hu
  have hindex := index_eq_of_isPrefix (hpath ▸ hprefix)
  omega

theorem not_arrives_resumedIn {i j : Nat} {ns : List Node} (h : i < j)
    (hr : ResumesIn (Pending.siblings q j ns) s rest) : ¬ Arrives rest (q ++ i :: p) := by
  intro harrives
  obtain ⟨u, hu, hprefix⟩ := harrives.descends_resumedIn hr
  obtain ⟨k, -, hpath⟩ := Pending.mem_siblings.mp hu
  have hindex := index_eq_of_isPrefix (hpath ▸ hprefix)
  omega

/-- A run in one sibling does not come to another. -/
theorem not_arrives_other {i j : Nat} {n : Node} (h : i ≠ j) :
    ¬ Arrives [⟨q ++ [i], n⟩] (q ++ j :: p) := by
  intro harrives
  obtain ⟨u, hu, hprefix⟩ := harrives.descends
  rw [List.mem_singleton.mp hu] at hprefix
  exact h (index_eq_of_isPrefix hprefix)

theorem not_arrives_resumed {i j : Nat} {n : Node} (h : i ≠ j)
    (hr : Resumes ⟨q ++ [i], n⟩ s rest) : ¬ Arrives rest (q ++ j :: p) := by
  intro harrives
  obtain ⟨u, hu, hprefix⟩ := harrives.descends_resumed hr
  exact h (index_eq_of_isPrefix ((path_prefix_of_mem_children hu).trans hprefix))

end Places

end SceneDispatch
