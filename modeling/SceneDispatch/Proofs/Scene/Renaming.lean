import SceneDispatch.Proofs.Flow.Rules
/-!
Renaming the statuses of a scene graph: those of its suspend points and those in its contexts. Main
statements: what a renaming does to a fresh graph depends on the statuses of its suspend points
alone, and statuses flow through a renamed graph as they do through the graph itself.
-/
namespace SceneDispatch

def NodeKind.rename (σ : Status → Status) : NodeKind → NodeKind
  | message status style text => message (σ status) style text
  | options status text => options (σ status) text
  | kind => kind

/-- The statuses that the members of a context become. -/
def StatusContext.rename (σ : Status → Status) (c : StatusContext) : StatusContext :=
  .ofList (c.toList.map σ)

namespace Node

mutual

def rename (σ : Status → Status) : Node → Node
  | mk kind c ns => mk (kind.rename σ) (c.rename σ) (renameAll σ ns)

def renameAll (σ : Status → Status) : List Node → List Node
  | [] => []
  | n :: ns => rename σ n :: renameAll σ ns

end

end Node

section Kinds

variable (σ : Status → Status) (kind : NodeKind)

@[simp] theorem NodeKind.isParallel_rename : (kind.rename σ).isParallel = kind.isParallel := by
  cases kind <;> rfl

@[simp] theorem NodeKind.hasChildren_rename : (kind.rename σ).hasChildren = kind.hasChildren := by
  cases kind <;> rfl

@[simp] theorem NodeKind.suspends_rename : (kind.rename σ).suspends = kind.suspends := by
  cases kind <;> rfl

@[simp] theorem NodeKind.name_rename : (kind.rename σ).name = kind.name := by
  cases kind <;> rfl

theorem NodeKind.rename_rename (τ : Status → Status) :
    (kind.rename σ).rename τ = kind.rename (τ ∘ σ) := by
  cases kind <;> rfl

theorem NodeKind.rename_congr {τ : Status → Status} (h : ∀ s ∈ kind.status?, σ s = τ s) :
    kind.rename σ = kind.rename τ := by
  cases kind with
  | message status style text => rw [rename, rename, h status rfl]
  | options status text => rw [rename, rename, h status rfl]
  | _ => rfl

theorem NodeKind.rename_eq_otherwise :
    kind.rename σ = .case .otherwise ↔ kind = .case .otherwise := by
  cases kind <;> simp [rename]

end Kinds

namespace StatusContext

variable {σ : Status → Status} {c c' : StatusContext} {s : Status}

@[simp] theorem mem_rename : s ∈ c.rename σ ↔ ∃ t ∈ c, σ t = s := by
  rw [rename, OrderedSet.mem_ofList, List.mem_map]
  rfl

theorem rename_singleton (s : Status) : rename σ (.singleton s) = .singleton (σ s) := rfl

theorem rename_union : rename σ (c ∪ c') = rename σ c ∪ rename σ c' := by
  apply OrderedSet.ext
  intro s
  simp only [mem_rename, OrderedSet.mem_union]
  constructor
  · rintro ⟨t, ht | ht, rfl⟩
    · exact .inl ⟨t, ht, rfl⟩
    · exact .inr ⟨t, ht, rfl⟩
  · rintro (⟨t, ht, rfl⟩ | ⟨t, ht, rfl⟩)
    · exact ⟨t, .inl ht, rfl⟩
    · exact ⟨t, .inr ht, rfl⟩

theorem rename_injective (hσ : Function.Injective σ) : Function.Injective (rename σ) := by
  intro c c' h
  apply OrderedSet.ext
  intro s
  have hmem : σ s ∈ c.rename σ ↔ σ s ∈ c'.rename σ := by rw [h]
  simpa [hσ.eq_iff] using hmem

end StatusContext

namespace Node

variable {σ τ : Status → Status}

theorem renameAll_eq_map (σ : Status → Status) (ns : List Node) :
    renameAll σ ns = ns.map (rename σ) := by
  induction ns with
  | nil => rfl
  | cons n ns ih => rw [renameAll, ih, List.map_cons]

theorem kind_rename (σ : Status → Status) (n : Node) : (n.rename σ).kind = n.kind.rename σ := by
  cases n
  rfl

theorem rename_fresh (σ : Status → Status) (kind : NodeKind) (ns : List Node) :
    (fresh kind ns).rename σ = fresh (kind.rename σ) (ns.map (rename σ)) := by
  rw [← renameAll_eq_map]
  rfl

theorem isOtherwise_rename (σ : Status → Status) (n : Node) :
    (n.rename σ).isOtherwise = n.isOtherwise := by
  rw [isOtherwise, isOtherwise, kind_rename]
  exact decide_eq_decide.mpr (n.kind.rename_eq_otherwise σ)

mutual

theorem rename_rename : ∀ {n : Node}, n.Fresh → (n.rename σ).rename τ = n.rename (τ ∘ σ)
  | mk kind c ns, h => by
    obtain ⟨rfl, hns⟩ := fresh_mk.mp h
    rw [rename, rename, rename, renameAll_renameAll hns, kind.rename_rename]
    rfl

theorem renameAll_renameAll : ∀ {ns : List Node}, (∀ n ∈ ns, n.Fresh) →
    renameAll τ (renameAll σ ns) = renameAll (τ ∘ σ) ns
  | [], _ => rfl
  | n :: ns, h => by
    obtain ⟨hn, hns⟩ := List.forall_mem_cons.mp h
    rw [renameAll, renameAll, renameAll, rename_rename hn, renameAll_renameAll hns]

end

mutual

/-- Renamings that agree on the suspend points of a fresh graph make the same of it. -/
theorem rename_congr : ∀ {n : Node}, n.Fresh → (∀ s ∈ n.statuses, σ s = τ s) →
    n.rename σ = n.rename τ
  | mk kind c ns, h, heq => by
    obtain ⟨rfl, hns⟩ := fresh_mk.mp h
    have hkind : kind.rename σ = kind.rename τ := by
      apply NodeKind.rename_congr
      intro s hs
      exact heq s (List.mem_append_left _ (Option.mem_toList.mpr hs))
    rw [rename, rename, hkind,
      renameAll_congr hns fun s hs => heq s (List.mem_append_right _ hs)]
    rfl

theorem renameAll_congr : ∀ {ns : List Node}, (∀ n ∈ ns, n.Fresh) →
    (∀ s ∈ statusesIn ns, σ s = τ s) → renameAll σ ns = renameAll τ ns
  | [], _, _ => rfl
  | n :: ns, h, heq => by
    obtain ⟨hn, hns⟩ := List.forall_mem_cons.mp h
    rw [renameAll, renameAll, rename_congr hn fun s hs => heq s (List.mem_append_left _ hs),
      renameAll_congr hns fun s hs => heq s (List.mem_append_right _ hs)]

end

mutual

theorem rename_id : ∀ {n : Node}, n.Fresh → n.rename id = n
  | mk kind c ns, h => by
    obtain ⟨rfl, hns⟩ := fresh_mk.mp h
    have hkind : kind.rename id = kind := by cases kind <;> rfl
    rw [rename, hkind, renameAll_id hns]
    rfl

theorem renameAll_id : ∀ {ns : List Node}, (∀ n ∈ ns, n.Fresh) → renameAll id ns = ns
  | [], _ => rfl
  | n :: ns, h => by
    obtain ⟨hn, hns⟩ := List.forall_mem_cons.mp h
    rw [renameAll, rename_id hn, renameAll_id hns]

end

theorem entry_rename (kind : NodeKind) (c : StatusContext) :
    entry (kind.rename σ) (c.rename σ) = (entry kind c).rename σ := by
  cases kind <;> rfl

theorem fallsThrough_rename (kind : NodeKind) (ns : List Node) :
    fallsThrough (kind.rename σ) (renameAll σ ns) = fallsThrough kind ns := by
  have hany : (renameAll σ ns).any isOtherwise = ns.any isOtherwise := by
    rw [renameAll_eq_map, List.any_map]
    congr 1
    funext n
    exact isOtherwise_rename σ n
  cases kind with
  | switch f => exact congrArg (!·) hany
  | _ => rfl

mutual

/-- Statuses flow through a renamed graph as through the graph itself. -/
theorem assign_rename : ∀ (n : Node) (c : StatusContext),
    assign (c.rename σ) (n.rename σ) = ((assign c n).1.rename σ, (assign c n).2.rename σ)
  | mk kind context ns, c => by
    have hcontext : context.rename σ ∪ c.rename σ = (context ∪ c).rename σ :=
      StatusContext.rename_union.symm
    rw [rename, assign, assign]
    simp only [hcontext, entry_rename, NodeKind.isParallel_rename, NodeKind.hasChildren_rename,
      fallsThrough_rename]
    split
    · simp only [assignBranches_rename ns, rename]
      split <;> simp only [StatusContext.rename_union]
    · split
      · simp only [assignSerial_rename ns, rename]
      · simp only [rename]

theorem assignBranches_rename : ∀ (ns : List Node) (c : StatusContext),
    assignBranches (c.rename σ) (renameAll σ ns) =
      (renameAll σ (assignBranches c ns).1, (assignBranches c ns).2.rename σ)
  | [], _ => rfl
  | n :: ns, c => by
    rw [renameAll, assignBranches, assignBranches, assign_rename n, assignBranches_rename ns]
    simp only [renameAll, StatusContext.rename_union]

theorem assignSerial_rename : ∀ (ns : List Node) (c : StatusContext),
    assignSerial (c.rename σ) (renameAll σ ns) =
      (renameAll σ (assignSerial c ns).1, (assignSerial c ns).2.rename σ)
  | [], _ => rfl
  | n :: ns, c => by
    rw [renameAll, assignSerial, assignSerial, assign_rename n]
    simp only [assignSerial_rename ns, renameAll]

end

/-- A renaming that keeps the start status goes through the contexts of a scene. -/
theorem assignContexts_rename (hstart : σ .start = .start) (scene : Node) :
    (scene.rename σ).assignContexts =
      (scene.assignContexts.1.rename σ, scene.assignContexts.2.rename σ) := by
  have hkeeps : StatusContext.start.rename σ = .start := by
    rw [StatusContext.start, StatusContext.rename_singleton, hstart]
  rw [assignContexts, assignContexts, ← assign_rename, hkeeps]

end Node

end SceneDispatch
