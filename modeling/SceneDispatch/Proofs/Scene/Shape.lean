import SceneDispatch.Scene.Node
/-!
Positions in a scene graph, the statuses of its suspend points, and the shape of the graphs that
are built from markup: arms stand only below switches and options, a default arm is the last of
its switch, and what neither branches nor runs a sequence has nothing below it.
-/
namespace SceneDispatch

/-- The way down to a node: the position among its siblings at each level. -/
abbrev Path := List Nat

namespace NodeKind

/-- The arms of switches and options. -/
def isArm : NodeKind → Bool
  | case _ => true
  | option _ => true
  | _ => false

/-- Kinds whose children run one after another. -/
def isSerial : NodeKind → Bool
  | block => true
  | case _ => true
  | option _ => true
  | _ => false

/-- The kinds of the children that a node of a kind may have. -/
def Admits : NodeKind → List NodeKind → Prop
  | switch _, below =>
    (∀ k ∈ below, ∃ test, k = case test) ∧ ∀ k ∈ below.dropLast, k ≠ case .otherwise
  | options .., below => below ≠ [] ∧ ∀ k ∈ below, ∃ label, k = option label
  | message .., below => below = []
  | command .., below => below = []
  | _, below => ∀ k ∈ below, k.isArm = false

end NodeKind

namespace Node

/-- The node at the end of a path. -/
def at? : Node → Path → Option Node
  | n, [] => some n
  | n, i :: p => n.children[i]?.bind (at? · p)

@[simp] theorem at?_nil (n : Node) : n.at? [] = some n := rfl

theorem at?_cons (n : Node) (i : Nat) (p : Path) :
    n.at? (i :: p) = n.children[i]?.bind (at? · p) := rfl

theorem at?_cons_of_getElem? {n child m : Node} {j : Nat} {q : Path}
    (hchild : n.children[j]? = some child) (hm : child.at? q = some m) :
    n.at? (j :: q) = some m :=
  Option.bind_eq_some_iff.mpr ⟨child, hchild, hm⟩

theorem at?_append (n : Node) (p q : Path) : n.at? (p ++ q) = (n.at? p).bind (at? · q) := by
  induction p generalizing n with
  | nil => rfl
  | cons i p ih =>
    rw [List.cons_append, at?_cons, at?_cons]
    cases n.children[i]? with
    | none => rfl
    | some m => exact ih m

mutual

/-- A property of kind, context and children that holds at a node and everywhere below it. -/
def Everywhere (P : NodeKind → StatusContext → List Node → Prop) : Node → Prop
  | mk kind context children => P kind context children ∧ EverywhereIn P children

def EverywhereIn (P : NodeKind → StatusContext → List Node → Prop) : List Node → Prop
  | [] => True
  | n :: ns => Everywhere P n ∧ EverywhereIn P ns

end

mutual

def decidableEverywhere {P : NodeKind → StatusContext → List Node → Prop}
    (d : ∀ kind context children, Decidable (P kind context children)) :
    ∀ n, Decidable (Everywhere P n)
  | mk kind context children =>
    have := d kind context children
    have := decidableEverywhereIn d children
    inferInstanceAs (Decidable (P kind context children ∧ EverywhereIn P children))

def decidableEverywhereIn {P : NodeKind → StatusContext → List Node → Prop}
    (d : ∀ kind context children, Decidable (P kind context children)) :
    ∀ ns, Decidable (EverywhereIn P ns)
  | [] => inferInstanceAs (Decidable True)
  | n :: ns =>
    have := decidableEverywhere d n
    have := decidableEverywhereIn d ns
    inferInstanceAs (Decidable (Everywhere P n ∧ EverywhereIn P ns))

end

section Everywhere

variable {P : NodeKind → StatusContext → List Node → Prop}

instance [d : ∀ kind context children, Decidable (P kind context children)] (n : Node) :
    Decidable (Everywhere P n) := decidableEverywhere d n

instance [d : ∀ kind context children, Decidable (P kind context children)] (ns : List Node) :
    Decidable (EverywhereIn P ns) := decidableEverywhereIn d ns

theorem everywhereIn_iff {ns : List Node} : EverywhereIn P ns ↔ ∀ n ∈ ns, Everywhere P n := by
  induction ns with
  | nil => simp [EverywhereIn]
  | cons n ns ih => simp [EverywhereIn, ih]

theorem Everywhere.at? {n m : Node} {p : Path} (h : Everywhere P n) (hm : n.at? p = some m) :
    Everywhere P m := by
  induction p generalizing n with
  | nil => exact Option.some.inj hm ▸ h
  | cons i p ih =>
    obtain ⟨kind, context, children⟩ := n
    obtain ⟨c, hc, hcm⟩ := Option.bind_eq_some_iff.mp hm
    exact ih (everywhereIn_iff.mp h.2 c (List.mem_of_getElem? hc)) hcm

end Everywhere

/-- The shape of graphs built from markup. -/
def WellFormed (n : Node) : Prop :=
  n.Everywhere fun kind _ children => kind.Admits (children.map Node.kind)

theorem wellFormed_mk {kind : NodeKind} {c : StatusContext} {ns : List Node} :
    (mk kind c ns).WellFormed ↔ kind.Admits (ns.map Node.kind) ∧ ∀ n ∈ ns, n.WellFormed :=
  and_congr_right fun _ => everywhereIn_iff

theorem WellFormed.below {n : Node} {kind : NodeKind} {c : StatusContext} {ns : List Node}
    {p : Path} (h : n.WellFormed) (hat : n.at? p = some (mk kind c ns)) : ∀ m ∈ ns, m.WellFormed :=
  (wellFormed_mk.mp (h.at? hat)).2

/-- The children of a fork are arms. -/
theorem WellFormed.isArm {kind : NodeKind} {c : StatusContext} {ns : List Node}
    (h : (mk kind c ns).WellFormed) (hkind : kind.isParallel = true) :
    ∀ n ∈ ns, n.kind.isArm = true := by
  intro n hn
  have hadmits := (wellFormed_mk.mp h).1
  have hmem : n.kind ∈ ns.map Node.kind := List.mem_map_of_mem hn
  cases kind with
  | switch _ =>
    obtain ⟨test, htest⟩ := hadmits.1 n.kind hmem
    rw [htest]
    rfl
  | options _ _ =>
    obtain ⟨label, hlabel⟩ := hadmits.2 n.kind hmem
    rw [hlabel]
    rfl
  | _ => cases hkind

theorem mem_dropLast_cons {m n : Node} {ns : List Node} (h : m ∈ ns.dropLast) :
    m ∈ (n :: ns).dropLast := by
  cases ns with
  | nil => cases h
  | cons _ _ => exact List.mem_cons_of_mem _ h

theorem not_isOtherwise_of_admits {f : Feature} {ns : List Node}
    (h : (NodeKind.switch f).Admits (ns.map Node.kind)) :
    ∀ n ∈ ns.dropLast, n.isOtherwise = false := by
  intro n hn
  refine decide_eq_false (h.2 n.kind ?_)
  rw [← List.map_dropLast]
  exact List.mem_map_of_mem hn

/-- Graphs in which no context is known yet. -/
def Fresh (n : Node) : Prop := n.Everywhere fun _ context _ => context = .empty

theorem fresh_mk {kind : NodeKind} {c : StatusContext} {ns : List Node} :
    (mk kind c ns).Fresh ↔ c = .empty ∧ ∀ n ∈ ns, n.Fresh :=
  and_congr_right fun _ => everywhereIn_iff

mutual

/-- The statuses of the suspend points of a graph, from left to right. -/
def statuses : Node → List Status
  | mk kind _ children => kind.status?.toList ++ statusesIn children

def statusesIn : List Node → List Status
  | [] => []
  | n :: ns => statuses n ++ statusesIn ns

end

mutual

/-- The kinds of a node and of those below it, depth first. -/
def preorder : Node → List NodeKind
  | mk kind _ ns => kind :: preorderIn ns

def preorderIn : List Node → List NodeKind
  | [] => []
  | n :: ns => preorder n ++ preorderIn ns

end

mutual

theorem statuses_eq_filterMap : ∀ n : Node, n.statuses = n.preorder.filterMap NodeKind.status?
  | mk kind _ ns => by
    rw [statuses, preorder, List.filterMap_cons, statusesIn_eq_filterMap ns]
    cases kind.status? <;> rfl

theorem statusesIn_eq_filterMap : ∀ ns : List Node,
    statusesIn ns = (preorderIn ns).filterMap NodeKind.status?
  | [] => rfl
  | n :: ns => by
    rw [statusesIn, preorderIn, List.filterMap_append, statuses_eq_filterMap n,
      statusesIn_eq_filterMap ns]

end

theorem statuses_serial {kind : NodeKind} (h : kind.isSerial = true) (c : StatusContext)
    (ns : List Node) : (mk kind c ns).statuses = statusesIn ns := by
  cases kind <;> first | rfl | cases h

theorem mem_statusesIn {s : Status} {ns : List Node} :
    s ∈ statusesIn ns ↔ ∃ n ∈ ns, s ∈ statuses n := by
  induction ns with
  | nil => simp [statusesIn]
  | cons n ns ih => simp [statusesIn, ih]

theorem statuses_subset_of_at? {n m : Node} {p : Path} (h : n.at? p = some m) :
    ∀ s ∈ m.statuses, s ∈ n.statuses := by
  induction p generalizing n with
  | nil =>
    cases h
    exact fun s hs => hs
  | cons i p ih =>
    obtain ⟨kind, context, children⟩ := n
    obtain ⟨child, hchild, hm⟩ := Option.bind_eq_some_iff.mp h
    intro s hs
    exact List.mem_append_right _
      (mem_statusesIn.mpr ⟨child, List.mem_of_getElem? hchild, ih hm s hs⟩)

theorem mem_statuses_of_at? {n m : Node} {p : Path} {s : Status} (h : n.at? p = some m)
    (hs : m.kind.status? = some s) : s ∈ n.statuses := by
  refine statuses_subset_of_at? h s ?_
  obtain ⟨kind, context, children⟩ := m
  have hs : kind.status? = some s := hs
  simp [statuses, hs]

/-- No message and no command stands on the way to the end of the path. -/
def Visits (n : Node) (q : Path) : Prop :=
  ∀ q' m, q' <+: q → q' ≠ q → n.at? q' = some m → m.kind.hasChildren = true

theorem visits_nil (n : Node) : n.Visits [] := by
  intro q' m hprefix hne
  exact absurd (List.prefix_nil.mp hprefix) hne

theorem visits_cons {n : Node} {i : Nat} {q : Path} :
    n.Visits (i :: q) ↔
      n.kind.hasChildren = true ∧ ∀ child, n.children[i]? = some child → child.Visits q := by
  constructor
  · intro h
    refine ⟨h [] n List.nil_prefix nofun rfl, ?_⟩
    intro child hchild q' m hprefix hne hm
    exact h (i :: q') m ((List.prefix_cons_inj i).mpr hprefix) (by simpa using hne)
      (at?_cons_of_getElem? hchild hm)
  · rintro ⟨hkind, hbelow⟩ q' m hprefix hne hm
    cases q' with
    | nil =>
      obtain rfl := Option.some.inj hm
      exact hkind
    | cons j q' =>
      obtain ⟨rfl, htail⟩ := List.cons_prefix_cons.mp hprefix
      obtain ⟨child, hchild, hm⟩ := Option.bind_eq_some_iff.mp hm
      exact hbelow child hchild q' m htail (by simpa using hne) hm

end Node

end SceneDispatch
