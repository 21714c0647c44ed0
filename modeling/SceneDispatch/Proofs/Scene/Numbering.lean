import SceneDispatch.Proofs.Scene.Derivation
/-!
The order in which statuses are given out. The elements that make suspend points are listed in the
order of the document, and each is given the place in the graph where its suspend point stands.
Main statement: the suspend point of the element at position `i` has status `i`, and there are no
others.
-/
namespace SceneDispatch

namespace Element

mutual

/-- The tags that make suspend points, in document order. Sections count with their content where
their condition holds, and nothing is read below messages, assertions and commands. -/
def suspending (r : Registry) : Element → List Tag
  | mk t children =>
    if t.isSection then if t.includedBy r then suspendingAll r children else []
    else if t.name ∈ ["message", "assert"] then [t]
    else if t.name = "options" then t :: suspendingAll r children
    else if t.name ∈ ["switch", "case", "default", "option"] then suspendingAll r children
    else []

def suspendingAll (r : Registry) : List Element → List Tag
  | [] => []
  | e :: es => suspending r e ++ suspendingAll r es

end

mutual

/-- The same tags of an element without sections, each with the place of its suspend point. The
element's own node stands at `p`. -/
def points (p : Path) : Element → List (Tag × Path)
  | mk t children =>
    if t.name = "message" then [(t, p)]
    else if t.name = "options" then (t, p) :: branchPoints p 0 children
    else if t.name = "switch" then branchPoints p 0 children
    else []

/-- In a sequence whose nodes are numbered from `i` below `p`. The nodes behind an assertion are
those of its first arm, and the second arm holds its failure. -/
def sequencePoints (p : Path) (i : Nat) : List Element → List (Tag × Path)
  | [] => []
  | mk t children :: es =>
    if t.name = "assert" then (t, p ++ [i, 1, 0]) :: sequencePoints (p ++ [i, 0]) 0 es
    else points (p ++ [i]) (mk t children) ++ sequencePoints p (i + 1) es

def branchPoints (p : Path) (i : Nat) : List Element → List (Tag × Path)
  | [] => []
  | mk _ children :: es => sequencePoints (p ++ [i]) 0 children ++ branchPoints p (i + 1) es

end

/-- The element with its content resolved. -/
def resolved (r : Registry) (e : Element) : Element := mk e.tag (resolveAll r e.children)

theorem resolved_mk (r : Registry) (t : Tag) (children : List Element) :
    resolved r (mk t children) = mk t (resolveAll r children) := rfl

section Splicing

variable {r : Registry} {es flat : List Element}

theorem suspendingAll_append (es es' : List Element) :
    suspendingAll r (es ++ es') = suspendingAll r es ++ suspendingAll r es' := by
  induction es with
  | nil => rfl
  | cons e es ih => simp [suspendingAll, ih]

theorem Spliced.isSection (h : Spliced r es flat) : ∀ e ∈ flat, e.tag.isSection = false := by
  induction h with
  | nil => simp
  | plain he _ ih => exact List.forall_mem_cons.mpr ⟨he, ih⟩
  | included _ _ _ _ ihinner ih => exact List.forall_mem_append.mpr ⟨ihinner, ih⟩
  | dropped _ _ _ _ ih => exact ih

theorem Spliced.resolveAll_eq (h : Spliced r es flat) :
    resolveAll r es = flat.map (resolved r) := by
  induction h with
  | nil => rfl
  | @plain e es flat he _ ih =>
    obtain ⟨t, children⟩ := e
    have ht : t.isSection = false := he
    rw [resolveAll, resolve, if_neg (by simp [ht]), ih]
    rfl
  | included ht hincluded _ _ ihinner ih =>
    rw [resolveAll, resolve, if_pos ht, if_pos hincluded, ihinner, ih, List.map_append]
  | dropped ht _ hdropped _ ih =>
    rw [resolveAll, resolve, if_pos ht, if_neg (by simp [hdropped]), ih]
    rfl

theorem Spliced.suspendingAll_eq (h : Spliced r es flat) :
    suspendingAll r es = suspendingAll r flat := by
  induction h with
  | nil => rfl
  | plain _ _ ih => rw [suspendingAll, ih, suspendingAll]
  | included ht hincluded _ _ ihinner ih =>
    rw [suspendingAll, suspending, if_pos ht, if_pos hincluded, ihinner, ih, suspendingAll_append]
  | dropped ht _ hdropped _ ih =>
    rw [suspendingAll, suspending, if_pos ht, if_neg (by simp [hdropped]), ih]
    rfl

end Splicing

section Equations

variable {r : Registry} {t : Tag} {children es : List Element} {p : Path} {i : Nat}

theorem suspending_leaf (h : t.name = "message" ∨ t.name = "assert") :
    suspending r (mk t children) = [t] := by
  rcases h with h | h <;> simp [suspending, Tag.isSection, h]

theorem suspending_options (h : t.name = "options") :
    suspending r (mk t children) = t :: suspendingAll r children := by
  simp [suspending, Tag.isSection, h]

theorem suspending_switch (h : t.name = "switch") :
    suspending r (mk t children) = suspendingAll r children := by
  simp [suspending, Tag.isSection, h]

theorem suspending_branch (h : t.name ∈ ["case", "default", "option"]) :
    suspending r (mk t children) = suspendingAll r children := by
  simp only [List.mem_cons, List.not_mem_nil, or_false] at h
  rcases h with h | h | h <;> simp [suspending, Tag.isSection, h]

theorem suspending_command (hsection : t.isSection = false) (h : t.name ∉ Vocabulary.structural) :
    suspending r (mk t children) = [] := by
  simp only [Vocabulary.structural, List.mem_cons, not_or] at h
  simp [suspending, hsection, h]

theorem points_message (h : t.name = "message") : points p (mk t children) = [(t, p)] := by
  rw [points, if_pos h]

theorem points_options (h : t.name = "options") :
    points p (mk t children) = (t, p) :: branchPoints p 0 children := by
  simp [points, h]

theorem points_switch (h : t.name = "switch") :
    points p (mk t children) = branchPoints p 0 children := by
  simp [points, h]

theorem points_command (h : t.name ∉ Vocabulary.structural) : points p (mk t children) = [] := by
  simp only [Vocabulary.structural, List.mem_cons, not_or] at h
  simp [points, h]

theorem sequencePoints_cons (h : t.name ≠ "assert") :
    sequencePoints p i (mk t children :: es) =
      points (p ++ [i]) (mk t children) ++ sequencePoints p (i + 1) es := by
  rw [sequencePoints, if_neg h]

theorem sequencePoints_assert (h : t.name = "assert") :
    sequencePoints p i (mk t children :: es) =
      (t, p ++ [i, 1, 0]) :: sequencePoints (p ++ [i, 0]) 0 es := by
  rw [sequencePoints, if_pos h]

end Equations

end Element

namespace Node

mutual

/-- The suspend points of a graph with their places, from left to right. -/
def suspensions (p : Path) : Node → List (Path × NodeKind)
  | mk kind _ children =>
    (if kind.suspends then [(p, kind)] else []) ++ suspensionsIn p 0 children

def suspensionsIn (p : Path) (i : Nat) : List Node → List (Path × NodeKind)
  | [] => []
  | n :: ns => suspensions (p ++ [i]) n ++ suspensionsIn p (i + 1) ns

end

mutual

theorem mem_suspensions : ∀ {n : Node} {p q : Path} {kind : NodeKind},
    (q, kind) ∈ n.suspensions p ↔
      ∃ below m, q = p ++ below ∧ n.at? below = some m ∧ m.kind = kind ∧ kind.suspends = true
  | mk k c children, p, q, kind => by
    rw [suspensions, List.mem_append, mem_suspensionsIn]
    constructor
    · rintro (h | ⟨j, below, m, rfl, hm, hkind⟩)
      · cases hk : k.suspends with
        | false => simp [hk] at h
        | true =>
          rw [hk, if_pos rfl, List.mem_singleton] at h
          obtain ⟨rfl, rfl⟩ := Prod.mk.inj h
          exact ⟨[], _, (List.append_nil q).symm, rfl, rfl, hk⟩
      · exact ⟨j :: below, m, by simp, hm, hkind⟩
    · rintro ⟨below, m, rfl, hm, hkind, hsuspends⟩
      cases below with
      | nil =>
        cases hm
        obtain rfl : k = kind := hkind
        left
        simp [hsuspends]
      | cons j below => exact .inr ⟨j, below, m, by simp, hm, hkind, hsuspends⟩

theorem mem_suspensionsIn : ∀ {ns : List Node} {p q : Path} {i : Nat} {kind : NodeKind},
    (q, kind) ∈ suspensionsIn p i ns ↔
      ∃ j below m, q = p ++ (i + j) :: below ∧ ns[j]?.bind (at? · below) = some m ∧
        m.kind = kind ∧ kind.suspends = true
  | [], p, q, i, kind => by simp [suspensionsIn]
  | n :: ns, p, q, i, kind => by
    rw [suspensionsIn, List.mem_append, mem_suspensions, mem_suspensionsIn]
    constructor
    · rintro (⟨below, m, rfl, hm, hkind⟩ | ⟨j, below, m, rfl, hm, hkind⟩)
      · exact ⟨0, below, m, by simp, hm, hkind⟩
      · exact ⟨j + 1, below, m, by simp [Nat.add_assoc, Nat.add_comm 1], hm, hkind⟩
    · rintro ⟨j, below, m, rfl, hm, hkind⟩
      cases j with
      | zero => exact .inl ⟨below, m, by simp, hm, hkind⟩
      | succ j => exact .inr ⟨j, below, m, by simp [Nat.add_assoc, Nat.add_comm 1], hm, hkind⟩

end

end Node

namespace Vocabulary

open Element

/-- The suspend point that a tag makes under a status. -/
inductive Suspends (v : Vocabulary) (t : Tag) (status : Status) : NodeKind → Prop
  | message {style : MessageStyle} {text : String} :
    t.name = "message" → v.messageStyle t = .ok style → v.shownText t = .ok text →
    Suspends v t status (.message status style text)
  | options {text : String} :
    t.name = "options" → v.shownText t = .ok text → Suspends v t status (.options status text)
  | failure {failure : String} :
    t.name = "assert" → t.attribute? "onFail" = some failure →
    Suspends v t status (.message status .ok (v.resources.resolveOrLiteral failure))

theorem Suspends.status? {v : Vocabulary} {t : Tag} {status : Status} {kind : NodeKind}
    (h : v.Suspends t status kind) : kind.status? = some status := by
  cases h <;> rfl

/-- Tags in document order, their places, and the suspend points of a graph that was built while
the count went from `lo` to `hi`. The tag in position `i` has its suspend point at its place, with
the status `lo + i`, and there are no other suspend points. -/
structure Numbers (v : Vocabulary) (tags : List Tag) (places : List (Tag × Path)) (lo hi : Nat)
    (suspensions : List (Path × NodeKind)) : Prop where
  tags_eq : places.map Prod.fst = tags
  count_eq : hi = lo + places.length
  shown : ∀ x ∈ places.zipIdx lo, ∃ kind, (x.1.2, kind) ∈ suspensions ∧ v.Suspends x.1.1 x.2 kind
  counted : ∀ y ∈ suspensions, ∃ x ∈ places.zipIdx lo, x.1.2 = y.1 ∧ y.2.status? = some (x.2 : Int)

namespace Numbers

variable {v : Vocabulary} {tags tags' : List Tag} {places places' : List (Tag × Path)}
  {lo mid hi : Nat} {ys ys' : List (Path × NodeKind)}

theorem nil (lo : Nat) : Numbers v [] [] lo lo [] := ⟨rfl, rfl, by simp, by simp⟩

theorem singleton {t : Tag} {p : Path} {kind : NodeKind} (h : v.Suspends t lo kind) :
    Numbers v [t] [(t, p)] lo (lo + 1) [(p, kind)] where
  tags_eq := rfl
  count_eq := rfl
  shown := by simpa using h
  counted := by simpa using h.status?

theorem append (h : Numbers v tags places lo mid ys) (h' : Numbers v tags' places' mid hi ys') :
    Numbers v (tags ++ tags') (places ++ places') lo hi (ys ++ ys') where
  tags_eq := by rw [List.map_append, h.tags_eq, h'.tags_eq]
  count_eq := by
    rw [h'.count_eq, h.count_eq, List.length_append]
    omega
  shown := by
    rw [List.zipIdx_append, ← h.count_eq]
    refine List.forall_mem_append.mpr ⟨fun x hx => ?_, fun x hx => ?_⟩
    · obtain ⟨kind, hkind, hshown⟩ := h.shown x hx
      exact ⟨kind, List.mem_append_left _ hkind, hshown⟩
    · obtain ⟨kind, hkind, hshown⟩ := h'.shown x hx
      exact ⟨kind, List.mem_append_right _ hkind, hshown⟩
  counted := by
    rw [List.zipIdx_append, ← h.count_eq]
    refine List.forall_mem_append.mpr ⟨fun y hy => ?_, fun y hy => ?_⟩
    · obtain ⟨x, hx, heq⟩ := h.counted y hy
      exact ⟨x, List.mem_append_left _ hx, heq⟩
    · obtain ⟨x, hx, heq⟩ := h'.counted y hy
      exact ⟨x, List.mem_append_right _ hx, heq⟩

/-- The order of the suspend points in the graph does not matter. -/
theorem perm (h : Numbers v tags places lo hi ys) (hys : ys.Perm ys') :
    Numbers v tags places lo hi ys' where
  tags_eq := h.tags_eq
  count_eq := h.count_eq
  shown := by
    intro x hx
    obtain ⟨kind, hkind, hshown⟩ := h.shown x hx
    exact ⟨kind, hys.mem_iff.mp hkind, hshown⟩
  counted := fun y hy => h.counted y (hys.mem_iff.mpr hy)

end Numbers

section Numbering

variable {v : Vocabulary}

/-- What the branches of a fork become by themselves: no suspend points, made of tags that are no
suspend points. -/
structure Plain (head : Tag → Bool → NodeKind → Prop) : Prop where
  name_mem : ∀ {t last kind}, head t last kind → t.name ∈ ["case", "default", "option"]
  suspends : ∀ {t last kind}, head t last kind → kind.suspends = false

theorem plain_entry : Plain v.Entry where
  name_mem := by
    rintro t last kind ⟨hname, -⟩
    simp [hname]
  suspends := by
    rintro t last kind ⟨-, label, -, rfl⟩
    rfl

theorem plain_arm : Plain Arm where
  name_mem := by
    rintro t last kind ⟨test, htest, -⟩
    unfold armTest at htest
    split at htest
    · next hcase => simp [hcase]
    · next hdefault => simp [hdefault]
    · cases htest
  suspends := by
    rintro t last kind ⟨test, -, rfl⟩
    rfl

/-- Behind an assertion everything stands in its first arm, the failure in its second. -/
theorem suspensionsIn_assertion (f : Feature) (condition text : String) (status : Status)
    (style : MessageStyle) (ns : List Node) (p : Path) (i : Nat) :
    Node.suspensionsIn p i
        [assertion f condition (.leaf (.message status style text)) ns] =
      Node.suspensionsIn (p ++ [i, 0]) 0 ns ++
        [(p ++ [i, 1, 0], .message status style text)] := by
  simp [assertion, Node.leaf, Node.fresh, Node.suspensionsIn, Node.suspensions, NodeKind.suspends,
    NodeKind.status?]

mutual

/-- An element numbers its suspend points in document order. -/
theorem Makes.numbers : ∀ {e : Element} {n : Node} {lo hi : Nat}, Makes v e lo n hi →
    e.tag.isSection = false → ∀ p, Numbers v (e.suspending v.registry)
      ((e.resolved v.registry).points p) lo hi (n.suspensions p)
  | _, _, _, _, .message hname htext hstyle, _, p => by
    rw [suspending_leaf (.inl hname), resolved_mk, points_message hname]
    exact .singleton (.message hname hstyle htext)
  | _, _, lo, hi, .options hname htext hentries hne hmakes, _, p => by
    rw [suspending_options hname, resolved_mk, points_options hname, hentries.resolveAll_eq,
      hentries.suspendingAll_eq]
    exact .append (.singleton (.options hname htext)) (hmakes.numbers plain_entry p 0)
  | _, _, lo, hi, .switch hname htype hf harms hmakes, _, p => by
    rw [suspending_switch hname, resolved_mk, points_switch hname, harms.resolveAll_eq,
      harms.suspendingAll_eq]
    exact hmakes.numbers plain_arm p 0
  | .mk t _, _, lo, _, .command hname hf, hsection, p => by
    have ht : t.isSection = false := hsection
    rw [suspending_command ht hname, resolved_mk, points_command hname]
    exact .nil lo

theorem MakesAll.numbers : ∀ {es : List Element} {ns : List Node} {lo hi : Nat},
    MakesAll v es lo ns hi → (∀ e ∈ es, e.tag.isSection = false) → ∀ p i,
    Numbers v (suspendingAll v.registry es)
      (sequencePoints p i (es.map (resolved v.registry))) lo hi (Node.suspensionsIn p i ns)
  | _, _, lo, _, .nil, _, p, i => .nil lo
  | _, _, lo, hi, .cons hfirst hrest, hsections, p, i => by
    obtain ⟨hsection, hsections⟩ := List.forall_mem_cons.mp hsections
    rw [List.map_cons, resolved, sequencePoints_cons hfirst.name_ne_assert]
    exact .append (hfirst.numbers hsection _) (hrest.numbers hsections p (i + 1))
  | _, _, lo, hi, .assert hname htype hcondition hfailure hf hrest, hsections, p, i => by
    obtain ⟨-, hsections⟩ := List.forall_mem_cons.mp hsections
    rw [List.map_cons, resolved_mk, sequencePoints_assert hname, suspendingAll,
      suspending_leaf (.inr hname), suspensionsIn_assertion]
    -- the failure comes last in the graph and first in the document
    exact Numbers.perm (.append (.singleton (.failure hname hfailure))
      (hrest.numbers hsections (p ++ [i, 0]) 0)) List.perm_append_comm

theorem MakesBranches.numbers : ∀ {head : Tag → Bool → NodeKind → Prop} {es : List Element}
    {ns : List Node} {lo hi : Nat}, MakesBranches v head es lo ns hi → Plain head → ∀ p i,
    Numbers v (suspendingAll v.registry es)
      (branchPoints p i (es.map (resolved v.registry))) lo hi (Node.suspensionsIn p i ns)
  | _, _, _, lo, _, .nil, _, p, i => .nil lo
  | _, _, _, lo, hi, .cons hhead hinner hmakes hrest, hplain, p, i => by
    rw [List.map_cons, resolved_mk, branchPoints, suspendingAll,
      suspending_branch (hplain.name_mem hhead), hinner.suspendingAll_eq, hinner.resolveAll_eq,
      Node.suspensionsIn, Node.fresh, Node.suspensions,
      if_neg (by simp [hplain.suspends hhead]), List.nil_append]
    exact .append (hmakes.numbers hinner.isSection _ 0) (hrest.numbers hplain p (i + 1))

end

end Numbering

/-- The suspend points of a scene are numbered in document order. The `i`-th of the included tags
of messages, prompts and assertions has its suspend point at its place, with status `i`, and no
other node has a status; the count is the number of these tags. So each status below the count is
given to one node. -/
theorem statuses_in_document_order {v : Vocabulary} {content : Element} {root : Node} {count : Nat}
    (h : v.scene content 0 = .ok root count) :
    let points := sequencePoints [] 0 (content.resolve v.registry)
    points.map Prod.fst = content.suspending v.registry ∧ count = points.length ∧
    (∀ (i : Nat) t p, points[i]? = some (t, p) →
      ∃ n, root.at? p = some n ∧ v.Suspends t i n.kind) ∧
    (∀ p n s, root.at? p = some n → n.kind.status? = some s →
      ∃ (i : Nat) (t : Tag), points[i]? = some (t, p) ∧ s = i) ∧
    root.statuses.Perm (Status.interval 0 count) := by
  have hbuilt := (scene_built h).numbered
  obtain ⟨flat, ns, hflat, hmakes, rfl⟩ := scene_eq_ok.mp h
  have hresolve : content.resolve v.registry = flat.map (resolved v.registry) := by
    rw [← hflat.resolveAll_eq]
    simp [resolveAll]
  have hsuspending : content.suspending v.registry = suspendingAll v.registry flat := by
    rw [← hflat.suspendingAll_eq]
    simp [suspendingAll]
  have hnumbers := hmakes.numbers hflat.isSection [] 0
  intro points
  have hpoints : sequencePoints [] 0 (flat.map (resolved v.registry)) = points := by
    rw [← hresolve]
  rw [← hsuspending, hpoints] at hnumbers
  refine ⟨hnumbers.tags_eq, by simpa using hnumbers.count_eq, ?_, ?_, ?_⟩
  · intro i t p hi
    obtain ⟨kind, hkind, hshown⟩ :=
      hnumbers.shown ((t, p), i) (List.mk_mem_zipIdx_iff_getElem?.mpr hi)
    have hmem : (p, kind) ∈ (Node.fresh .block ns).suspensions [] := hkind
    obtain ⟨_, n, rfl, hn, rfl, -⟩ := Node.mem_suspensions.mp hmem
    exact ⟨n, hn, hshown⟩
  · intro p n s hn hs
    have hsuspends : n.kind.suspends = true := by simp [NodeKind.suspends, hs]
    have hmem : (p, n.kind) ∈ (Node.fresh .block ns).suspensions [] :=
      Node.mem_suspensions.mpr ⟨p, n, rfl, hn, rfl, hsuspends⟩
    obtain ⟨⟨⟨t, q⟩, i⟩, hi, rfl, hstatus⟩ := hnumbers.counted (p, n.kind) hmem
    rw [hs] at hstatus
    exact ⟨i, t, List.mk_mem_zipIdx_iff_getElem?.mp hi, Option.some.inj hstatus⟩
  · simpa [Node.statusesIn] using hbuilt

/-- The failure of an assertion is numbered before what follows it, though it stands behind it in
the graph. What a section leaves out takes no number. -/
theorem quest_statuses_in_document_order :
    Sample.fullVocabulary.scene Sample.quest 0 = .ok Sample.questGraph 6 ∧
    (sequencePoints [] 0 (Sample.quest.resolve Sample.fullRegistry)).map Prod.snd =
      [[0], [1, 1, 0], [1, 0, 0], [1, 0, 0, 0, 0], [1, 0, 1, 1, 0], [1, 0, 1, 0, 0]] ∧
    (∃ n, Sample.questGraph.at? [1, 0, 1, 1, 0] = some n ∧
      Sample.fullVocabulary.Suspends Sample.promotion.tag 4 n.kind) ∧
    Sample.questGraph.statuses.Perm (Status.interval 0 6) := by
  obtain ⟨-, -, hshown, -, hperm⟩ := statuses_in_document_order Sample.quest_builds
  exact ⟨Sample.quest_builds, by decide, hshown 4 Sample.promotion.tag [1, 0, 1, 1, 0] rfl, hperm⟩

end Vocabulary

end SceneDispatch
