import SceneDispatch.Proofs.Scene.Renaming
import SceneDispatch.Script.Generate
/-!
Writing a renamed scene. The statements differ in the statuses they name, and a status that leads
back can be another one; the groups are found in the same order. Main statement: writing a renamed
scene gives the groups of the renamed contexts, or fails as writing the scene does.
-/
namespace SceneDispatch

/-- The groups of the second draft have the renamed contexts of the first, in the same order, and
both need the same packages. -/
structure Draft.Renamed (σ : Status → Status) (d d' : Draft) : Prop where
  contexts : d'.groups.map Group.context = (d.groups.map Group.context).map (.rename σ)
  dependencies : d'.dependencies = d.dependencies

namespace Draft.Renamed

variable {σ : Status → Status} {d d' : Draft}

theorem empty (σ : Status → Status) : Renamed σ .empty .empty := ⟨rfl, rfl⟩

theorem touch (hσ : Function.Injective σ) (h : Renamed σ d d') (c : StatusContext) :
    Renamed σ (d.touch c) (d'.touch (c.rename σ)) := by
  have hfound : d'.groups.any (·.context = c.rename σ) = true ↔
      d.groups.any (·.context = c) = true := by
    rw [any_context_iff, any_context_iff, h.contexts]
    exact List.mem_map_of_injective (StatusContext.rename_injective hσ)
  rw [Draft.touch, Draft.touch]
  by_cases hc : d.groups.any (·.context = c) = true
  · rw [if_pos hc, if_pos (hfound.mpr hc)]
    exact h
  · rw [if_neg hc, if_neg (mt hfound.mp hc)]
    exact ⟨by simp [h.contexts], h.dependencies⟩

theorem write (h : Renamed σ d d') (c c' : StatusContext) (xs xs' : List Statement) :
    Renamed σ (d.write c xs) (d'.write c' xs') :=
  ⟨by rw [contexts_write, contexts_write, h.contexts], h.dependencies⟩

theorem record (h : Renamed σ d d') (dependency : Option String) :
    Renamed σ (d.record dependency) (d'.record dependency) := by
  cases dependency with
  | none => exact h
  | some dependency => exact ⟨h.contexts, congrArg (·.insert dependency) h.dependencies⟩

end Draft.Renamed

/-- The place of a renamed node. -/
def Place.rename (σ : Status → Status) (place : Place) : Place :=
  ⟨place.parent.rename σ, place.position⟩

namespace Drafting

/-- Both steps succeed with the same result or fail with the same fault, and the second leaves the
renamed draft of the first. -/
inductive Corresponds {α : Type} (σ : Status → Status) :
    EStateM.Result Fault Draft α → EStateM.Result Fault Draft α → Prop
  | ok {a : α} {d d' : Draft} : d.Renamed σ d' → Corresponds σ (.ok a d) (.ok a d')
  | error {fault : Fault} {d d' : Draft} : d.Renamed σ d' →
    Corresponds σ (.error fault d) (.error fault d')

/-- The second step does to a renamed draft what the first does to the draft. -/
def Tracks {α : Type} (σ : Status → Status) (x y : Drafting α) : Prop :=
  ∀ d d', d.Renamed σ d' → Corresponds σ (x d) (y d')

namespace Tracks

variable {α β : Type} {σ : Status → Status} {r : Registry} {f : Feature}

theorem pure (a : α) : Tracks σ (pure a) (pure a) := fun _ _ h => .ok h

theorem throw (fault : Fault) : Tracks σ (throw fault : Drafting α) (throw fault) :=
  fun _ _ h => .error h

theorem bind {x y : Drafting α} {k l : α → Drafting β} (hx : Tracks σ x y)
    (hk : ∀ a, Tracks σ (k a) (l a)) : Tracks σ (x >>= k) (y >>= l) := by
  intro d d' h
  change Corresponds σ (EStateM.bind x k d) (EStateM.bind y l d')
  have hfirst := hx d d' h
  unfold EStateM.bind
  cases hxd : x d with
  | ok a e =>
    cases hyd : y d' with
    | ok b e' =>
      rw [hxd, hyd] at hfirst
      cases hfirst with
      | ok he => exact hk a e e' he
    | error fault e' =>
      rw [hxd, hyd] at hfirst
      cases hfirst
  | error fault e =>
    cases hyd : y d' with
    | ok b e' =>
      rw [hxd, hyd] at hfirst
      cases hfirst
    | error fault' e' =>
      rw [hxd, hyd] at hfirst
      cases hfirst with
      | error he => exact .error he

theorem touch (hσ : Function.Injective σ) (c : StatusContext) :
    Tracks σ (Drafting.touch c) (Drafting.touch (c.rename σ)) := by
  intro d d' h
  exact .ok (h.touch hσ c)

theorem write (c c' : StatusContext) (xs xs' : List Statement) :
    Tracks σ (Drafting.write c xs) (Drafting.write c' xs') := by
  intro d d' h
  exact .ok (h.write c c' xs xs')

theorem feature (name : String) :
    Tracks σ (Drafting.feature r name) (Drafting.feature r name) := by
  unfold Drafting.feature
  split
  · exact .pure _
  · exact .throw _

theorem use (a : Arguments) : Tracks σ (Drafting.use r f a) (Drafting.use r f a) := by
  intro d d' h
  exact .ok (h.record f.dependency)

theorem call (name : String) (a : Arguments) :
    Tracks σ (Drafting.call r name a) (Drafting.call r name a) :=
  .bind (.feature name) fun _ => .bind (.use a) fun _ => .pure _

theorem subject : Tracks σ (Drafting.subject r f) (Drafting.subject r f) := by
  unfold Drafting.subject
  split
  · exact .throw _
  · next text _ =>
    intro d d' h
    exact .ok (h.record f.dependency)

theorem values : ∀ (tests : List String),
    Tracks σ (Drafting.values r f tests) (Drafting.values r f tests)
  | [] => .pure _
  | _ :: tests => .bind (.use _) fun _ => .bind (values tests) fun _ => .pure _

theorem expression? (test : CaseTest) :
    Tracks σ (Drafting.expression? r f test) (Drafting.expression? r f test) := by
  cases test with
  | otherwise => exact .pure _
  | condition expression => exact .bind .subject fun _ => .pure _
  | values tests => exact .bind (.values tests) fun _ => .pure _

end Tracks

section Scenes

variable {σ : Status → Status} {r : Registry}

theorem prompt_rename (text : String) (ns : List Node) :
    prompt text (Node.renameAll σ ns) = prompt text ns := by
  suffices h : ∀ i, entryLines i (Node.renameAll σ ns) = entryLines i ns by
    rw [prompt, prompt, h 0]
  induction ns with
  | nil => exact fun _ => rfl
  | cons n ns ih =>
    intro i
    rw [Node.renameAll, entryLines, entryLines, Node.kind_rename, ih]
    cases n.kind <;> rfl

theorem suspend_tracks (c c' : StatusContext) (status status' : Status) (send : Feature)
    (text : String) :
    Tracks σ (suspend r c status send text) (suspend r c' status' send text) :=
  .bind (.use _) fun _ => .write _ _ _ _

theorem isSome_backAmong_rename (position i : Nat) (back back' : Status) (ns : List Node) :
    (backAmong position i back' (Node.renameAll σ ns)).isSome =
      (backAmong position i back ns).isSome := by
  induction ns generalizing i back back' with
  | nil => rfl
  | cons n ns ih =>
    rw [Node.renameAll, backAmong, backAmong, Node.kind_rename, NodeKind.suspends_rename]
    split
    · rfl
    · exact ih _ _ _

/-- The way back from a renamed message is found if it was before, and for the same fault it is
not. -/
theorem previous_rename (place : Option Place) (fault : Fault) :
    previous place = .error fault ↔ previous (place.map (.rename σ)) = .error fault := by
  cases place with
  | none => rfl
  | some place =>
    obtain ⟨⟨kind, c, ns⟩, position⟩ := place
    have hsome := isSome_backAmong_rename (σ := σ) position 0 .start .start ns
    simp only [previous, Option.map_some, Place.rename, Node.rename, Node.children, Node.kind,
      NodeKind.name_rename]
    cases hback : backAmong position 0 .start ns with
    | none =>
      rw [hback, Option.isSome_none, Option.isSome_eq_false_iff,
        Option.isNone_iff_eq_none] at hsome
      rw [hsome]
    | some back =>
      rw [hback, Option.isSome_some] at hsome
      obtain ⟨back', hback'⟩ := Option.isSome_iff_exists.mp hsome
      rw [hback']
      simp only [reduceCtorEq]

theorem refusal_tracks (place : Option Place) (c c' : StatusContext) (style : MessageStyle) :
    Tracks σ (refusal r place c style) (refusal r (place.map (.rename σ)) c' style) := by
  cases style with
  | next => exact .pure _
  | ok => exact .pure _
  | previousNext =>
    rw [refusal, refusal]
    cases hback : previous place with
    | error fault =>
      rw [(previous_rename place fault).mp hback]
      exact .throw fault
    | ok status =>
      cases hback' : previous (place.map (.rename σ)) with
      | error fault =>
        rw [(previous_rename place fault).mpr hback'] at hback
        cases hback
      | ok status' => exact .write _ _ _ _
  | yesNo text => exact .bind (.call _ _) fun _ => .bind (.call _ _) fun _ => .write _ _ _ _

theorem message_tracks (hσ : Function.Injective σ) (place : Option Place) (c : StatusContext)
    (status : Status) (style : MessageStyle) (text : String) :
    Tracks σ (message r place c status style text)
      (message r (place.map (.rename σ)) (c.rename σ) (σ status) style text) := by
  have hrest : Tracks σ
      (do write c [.leave]; touch (.singleton status); refusal r place (.singleton status) style)
      (do
        write (c.rename σ) [.leave]; touch (.singleton (σ status))
        refusal r (place.map (.rename σ)) (.singleton (σ status)) style) :=
    .bind (.write _ _ _ _) fun _ => .bind (.touch hσ _) fun _ => refusal_tracks place _ _ style
  unfold message
  refine .bind (.feature _) fun send => .bind (suspend_tracks _ _ _ _ send text) fun _ => ?_
  split
  · exact .bind (.call _ _) fun _ => .bind (.write _ _ _ _) fun _ => hrest
  · exact hrest

mutual

/-- A renamed node writes into the renamed groups, in the same order. -/
theorem node_tracks (hσ : Function.Injective σ) : ∀ (n : Node) (place : Option Place),
    Tracks σ (node r place n) (node r (place.map (.rename σ)) (n.rename σ))
  | .mk kind c ns, place => by
    simp only [Node.rename, node]
    refine .bind (.touch hσ c) fun _ => ?_
    cases kind with
    | block => exact serial_tracks hσ ns (.mk .block c ns) 0
    | case test => exact serial_tracks hσ ns (.mk (.case test) c ns) 0
    | option label => exact serial_tracks hσ ns (.mk (.option label) c ns) 0
    | switch f => exact arms_tracks hσ ns (.mk (.switch f) c ns) f 0
    | command f a => exact .bind (.use a) fun _ => .write _ _ _ _
    | message status style text => exact message_tracks hσ place c status style text
    | options status text =>
      simp only [NodeKind.rename, prompt_rename]
      refine .bind (.feature _) fun send => .bind (suspend_tracks _ _ _ _ send _) fun _ => ?_
      refine .bind (.write _ _ _ _) fun _ => .bind (.touch hσ _) fun _ => ?_
      exact choices_tracks hσ ns (.mk (.options status text) c ns) _ _ 0

theorem serial_tracks (hσ : Function.Injective σ) : ∀ (ns : List Node) (parent : Node) (i : Nat),
    Tracks σ (serial r parent i ns) (serial r (parent.rename σ) i (Node.renameAll σ ns))
  | [], _, _ => by
    rw [Node.renameAll, serial, serial]
    exact .pure _
  | n :: ns, parent, i => by
    rw [Node.renameAll, serial, serial]
    exact .bind (node_tracks hσ n (some ⟨parent, i⟩)) fun _ => serial_tracks hσ ns parent (i + 1)

theorem arms_tracks (hσ : Function.Injective σ) : ∀ (ns : List Node) (parent : Node)
    (f : Feature) (i : Nat),
    Tracks σ (arms r parent f i ns) (arms r (parent.rename σ) f i (Node.renameAll σ ns))
  | [], _, _, _ => by
    rw [Node.renameAll, arms, arms]
    exact .pure _
  | n :: ns, parent, f, i => by
    rw [Node.renameAll, arms, arms, Node.kind_rename]
    cases n.kind with
    | case test =>
      refine .bind (.expression? test) fun expression => .bind (.write _ _ _ _) fun _ => ?_
      refine .bind (node_tracks hσ n (some ⟨parent, i⟩)) fun _ =>
        .bind (.write _ _ _ _) fun _ => ?_
      exact arms_tracks hσ ns parent f (i + 1)
    | _ => exact .throw _

theorem choices_tracks (hσ : Function.Injective σ) : ∀ (ns : List Node) (parent : Node)
    (c c' : StatusContext) (i : Nat),
    Tracks σ (choices r parent c i ns) (choices r (parent.rename σ) c' i (Node.renameAll σ ns))
  | [], _, _, _, _ => by
    rw [Node.renameAll, choices, choices]
    exact .pure _
  | n :: ns, parent, c, c', i => by
    rw [Node.renameAll, choices, choices]
    refine .bind (.write _ _ _ _) fun _ => .bind (node_tracks hσ n (some ⟨parent, i⟩)) fun _ => ?_
    exact .bind (.write _ _ _ _) fun _ => choices_tracks hσ ns parent c c' (i + 1)

end

/-- Writing a renamed scene gives the groups of the renamed contexts, or fails as writing the
scene does. -/
theorem scene_corresponds (hσ : Function.Injective σ) (scene : Node) :
    Corresponds σ (Drafting.scene r scene .empty) (Drafting.scene r (scene.rename σ) .empty) :=
  node_tracks hσ scene none _ _ (.empty σ)

end Scenes

end Drafting

end SceneDispatch
