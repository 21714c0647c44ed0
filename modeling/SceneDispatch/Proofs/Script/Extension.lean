import SceneDispatch.Proofs.Feature.Calls
import SceneDispatch.Proofs.Scene.Counterpart
import SceneDispatch.Proofs.Script.Table
/-!
Registering one more feature. The registry is asked for names when sections are resolved, when
nodes are built, when suspend points are drafted and when calls are expanded. Main statement: a
scene none of whose sections asks for the new name, and in whose body no call of it could begin,
keeps its script.
-/
namespace SceneDispatch

/-- The registry with one more feature. -/
def Registry.extended (r : Registry) (f : Feature) : Registry :=
  { r with features := r.features.insert f }

namespace Element

mutual

/-- The names that sections ask for, of those sections to which the builder comes. It goes into the
sections whose condition holds and below the elements that hold others. -/
def asked (r : Registry) : Element → List String
  | mk t children =>
    if t.isSection then
      (t.attribute? "name").toList ++ if t.includedBy r then askedAll r children else []
    else if t.name ∈ Vocabulary.containers then askedAll r children
    else []

def askedAll (r : Registry) : List Element → List String
  | [] => []
  | e :: es => asked r e ++ askedAll r es

end

theorem askedAll_append (r : Registry) (es es' : List Element) :
    askedAll r (es ++ es') = askedAll r es ++ askedAll r es' := by
  induction es with
  | nil => rfl
  | cons e es ih => rw [List.cons_append, askedAll, ih, askedAll, List.append_assoc]

theorem asked_container {r : Registry} {t : Tag} {children : List Element}
    (h : t.name ∈ Vocabulary.containers) : asked r (mk t children) = askedAll r children := by
  have hsection : t.isSection = false := by
    simp only [Vocabulary.containers, List.mem_cons, List.not_mem_nil, or_false] at h
    rcases h with h | h | h | h | h <;> simp [Tag.isSection, h]
  rw [asked, if_neg (by simp [hsection]), if_pos h]

end Element

/-! ### Building -/

section Building

open Element

variable {r : Registry} {f : Feature}

theorem Registry.find?_extended (r : Registry) (f : Feature) (name : String) :
    (r.extended f).find? name = if f.name = name then some f else r.find? name :=
  OrderedTable.find?_insert _ _ _

/-- Features keep their meaning when the new one has a name of its own. -/
theorem Registry.find?_extended_of_some {name : String} {g : Feature} (hnew : r.has f.name = false)
    (h : r.find? name = some g) : (r.extended f).find? name = some g := by
  have hne : f.name ≠ name := by
    rintro rfl
    have hfound : r.has f.name = true := congrArg Option.isSome h
    rw [hnew] at hfound
    cases hfound
  rw [find?_extended, if_neg hne, h]

theorem Tag.includedBy_extended {t : Tag} (h : f.name ∉ (t.attribute? "name").toList) :
    t.includedBy (r.extended f) = t.includedBy r := by
  unfold includedBy
  cases hname : t.attribute? "name" with
  | none => rfl
  | some name =>
    have hne : f.name ≠ name := by simpa [hname] using h
    have hhas : (r.extended f).has name = r.has name :=
      congrArg Option.isSome ((r.find?_extended f name).trans (if_neg hne))
    simp only [hhas]

theorem Element.Spliced.extended {es flat : List Element} (h : Spliced r es flat) :
    f.name ∉ askedAll r es → Spliced (r.extended f) es flat ∧ f.name ∉ askedAll r flat := by
  induction h with
  | nil => exact fun hasked => ⟨.nil, hasked⟩
  | plain he _ ih =>
    intro hasked
    rw [askedAll, List.mem_append, not_or] at hasked
    obtain ⟨hsplice, hflat⟩ := ih hasked.2
    refine ⟨.plain he hsplice, ?_⟩
    rw [askedAll, List.mem_append, not_or]
    exact ⟨hasked.1, hflat⟩
  | included ht hincluded _ _ ihinner ih =>
    intro hasked
    rw [askedAll, asked, if_pos ht, if_pos hincluded, List.mem_append, List.mem_append, not_or,
      not_or] at hasked
    obtain ⟨⟨hname, hchildren⟩, hrest⟩ := hasked
    obtain ⟨hsplice, hinner⟩ := ihinner hchildren
    obtain ⟨hsplices, hflat⟩ := ih hrest
    refine ⟨.included ht ((Tag.includedBy_extended hname).trans hincluded) hsplice hsplices, ?_⟩
    rw [askedAll_append, List.mem_append, not_or]
    exact ⟨hinner, hflat⟩
  | dropped ht hnamed hdropped _ ih =>
    intro hasked
    rw [askedAll, asked, if_pos ht, List.mem_append, List.mem_append, not_or, not_or] at hasked
    obtain ⟨⟨hname, -⟩, hrest⟩ := hasked
    obtain ⟨hsplice, hflat⟩ := ih hrest
    exact ⟨.dropped ht hnamed ((Tag.includedBy_extended hname).trans hdropped) hsplice, hflat⟩

theorem askedAll_forall₂ {es : List Element} (h : f.name ∉ askedAll r es) :
    List.Forall₂ (fun e e' => e' = e ∧ f.name ∉ e.asked r) es es := by
  induction es with
  | nil => exact .nil
  | cons e es ih =>
    rw [askedAll, List.mem_append, not_or] at h
    exact .cons ⟨rfl, h.1⟩ (ih h.2)

/-- An element that does not ask for the new name stands for itself. -/
theorem Vocabulary.counterparts_extended (hnew : r.has f.name = false)
    (resources : ResourceTable) : Counterparts (mk r resources) (mk (r.extended f) resources)
      fun e e' => e' = e ∧ f.name ∉ e.asked r where
  words := Registry.find?_extended_of_some hnew
  conveys := by
    rintro e _ ⟨rfl, -⟩
    exact ⟨rfl, fun _ _ => rfl, fun _ _ => id, fun _ _ => id, fun _ failure h => ⟨failure, h, rfl⟩⟩
  content := by
    rintro ⟨t, children⟩ _ flat ⟨rfl, hasked⟩ hname hflat
    have hasked : f.name ∉ askedAll r children := by rwa [asked_container (t := t) hname] at hasked
    obtain ⟨hsplice, hinner⟩ := hflat.extended hasked
    exact ⟨flat, hsplice, askedAll_forall₂ hinner⟩

end Building

/-! ### Drafting -/

namespace Drafting

/-- Where the first step succeeds, the second does the same. -/
def Keeps {α : Type} (x y : Drafting α) : Prop := ∀ d a d', x d = .ok a d' → y d = .ok a d'

section Keeps

variable {α β : Type} {r : Registry} {f : Feature}

theorem Keeps.refl (x : Drafting α) : Keeps x x := fun _ _ _ => id

theorem Keeps.bind {x y : Drafting α} {k l : α → Drafting β} (hx : Keeps x y)
    (hk : ∀ a, Keeps (k a) (l a)) : Keeps (x >>= k) (y >>= l) := by
  intro d b d'' h
  obtain ⟨a, d', ha, hb⟩ := bind_eq_ok.mp h
  exact bind_eq_ok.mpr ⟨a, d', hx d a d' ha, hk a d' b d'' hb⟩

/-- The same step before steps of which the second keeps the first. -/
theorem Keeps.after (x : Drafting α) {k l : α → Drafting β} (hk : ∀ a, Keeps (k a) (l a)) :
    Keeps (x >>= k) (x >>= l) :=
  (Keeps.refl x).bind hk

theorem feature_keeps (hnew : r.has f.name = false) (name : String) :
    Keeps (feature r name) (feature (r.extended f) name) := by
  intro d g d' h
  obtain ⟨hlookup, rfl⟩ := feature_ok.mp h
  have hfound := Registry.find?_extended_of_some hnew (Registry.lookup_eq_ok.mp hlookup)
  exact feature_ok.mpr ⟨Registry.lookup_eq_ok.mpr hfound, rfl⟩

-- templates are filled in alike, since both registries have one manager
theorem call_keeps (hnew : r.has f.name = false) (name : String) (a : Arguments) :
    Keeps (call r name a) (call (r.extended f) name a) :=
  (feature_keeps hnew name).bind fun _ => .refl _

theorem values_extended (g : Feature) (values : List String) :
    Drafting.values (r.extended f) g values = Drafting.values r g values := by
  induction values with
  | nil => rfl
  | cons value rest ih =>
    rw [Drafting.values, ih]
    rfl

theorem expression?_extended (g : Feature) (test : CaseTest) :
    expression? (r.extended f) g test = expression? r g test := by
  cases test with
  | otherwise => rfl
  | condition expression => rfl
  | values values => rw [expression?, values_extended, expression?]

theorem message_keeps (hnew : r.has f.name = false) {place : Option Place} {c : StatusContext}
    {status : Status} {style : MessageStyle} {text : String} :
    Keeps (message r place c status style text)
      (message (r.extended f) place c status style text) := by
  refine (feature_keeps hnew _).bind fun send => .after _ fun _ => ?_
  cases style with
  | next => exact .refl _
  | previousNext => exact .refl _
  | ok => exact (call_keeps hnew _ _).bind fun _ => .refl _
  | yesNo text =>
    exact .after _ fun _ => .after _ fun _ => (call_keeps hnew _ _).bind fun _ =>
      (call_keeps hnew _ _).bind fun _ => .refl _

mutual

theorem node_keeps (hnew : r.has f.name = false) : ∀ (n : Node) (place : Option Place),
    Keeps (node r place n) (node (r.extended f) place n)
  | .mk kind c ns, place => by
    unfold node
    refine .after _ fun _ => ?_
    cases kind with
    | block => exact serial_keeps hnew ns _ 0
    | case test => exact serial_keeps hnew ns _ 0
    | option label => exact serial_keeps hnew ns _ 0
    | switch g => exact arms_keeps hnew ns _ g 0
    | command g a => exact .refl _
    | message status style text => exact message_keeps hnew
    | options status text =>
      exact (feature_keeps hnew _).bind fun _ => .after _ fun _ => .after _ fun _ =>
        .after _ fun _ => choices_keeps hnew ns _ _ 0

theorem serial_keeps (hnew : r.has f.name = false) : ∀ (ns : List Node) (parent : Node)
    (i : Nat), Keeps (serial r parent i ns) (serial (r.extended f) parent i ns)
  | [], _, _ => .refl _
  | n :: ns, parent, i => by
    rw [serial, serial]
    exact (node_keeps hnew n _).bind fun _ => serial_keeps hnew ns parent (i + 1)

theorem arms_keeps (hnew : r.has f.name = false) : ∀ (ns : List Node) (parent : Node)
    (g : Feature) (i : Nat), Keeps (arms r parent g i ns) (arms (r.extended f) parent g i ns)
  | [], _, _, _ => .refl _
  | n :: ns, parent, g, i => by
    rw [arms, arms]
    cases n.kind with
    | case test =>
      simp only [expression?_extended]
      exact .after _ fun _ => .after _ fun _ => (node_keeps hnew n _).bind fun _ =>
        .after _ fun _ => arms_keeps hnew ns parent g (i + 1)
    | _ => exact .refl _

theorem choices_keeps (hnew : r.has f.name = false) : ∀ (ns : List Node) (parent : Node)
    (c : StatusContext) (i : Nat),
    Keeps (choices r parent c i ns) (choices (r.extended f) parent c i ns)
  | [], _, _, _ => .refl _
  | n :: ns, parent, c, i => by
    rw [choices, choices]
    exact .after _ fun _ => (node_keeps hnew n _).bind fun _ => .after _ fun _ =>
      choices_keeps hnew ns parent c (i + 1)

end

end Keeps

end Drafting

/-! ### Expanding -/

namespace Call

variable {r : Registry} {f : Feature}

/-- Where the text does not begin like a call of the new feature, the same calls begin. -/
theorem begins_extended_iff (hnew : r.has f.name = false) {s rest : List Char} {call : Call}
    (h : ¬ '$' :: f.name.toList ++ ['('] <+: s) :
    Begins (r.extended f) s call rest ↔ Begins r s call rest := by
  constructor
  · rintro @⟨name, arguments, rest, g, hidentifier, hg, hclosed⟩
    refine .intro hidentifier ?_ hclosed
    rw [Registry.find?_extended] at hg
    split at hg
    · next hname =>
      refine absurd ⟨arguments ++ ')' :: rest, ?_⟩ h
      rw [hname, String.toList_ofList]
      simp
    · exact hg
  · rintro ⟨hidentifier, hg, hclosed⟩
    exact .intro hidentifier (Registry.find?_extended_of_some hnew hg) hclosed

theorem segments_extended (hnew : r.has f.name = false) {text : String}
    (h : ¬ '$' :: f.name.toList ++ ['('] <:+: text.toList) :
    segments (r.extended f) text = segments r text := by
  have hparted : Parted r text.toList (segments r text) := parted_segmentsFrom _
  refine (hparted.congr fun t ht call rest => ?_).eq_segments.symm
  refine (begins_extended_iff hnew fun hprefix => h ?_).symm
  exact hprefix.isInfix.trans ht.isInfix

end Call

theorem Script.ofDraft_extended {r : Registry} {f : Feature} {d : Draft} {date : String}
    {count : Nat}
    (hnew : r.has f.name = false) (h : ¬ '$' :: f.name.toList ++ ['('] <:+: d.body.toList) :
    ofDraft (r.extended f) d date count = ofDraft r d date count := by
  have hexpansion : Expansion.of (r.extended f) r.manager d.body =
      Expansion.of r r.manager d.body := by
    rw [Expansion.of, Expansion.of, Call.segments_extended hnew h]
  have hmanager : (r.extended f).manager = r.manager := rfl
  simp only [ofDraft, hmanager, hexpansion]

namespace Registry

/-- A scene keeps its script when a feature is registered of which it does not speak: none of the
sections that are reached asks for its name, and nowhere in the body does its name stand between a
dollar sign and an opening parenthesis. -/
theorem register_keeps_script {r : Registry} {f : Feature} {resources : ResourceTable}
    {content : Element} {date : String} {script : Script} (hnew : r.has f.name = false)
    (hcompiles : r.compileContent resources content date = .ok script)
    (hasked : f.name ∉ content.asked r)
    (hcalled : ∀ root count d, r.Drafts resources content root count d →
      ¬ '$' :: f.name.toList ++ ['('] <:+: d.body.toList) (place : Option Span) :
    ∃ r', r.register f place = .ok r' ∧ r'.compileContent resources content date = .ok script := by
  obtain ⟨root, count, d, hdrafts, rfl⟩ := compileContent_eq_ok.mp hcompiles
  refine ⟨r.extended f, by rw [register, if_neg (by simp [hnew])]; rfl, ?_⟩
  have hbuilt : (Vocabulary.mk (r.extended f) resources).scene content 0 = .ok root count := by
    refine (Vocabulary.counterparts_extended hnew resources).scene (fun hflat => ?_) hdrafts.built
    have hlevel : f.name ∉ Element.askedAll r [content] := by
      simpa [Element.askedAll] using hasked
    obtain ⟨hsplice, hinner⟩ := hflat.extended hlevel
    exact ⟨_, hsplice, askedAll_forall₂ hinner⟩
  have hdrafted := Drafting.node_keeps hnew _ none _ _ _ hdrafts.drafted
  refine compileContent_eq_ok.mpr ⟨root, count, d, ⟨hbuilt, hdrafted⟩, ?_⟩
  exact (Script.ofDraft_extended hnew (hcalled root count d hdrafts)).symm

end Registry

namespace Sample

/-- A gift whose amount is a call, where it can be taxed and there is no shop. -/
def taxed : Element :=
  element "ifdef" [⟨"name", "tax"⟩]
    [element "ifndef" [⟨"name", "shop"⟩] [element "give" [⟨"x", "$tax(1)"⟩] []]]

def taxi : Feature := ⟨"taxi", "$.warp($x)", some "travel", .plain⟩

end Sample

namespace Registry

/-- A gift whose amount calls a feature, when one with a longer name is registered. -/
theorem taxed_register_keeps_script :
    ∃ script r', Sample.packaged.compileContent .empty Sample.taxed "today" = .ok script ∧
      Sample.packaged.register Sample.taxi none = .ok r' ∧
      r'.compileContent .empty Sample.taxed "today" = .ok script := by
  have hcompiled :
      (Sample.packaged.compileContent .empty Sample.taxed "today").toOption.isSome := by
    decide +kernel
  obtain ⟨script, hscript⟩ := Option.isSome_iff_exists.mp hcompiled
  have hscript := eq_ok_of_toOption hscript
  obtain ⟨r', hregister, hkept⟩ :=
    register_keeps_script (f := Sample.taxi) (by decide +kernel) hscript (by decide +kernel) (by
      rintro root count d ⟨hbuilt, hdrafted⟩
      cases hbuilt
      cases hdrafted
      decide +kernel) none
  exact ⟨script, r', hscript, hregister, hkept⟩

end Registry

end SceneDispatch
