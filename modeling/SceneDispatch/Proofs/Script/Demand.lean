import SceneDispatch.Compiler
import SceneDispatch.Proofs.Flow.Rules
import SceneDispatch.Proofs.Scene.Derivation
/-!
The built-in features that drafting a scene asks for. Main statement: a scene that was built can be
drafted when the registry has them all, and otherwise the first one missing is the fault. No other
fault comes up: in a built graph the arms of switches are cases, their features can be compared
with, and no message stands alone.
-/
namespace SceneDispatch

namespace NodeKind

/-- The built-in features used for a node of this kind, in the order in which they are asked
for. -/
def demands : NodeKind → List String
  | message _ .next _ => ["dlg_Next"]
  | message _ .previousNext _ => ["dlg_PrevNext"]
  | message _ .ok _ => ["dlg_Ok", "special_End"]
  | message _ (.yesNo _) _ => ["dlg_YesNo", "dlg_Ok", "special_End"]
  | options .. => ["dlg_Options"]
  | _ => []

/-- The feature of a switch has a subject. -/
def Comparing : NodeKind → Prop
  | switch f => f.isSwitch = true
  | _ => True

end NodeKind

namespace Node

/-- The built-in features that a graph uses, in the order of a depth-first walk. -/
def demands (n : Node) : List String := n.preorder.flatMap NodeKind.demands

def demandsIn (ns : List Node) : List String := (preorderIn ns).flatMap NodeKind.demands

theorem demands_mk (kind : NodeKind) (c : StatusContext) (ns : List Node) :
    (mk kind c ns).demands = kind.demands ++ demandsIn ns := by
  simp [demands, demandsIn, preorder]

theorem demandsIn_cons (n : Node) (ns : List Node) :
    demandsIn (n :: ns) = n.demands ++ demandsIn ns := by
  simp [demands, demandsIn, preorderIn]

end Node

theorem Vocabulary.grants_comparing (v : Vocabulary) : v.Grants NodeKind.Comparing where
  block := trivial
  message := trivial
  options := trivial
  option := trivial
  command := trivial
  switch hf := hf.2
  arm _ := trivial
  condition := trivial
  otherwise := trivial

/-- The first of the names that no feature has. -/
def Registry.missing? (r : Registry) (names : List String) : Option String :=
  names.find? fun name => !r.has name

theorem Registry.missing?_append (r : Registry) (names more : List String) :
    r.missing? (names ++ more) = (r.missing? names).or (r.missing? more) :=
  List.find?_append

theorem Registry.missing?_eq_none_iff {r : Registry} {names : List String} :
    r.missing? names = none ↔ ∀ name ∈ names, r.has name = true := by
  simp [missing?]

namespace Drafting

/-- The step asks for the features with these names, one after another, and nothing else can go
wrong with it. -/
structure Asks (r : Registry) (names : List String) {α : Type} (x : Drafting α) : Prop where
  ok : r.missing? names = none → ∀ d, ∃ a d', x d = .ok a d'
  error : ∀ name, r.missing? names = some name →
    ∀ d, ∃ d', x d = .error (.lookup (.unknown name)) d'

section Asks

variable {r : Registry} {names more : List String} {α β : Type} {x : Drafting α}
  {k : α → Drafting β} {c : StatusContext} {f : Feature}

theorem asks_nothing (h : ∀ d, ∃ a d', x d = .ok a d') : Asks r [] x :=
  ⟨fun _ => h, fun _ hname => nomatch hname⟩

theorem Asks.bind (hx : Asks r names x) (hk : ∀ a, Asks r more (k a)) :
    Asks r (names ++ more) (x >>= k) := by
  have hok : ∀ {d d' : Draft} {a : α}, x d = .ok a d' → (x >>= k) d = k a d' := by
    intro d d' a ha
    change EStateM.bind x k d = _
    rw [EStateM.bind, ha]
  constructor
  · intro hnone d
    rw [Registry.missing?_append, Option.or_eq_none_iff] at hnone
    obtain ⟨a, d', ha⟩ := hx.ok hnone.1 d
    rw [hok ha]
    exact (hk a).ok hnone.2 d'
  · intro name hname d
    rw [Registry.missing?_append, Option.or_eq_some_iff] at hname
    rcases hname with hname | ⟨hnone, hname⟩
    · obtain ⟨d', hd'⟩ := hx.error name hname d
      refine ⟨d', ?_⟩
      change EStateM.bind x k d = _
      rw [EStateM.bind, hd']
    · obtain ⟨a, d', ha⟩ := hx.ok hnone d
      rw [hok ha]
      exact (hk a).error name hname d'

/-- What asks for nothing does not change what is asked for. -/
theorem Asks.after (hx : Asks r [] x) (hk : ∀ a, Asks r names (k a)) : Asks r names (x >>= k) :=
  hx.bind hk

theorem Asks.before (hx : Asks r names x) (hk : ∀ a, Asks r [] (k a)) :
    Asks r names (x >>= k) := by
  simpa using hx.bind hk

theorem pure_asks (a : α) : Asks r [] (pure a : Drafting α) := asks_nothing fun d => ⟨a, d, rfl⟩

theorem touch_asks : Asks r [] (touch c) := asks_nothing fun _ => ⟨_, _, rfl⟩

theorem write_asks {xs : List Statement} : Asks r [] (write c xs) :=
  asks_nothing fun _ => ⟨_, _, rfl⟩

theorem use_asks {a : Arguments} : Asks r [] (use r f a) := asks_nothing fun _ => ⟨_, _, rfl⟩

theorem feature_asks (r : Registry) (name : String) : Asks r [name] (feature r name) := by
  have hhas : r.has name = (r.find? name).isSome := rfl
  cases hfind : r.find? name with
  | some f =>
    have hok : ∀ d, feature r name d = .ok f d := by
      intro d
      simp only [feature, Registry.lookup, hfind]
      rfl
    rw [hfind] at hhas
    refine ⟨fun _ d => ⟨f, d, hok d⟩, ?_⟩
    intro other hother
    simp [Registry.missing?, hhas] at hother
  | none =>
    have herror : ∀ d, feature r name d = .error (.lookup (.unknown name)) d := by
      intro d
      simp only [feature, Registry.lookup, hfind]
      rfl
    rw [hfind] at hhas
    constructor
    · intro hnone
      simp [Registry.missing?, hhas] at hnone
    · intro other hother d
      obtain rfl : name = other := by simpa [Registry.missing?, hhas] using hother
      exact ⟨d, herror d⟩

theorem call_asks (r : Registry) (name : String) (a : Arguments) :
    Asks r [name] (call r name a) :=
  (feature_asks r name).before fun _ => use_asks.before fun _ => pure_asks _

theorem subject_asks (hf : f.isSwitch = true) : Asks r [] (subject r f) := by
  obtain ⟨name, template, dependency, form⟩ := f
  cases form with
  | plain => cases hf
  | switch subject => exact asks_nothing fun _ => ⟨_, _, rfl⟩

theorem values_asks : ∀ tests : List String, Asks r [] (values r f tests)
  | [] => pure_asks _
  | _ :: tests => use_asks.before fun _ => (values_asks tests).before fun _ => pure_asks _

theorem expression?_asks (hf : f.isSwitch = true) (test : CaseTest) :
    Asks r [] (expression? r f test) := by
  cases test with
  | otherwise => exact pure_asks _
  | condition expression => exact (subject_asks hf).before fun _ => pure_asks _
  | values tests => exact (values_asks tests).before fun _ => pure_asks _

theorem suspend_asks {status : Status} {send : Feature} {text : String} :
    Asks r [] (suspend r c status send text) :=
  use_asks.before fun _ => write_asks

/-- A message that is found among its siblings asks for the feature that shows it, and then for
what ends the talk with it or with its refusal. -/
theorem message_asks {place : Option Place} {back status : Status} {style : MessageStyle}
    {text : String} (hback : (previous place).toOption = some back) :
    Asks r (NodeKind.message status style text).demands
      (message r place c status style text) := by
  cases style with
  | next =>
    exact (feature_asks r _).before fun _ => suspend_asks.before fun _ =>
      write_asks.before fun _ => touch_asks.before fun _ => pure_asks _
  | previousNext =>
    have hrefusal : ∀ c', Asks r [] (refusal r place c' .previousNext) := by
      intro c'
      rw [refusal]
      cases hplace : previous place with
      | error fault =>
        rw [hplace] at hback
        cases hback
      | ok status => exact write_asks
    exact (feature_asks r _).before fun _ => suspend_asks.before fun _ =>
      write_asks.before fun _ => touch_asks.before fun _ => hrefusal _
  | ok =>
    exact (feature_asks r _).bind fun _ => suspend_asks.after fun _ =>
      (call_asks r endFeature .empty).before fun _ => write_asks.before fun _ =>
        write_asks.before fun _ => touch_asks.before fun _ => pure_asks _
  | yesNo refusal =>
    exact (feature_asks r _).bind fun _ => suspend_asks.after fun _ => write_asks.after fun _ =>
      touch_asks.after fun _ => (call_asks r MessageStyle.ok.featureName _).bind fun _ =>
        (call_asks r endFeature .empty).before fun _ => write_asks

mutual

/-- A node of a built graph asks for the features of its walk. If it suspends, it is found among
its siblings. -/
theorem node_asks : ∀ (n : Node) {place : Option Place} {back : Status}, n.WellFormed →
    Leads place n (some back) → (∀ kind ∈ n.preorder, kind.Comparing) →
    Asks r n.demands (node r place n)
  | .mk kind c ns, place, back, hwf, hback, hcomparing => by
    obtain ⟨hkind, hns⟩ := Node.wellFormed_mk.mp hwf
    obtain ⟨hf, hbelow⟩ := List.forall_mem_cons.mp hcomparing
    rw [Node.demands_mk]
    unfold node
    refine touch_asks.after fun _ => ?_
    cases kind with
    | block => exact serial_asks ns hns reached_start hbelow
    | case test => exact serial_asks ns hns reached_start hbelow
    | option label => exact serial_asks ns hns reached_start hbelow
    | switch f =>
      refine arms_asks hf ns hns reached_start hbelow fun n hn => ?_
      exact hkind.1 n.kind (List.mem_map_of_mem hn)
    | command f a =>
      obtain rfl : ns = [] := List.map_eq_nil_iff.mp hkind
      exact use_asks.before fun _ => write_asks
    | message status style text =>
      obtain rfl : ns = [] := List.map_eq_nil_iff.mp hkind
      rw [show Node.demandsIn [] = [] from rfl, List.append_nil]
      exact message_asks (hback rfl)
    | options status text =>
      exact (feature_asks r _).bind fun _ => suspend_asks.after fun _ => write_asks.after fun _ =>
        touch_asks.after fun _ => choices_asks ns hns reached_start hbelow

theorem serial_asks : ∀ (ns : List Node) {parent : Node} {i : Nat} {back : Status},
    (∀ n ∈ ns, n.WellFormed) → Reached parent i back ns →
    (∀ kind ∈ Node.preorderIn ns, kind.Comparing) →
    Asks r (Node.demandsIn ns) (serial r parent i ns)
  | [], _, _, _, _, _, _ => pure_asks _
  | n :: ns, parent, i, back, hwf, hback, hcomparing => by
    obtain ⟨hn, hns⟩ := List.forall_mem_cons.mp hwf
    obtain ⟨hfirst, hrest⟩ := List.forall_mem_append.mp hcomparing
    rw [Node.demandsIn_cons, serial]
    exact (node_asks n hn hback.leads hfirst).bind fun _ => serial_asks ns hns hback.next hrest

theorem arms_asks {f : Feature} (hf : f.isSwitch = true) : ∀ (ns : List Node) {parent : Node}
    {i : Nat} {back : Status}, (∀ n ∈ ns, n.WellFormed) → Reached parent i back ns →
    (∀ kind ∈ Node.preorderIn ns, kind.Comparing) → (∀ n ∈ ns, ∃ test, n.kind = .case test) →
    Asks r (Node.demandsIn ns) (arms r parent f i ns)
  | [], _, _, _, _, _, _, _ => pure_asks _
  | n :: ns, parent, i, back, hwf, hback, hcomparing, hcase => by
    obtain ⟨hn, hns⟩ := List.forall_mem_cons.mp hwf
    obtain ⟨hfirst, hrest⟩ := List.forall_mem_append.mp hcomparing
    obtain ⟨⟨test, htest⟩, hcases⟩ := List.forall_mem_cons.mp hcase
    rw [Node.demandsIn_cons, arms]
    simp only [htest]
    exact (expression?_asks hf test).after fun _ => write_asks.after fun _ =>
      (node_asks n hn hback.leads hfirst).bind fun _ => write_asks.after fun _ =>
        arms_asks hf ns hns hback.next hrest hcases

theorem choices_asks : ∀ (ns : List Node) {parent : Node} {c : StatusContext} {i : Nat}
    {back : Status}, (∀ n ∈ ns, n.WellFormed) → Reached parent i back ns →
    (∀ kind ∈ Node.preorderIn ns, kind.Comparing) →
    Asks r (Node.demandsIn ns) (choices r parent c i ns)
  | [], _, _, _, _, _, _, _ => pure_asks _
  | n :: ns, parent, c, i, back, hwf, hback, hcomparing => by
    obtain ⟨hn, hns⟩ := List.forall_mem_cons.mp hwf
    obtain ⟨hfirst, hrest⟩ := List.forall_mem_append.mp hcomparing
    rw [Node.demandsIn_cons, choices]
    exact write_asks.after fun _ => (node_asks n hn hback.leads hfirst).bind fun _ =>
      write_asks.after fun _ => choices_asks ns hns hback.next hrest

end

/-- A scene stands alone, but its root is no suspend point. -/
theorem scene_asks {scene : Node} (hkind : scene.kind = .block) (hwf : scene.WellFormed)
    (hcomparing : ∀ kind ∈ scene.preorder, kind.Comparing) :
    Asks r scene.demands (Drafting.scene r scene) := by
  obtain ⟨kind, c, ns⟩ := scene
  obtain rfl : kind = .block := hkind
  exact node_asks (.mk .block c ns) hwf (leads_of_not_suspends rfl (some .start)) hcomparing

end Asks

end Drafting

theorem Fault.unknown_diagnostic (name : String) :
    (Fault.lookup (.unknown name)).diagnostic =
      ⟨"FEATURE_UNKNOWN", "Unknown feature \"" ++ name ++ "\".", none⟩ := by
  have hmessage :
      (Fault.lookup (.unknown name)).message = "Unknown feature \"" ++ name ++ "\"." := by
    change "Unknown feature \"" ++ name ++ "\"" ++ "." = _
    rw [String.append_assoc, show "\"" ++ "." = "\"." by decide]
  rw [Fault.diagnostic, hmessage]
  rfl

namespace Registry

/-- A built scene compiles if the registry has every built-in feature that its graph uses, and only
then. Otherwise the fault names the first one missing in a depth-first walk. Before as after the
statuses flow through it, a built graph is never found inconsistent by drafting it, and no plain
feature is asked for its subject. -/
theorem compileContent_asks_in_order {r : Registry} {resources : ResourceTable} {content : Element}
    {root : Node} {count : Nat} (h : (Vocabulary.mk r resources).scene content 0 = .ok root count)
    (date : String) :
    ((∃ script, r.compileContent resources content date = .ok script) ↔
      ∀ name ∈ root.demands, r.has name = true) ∧
    (∀ name, r.missing? root.demands = some name →
      r.compileContent resources content date = .error (.lookup (.unknown name)) ∧
      (Fault.lookup (.unknown name)).diagnostic =
        ⟨"FEATURE_UNKNOWN", "Unknown feature \"" ++ name ++ "\".", none⟩) ∧
    ∀ scene, scene = root ∨ scene = root.assignContexts.1 → ∀ d fault d',
      Drafting.scene r scene d = .error fault d' →
      fault.code ≠ "INTERNAL_CONSISTENCY" ∧ fault.code ≠ "SWITCH_FEATURE_EXPECTED" := by
  have hcomparing := Vocabulary.scene_grants (Vocabulary.grants_comparing _) h
  have hbuilt : Drafting.Asks r root.demands (Drafting.scene r root) :=
    Drafting.scene_asks (Vocabulary.scene_kind h)
      ((Vocabulary.scene_built h).wellFormed root List.mem_cons_self) hcomparing
  have hpreorder : root.assignContexts.1.preorder = root.preorder := Node.preorder_assign root _
  have hassigned : Drafting.Asks r root.demands (Drafting.scene r root.assignContexts.1) := by
    have hprepared := Vocabulary.scene_prepared h
    have hasks := Drafting.scene_asks (r := r) hprepared.kind hprepared.wellFormed
      (hpreorder ▸ hcomparing)
    rwa [Node.demands, hpreorder] at hasks
  have herror : ∀ name, r.missing? root.demands = some name →
      r.compileContent resources content date = .error (.lookup (.unknown name)) := by
    intro name hname
    obtain ⟨d, hd⟩ := hassigned.error name hname .empty
    simp only [compileContent, h, hd]
  refine ⟨?_, fun name hname => ⟨herror name hname, Fault.unknown_diagnostic name⟩, ?_⟩
  · rw [← missing?_eq_none_iff]
    constructor
    · rintro ⟨script, hscript⟩
      by_contra hmissing
      obtain ⟨name, hname⟩ := Option.ne_none_iff_exists'.mp hmissing
      rw [herror name hname] at hscript
      cases hscript
    · intro hnone
      obtain ⟨_, d, hd⟩ := hassigned.ok hnone .empty
      simp only [compileContent, h, hd]
      exact ⟨_, rfl⟩
  · intro scene hscene d fault d' hfault
    have hasks : Drafting.Asks r root.demands (Drafting.scene r scene) := by
      rcases hscene with rfl | rfl
      · exact hbuilt
      · exact hassigned
    cases hmissing : r.missing? root.demands with
    | none =>
      obtain ⟨_, _, hok⟩ := hasks.ok hmissing d
      rw [hok] at hfault
      cases hfault
    | some name =>
      obtain ⟨_, herror⟩ := hasks.error name hmissing d
      rw [herror] at hfault
      cases hfault
      simp [Fault.code, LookupFault.code]

/-- Some registries have no word for messages that close the talk. The walk then stops at the last
message of the scene, before it comes to the failures of the assertions around it. In the other
scene the last message looks for the one before it. -/
theorem quest_compileContent_asks_in_order :
    Sample.vocabulary.scene Sample.quest 0 = .ok Sample.questGraph 6 ∧
    Sample.questGraph.demands = ["dlg_Next", "dlg_Options", "dlg_Next", "dlg_Ok", "special_End",
      "dlg_Ok", "special_End", "dlg_Ok", "special_End"] ∧
    Sample.registry.compileContent .empty Sample.quest "today" =
      .error (.lookup (.unknown "dlg_Ok")) ∧
    (∃ script, Sample.fullRegistry.compileContent .empty Sample.quest "today" = .ok script) ∧
    ∃ script, Sample.fullRegistry.compileContent .empty Sample.offer "today" = .ok script := by
  have hbuilds : Sample.vocabulary.scene Sample.quest 0 = .ok Sample.questGraph 6 := rfl
  obtain ⟨-, hmissing, -⟩ := compileContent_asks_in_order hbuilds "today"
  obtain ⟨hfull, -, -⟩ := compileContent_asks_in_order Sample.quest_builds "today"
  obtain ⟨hoffer, -, -⟩ := compileContent_asks_in_order Sample.offer_builds "today"
  exact ⟨hbuilds, by decide, (hmissing "dlg_Ok" (by decide)).1, hfull.mpr (by decide),
    hoffer.mpr (by decide)⟩

end Registry

end SceneDispatch
