import SceneDispatch.Proofs.Scene.Resolution
/-!
The builder as rules. A rule says of an element which node it makes and how far the count goes,
with the content of its sections spliced in. Main statement: the builder succeeds where the rules
apply, and with the nodes and the count they give.
-/
namespace SceneDispatch

namespace Element

/-- Side by side, with sections resolved at this level: the content of a section whose condition
holds stands in the section's place, other sections are gone. There is no such list when one of the
sections on the way lacks its name. -/
inductive Spliced (r : Registry) : List Element → List Element → Prop
  | nil : Spliced r [] []
  | plain {e : Element} {es flat : List Element} :
    e.tag.isSection = false → Spliced r es flat → Spliced r (e :: es) (e :: flat)
  | included {t : Tag} {children inner es flat : List Element} :
    t.isSection = true → t.includedBy r = true → Spliced r children inner → Spliced r es flat →
    Spliced r (.mk t children :: es) (inner ++ flat)
  | dropped {t : Tag} {children es flat : List Element} :
    t.isSection = true → (t.attribute? "name").isSome = true → t.includedBy r = false →
    Spliced r es flat → Spliced r (.mk t children :: es) flat

end Element

theorem Tag.name_of_includedBy {r : Registry} {t : Tag} (h : t.includedBy r = true) :
    (t.attribute? "name").isSome = true := by
  unfold includedBy at h
  cases hname : t.attribute? "name" with
  | none => simp [hname] at h
  | some name => rfl

namespace Outline

open Element

variable {r : Registry}

theorem joined_eq_ok {a b : Except Fault (List Outline)} {os : List Outline} :
    joined a b = .ok os ↔ ∃ xs ys, a = .ok xs ∧ b = .ok ys ∧ os = xs ++ ys := by
  cases a with
  | error fault => simp [joined, bind, Except.bind]
  | ok xs =>
    cases b with
    | error fault => simp [joined, bind, Except.bind]
    | ok ys => simp [joined, bind, Except.bind, pure, Except.pure, eq_comm]

theorem ofElements_of_spliced {es flat : List Element} (h : Spliced r es flat) :
    ofElements r es = .ok (flat.map (plain r)) := by
  induction h with
  | nil => rfl
  | @plain e es flat he _ ih =>
    obtain ⟨t, children⟩ := e
    have ht : t.isSection = false := he
    rw [ofElements_cons, ofElement_plain ht, ih]
    rfl
  | included ht hincluded _ _ ihinner ih =>
    rw [ofElements_cons, ofElement_section_named ht (Tag.name_of_includedBy hincluded),
      if_pos hincluded, ihinner, ih, List.map_append]
    rfl
  | dropped ht hname hdropped _ ih =>
    rw [ofElements_cons, ofElement_section_named ht hname, hdropped, ih]
    rfl

mutual

theorem spliced_of_ofElement : ∀ (e : Element) {os : List Outline}, ofElement r e = .ok os →
    ∃ flat, os = flat.map (plain r) ∧
      ∀ {es rest}, Spliced r es rest → Spliced r (e :: es) (flat ++ rest)
  | .mk t children, os, h => by
    cases hsection : t.isSection with
    | false =>
      rw [ofElement_plain hsection] at h
      cases h
      exact ⟨[.mk t children], rfl, .plain hsection⟩
    | true =>
      cases hname : (t.attribute? "name").isSome with
      | false =>
        rw [ofElement_section_nameless hsection hname] at h
        cases h
      | true =>
        rw [ofElement_section_named hsection hname] at h
        cases hincluded : t.includedBy r with
        | false =>
          rw [hincluded] at h
          cases h
          exact ⟨[], rfl, .dropped hsection hname hincluded⟩
        | true =>
          rw [hincluded] at h
          obtain ⟨flat, hflat, rfl⟩ := spliced_of_ofElements children h
          exact ⟨flat, rfl, .included hsection hincluded hflat⟩

theorem spliced_of_ofElements : ∀ (es : List Element) {os : List Outline},
    ofElements r es = .ok os → ∃ flat, Spliced r es flat ∧ os = flat.map (plain r)
  | [], os, h => by
    cases h
    exact ⟨[], .nil, rfl⟩
  | e :: es, os, h => by
    rw [ofElements_cons, joined_eq_ok] at h
    obtain ⟨xs, ys, hxs, hys, rfl⟩ := h
    obtain ⟨first, rfl, hfirst⟩ := spliced_of_ofElement e hxs
    obtain ⟨rest, hrest, rfl⟩ := spliced_of_ofElements es hys
    exact ⟨first ++ rest, hfirst hrest, List.map_append.symm⟩

end

end Outline

namespace Vocabulary

open Build Element

section Lookups

variable {v : Vocabulary} {t : Tag}

theorem require_eq_ok_iff {name value : String} :
    t.require name = .ok value ↔ t.attribute? name = some value := by
  unfold Tag.require
  cases t.attribute? name <;> simp

/-- The registry has a switch feature for the type. -/
def Compares (v : Vocabulary) (type : String) (f : Feature) : Prop :=
  v.registry.find? ("switch_" ++ type) = some f ∧ f.isSwitch = true

theorem switchFeature_eq_ok {type : String} {f : Feature} :
    v.switchFeature t type = .ok f ↔ v.Compares type f := by
  unfold switchFeature Compares Registry.lookupSwitch Registry.lookup
  cases v.registry.find? ("switch_" ++ type) with
  | none => simp [bind, Except.bind]
  | some g =>
    cases hswitch : g.isSwitch with
    | true =>
      simp only [bind, Except.bind, hswitch, ↓reduceIte, Except.ok.injEq, Option.some.injEq]
      constructor
      · rintro rfl
        exact ⟨rfl, hswitch⟩
      · exact fun h => h.1
    | false =>
      simp only [bind, Except.bind, hswitch, Bool.false_eq_true, ↓reduceIte, reduceCtorEq,
        Option.some.injEq, false_iff]
      rintro ⟨rfl, h⟩
      simp [hswitch] at h

end Lookups

/-- The names that no command has. -/
def structural : List String :=
  ["case", "default", "option", "message", "options", "switch", "assert"]

/-- The node of an arm of a switch. -/
def Arm (t : Tag) (last : Bool) (kind : NodeKind) : Prop :=
  ∃ test, armTest t last = .ok test ∧ kind = .case test

/-- The node of an entry of an options node. -/
def Entry (v : Vocabulary) (t : Tag) (_last : Bool) (kind : NodeKind) : Prop :=
  t.name = "option" ∧ ∃ label, v.shownText t = .ok label ∧ kind = .option label

mutual

/-- The node that an element makes, and the count before and behind it. -/
inductive Makes (v : Vocabulary) : Element → Nat → Node → Nat → Prop
  | message {t : Tag} {children : List Element} {style : MessageStyle} {text : String} {lo : Nat} :
    t.name = "message" → v.shownText t = .ok text → v.messageStyle t = .ok style →
    Makes v (.mk t children) lo (.leaf (.message lo style text)) (lo + 1)
  | options {t : Tag} {children entries : List Element} {text : String} {ns : List Node}
      {lo hi : Nat} :
    t.name = "options" → v.shownText t = .ok text → Spliced v.registry children entries →
    entries ≠ [] → MakesBranches v v.Entry entries (lo + 1) ns hi →
    Makes v (.mk t children) lo (.fresh (.options lo text) ns) hi
  | switch {t : Tag} {children arms : List Element} {type : String} {f : Feature} {ns : List Node}
      {lo hi : Nat} :
    t.name = "switch" → t.attribute? "type" = some type → v.Compares type f →
    Spliced v.registry children arms → MakesBranches v Arm arms lo ns hi →
    Makes v (.mk t children) lo (.fresh (.switch f) ns) hi
  | command {t : Tag} {children : List Element} {f : Feature} {lo : Nat} :
    t.name ∉ structural → v.registry.find? t.name = some f →
    Makes v (.mk t children) lo
      (.leaf (.command f ⟨t.attribute? "x", t.attribute? "y", t.attribute? "z"⟩)) lo

/-- The nodes of spliced elements that stand side by side. -/
inductive MakesAll (v : Vocabulary) : List Element → Nat → List Node → Nat → Prop
  | nil {lo : Nat} : MakesAll v [] lo [] lo
  | cons {e : Element} {es : List Element} {n : Node} {ns : List Node} {lo mid hi : Nat} :
    Makes v e lo n mid → MakesAll v es mid ns hi → MakesAll v (e :: es) lo (n :: ns) hi
  | assert {t : Tag} {children es : List Element} {type condition failure : String} {f : Feature}
      {ns : List Node} {lo hi : Nat} :
    t.name = "assert" → t.attribute? "type" = some type → t.attribute? "cond" = some condition →
    t.attribute? "onFail" = some failure → v.Compares type f → MakesAll v es (lo + 1) ns hi →
    MakesAll v (.mk t children :: es) lo
      [assertion f condition (.leaf (.message lo .ok (v.resources.resolveOrLiteral failure)))
        ns] hi

/-- The nodes of spliced branches; `head` says what the branch itself becomes. -/
inductive MakesBranches (v : Vocabulary) :
    (Tag → Bool → NodeKind → Prop) → List Element → Nat → List Node → Nat → Prop
  | nil {head : Tag → Bool → NodeKind → Prop} {lo : Nat} : MakesBranches v head [] lo [] lo
  | cons {head : Tag → Bool → NodeKind → Prop} {t : Tag} {children inner es : List Element}
      {kind : NodeKind} {ns ms : List Node} {lo mid hi : Nat} :
    head t es.isEmpty kind → Spliced v.registry children inner → MakesAll v inner lo ns mid →
    MakesBranches v head es mid ms hi →
    MakesBranches v head (.mk t children :: es) lo (.fresh kind ns :: ms) hi

end

section Equations

variable {v : Vocabulary} {t : Tag} {content : Except Fault (List Outline)} {n : Node}
  {lo hi : Nat}

theorem element_of_message (h : t.name = "message") : element v (.mk t content) = v.message t := by
  simp [element, h]

theorem element_of_options (h : t.name = "options") :
    element v (.mk t content) = (do
      let text ← .ofExcept (v.shownText t)
      let status ← .newStatus
      return .fresh (.options status text) (← optionsContent v t content)) := by
  simp [element, h]

theorem element_of_switch (h : t.name = "switch") :
    element v (.mk t content) = (do
      let f ← .ofExcept (t.require "type" >>= v.switchFeature t)
      return .fresh (.switch f) (← switchContent v content)) := by
  simp [element, h]

theorem element_of_command (h : t.name ∉ structural) :
    element v (.mk t content) = v.command t := by
  simp only [structural, List.mem_cons, not_or] at h
  simp [element, h]

/-- Arms and entries stand nowhere else. -/
theorem element_misplaced (h : t.name = "case" ∨ t.name = "default" ∨ t.name = "option") :
    element v (.mk t content) lo ≠ .ok n hi := by
  rcases h with h | h | h <;> simp [element, h, throw_ne_ok]

theorem message_eq_ok :
    v.message t lo = .ok n hi ↔ ∃ style text, v.shownText t = .ok text ∧
      v.messageStyle t = .ok style ∧ n = .leaf (.message lo style text) ∧ hi = lo + 1 := by
  simp only [message, bind_eq_ok, ofExcept_eq_ok, newStatus_eq_ok, pure_eq_ok]
  constructor
  · rintro ⟨text, _, ⟨htext, rfl⟩, style, _, ⟨hstyle, rfl⟩, _, _, ⟨rfl, rfl⟩, rfl, rfl⟩
    exact ⟨style, text, htext, hstyle, rfl, rfl⟩
  · rintro ⟨style, text, htext, hstyle, rfl, rfl⟩
    exact ⟨text, lo, ⟨htext, rfl⟩, style, lo, ⟨hstyle, rfl⟩, lo, lo + 1, ⟨rfl, rfl⟩, rfl, rfl⟩

theorem command_eq_ok :
    v.command t lo = .ok n hi ↔ ∃ f, v.registry.find? t.name = some f ∧
      n = .leaf (.command f ⟨t.attribute? "x", t.attribute? "y", t.attribute? "z"⟩) ∧ hi = lo := by
  unfold command
  cases v.registry.find? t.name with
  | none => simp [throw_ne_ok]
  | some f =>
    simp only [pure_eq_ok, Option.some.injEq, exists_eq_left']
    rw [eq_comm, eq_comm (a := lo)]

theorem switchType_eq_ok {f : Feature} :
    (t.require "type" >>= v.switchFeature t) = .ok f ↔
      ∃ type, t.attribute? "type" = some type ∧ v.Compares type f := by
  cases htype : t.require "type" with
  | error fault =>
    simp only [Tag.require] at htype
    cases hattribute : t.attribute? "type" with
    | none => simp [bind, Except.bind]
    | some type => simp [hattribute] at htype
  | ok type =>
    rw [require_eq_ok_iff.mp htype]
    change v.switchFeature t type = .ok f ↔ _
    simp [switchFeature_eq_ok]

theorem assertionHead_eq_ok {head : Feature × String × Node} :
    v.assertionHead t lo = .ok head hi ↔ ∃ type condition failure f,
      t.attribute? "type" = some type ∧ t.attribute? "cond" = some condition ∧
      t.attribute? "onFail" = some failure ∧ v.Compares type f ∧ hi = lo + 1 ∧
      head = (f, condition, .leaf (.message lo .ok (v.resources.resolveOrLiteral failure))) := by
  simp only [assertionHead, bind_eq_ok, ofExcept_eq_ok, newStatus_eq_ok, pure_eq_ok,
    require_eq_ok_iff, switchFeature_eq_ok]
  constructor
  · rintro ⟨type, _, ⟨htype, rfl⟩, condition, _, ⟨hcondition, rfl⟩, failure, _, ⟨hfailure, rfl⟩,
      f, _, ⟨hf, rfl⟩, _, _, ⟨rfl, rfl⟩, rfl, rfl⟩
    exact ⟨type, condition, failure, f, htype, hcondition, hfailure, hf, rfl, rfl⟩
  · rintro ⟨type, condition, failure, f, htype, hcondition, hfailure, hf, rfl, rfl⟩
    exact ⟨type, lo, ⟨htype, rfl⟩, condition, lo, ⟨hcondition, rfl⟩, failure, lo, ⟨hfailure, rfl⟩,
      f, lo, ⟨hf, rfl⟩, lo, lo + 1, ⟨rfl, rfl⟩, rfl, rfl⟩

theorem optionsContent_of_ne_nil {os : List Outline} (h : os ≠ []) :
    optionsContent v t (.ok os) = entries v os := by
  cases os with
  | nil => exact absurd rfl h
  | cons o os => rfl

end Equations

section Soundness

open Outline

variable {v : Vocabulary}

mutual

/-- What the builder makes, the rules give. -/
theorem element_makes : ∀ (o : Outline) {e : Element} {n : Node} {lo hi : Nat},
    o = plain v.registry e → o.name ≠ "assert" → element v o lo = .ok n hi → Makes v e lo n hi
  | .mk t content, .mk _ children, n, lo, hi, ho, hassert, h => by
    obtain ⟨rfl, hcontent⟩ := Outline.mk.inj ho
    by_cases hmessage : t.name = "message"
    · rw [element_of_message hmessage, message_eq_ok] at h
      obtain ⟨style, text, htext, hstyle, rfl, rfl⟩ := h
      exact .message hmessage htext hstyle
    by_cases hoptions : t.name = "options"
    · rw [element_of_options hoptions] at h
      simp only [bind_eq_ok, ofExcept_eq_ok, newStatus_eq_ok, pure_eq_ok] at h
      obtain ⟨text, _, ⟨htext, rfl⟩, _, _, ⟨rfl, rfl⟩, ns, _, hns, rfl, rfl⟩ := h
      obtain ⟨entries, hentries, hne, hmakes⟩ := optionsContent_makes t content hcontent hns
      exact .options hoptions htext hentries hne hmakes
    by_cases hswitch : t.name = "switch"
    · rw [element_of_switch hswitch] at h
      simp only [bind_eq_ok, ofExcept_eq_ok, switchType_eq_ok, pure_eq_ok] at h
      obtain ⟨f, _, ⟨⟨type, htype, hf⟩, rfl⟩, ns, _, hns, rfl, rfl⟩ := h
      obtain ⟨arms, harms, hmakes⟩ := switchContent_makes content hcontent hns
      exact .switch hswitch htype hf harms hmakes
    by_cases hplace : t.name = "case" ∨ t.name = "default" ∨ t.name = "option"
    · exact absurd h (element_misplaced hplace)
    have hname : t.name ∉ structural := by
      simp only [not_or] at hplace
      have ht : t.name ≠ "assert" := hassert
      simp [structural, hplace, hmessage, hoptions, hswitch, ht]
    rw [element_of_command hname, command_eq_ok] at h
    obtain ⟨f, hf, rfl, rfl⟩ := h
    exact .command hname hf

theorem sequence_makes : ∀ (os : List Outline) {es : List Element} {ns : List Node} {lo hi : Nat},
    os = es.map (plain v.registry) → sequence v os lo = .ok ns hi → MakesAll v es lo ns hi
  | [], es, ns, lo, hi, hos, h => by
    obtain ⟨rfl, rfl⟩ := pure_eq_ok.mp h
    rw [List.map_eq_nil_iff.mp hos.symm]
    exact .nil
  | o :: rest, [], _, _, _, hos, _ => by cases hos
  | o :: rest, .mk t children :: es, ns, lo, hi, hos, h => by
    obtain ⟨ho, hrest⟩ := List.cons.inj hos
    have hname : o.name = t.name := congrArg Outline.name ho
    have htag : o.tag = t := congrArg Outline.tag ho
    rw [sequence] at h
    split at h
    · next hassert =>
      simp only [bind_eq_ok, pure_eq_ok, assertionHead_eq_ok, htag] at h
      obtain ⟨_, _, ⟨type, condition, failure, f, htype, hcondition, hfailure, hf, rfl, rfl⟩,
        ms, _, hms, rfl, rfl⟩ := h
      exact .assert (hname ▸ hassert) htype hcondition hfailure hf (sequence_makes rest hrest hms)
    · next hassert =>
      simp only [bind_eq_ok, pure_eq_ok] at h
      obtain ⟨n, mid, hn, ms, _, hms, rfl, rfl⟩ := h
      exact .cons (element_makes o ho hassert hn) (sequence_makes rest hrest hms)

theorem body_makes : ∀ (o : Outline) {t : Tag} {children : List Element} {ns : List Node}
    {lo hi : Nat}, o = plain v.registry (.mk t children) → body v o lo = .ok ns hi →
    ∃ inner, Spliced v.registry children inner ∧ MakesAll v inner lo ns hi
  | .mk _ content, _, _, _, _, _, ho, h => sequenceContent_makes content (Outline.mk.inj ho).2 h

theorem arms_makes : ∀ (os : List Outline) {es : List Element} {ns : List Node} {lo hi : Nat},
    os = es.map (plain v.registry) → arms v os lo = .ok ns hi → MakesBranches v Arm es lo ns hi
  | [], es, ns, lo, hi, hos, h => by
    obtain ⟨rfl, rfl⟩ := pure_eq_ok.mp h
    rw [List.map_eq_nil_iff.mp hos.symm]
    exact .nil
  | o :: rest, [], _, _, _, hos, _ => by cases hos
  | o :: rest, .mk t children :: es, ns, lo, hi, hos, h => by
    obtain ⟨ho, hrest⟩ := List.cons.inj hos
    have htag : o.tag = t := congrArg Outline.tag ho
    have hlast : rest.isEmpty = es.isEmpty := by rw [hrest, List.isEmpty_map]
    obtain ⟨test, mid, inner, ms, htest, hbody, hms, rfl⟩ := arms_cons_ok h
    obtain ⟨flat, hflat, hmakes⟩ := body_makes o ho hbody
    rw [htag, hlast] at htest
    exact .cons ⟨test, htest, rfl⟩ hflat hmakes (arms_makes rest hrest hms)

theorem entries_makes : ∀ (os : List Outline) {es : List Element} {ns : List Node} {lo hi : Nat},
    os = es.map (plain v.registry) → entries v os lo = .ok ns hi →
    MakesBranches v v.Entry es lo ns hi
  | [], es, ns, lo, hi, hos, h => by
    obtain ⟨rfl, rfl⟩ := pure_eq_ok.mp h
    rw [List.map_eq_nil_iff.mp hos.symm]
    exact .nil
  | o :: rest, [], _, _, _, hos, _ => by cases hos
  | o :: rest, .mk t children :: es, ns, lo, hi, hos, h => by
    obtain ⟨ho, hrest⟩ := List.cons.inj hos
    have htag : o.tag = t := congrArg Outline.tag ho
    have hname : o.name = t.name := congrArg Outline.name ho
    rw [entries] at h
    split at h
    · obtain ⟨_, _, hthrow, -⟩ := bind_eq_ok.mp h
      exact absurd hthrow throw_ne_ok
    · next hoption =>
      simp only [bind_eq_ok, ofExcept_eq_ok, pure_eq_ok, htag] at h
      obtain ⟨label, _, ⟨hlabel, rfl⟩, inner, mid, hbody, ms, _, hms, rfl, rfl⟩ := h
      obtain ⟨flat, hflat, hmakes⟩ := body_makes o ho hbody
      have hentry : t.name = "option" := hname ▸ not_not.mp hoption
      exact .cons ⟨hentry, label, hlabel, rfl⟩ hflat hmakes (entries_makes rest hrest hms)

theorem sequenceContent_makes : ∀ (content : Except Fault (List Outline)) {es : List Element}
    {ns : List Node} {lo hi : Nat}, content = ofElements v.registry es →
    sequenceContent v content lo = .ok ns hi →
    ∃ flat, Spliced v.registry es flat ∧ MakesAll v flat lo ns hi
  | .ok os, es, _, _, _, hcontent, h => by
    obtain ⟨flat, hflat, hos⟩ := spliced_of_ofElements es hcontent.symm
    exact ⟨flat, hflat, sequence_makes os hos h⟩
  | .error _, _, _, _, _, _, h => absurd h throw_ne_ok

theorem switchContent_makes : ∀ (content : Except Fault (List Outline)) {es : List Element}
    {ns : List Node} {lo hi : Nat}, content = ofElements v.registry es →
    switchContent v content lo = .ok ns hi →
    ∃ flat, Spliced v.registry es flat ∧ MakesBranches v Arm flat lo ns hi
  | .ok os, es, _, _, _, hcontent, h => by
    obtain ⟨flat, hflat, hos⟩ := spliced_of_ofElements es hcontent.symm
    exact ⟨flat, hflat, arms_makes os hos h⟩
  | .error _, _, _, _, _, _, h => absurd h throw_ne_ok

theorem optionsContent_makes (t : Tag) : ∀ (content : Except Fault (List Outline))
    {es : List Element} {ns : List Node} {lo hi : Nat}, content = ofElements v.registry es →
    optionsContent v t content lo = .ok ns hi →
    ∃ flat, Spliced v.registry es flat ∧ flat ≠ [] ∧ MakesBranches v v.Entry flat lo ns hi
  | .ok [], _, _, _, _, _, h => absurd h throw_ne_ok
  | .ok (o :: os), es, _, _, _, hcontent, h => by
    obtain ⟨flat, hflat, hos⟩ := spliced_of_ofElements es hcontent.symm
    refine ⟨flat, hflat, ?_, entries_makes (o :: os) hos h⟩
    rintro rfl
    cases hos
  | .error _, _, _, _, _, _, h => absurd h throw_ne_ok

end

end Soundness

section Completeness

open Outline

variable {v : Vocabulary}

theorem Makes.name_ne_assert {e : Element} {n : Node} {lo hi : Nat} (h : Makes v e lo n hi) :
    e.name ≠ "assert" := by
  cases h with
  | message hname => simp [Element.name, Element.tag, hname]
  | options hname => simp [Element.name, Element.tag, hname]
  | switch hname => simp [Element.name, Element.tag, hname]
  | @command t children f _ hname =>
    intro hassert
    have ht : t.name = "assert" := hassert
    exact hname (ht ▸ by decide)

mutual

/-- What the rules give, the builder makes. -/
theorem Makes.element_eq : ∀ {e : Element} {n : Node} {lo hi : Nat}, Makes v e lo n hi →
    element v (plain v.registry e) lo = .ok n hi
  | _, _, lo, _, .message hname htext hstyle => by
    rw [plain, Element.tag, element_of_message hname, message_eq_ok]
    exact ⟨_, _, htext, hstyle, rfl, rfl⟩
  | _, _, lo, hi, .options hname htext hentries hne hmakes => by
    rw [plain, Element.tag, element_of_options hname, Element.children,
      ofElements_of_spliced hentries, optionsContent_of_ne_nil (mt List.map_eq_nil_iff.mp hne)]
    simp only [bind_eq_ok, ofExcept_eq_ok, newStatus_eq_ok, pure_eq_ok]
    exact ⟨_, lo, ⟨htext, rfl⟩, lo, lo + 1, ⟨rfl, rfl⟩, _, hi, hmakes.entries_eq rfl, rfl, rfl⟩
  | _, _, lo, hi, .switch hname htype hf harms hmakes => by
    rw [plain, Element.tag, element_of_switch hname, Element.children, ofElements_of_spliced harms]
    simp only [bind_eq_ok, ofExcept_eq_ok, switchType_eq_ok, pure_eq_ok]
    exact ⟨_, lo, ⟨⟨_, htype, hf⟩, rfl⟩, _, hi, hmakes.arms_eq rfl, rfl, rfl⟩
  | _, _, _, _, .command hname hf => by
    rw [plain, Element.tag, element_of_command hname, command_eq_ok]
    exact ⟨_, hf, rfl, rfl⟩

theorem MakesAll.sequence_eq : ∀ {es : List Element} {ns : List Node} {lo hi : Nat},
    MakesAll v es lo ns hi → sequence v (es.map (plain v.registry)) lo = .ok ns hi
  | _, _, _, _, .nil => rfl
  | _, _, _, hi, .cons hfirst hrest => by
    have hname : Outline.name (plain v.registry _) ≠ "assert" := hfirst.name_ne_assert
    rw [List.map_cons, sequence, if_neg hname]
    simp only [bind_eq_ok, pure_eq_ok]
    exact ⟨_, _, hfirst.element_eq, _, hi, hrest.sequence_eq, rfl, rfl⟩
  | .mk t children :: _, _, lo, hi, .assert hname htype hcondition hfailure hf hrest => by
    have hassert : (plain v.registry (.mk t children)).name = "assert" := hname
    rw [List.map_cons, sequence, if_pos hassert]
    simp only [bind_eq_ok, pure_eq_ok, assertionHead_eq_ok]
    exact ⟨_, lo + 1, ⟨_, _, _, _, htype, hcondition, hfailure, hf, rfl, rfl⟩, _, hi,
      hrest.sequence_eq, rfl, rfl⟩

theorem MakesBranches.arms_eq : ∀ {head : Tag → Bool → NodeKind → Prop} {es : List Element}
    {ns : List Node} {lo hi : Nat}, MakesBranches v head es lo ns hi → head = Arm →
    arms v (es.map (plain v.registry)) lo = .ok ns hi
  | _, _, _, _, _, .nil, _ => rfl
  | _, _, _, lo, hi, .cons hhead hinner hmakes hrest, rfl => by
    obtain ⟨test, htest, rfl⟩ := hhead
    rw [List.map_cons, arms]
    simp only [bind_eq_ok, ofExcept_eq_ok, pure_eq_ok, List.isEmpty_map]
    refine ⟨test, lo, ⟨htest, rfl⟩, _, _, ?_, _, hi, hrest.arms_eq rfl, rfl, rfl⟩
    rw [plain, body, Element.children, ofElements_of_spliced hinner]
    exact hmakes.sequence_eq

theorem MakesBranches.entries_eq : ∀ {head : Tag → Bool → NodeKind → Prop} {es : List Element}
    {ns : List Node} {lo hi : Nat}, MakesBranches v head es lo ns hi → head = v.Entry →
    entries v (es.map (plain v.registry)) lo = .ok ns hi
  | _, _, _, _, _, .nil, _ => rfl
  | _, .mk t children :: _, _, lo, hi, .cons hhead hinner hmakes hrest, rfl => by
    obtain ⟨hname, label, hlabel, rfl⟩ := hhead
    have hoption : ¬ (plain v.registry (.mk t children)).name ≠ "option" := not_not.mpr hname
    rw [List.map_cons, entries, if_neg hoption]
    simp only [bind_eq_ok, ofExcept_eq_ok, pure_eq_ok]
    refine ⟨label, lo, ⟨hlabel, rfl⟩, _, _, ?_, _, hi, hrest.entries_eq rfl, rfl, rfl⟩
    rw [plain, body, Element.children, ofElements_of_spliced hinner]
    exact hmakes.sequence_eq

end

end Completeness

/-- Elements are built just where splicing and the rules give the result. -/
theorem elements_eq_ok {v : Vocabulary} {es : List Element} {ns : List Node} {lo hi : Nat} :
    v.elements es lo = .ok ns hi ↔
      ∃ flat, Spliced v.registry es flat ∧ MakesAll v flat lo ns hi := by
  constructor
  · intro h
    exact sequenceContent_makes _ rfl h
  · rintro ⟨flat, hflat, hmakes⟩
    rw [elements, Outline.ofElements_of_spliced hflat]
    exact hmakes.sequence_eq

theorem scene_eq_ok {v : Vocabulary} {content : Element} {root : Node} {lo hi : Nat} :
    v.scene content lo = .ok root hi ↔
      ∃ flat ns, Spliced v.registry [content] flat ∧ MakesAll v flat lo ns hi ∧
        root = .fresh .block ns := by
  simp only [scene, bind_eq_ok, pure_eq_ok, elements_eq_ok]
  constructor
  · rintro ⟨ns, _, ⟨flat, hflat, hmakes⟩, rfl, rfl⟩
    exact ⟨flat, ns, hflat, hmakes, rfl⟩
  · rintro ⟨flat, ns, hflat, hmakes, rfl⟩
    exact ⟨ns, hi, ⟨flat, hflat, hmakes⟩, rfl, rfl⟩

section Kinds

/-- A property of kinds that no rule breaks. -/
structure Grants (v : Vocabulary) (P : NodeKind → Prop) : Prop where
  block : P .block
  message : ∀ {status style text}, P (.message status style text)
  options : ∀ {status text}, P (.options status text)
  option : ∀ {label}, P (.option label)
  command : ∀ {f a}, P (.command f a)
  switch : ∀ {type f}, v.Compares type f → P (.switch f)
  arm : ∀ {t last test}, armTest t last = .ok test → P (.case test)
  condition : ∀ {expression}, P (.case (.condition expression))
  otherwise : P (.case .otherwise)

variable {v : Vocabulary} {P : NodeKind → Prop}

mutual

theorem Makes.grants (hP : v.Grants P) : ∀ {e : Element} {n : Node} {lo hi : Nat},
    Makes v e lo n hi → ∀ kind ∈ n.preorder, P kind
  | _, _, _, _, .message .. => List.forall_mem_cons.mpr ⟨hP.message, nofun⟩
  | _, _, _, _, .options _ _ _ _ hbranches => by
    have hentry : ∀ t last kind, v.Entry t last kind → P kind := by
      rintro _ _ _ ⟨-, label, -, rfl⟩
      exact hP.option
    exact List.forall_mem_cons.mpr ⟨hP.options, hbranches.grants hP hentry⟩
  | _, _, _, _, .switch _ _ hf _ hbranches => by
    have harm : ∀ t last kind, Arm t last kind → P kind := by
      rintro _ _ _ ⟨test, htest, rfl⟩
      exact hP.arm htest
    exact List.forall_mem_cons.mpr ⟨hP.switch hf, hbranches.grants hP harm⟩
  | _, _, _, _, .command .. => List.forall_mem_cons.mpr ⟨hP.command, nofun⟩

theorem MakesAll.grants (hP : v.Grants P) : ∀ {es : List Element} {ns : List Node} {lo hi : Nat},
    MakesAll v es lo ns hi → ∀ kind ∈ Node.preorderIn ns, P kind
  | _, _, _, _, .nil => nofun
  | _, _, _, _, .cons hn hns => List.forall_mem_append.mpr ⟨hn.grants hP, hns.grants hP⟩
  | _, _, _, _, .assert _ _ _ _ hf hns => by
    have hrest := hns.grants hP
    simp only [assertion, Node.leaf, Node.fresh, Node.preorder, Node.preorderIn, List.append_nil,
      List.cons_append, List.forall_mem_cons, List.forall_mem_append]
    exact ⟨hP.switch hf, hP.condition, hrest, hP.otherwise, hP.message, nofun⟩

theorem MakesBranches.grants (hP : v.Grants P) : ∀ {head : Tag → Bool → NodeKind → Prop}
    {es : List Element} {ns : List Node} {lo hi : Nat}, MakesBranches v head es lo ns hi →
    (∀ t last kind, head t last kind → P kind) → ∀ kind ∈ Node.preorderIn ns, P kind
  | _, _, _, _, _, .nil, _ => nofun
  | _, _, _, _, _, .cons hkind _ hns hms, hhead =>
    List.forall_mem_append.mpr
      ⟨List.forall_mem_cons.mpr ⟨hhead _ _ _ hkind, hns.grants hP⟩, hms.grants hP hhead⟩

end

/-- What no rule breaks holds throughout a built scene. -/
theorem scene_grants (hP : v.Grants P) {content : Element} {root : Node} {lo hi : Nat}
    (h : v.scene content lo = .ok root hi) : ∀ kind ∈ root.preorder, P kind := by
  obtain ⟨flat, ns, -, hmakes, rfl⟩ := scene_eq_ok.mp h
  exact List.forall_mem_cons.mpr ⟨hP.block, hmakes.grants hP⟩

end Kinds

end Vocabulary

end SceneDispatch
