import SceneDispatch.Proofs.Scene.Construction
/-!
Conditional sections are transparent. Markup is resolved by putting the content of every section
whose condition holds in its place and leaving the other sections out. Main statement: unless the
builder comes to a section that lacks its name, it does the same with the markup and with what that
resolves to.
-/
namespace SceneDispatch

namespace Tag

/-- Conditional sections. -/
def isSection (t : Tag) : Bool := t.name = "ifdef" || t.name = "ifndef"

/-- The condition of a section holds. It holds for no section without a name. -/
def includedBy (r : Registry) (t : Tag) : Bool :=
  match t.attribute? "name" with
  | none => false
  | some name => if t.name = "ifdef" then r.has name else !r.has name

end Tag

namespace Element

mutual

/-- What an element resolves to. -/
def resolve (r : Registry) : Element → List Element
  | mk t children =>
    if t.isSection then if t.includedBy r then resolveAll r children else []
    else [mk t (resolveAll r children)]

def resolveAll (r : Registry) : List Element → List Element
  | [] => []
  | e :: es => resolve r e ++ resolveAll r es

end

mutual

/-- Every section has a name, but for those inside one that is left out. -/
def Named (r : Registry) : Element → Prop
  | mk t children =>
    (t.isSection = true → ∃ name, t.attribute? "name" = some name) ∧
      ((t.isSection = true → t.includedBy r = true) → NamedAll r children)

def NamedAll (r : Registry) : List Element → Prop
  | [] => True
  | e :: es => Named r e ∧ NamedAll r es

end

theorem descendantsOfAll_append (es es' : List Element) :
    descendantsOfAll (es ++ es') = descendantsOfAll es ++ descendantsOfAll es' := by
  induction es with
  | nil => rfl
  | cons e es ih => simp [descendantsOfAll, ih]

mutual

theorem isSection_of_mem_resolve {r : Registry} : ∀ (e : Element),
    ∀ d ∈ descendantsOfAll (resolve r e), d.tag.isSection = false
  | mk t children => by
    have hbelow := isSection_of_mem_resolveAll (r := r) children
    rw [resolve]
    cases hsection : t.isSection with
    | true =>
      rw [if_pos rfl]
      split
      · exact hbelow
      · simp [descendantsOfAll]
    | false =>
      rw [if_neg Bool.false_ne_true]
      simpa [descendantsOfAll, descendants, tag, hsection] using hbelow

/-- No section is left in resolved markup. -/
theorem isSection_of_mem_resolveAll {r : Registry} : ∀ (es : List Element),
    ∀ d ∈ descendantsOfAll (resolveAll r es), d.tag.isSection = false
  | [] => by simp [resolveAll, descendantsOfAll]
  | e :: es => by
    rw [resolveAll, descendantsOfAll_append]
    exact List.forall_mem_append.mpr
      ⟨isSection_of_mem_resolve e, isSection_of_mem_resolveAll es⟩

end

end Element

/-- The building ended at a section that lacks its name. -/
def Stalls {α : Type} (result : EStateM.Result Fault Nat α) : Prop :=
  ∃ t hi, result = .error (.attributeMissing t "name") hi ∧ t.isSection = true

/-- The second step does what the first does, except that the first may end at a section without a
name where `spoiled` holds. -/
def Follows {α : Type} (spoiled : Prop) (x y : Build α) : Prop :=
  ∀ lo, Stalls (x lo) ∧ spoiled ∨ ¬ Stalls (x lo) ∧ y lo = x lo

section Following

variable {α β : Type} {spoiled : Prop}

theorem Follows.pure (a : α) : Follows spoiled (pure a) (pure a) := by
  intro lo
  refine .inr ⟨?_, rfl⟩
  rintro ⟨t, hi, h, -⟩
  cases h

theorem Follows.throw {fault : Fault} (h : ∀ t, fault ≠ .attributeMissing t "name") :
    Follows spoiled (throw fault : Build α) (throw fault) := by
  intro lo
  refine .inr ⟨?_, rfl⟩
  rintro ⟨t, hi, heq, -⟩
  cases heq
  exact h t rfl

theorem Follows.ofExcept {x : Except Fault α} (h : ∀ t, x ≠ .error (.attributeMissing t "name")) :
    Follows spoiled (Build.ofExcept x) (Build.ofExcept x) := by
  cases x with
  | ok a => exact .pure a
  | error fault => exact .throw fun t heq => h t (congrArg Except.error heq)

theorem Follows.newStatus : Follows spoiled Build.newStatus Build.newStatus := by
  intro lo
  refine .inr ⟨?_, rfl⟩
  rintro ⟨t, hi, h, -⟩
  cases h

theorem Follows.bind {x y : Build α} {f g : α → Build β} (hx : Follows spoiled x y)
    (hf : ∀ a, Follows spoiled (f a) (g a)) : Follows spoiled (x >>= f) (y >>= g) := by
  intro lo
  change Stalls (EStateM.bind x f lo) ∧ spoiled ∨
    ¬ Stalls (EStateM.bind x f lo) ∧ EStateM.bind y g lo = EStateM.bind x f lo
  have hlo := hx lo
  unfold EStateM.bind
  cases hresult : x lo with
  | ok a mid =>
    rw [hresult] at hlo
    rcases hlo with ⟨⟨t, hi, h, -⟩, -⟩ | ⟨-, heq⟩
    · cases h
    · rw [heq]
      exact hf a mid
  | error fault mid =>
    rw [hresult] at hlo
    -- the fault is passed on as it is
    have hsame : Stalls (.error fault mid : EStateM.Result Fault Nat β) ↔
        Stalls (.error fault mid : EStateM.Result Fault Nat α) := by
      simp [Stalls]
    rw [hsame]
    rcases hlo with ⟨hstalls, hspoiled⟩ | ⟨hgoes, heq⟩
    · exact .inl ⟨hstalls, hspoiled⟩
    · rw [heq]
      exact .inr ⟨hgoes, rfl⟩

end Following

namespace Outline

mutual

/-- The same outline twice, except that a content which a section without a name spoils may be
anything in the second. -/
inductive Agrees (spoiled : Prop) : Outline → Outline → Prop
  | mk {t : Tag} {content content' : Except Fault (List Outline)} :
    AgreesContent spoiled content content' → Agrees spoiled (.mk t content) (.mk t content')

inductive AgreesContent (spoiled : Prop) :
    Except Fault (List Outline) → Except Fault (List Outline) → Prop
  | ok {os os' : List Outline} : AgreesAll spoiled os os' →
    AgreesContent spoiled (.ok os) (.ok os')
  | error {t : Tag} {content' : Except Fault (List Outline)} : spoiled → t.isSection = true →
    AgreesContent spoiled (.error (.attributeMissing t "name")) content'

inductive AgreesAll (spoiled : Prop) : List Outline → List Outline → Prop
  | nil : AgreesAll spoiled [] []
  | cons {o o' : Outline} {os os' : List Outline} : Agrees spoiled o o' →
    AgreesAll spoiled os os' → AgreesAll spoiled (o :: os) (o' :: os')

end

variable {r : Registry} {spoiled : Prop}

theorem Agrees.tag {o o' : Outline} (h : Agrees spoiled o o') : o'.tag = o.tag := by
  cases h
  rfl

theorem AgreesAll.isEmpty {os os' : List Outline} (h : AgreesAll spoiled os os') :
    os'.isEmpty = os.isEmpty := by
  cases h <;> rfl

theorem AgreesAll.append : ∀ {os os' ps ps' : List Outline}, AgreesAll spoiled os os' →
    AgreesAll spoiled ps ps' → AgreesAll spoiled (os ++ ps) (os' ++ ps')
  | _, _, _, _, .nil, h => h
  | _, _, _, _, .cons ho hos, h => .cons ho (hos.append h)

/-- Contents that stand side by side; the first fault counts. -/
def joined (content content' : Except Fault (List Outline)) : Except Fault (List Outline) := do
  let first ← content
  let rest ← content'
  return first ++ rest

theorem joined_assoc (a b c : Except Fault (List Outline)) :
    joined (joined a b) c = joined a (joined b c) := by
  cases a with
  | error fault => rfl
  | ok os =>
    cases b with
    | error fault => rfl
    | ok ps =>
      cases c with
      | error fault => rfl
      | ok qs => exact congrArg Except.ok (List.append_assoc os ps qs)

theorem ofElements_cons (e : Element) (es : List Element) :
    ofElements r (e :: es) = joined (ofElement r e) (ofElements r es) := by
  rw [ofElements]
  rfl

theorem ofElements_append (es es' : List Element) :
    ofElements r (es ++ es') = joined (ofElements r es) (ofElements r es') := by
  induction es with
  | nil =>
    rw [List.nil_append, ofElements]
    cases ofElements r es' <;> rfl
  | cons e es ih => rw [List.cons_append, ofElements_cons, ofElements_cons, ih, joined_assoc]

theorem AgreesContent.joined {a a' b b' : Except Fault (List Outline)}
    (ha : AgreesContent spoiled a a') (hb : AgreesContent spoiled b b') :
    AgreesContent spoiled (joined a b) (joined a' b') := by
  cases ha with
  | error hspoiled ht => exact .error hspoiled ht
  | ok hos =>
    cases hb with
    | error hspoiled ht => exact .error hspoiled ht
    | ok hps => exact .ok (hos.append hps)

/-- Whether a section is included, and what is wrong with one that lacks its name. -/
theorem included?_eq (t : Tag) :
    included? r t =
      if t.isSection then
        if (t.attribute? "name").isSome then .ok (some (t.includedBy r))
        else .error (.attributeMissing t "name")
      else .ok none := by
  unfold included? Tag.isSection Tag.includedBy Tag.require
  by_cases hif : t.name = "ifdef"
  · cases t.attribute? "name" <;> simp [hif, bind, Except.bind, pure, Except.pure]
  · by_cases hifn : t.name = "ifndef"
    · cases t.attribute? "name" <;> simp [hifn, bind, Except.bind, pure, Except.pure]
    · simp [hif, hifn, pure, Except.pure]

theorem ofElement_section_named {t : Tag} {children : List Element} (h : t.isSection = true)
    (hname : (t.attribute? "name").isSome = true) :
    ofElement r (.mk t children) =
      if t.includedBy r then ofElements r children else .ok [] := by
  rw [ofElement, included?_eq, if_pos h, if_pos hname]
  cases t.includedBy r <;> rfl

theorem ofElement_section_nameless {t : Tag} {children : List Element} (h : t.isSection = true)
    (hname : (t.attribute? "name").isSome = false) :
    ofElement r (.mk t children) = .error (.attributeMissing t "name") := by
  rw [ofElement, included?_eq, if_pos h, if_neg (by simp [hname])]
  rfl

theorem ofElement_plain {t : Tag} {children : List Element} (h : t.isSection = false) :
    ofElement r (.mk t children) = .ok [.mk t (ofElements r children)] := by
  rw [ofElement, included?_eq, if_neg (by simp [h])]
  rfl

mutual

/-- The outlines of an element and of what it resolves to agree. -/
theorem ofElement_agrees : ∀ (e : Element), (¬ e.Named r → spoiled) →
    AgreesContent spoiled (ofElement r e) (ofElements r (e.resolve r))
  | .mk t children, hnamed => by
    rw [Element.resolve]
    cases hsection : t.isSection with
    | false =>
      have hbelow : ¬ Element.NamedAll r children → spoiled := by
        intro hnot
        exact hnamed fun h => hnot (h.2 (by simp [hsection]))
      rw [if_neg Bool.false_ne_true, ofElement_plain hsection, ofElements_cons,
        ofElement_plain hsection, ofElements]
      exact .ok (.cons (.mk (ofElements_agrees children hbelow)) .nil)
    | true =>
      rw [if_pos rfl]
      cases hname : (t.attribute? "name").isSome with
      | false =>
        rw [ofElement_section_nameless hsection hname]
        refine .error (hnamed fun h => ?_) hsection
        obtain ⟨name, hsome⟩ := h.1 hsection
        simp [hsome] at hname
      | true =>
        rw [ofElement_section_named hsection hname]
        split
        · next hincluded =>
          apply ofElements_agrees children
          intro hnot
          exact hnamed fun h => hnot (h.2 fun _ => hincluded)
        · exact .ok .nil

theorem ofElements_agrees : ∀ (es : List Element), (¬ Element.NamedAll r es → spoiled) →
    AgreesContent spoiled (ofElements r es) (ofElements r (Element.resolveAll r es))
  | [], _ => .ok .nil
  | e :: es, hnamed => by
    rw [ofElements_cons, Element.resolveAll, ofElements_append]
    refine (ofElement_agrees e fun hnot => ?_).joined (ofElements_agrees es fun hnot => ?_)
    · exact hnamed fun h => hnot h.1
    · exact hnamed fun h => hnot h.2

end

/-- The outline of an element that is no section. -/
def plain (r : Registry) (e : Element) : Outline := .mk e.tag (ofElements r e.children)

theorem ofElements_plain {es : List Element}
    (h : ∀ e ∈ es, e.tag.isSection = false) : ofElements r es = .ok (es.map (plain r)) := by
  induction es with
  | nil => rfl
  | cons e es ih =>
    obtain ⟨he, hes⟩ := List.forall_mem_cons.mp h
    obtain ⟨t, children⟩ := e
    have hfirst : ofElement r (.mk t children) = .ok [plain r (.mk t children)] :=
      ofElement_plain he
    rw [ofElements_cons, hfirst, ih hes]
    rfl

end Outline

namespace Vocabulary

open Outline

variable {v : Vocabulary} {spoiled : Prop}

section Faults

theorem bind_ne_error {α β : Type} {x : Except Fault α} {f : α → Except Fault β} {fault : Fault}
    (hx : x ≠ .error fault) (hf : ∀ a, f a ≠ .error fault) : (x >>= f) ≠ .error fault := by
  cases x with
  | ok a => exact hf a
  | error other =>
    intro h
    cases h
    exact hx rfl

-- only sections are asked for an attribute of this name

theorem require_ne {t u : Tag} {name : String} (h : name ≠ "name") :
    t.require name ≠ .error (.attributeMissing u "name") := by
  unfold Tag.require
  split
  · simp
  · intro heq
    simp only [Except.error.injEq, Fault.attributeMissing.injEq] at heq
    exact h heq.2

theorem shownText_ne {t u : Tag} : v.shownText t ≠ .error (.attributeMissing u "name") := by
  unfold shownText
  split
  · simp
  · split
    · simp
    · split <;> simp

theorem switchFeature_ne {t u : Tag} {type : String} :
    v.switchFeature t type ≠ .error (.attributeMissing u "name") := by
  unfold switchFeature
  split <;> simp

theorem messageStyle_ne {t u : Tag} : v.messageStyle t ≠ .error (.attributeMissing u "name") := by
  unfold messageStyle
  split <;> simp

theorem switchType_ne {t u : Tag} :
    (t.require "type" >>= v.switchFeature t) ≠ .error (.attributeMissing u "name") :=
  bind_ne_error (require_ne (by decide)) fun _ => switchFeature_ne

theorem armTest_ne {t u : Tag} {last : Bool} :
    armTest t last ≠ .error (.attributeMissing u "name") := by
  unfold armTest
  split
  · split
    · simp
    · refine bind_ne_error (require_ne (by decide)) fun val => ?_
      simp only
      split <;> simp
  · split <;> simp
  · simp

end Faults

theorem message_follows (t : Tag) : Follows spoiled (v.message t) (v.message t) := by
  unfold message
  refine .bind (.ofExcept fun _ => shownText_ne) fun text => ?_
  refine .bind (.ofExcept fun _ => messageStyle_ne) fun style => ?_
  exact .bind .newStatus fun status => .pure _

theorem command_follows (t : Tag) : Follows spoiled (v.command t) (v.command t) := by
  unfold command
  split
  · exact .throw (by simp)
  · exact .pure _

theorem assertionHead_follows (t : Tag) :
    Follows spoiled (v.assertionHead t) (v.assertionHead t) := by
  unfold assertionHead
  refine .bind (.ofExcept fun _ => require_ne (by decide)) fun type => ?_
  refine .bind (.ofExcept fun _ => require_ne (by decide)) fun condition => ?_
  refine .bind (.ofExcept fun _ => require_ne (by decide)) fun failure => ?_
  refine .bind (.ofExcept fun _ => switchFeature_ne) fun f => ?_
  exact .bind .newStatus fun status => .pure _

mutual

/-- What is built from outlines that agree is the same, unless a section lacks its name. -/
theorem element_follows : ∀ {o o' : Outline}, Agrees spoiled o o' →
    Follows spoiled (element v o) (element v o')
  | _, _, .mk (t := t) h => by
    rw [element, element]
    split
    · exact .bind (.ofExcept fun _ => switchType_ne) fun f =>
        .bind (switchContent_follows h) fun ns => .pure _
    · exact .bind (.ofExcept fun _ => shownText_ne) fun text =>
        .bind .newStatus fun status => .bind (optionsContent_follows t h) fun ns => .pure _
    · exact message_follows t
    · exact .throw (by simp)
    · exact .throw (by simp)
    · exact .throw (by simp)
    · exact command_follows t

theorem sequence_follows : ∀ {os os' : List Outline}, AgreesAll spoiled os os' →
    Follows spoiled (sequence v os) (sequence v os')
  | _, _, .nil => .pure _
  | o :: _, o' :: _, .cons ho hos => by
    have hname : o'.name = o.name := congrArg Tag.name ho.tag
    rw [sequence, sequence, hname, ho.tag]
    split
    · exact .bind (assertionHead_follows o.tag) fun head =>
        .bind (sequence_follows hos) fun ns => .pure _
    · exact .bind (element_follows ho) fun n => .bind (sequence_follows hos) fun ns => .pure _

theorem body_follows : ∀ {o o' : Outline}, Agrees spoiled o o' →
    Follows spoiled (body v o) (body v o')
  | _, _, .mk h => by
    rw [body, body]
    exact sequenceContent_follows h

theorem arms_follows : ∀ {os os' : List Outline}, AgreesAll spoiled os os' →
    Follows spoiled (arms v os) (arms v os')
  | _, _, .nil => .pure _
  | o :: _, o' :: _, .cons ho hos => by
    rw [arms, arms, ho.tag, hos.isEmpty]
    exact .bind (.ofExcept fun _ => armTest_ne) fun test =>
      .bind (body_follows ho) fun inner => .bind (arms_follows hos) fun ns => .pure _

theorem entries_follows : ∀ {os os' : List Outline}, AgreesAll spoiled os os' →
    Follows spoiled (entries v os) (entries v os')
  | _, _, .nil => .pure _
  | o :: _, o' :: _, .cons ho hos => by
    have hname : o'.name = o.name := congrArg Tag.name ho.tag
    rw [entries, entries, hname, ho.tag]
    split
    · exact .bind (.throw (by simp)) fun _ => .bind (.ofExcept fun _ => shownText_ne) fun label =>
        .bind (body_follows ho) fun inner => .bind (entries_follows hos) fun ns => .pure _
    · exact .bind (.ofExcept fun _ => shownText_ne) fun label =>
        .bind (body_follows ho) fun inner => .bind (entries_follows hos) fun ns => .pure _

theorem sequenceContent_follows : ∀ {content content' : Except Fault (List Outline)},
    AgreesContent spoiled content content' →
    Follows spoiled (sequenceContent v content) (sequenceContent v content')
  | _, _, .ok hos => sequence_follows hos
  | _, _, .error hspoiled ht => fun lo => .inl ⟨⟨_, lo, rfl, ht⟩, hspoiled⟩

theorem switchContent_follows : ∀ {content content' : Except Fault (List Outline)},
    AgreesContent spoiled content content' →
    Follows spoiled (switchContent v content) (switchContent v content')
  | _, _, .ok hos => arms_follows hos
  | _, _, .error hspoiled ht => fun lo => .inl ⟨⟨_, lo, rfl, ht⟩, hspoiled⟩

theorem optionsContent_follows (t : Tag) : ∀ {content content' : Except Fault (List Outline)},
    AgreesContent spoiled content content' →
    Follows spoiled (optionsContent v t content) (optionsContent v t content')
  | _, _, .ok hos => by
    have hentries := entries_follows hos
    cases hos with
    | nil => exact .throw (by simp)
    | cons _ _ => exact hentries
  | _, _, .error hspoiled ht => fun lo => .inl ⟨⟨_, lo, rfl, ht⟩, hspoiled⟩

end

/-- Resolved markup holds no section. Unless the builder comes to a section without a name, it
makes the same of resolved markup as of the markup itself, with the same count: the same nodes, or
the same fault. It comes to no such section when every section has a name, but for those inside one
that is left out. -/
theorem elements_resolveAll (v : Vocabulary) (es : List Element) (lo : Nat) :
    (∀ e ∈ Element.descendantsOfAll (Element.resolveAll v.registry es),
      e.tag.isSection = false) ∧
    (Element.NamedAll v.registry es → ¬ Stalls (v.elements es lo)) ∧
    (¬ Stalls (v.elements es lo) →
      v.elements (Element.resolveAll v.registry es) lo = v.elements es lo) := by
  have hfollows : Follows (¬ Element.NamedAll v.registry es) (v.elements es)
      (v.elements (Element.resolveAll v.registry es)) :=
    sequenceContent_follows (ofElements_agrees es id)
  refine ⟨Element.isSection_of_mem_resolveAll es, fun hnamed hstalls => ?_, fun hgoes => ?_⟩
  · rcases hfollows lo with ⟨-, hspoiled⟩ | ⟨hgoes, -⟩
    · exact hspoiled hnamed
    · exact hgoes hstalls
  · rcases hfollows lo with ⟨hstalls, -⟩ | ⟨-, heq⟩
    · exact absurd hstalls hgoes
    · exact heq

end Vocabulary

/-- Sections in a section: one with an assertion, and one that is left out with what it holds. -/
def Sample.sections : List Element :=
  [element "ifndef" [⟨"name", "shop"⟩]
    [element "ifdef" [⟨"name", "give"⟩] [promotion],
      element "ifdef" [⟨"name", "shop"⟩] [element "ifdef" [] []],
      element "give" [⟨"x", "5"⟩] []]]

namespace Vocabulary

/-- An assertion that is the content of a section takes what stands behind the section into its
arm. A section without a name inside one that is left out does no harm. -/
theorem elements_resolveAll_sections :
    Element.NamedAll Sample.registry Sample.sections ∧
    Element.resolveAll Sample.registry Sample.sections =
      [Sample.promotion, Sample.element "give" [⟨"x", "5"⟩] []] ∧
    Sample.vocabulary.elements [Sample.promotion, Sample.element "give" [⟨"x", "5"⟩] []] 7 =
      .ok [assertion Sample.job "$x > 100" (.leaf (.message 7 .ok "no")) [Sample.gift "5"]] 8 := by
  have hplain : ∀ e ∈ [Sample.promotion, Sample.element "give" [⟨"x", "5"⟩] []],
      e.Named Sample.registry := by
    intro e he
    simp only [List.mem_cons, List.not_mem_nil, or_false] at he
    rcases he with rfl | rfl <;> exact ⟨fun h => absurd h (by decide), fun _ => trivial⟩
  have hnamed : Element.NamedAll Sample.registry Sample.sections :=
    ⟨⟨fun _ => ⟨"shop", rfl⟩, fun _ =>
      ⟨⟨fun _ => ⟨"give", rfl⟩, fun _ => ⟨hplain _ (by simp), trivial⟩⟩,
        ⟨fun _ => ⟨"shop", rfl⟩, fun h => absurd (h rfl) (by decide)⟩,
        hplain _ (by simp), trivial⟩⟩, trivial⟩
  obtain ⟨-, hgoes, hsame⟩ := elements_resolveAll Sample.vocabulary Sample.sections 7
  exact ⟨hnamed, rfl, (hsame (hgoes hnamed)).trans rfl⟩

end Vocabulary

end SceneDispatch
