import SceneDispatch.Proofs.Scene.Counterpart
/-!
Resources are inlined texts. Markup is freed of a table by writing the texts it refers to in their
place. Main statement: a scene has a graph with a table just where the inlined scene has one
without any, and it is the same graph.
-/
namespace SceneDispatch

namespace Tag

/-- The tag with one more attribute, which takes the place of one of its name. -/
def withAttribute (t : Tag) (name value : String) : Tag :=
  { t with attributes := t.attributes.insert ⟨name, value⟩ }

/-- Writes the resource that a tag without a text names as its text. -/
def inlineText (resources : ResourceTable) (t : Tag) : Tag :=
  match t.attribute? "text", (t.attribute? "rsrc").bind resources.resolve? with
  | none, some text => t.withAttribute "text" text
  | _, _ => t

/-- Messages, options and entries show a text, messages a refusal too, and assertions a failure.
The last two stand for themselves when no resource has their name; a refusal may be left out. -/
def inline (resources : ResourceTable) (t : Tag) : Tag :=
  if t.name = "message" then
    (t.inlineText resources).withAttribute "no"
      (resources.resolveOrLiteral ((t.attribute? "no").getD ""))
  else if t.name = "options" ∨ t.name = "option" then t.inlineText resources
  else if t.name = "assert" then
    match t.attribute? "onFail" with
    | some failure => t.withAttribute "onFail" (resources.resolveOrLiteral failure)
    | none => t
  else t

end Tag

namespace Element

mutual

/-- The element with every text that it or an element below it refers to written in place. -/
def inline (resources : ResourceTable) : Element → Element
  | mk t children => mk (t.inline resources) (inlineAll resources children)

def inlineAll (resources : ResourceTable) : List Element → List Element
  | [] => []
  | e :: es => inline resources e :: inlineAll resources es

end

end Element

namespace Tag

variable {resources : ResourceTable} {t : Tag} {name : String}

@[simp] theorem attribute?_withAttribute (t : Tag) (name value other : String) :
    (t.withAttribute name value).attribute? other =
      if name = other then some value else t.attribute? other := by
  simp only [withAttribute, attribute?, OrderedTable.find?_insert]
  split <;> rfl

@[simp] theorem name_inlineText : (t.inlineText resources).name = t.name := by
  unfold inlineText
  split <;> rfl

@[simp] theorem name_inline : (t.inline resources).name = t.name := by
  unfold inline
  split_ifs
  · exact name_inlineText
  · exact name_inlineText
  · cases t.attribute? "onFail" <;> rfl
  · rfl

theorem attribute?_inlineText (h : name ≠ "text") :
    (t.inlineText resources).attribute? name = t.attribute? name := by
  unfold inlineText
  split
  · simp [h.symm]
  · rfl

/-- The attributes that inlining may write. -/
def inlined : List String := ["text", "no", "onFail"]

theorem attribute?_inline (h : name ∉ inlined) :
    (t.inline resources).attribute? name = t.attribute? name := by
  simp only [inlined, List.mem_cons, List.not_mem_nil, or_false, not_or] at h
  obtain ⟨htext, hno, hfail⟩ := h
  unfold inline
  split_ifs
  · simp [Ne.symm hno, attribute?_inlineText htext]
  · exact attribute?_inlineText htext
  · cases t.attribute? "onFail" with
    | none => rfl
    | some failure => simp [Ne.symm hfail]
  · rfl

theorem isSection_inline : (t.inline resources).isSection = t.isSection := by
  simp [isSection]

theorem includedBy_inline (r : Registry) :
    (t.inline resources).includedBy r = t.includedBy r := by
  rw [includedBy, includedBy, attribute?_inline (by decide), name_inline]

end Tag

namespace Vocabulary

open Element Tag

variable {r : Registry} {resources : ResourceTable} {t : Tag}

theorem resolve?_empty (name : String) : ResourceTable.resolve? .empty name = none := rfl

theorem resolveOrLiteral_empty (name : String) :
    ResourceTable.resolveOrLiteral .empty name = name := rfl

/-- A text is shown with a table just where it is shown without one after inlining. -/
theorem shownText_inlineText {text : String} :
    (mk r .empty).shownText (t.inlineText resources) = .ok text ↔
      (mk r resources).shownText t = .ok text := by
  unfold shownText Tag.inlineText
  cases htext : t.attribute? "text" with
  | some shown => simp [htext]
  | none =>
    cases hname : t.attribute? "rsrc" with
    | none => simp [htext, hname]
    | some name =>
      cases hresource : resources.resolve? name with
      | none => simp [htext, hname, hresource, resolve?_empty]
      | some shown => simp [hresource]

theorem shownText_inline (h : t.name ∈ ["message", "options", "option"]) {text : String} :
    (mk r .empty).shownText (t.inline resources) = .ok text ↔
      (mk r resources).shownText t = .ok text := by
  simp only [List.mem_cons, List.not_mem_nil, or_false] at h
  have hinlined : (mk r .empty).shownText (t.inlineText resources) = .ok text ↔
      (mk r resources).shownText t = .ok text := shownText_inlineText
  rw [← hinlined]
  rcases h with h | h
  · have hshown : ∀ value,
        (mk r .empty).shownText ((t.inlineText resources).withAttribute "no" value) = .ok text ↔
          (mk r .empty).shownText (t.inlineText resources) = .ok text := by
      intro value
      unfold shownText
      simp only [attribute?_withAttribute]
      cases (t.inlineText resources).attribute? "text" with
      | some shown => simp
      | none =>
        cases (t.inlineText resources).attribute? "rsrc" <;> simp [resolve?_empty]
    rw [Tag.inline, if_pos h, hshown]
  · have hmessage : t.name ≠ "message" := by rcases h with h | h <;> simp [h]
    rw [Tag.inline, if_neg hmessage, if_pos h]

theorem messageStyle_inline (h : t.name = "message") {style : MessageStyle} :
    (mk r .empty).messageStyle (t.inline resources) = .ok style ↔
      (mk r resources).messageStyle t = .ok style := by
  have hstyle : (t.inline resources).attribute? "style" = t.attribute? "style" :=
    attribute?_inline (by decide)
  have hno : (t.inline resources).attribute? "no" =
      some (resources.resolveOrLiteral ((t.attribute? "no").getD "")) := by
    rw [Tag.inline, if_pos h]
    simp
  unfold messageStyle
  rw [hstyle, hno]
  simp only [resolveOrLiteral_empty, Option.getD_some]
  split <;> simp

theorem onFail_inline (h : t.name = "assert") :
    (t.inline resources).attribute? "onFail" =
      (t.attribute? "onFail").map resources.resolveOrLiteral := by
  have hothers : t.name ≠ "message" ∧ ¬(t.name = "options" ∨ t.name = "option") := by simp [h]
  rw [Tag.inline, if_neg hothers.1, if_neg hothers.2, if_pos h]
  cases hfailure : t.attribute? "onFail" with
  | none => simp [hfailure]
  | some failure => simp

theorem plain_inline {name : String} (h : name ∈ plainAttributes) :
    (t.inline resources).attribute? name = t.attribute? name := by
  apply attribute?_inline
  simp only [plainAttributes, List.mem_cons, List.not_mem_nil, or_false] at h
  rcases h with rfl | rfl | rfl | rfl | rfl | rfl <;> decide

/-- With a table an element says what the inlined one says without any. -/
theorem conveys_inline (t : Tag) :
    Conveys (mk r resources) (mk r .empty) t (t.inline resources) where
  name := name_inline
  plain _ := plain_inline
  text hname _ := (shownText_inline hname).mpr
  style hname _ := (messageStyle_inline hname).mpr
  failure hname failure hfailure :=
    ⟨resources.resolveOrLiteral failure, by rw [onFail_inline hname, hfailure]; rfl, rfl⟩

theorem inline_conveys (t : Tag) :
    Conveys (mk r .empty) (mk r resources) (t.inline resources) t where
  name := name_inline.symm
  plain _ h := (plain_inline h).symm
  text hname _ := (shownText_inline (name_inline ▸ hname)).mp
  style hname _ := (messageStyle_inline (name_inline ▸ hname)).mp
  failure hname _ hfailure := by
    rw [onFail_inline (name_inline ▸ hname)] at hfailure
    obtain ⟨failure, hsome, rfl⟩ := Option.map_eq_some_iff.mp hfailure
    exact ⟨failure, hsome, rfl⟩

end Vocabulary

namespace Element

open Tag

variable {r : Registry} {resources : ResourceTable}

theorem inlineAll_append (es es' : List Element) :
    inlineAll resources (es ++ es') = inlineAll resources es ++ inlineAll resources es' := by
  induction es with
  | nil => rfl
  | cons e es ih => rw [List.cons_append, inlineAll, ih, inlineAll, List.cons_append]

theorem forall₂_inlineAll (es : List Element) :
    List.Forall₂ (fun e e' => e' = e.inline resources) es (inlineAll resources es) := by
  induction es with
  | nil => exact .nil
  | cons e es ih => exact .cons rfl ih

/-- Sections are spliced alike before and after inlining. -/
theorem Spliced.inlineAll {es flat : List Element} (h : Spliced r es flat) :
    Spliced r (inlineAll resources es) (inlineAll resources flat) := by
  induction h with
  | nil => exact .nil
  | @plain e es flat he _ ih =>
    obtain ⟨t, children⟩ := e
    exact .plain (isSection_inline.trans he) ih
  | included ht hincluded _ _ ihinner ih =>
    rw [inlineAll_append]
    exact .included (isSection_inline.trans ht) ((includedBy_inline r).trans hincluded) ihinner ih
  | @dropped t children es flat ht hname hdropped _ ih =>
    have hname' : (t.inline resources).attribute? "name" = t.attribute? "name" :=
      attribute?_inline (by decide)
    exact .dropped (isSection_inline.trans ht) (hname'.symm ▸ hname)
      ((includedBy_inline r).trans hdropped) ih

theorem exists_of_inlineAll_eq_cons {t' : Tag} {children' es es' : List Element}
    (h : .mk t' children' :: es' = inlineAll resources es) :
    ∃ t children rest, es = .mk t children :: rest ∧ t' = t.inline resources ∧
      children' = inlineAll resources children ∧ es' = inlineAll resources rest := by
  cases es with
  | nil => cases h
  | cons e rest =>
    obtain ⟨t, children⟩ := e
    obtain ⟨hfirst, hrest⟩ := List.cons.inj h
    obtain ⟨ht, hchildren⟩ := Element.mk.inj hfirst
    exact ⟨t, children, rest, rfl, ht, hchildren, hrest⟩

theorem Spliced.of_inlineAll {es' flat' : List Element} (h : Spliced r es' flat') :
    ∀ es, es' = Element.inlineAll resources es →
      ∃ flat, Spliced r es flat ∧ flat' = Element.inlineAll resources flat := by
  induction h with
  | nil =>
    intro es hes
    cases es with
    | nil => exact ⟨[], .nil, rfl⟩
    | cons e es => cases hes
  | @plain e _ _ he _ ih =>
    intro es hes
    obtain ⟨t', children'⟩ := e
    obtain ⟨t, children, rest, rfl, rfl, rfl, hrest⟩ := exists_of_inlineAll_eq_cons hes
    obtain ⟨flat, hflat, rfl⟩ := ih rest hrest
    exact ⟨.mk t children :: flat, .plain (isSection_inline.symm.trans he) hflat, rfl⟩
  | included ht hincluded _ _ ihinner ih =>
    intro es hes
    obtain ⟨t, children, rest, rfl, rfl, hchildren, hrest⟩ := exists_of_inlineAll_eq_cons hes
    obtain ⟨inner, hinner, rfl⟩ := ihinner children hchildren
    obtain ⟨flat, hflat, rfl⟩ := ih rest hrest
    refine ⟨inner ++ flat, ?_, (inlineAll_append inner flat).symm⟩
    exact .included (isSection_inline.symm.trans ht) ((includedBy_inline r).symm.trans hincluded)
      hinner hflat
  | dropped ht hname hdropped _ ih =>
    intro es hes
    obtain ⟨t, children, rest, rfl, rfl, -, hrest⟩ := exists_of_inlineAll_eq_cons hes
    obtain ⟨flat, hflat, rfl⟩ := ih rest hrest
    rw [attribute?_inline (by decide)] at hname
    exact ⟨flat, .dropped (isSection_inline.symm.trans ht) hname
      ((includedBy_inline r).symm.trans hdropped) hflat, rfl⟩

end Element

namespace Vocabulary

open Element

variable (r : Registry) (resources : ResourceTable)

theorem counterparts_inline :
    Counterparts (mk r resources) (mk r .empty) fun e e' => e' = e.inline resources where
  words := id
  conveys := by
    rintro ⟨t, children⟩ _ rfl
    exact conveys_inline t
  content := by
    rintro ⟨t, children⟩ _ flat rfl - hflat
    exact ⟨_, hflat.inlineAll, forall₂_inlineAll flat⟩

theorem inline_counterparts :
    Counterparts (mk r .empty) (mk r resources) fun e' e => e' = e.inline resources where
  words := id
  conveys := by
    rintro _ ⟨t, children⟩ rfl
    exact inline_conveys t
  content := by
    rintro _ ⟨t, children⟩ flat' rfl - hflat'
    obtain ⟨flat, hflat, rfl⟩ := hflat'.of_inlineAll children rfl
    exact ⟨flat, hflat, (forall₂_inlineAll flat).flip⟩

/-- The scene makes a graph with the resources just where the inlined scene makes it without any,
and both count the same. -/
theorem scene_inline (content : Element) (root : Node) (lo hi : Nat) :
    (mk r .empty).scene (content.inline resources) lo = .ok root hi ↔
      (mk r resources).scene content lo = .ok root hi := by
  constructor
  · apply (inline_counterparts r resources).scene
    intro flat' hflat'
    obtain ⟨flat, hflat, rfl⟩ := hflat'.of_inlineAll [content] rfl
    exact ⟨flat, hflat, (forall₂_inlineAll flat).flip⟩
  · apply (counterparts_inline r resources).scene
    intro flat hflat
    exact ⟨_, hflat.inlineAll, forall₂_inlineAll flat⟩

end Vocabulary

namespace Sample

/-- Texts by name, one of them without a name. -/
def phrases : ResourceTable := .ofList [⟨"", "bye"⟩, ⟨"hello", "hi"⟩, ⟨"weak", "no"⟩]

/-- A scene that names its texts: in a message, as the failure of an assertion, in a prompt behind
it and in the entry of the prompt. The message there leaves its refusal out. -/
def spoken : Element :=
  element "ifndef" [⟨"name", "shop"⟩]
    [element "message" [⟨"style", "n"⟩, ⟨"rsrc", "hello"⟩] [],
      element "assert" [⟨"type", "job"⟩, ⟨"cond", "$x > 100"⟩, ⟨"onFail", "weak"⟩] [],
      element "options" [⟨"rsrc", "hello"⟩]
        [element "option" [⟨"rsrc", "hello"⟩]
          [element "message" [⟨"style", "yn"⟩, ⟨"text", "sure?"⟩] []]]]

def spokenGraph : Node :=
  .fresh .block
    [.leaf (.message 0 .next "hi"),
      Vocabulary.assertion job "$x > 100" (.leaf (.message 1 .ok "no"))
        [.fresh (.options 2 "hi")
          [.fresh (.option "hi") [.leaf (.message 3 (.yesNo "bye") "sure?")]]]]

end Sample

namespace Vocabulary

/-- The scene does without the table only after it has been inlined. -/
theorem spoken_scene_inline :
    (mk Sample.registry Sample.phrases).scene Sample.spoken 0 = .ok Sample.spokenGraph 4 ∧
    (mk Sample.registry .empty).scene (Sample.spoken.inline Sample.phrases) 0 =
      .ok Sample.spokenGraph 4 ∧
    ∀ root count, (mk Sample.registry .empty).scene Sample.spoken 0 ≠ .ok root count := by
  have hbuilds : (mk Sample.registry Sample.phrases).scene Sample.spoken 0 =
      .ok Sample.spokenGraph 4 := rfl
  exact ⟨hbuilds, (scene_inline Sample.registry Sample.phrases Sample.spoken _ 0 4).mpr hbuilds,
    nofun⟩

end Vocabulary

end SceneDispatch
