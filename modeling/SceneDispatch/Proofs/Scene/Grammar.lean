import SceneDispatch.Proofs.Scene.Derivation
/-!
The grammar of scenes. Which elements may stand in a sequence is said without building anything.
Main statement: the builder accepts a sequence just where the grammar admits it.
-/
namespace SceneDispatch

namespace Vocabulary

open Element

/-- The element has a text, or names a resource that there is. -/
def SaysText (v : Vocabulary) (t : Tag) : Prop :=
  (t.attribute? "text").isSome = true ∨
    ∃ name, t.attribute? "rsrc" = some name ∧ (v.resources.resolve? name).isSome = true

/-- The element names a type for which there is a switch feature. -/
def SaysType (v : Vocabulary) (t : Tag) : Prop :=
  ∃ type f, t.attribute? "type" = some type ∧ v.Compares type f

/-- The styles of messages. -/
def styles : List String := ["n", "pn", "yn", "ok"]

/-- The case has a condition, or values of which one is not blank. -/
def SaysTest (t : Tag) : Prop :=
  (t.attribute? "cond").isSome = true ∨
    ∃ values, t.attribute? "val" = some values ∧
      ∃ value ∈ Text.commaFields values, Text.trim value ≠ ""

mutual

/-- The elements that a scene may hold. No command has one of the names in `taken`. -/
inductive Admits (v : Vocabulary) (taken : List String) : Element → Prop
  | message {t : Tag} {children : List Element} {style : String} :
    t.name = "message" → v.SaysText t → t.attribute? "style" = some style → style ∈ styles →
    Admits v taken (.mk t children)
  | options {t : Tag} {children entries : List Element} :
    t.name = "options" → v.SaysText t → Spliced v.registry children entries → entries ≠ [] →
    (∀ e ∈ entries, e.name = "option" ∧ v.SaysText e.tag) →
    (∀ e ∈ entries, AdmitsAll v taken e.children) → Admits v taken (.mk t children)
  | switch {t : Tag} {children arms : List Element} :
    t.name = "switch" → v.SaysType t → Spliced v.registry children arms →
    (∀ a ∈ arms, a.name = "case" ∧ SaysTest a.tag ∨ a.name = "default") →
    (∀ a ∈ arms.dropLast, a.name ≠ "default") →
    (∀ a ∈ arms, AdmitsAll v taken a.children) → Admits v taken (.mk t children)
  | assert {t : Tag} {children : List Element} :
    t.name = "assert" → v.SaysType t → (t.attribute? "cond").isSome = true →
    (t.attribute? "onFail").isSome = true → Admits v taken (.mk t children)
  | command {t : Tag} {children : List Element} :
    t.name ∉ taken → v.registry.has t.name = true → Admits v taken (.mk t children)

/-- Sequences that a scene may hold: they can be spliced, and then hold nothing else. -/
inductive AdmitsAll (v : Vocabulary) (taken : List String) : List Element → Prop
  | mk {es flat : List Element} : Spliced v.registry es flat →
    (∀ e ∈ flat, Admits v taken e) → AdmitsAll v taken es

end

section Attributes

variable {v : Vocabulary} {t : Tag}

theorem saysText_iff : v.SaysText t ↔ ∃ text, v.shownText t = .ok text := by
  unfold SaysText shownText
  cases t.attribute? "text" with
  | some text => simp
  | none =>
    cases t.attribute? "rsrc" with
    | none => simp
    | some name => cases hresource : v.resources.resolve? name <;> simp [hresource]

theorem messageStyle_iff :
    (∃ style, v.messageStyle t = .ok style) ↔
      ∃ style, t.attribute? "style" = some style ∧ style ∈ styles := by
  unfold messageStyle styles
  cases t.attribute? "style" with
  | none => simp
  | some style =>
    simp only [Option.getD_some, Option.some.injEq, exists_eq_left']
    split <;> simp_all

theorem caseValues_ne_nil_iff {values : String} :
    caseValues values ≠ [] ↔ ∃ value ∈ Text.commaFields values, Text.trim value ≠ "" := by
  simp [caseValues]

theorem saysTest_iff (h : t.name = "case") (last : Bool) :
    SaysTest t ↔ ∃ test, armTest t last = .ok test := by
  unfold SaysTest armTest
  simp only [h]
  cases t.attribute? "cond" with
  | some expression => simp
  | none =>
    cases hval : t.attribute? "val" with
    | none => simp [Tag.require, hval, bind, Except.bind]
    | some values =>
      simp only [Option.isSome_none, Bool.false_eq_true, Option.some.injEq, exists_eq_left',
        false_or, ← caseValues_ne_nil_iff, Tag.require, hval, bind, Except.bind]
      cases caseValues values <;> simp

/-- An arm is a case with a test, or the default in the last place. -/
theorem exists_arm_iff {last : Bool} :
    (∃ kind, Arm t last kind) ↔
      (t.name = "case" ∧ SaysTest t ∨ t.name = "default") ∧
        (last = false → t.name ≠ "default") := by
  have harm : (∃ kind, Arm t last kind) ↔ ∃ test, armTest t last = .ok test := by
    simp [Arm]
  rw [harm]
  by_cases hcase : t.name = "case"
  · rw [← saysTest_iff hcase]
    simp [hcase]
  by_cases hdefault : t.name = "default"
  · cases last <;> simp [armTest, hdefault]
  · simp [armTest, hcase, hdefault]

theorem exists_entry_iff {last : Bool} :
    (∃ kind, v.Entry t last kind) ↔ t.name = "option" ∧ v.SaysText t := by
  simp [Entry, saysText_iff]

end Attributes

/-- Every branch becomes something by itself. -/
def Headed (head : Tag → Bool → NodeKind → Prop) : List Element → Prop
  | [] => True
  | e :: es => (∃ kind, head e.tag es.isEmpty kind) ∧ Headed head es

theorem headed_arm_iff {es : List Element} :
    Headed Arm es ↔ (∀ a ∈ es, a.name = "case" ∧ SaysTest a.tag ∨ a.name = "default") ∧
      ∀ a ∈ es.dropLast, a.name ≠ "default" := by
  induction es with
  | nil => simp [Headed]
  | cons e es ih =>
    rw [Headed, ih, exists_arm_iff, List.forall_mem_cons]
    cases es with
    | nil => simp [Element.name]
    | cons a es =>
      rw [List.dropLast_cons_cons, List.forall_mem_cons (l := (a :: es).dropLast)]
      simp only [List.isEmpty_cons, forall_const, Element.name]
      exact and_and_and_comm

theorem headed_entry_iff {v : Vocabulary} {es : List Element} :
    Headed v.Entry es ↔ ∀ e ∈ es, e.name = "option" ∧ v.SaysText e.tag := by
  induction es with
  | nil => simp [Headed]
  | cons e es ih =>
    rw [Headed, ih, exists_entry_iff, List.forall_mem_cons]
    rfl

section Soundness

variable {v : Vocabulary}

theorem MakesBranches.headed : ∀ {head : Tag → Bool → NodeKind → Prop} {es : List Element}
    {ns : List Node} {lo hi : Nat}, MakesBranches v head es lo ns hi → Headed head es
  | _, _, _, _, _, .nil => trivial
  | _, _, _, _, _, .cons hhead _ _ hrest => ⟨⟨_, hhead⟩, hrest.headed⟩

mutual

/-- What can be built is admitted. -/
theorem Makes.admits : ∀ {e : Element} {n : Node} {lo hi : Nat}, Makes v e lo n hi →
    Admits v structural e
  | _, _, _, _, .message hname htext hstyle => by
    obtain ⟨style, hstyle, hmem⟩ := messageStyle_iff.mp ⟨_, hstyle⟩
    exact .message hname (saysText_iff.mpr ⟨_, htext⟩) hstyle hmem
  | _, _, _, _, .options hname htext hentries hne hmakes =>
    .options hname (saysText_iff.mpr ⟨_, htext⟩) hentries hne (headed_entry_iff.mp hmakes.headed)
      hmakes.admits
  | _, _, _, _, .switch hname htype hf harms hmakes => by
    obtain ⟨htests, hlast⟩ := headed_arm_iff.mp hmakes.headed
    exact .switch hname ⟨_, _, htype, hf⟩ harms htests hlast hmakes.admits
  | _, _, _, _, .command hname hf => by
    refine .command hname ?_
    rw [Registry.has, OrderedTable.contains, show OrderedTable.find? _ _ = some _ from hf]
    rfl

theorem MakesAll.admits : ∀ {es : List Element} {ns : List Node} {lo hi : Nat},
    MakesAll v es lo ns hi → ∀ e ∈ es, Admits v structural e
  | _, _, _, _, .nil => by simp
  | _, _, _, _, .cons hfirst hrest => List.forall_mem_cons.mpr ⟨hfirst.admits, hrest.admits⟩
  | _, _, _, _, .assert hname htype hcondition hfailure hf hrest => by
    refine List.forall_mem_cons.mpr ⟨?_, hrest.admits⟩
    exact .assert hname ⟨_, _, htype, hf⟩ (by simp [hcondition]) (by simp [hfailure])

theorem MakesBranches.admits : ∀ {head : Tag → Bool → NodeKind → Prop} {es : List Element}
    {ns : List Node} {lo hi : Nat}, MakesBranches v head es lo ns hi →
    ∀ e ∈ es, AdmitsAll v structural e.children
  | _, _, _, _, _, .nil => by simp
  | _, _, _, _, _, .cons _ hinner hmakes hrest =>
    List.forall_mem_cons.mpr ⟨.mk hinner hmakes.admits, hrest.admits⟩

end

end Soundness

section Completeness

variable {v : Vocabulary}

/-- The element is built wherever it stands: on its own, or as an assertion with what follows. -/
def Buildable (v : Vocabulary) (e : Element) : Prop :=
  (∀ lo, ∃ n hi, Makes v e lo n hi) ∨
    e.name = "assert" ∧ v.SaysType e.tag ∧ (e.attribute? "cond").isSome = true ∧
      (e.attribute? "onFail").isSome = true

theorem exists_makesAll {es : List Element} (h : ∀ e ∈ es, v.Buildable e) :
    ∀ lo, ∃ ns hi, MakesAll v es lo ns hi := by
  induction es with
  | nil => exact fun lo => ⟨[], lo, .nil⟩
  | cons e es ih =>
    obtain ⟨he, hes⟩ := List.forall_mem_cons.mp h
    intro lo
    rcases he with hmakes | ⟨hname, ⟨type, f, htype, hf⟩, hcondition, hfailure⟩
    · obtain ⟨n, mid, hn⟩ := hmakes lo
      obtain ⟨ns, hi, hns⟩ := ih hes mid
      exact ⟨n :: ns, hi, .cons hn hns⟩
    · obtain ⟨t, children⟩ := e
      obtain ⟨condition, hcondition⟩ := Option.isSome_iff_exists.mp hcondition
      obtain ⟨failure, hfailure⟩ := Option.isSome_iff_exists.mp hfailure
      obtain ⟨ns, hi, hns⟩ := ih hes (lo + 1)
      exact ⟨_, hi, .assert hname htype hcondition hfailure hf hns⟩

theorem exists_makesBranches {head : Tag → Bool → NodeKind → Prop} {es : List Element}
    (hhead : Headed head es)
    (h : ∀ e ∈ es, ∃ inner, Spliced v.registry e.children inner ∧ ∀ e ∈ inner, v.Buildable e) :
    ∀ lo, ∃ ns hi, MakesBranches v head es lo ns hi := by
  induction es with
  | nil => exact fun lo => ⟨[], lo, .nil⟩
  | cons e es ih =>
    obtain ⟨⟨inner, hinner, hbuildable⟩, hes⟩ := List.forall_mem_cons.mp h
    obtain ⟨⟨kind, hkind⟩, hrest⟩ := hhead
    obtain ⟨t, children⟩ := e
    intro lo
    obtain ⟨ns, mid, hns⟩ := exists_makesAll hbuildable lo
    obtain ⟨ms, hi, hms⟩ := ih hrest hes mid
    exact ⟨_, hi, .cons hkind hinner hns hms⟩

mutual

/-- What is admitted can be built. -/
theorem Admits.buildable : ∀ {e : Element}, Admits v structural e → v.Buildable e
  | _, .message hname htext hstyle hmem => by
    obtain ⟨text, htext⟩ := saysText_iff.mp htext
    obtain ⟨style, hstyle⟩ := messageStyle_iff.mpr ⟨_, hstyle, hmem⟩
    exact .inl fun lo => ⟨_, _, .message hname htext hstyle⟩
  | _, .options hname htext hentries hne hheads hbodies => by
    obtain ⟨text, htext⟩ := saysText_iff.mp htext
    refine .inl fun lo => ?_
    obtain ⟨ns, hi, hns⟩ := exists_makesBranches (headed_entry_iff.mpr hheads)
      (fun e he => (hbodies e he).buildable) (lo + 1)
    exact ⟨_, hi, .options hname htext hentries hne hns⟩
  | _, .switch hname ⟨type, f, htype, hf⟩ harms htests hlast hbodies => by
    refine .inl fun lo => ?_
    obtain ⟨ns, hi, hns⟩ := exists_makesBranches (headed_arm_iff.mpr ⟨htests, hlast⟩)
      (fun a ha => (hbodies a ha).buildable) lo
    exact ⟨_, hi, .switch hname htype hf harms hns⟩
  | _, .assert hname htype hcondition hfailure => .inr ⟨hname, htype, hcondition, hfailure⟩
  | _, .command hname hhas => by
    obtain ⟨f, hf⟩ := Option.isSome_iff_exists.mp hhas
    exact .inl fun lo => ⟨_, lo, .command hname hf⟩

theorem AdmitsAll.buildable : ∀ {es : List Element}, AdmitsAll v structural es →
    ∃ flat, Spliced v.registry es flat ∧ ∀ e ∈ flat, v.Buildable e
  | _, .mk hflat hadmits => ⟨_, hflat, fun e he => (hadmits e he).buildable⟩

end

end Completeness

/-- Elements side by side are built from any count, and a scene from its content, just where the
grammar admits them. The names of arms, entries, messages, prompts, switches and assertions are not
left to commands, whether or not the registry has features of these names. -/
theorem elements_accepted_iff (v : Vocabulary) :
    (∀ es lo, (∃ ns hi, v.elements es lo = .ok ns hi) ↔ v.AdmitsAll structural es) ∧
    ∀ content, (∃ root count, v.scene content 0 = .ok root count) ↔
      v.AdmitsAll structural [content] := by
  have helements : ∀ es lo, (∃ ns hi, v.elements es lo = .ok ns hi) ↔
      v.AdmitsAll structural es := by
    intro es lo
    constructor
    · rintro ⟨ns, hi, h⟩
      obtain ⟨flat, hflat, hmakes⟩ := elements_eq_ok.mp h
      exact .mk hflat hmakes.admits
    · intro h
      obtain ⟨flat, hflat, hbuildable⟩ := h.buildable
      obtain ⟨ns, hi, hmakes⟩ := exists_makesAll hbuildable lo
      exact ⟨ns, hi, elements_eq_ok.mpr ⟨flat, hflat, hmakes⟩⟩
  refine ⟨helements, fun content => ?_⟩
  rw [← helements [content] 0]
  simp only [scene, bind_eq_ok, pure_eq_ok]
  constructor
  · rintro ⟨_, _, ns, hi, hns, rfl, rfl⟩
    exact ⟨ns, hi, hns⟩
  · rintro ⟨ns, hi, hns⟩
    exact ⟨_, _, ns, hi, hns, rfl, rfl⟩

end Vocabulary

namespace Sample

/-- Words among which a command has the name of messages. -/
def talkative : Vocabulary :=
  ⟨⟨"cm", .ofList [⟨"message", "$.say($x)", none, .plain⟩]⟩, .empty⟩

/-- A message without a text, which could be a use of that command. -/
def talk : Element := element "message" [⟨"x", "5"⟩] []

end Sample

namespace Vocabulary

/-- Commands cannot have the name of messages: where the registry has such a feature, a message
without a text is still refused. -/
theorem talk_refused :
    ¬ ((∃ ns hi, Sample.talkative.elements [Sample.talk] 0 = .ok ns hi) ↔
      Sample.talkative.AdmitsAll ["case", "default", "option"] [Sample.talk]) := by
  have hadmits : Sample.talkative.AdmitsAll ["case", "default", "option"] [Sample.talk] := by
    refine .mk (.plain rfl .nil) (List.forall_mem_singleton.mpr ?_)
    exact .command (by decide) (by decide)
  have hrefused : Sample.talkative.elements [Sample.talk] 0 =
      .error (.textMissing Sample.talk.tag) 0 := rfl
  intro h
  obtain ⟨ns, hi, hok⟩ := h.mpr hadmits
  rw [hrefused] at hok
  cases hok

end Vocabulary

end SceneDispatch
