import SceneDispatch.Proofs.Scene.Derivation
/-!
Scenes that correspond element by element. What the builder reads off an element in one vocabulary
it may just as well read off another element in another vocabulary. Main statement: a scene whose
elements all have such counterparts has the graph and the count of its counterpart.
-/
namespace SceneDispatch

namespace Vocabulary

open Element

/-- The elements below which the builder goes on. -/
def containers : List String := ["switch", "options", "case", "default", "option"]

/-- The attributes that are taken as they stand. -/
def plainAttributes : List String := ["type", "cond", "val", "x", "y", "z"]

/-- What the builder reads off the tag `t` in the vocabulary `v`, it reads off `t'` in `w`. -/
structure Conveys (v w : Vocabulary) (t t' : Tag) : Prop where
  name : t'.name = t.name
  plain : ∀ name ∈ plainAttributes, t'.attribute? name = t.attribute? name
  text : t.name ∈ ["message", "options", "option"] →
    ∀ text, v.shownText t = .ok text → w.shownText t' = .ok text
  style : t.name = "message" →
    ∀ style, v.messageStyle t = .ok style → w.messageStyle t' = .ok style
  failure : t.name = "assert" → ∀ failure, t.attribute? "onFail" = some failure →
    ∃ failure', t'.attribute? "onFail" = some failure' ∧
      w.resources.resolveOrLiteral failure' = v.resources.resolveOrLiteral failure

/-- The elements that `S` relates convey the same, down to the ones below them. The words of `v`
have the same meaning in `w`, where there may be more of them. -/
structure Counterparts (v w : Vocabulary) (S : Element → Element → Prop) : Prop where
  words : ∀ {name f}, v.registry.find? name = some f → w.registry.find? name = some f
  conveys : ∀ {e e'}, S e e' → v.Conveys w e.tag e'.tag
  content : ∀ {e e' flat}, S e e' → e.name ∈ containers → Spliced v.registry e.children flat →
    ∃ flat', Spliced w.registry e'.children flat' ∧ List.Forall₂ S flat flat'

section Heads

variable {v w : Vocabulary} {t t' : Tag}

theorem Conveys.arm {last : Bool} {kind : NodeKind} (h : v.Conveys w t t')
    (harm : Arm t last kind) : Arm t' last kind := by
  obtain ⟨test, htest, rfl⟩ := harm
  refine ⟨test, ?_, rfl⟩
  have hcond := h.plain "cond" (by decide)
  have hval := h.plain "val" (by decide)
  unfold armTest at htest ⊢
  rw [h.name, hcond]
  split at htest
  · split at htest
    · exact htest
    · unfold Tag.require at htest ⊢
      rw [hval]
      cases hvalues : t.attribute? "val" with
      | none => simp [hvalues, bind, Except.bind] at htest
      | some values =>
        simp only [hvalues, bind, Except.bind] at htest ⊢
        split at htest
        · cases htest
        · next hne => rw [if_neg hne, htest]
  · split at htest
    · next hlast => rw [if_pos hlast, htest]
    · cases htest
  · cases htest

theorem Conveys.entry {last : Bool} {kind : NodeKind} (h : v.Conveys w t t')
    (hentry : v.Entry t last kind) : w.Entry t' last kind := by
  obtain ⟨hname, label, hlabel, rfl⟩ := hentry
  have hshown : w.shownText t' = .ok label := h.text (by simp [hname]) label hlabel
  exact ⟨h.name.trans hname, label, hshown, rfl⟩

theorem Arm.name_mem {last : Bool} {kind : NodeKind} (h : Arm t last kind) :
    t.name ∈ containers := by
  obtain ⟨test, htest, -⟩ := h
  unfold armTest at htest
  split at htest
  · next hname => simp [hname, containers]
  · next hname => simp [hname, containers]
  · cases htest

theorem Entry.name_mem {last : Bool} {kind : NodeKind} (h : v.Entry t last kind) :
    t.name ∈ containers := by
  simp [h.1, containers]

end Heads

namespace Counterparts

variable {v w : Vocabulary} {S : Element → Element → Prop}

theorem compares (hS : Counterparts v w S) {type : String} {f : Feature} (h : v.Compares type f) :
    w.Compares type f :=
  ⟨hS.words h.1, h.2⟩

mutual

/-- The counterpart of an element makes the same node. -/
theorem makes (hS : Counterparts v w S) : ∀ {e e' : Element} {n : Node} {lo hi : Nat},
    Makes v e lo n hi → S e e' → Makes w e' lo n hi
  | _, .mk t' _, _, _, _, .message hname htext hstyle, he => by
    have hconveys := hS.conveys he
    have htext' := hconveys.text (by simp [Element.tag, hname]) _ htext
    exact .message (hconveys.name.trans hname) htext' (hconveys.style hname _ hstyle)
  | _, .mk t' _, _, _, _, .options hname htext hsplice hne hbranches, he => by
    have hconveys := hS.conveys he
    have htext' := hconveys.text (by simp [Element.tag, hname]) _ htext
    obtain ⟨flat', hflat', hall⟩ := hS.content he (by simp [Element.name, Element.tag, hname,
      containers]) hsplice
    refine .options (hconveys.name.trans hname) htext' hflat' ?_
      (makesBranches hS hbranches (fun h hhead => (hS.conveys h).entry hhead)
        (fun hhead => Entry.name_mem hhead) hall)
    rintro rfl
    cases hall
    exact hne rfl
  | _, .mk t' _, _, _, _, .switch hname htype hf hsplice hbranches, he => by
    have hconveys := hS.conveys he
    have htype' := (hconveys.plain "type" (by decide)).trans htype
    obtain ⟨flat', hflat', hall⟩ := hS.content he (by simp [Element.name, Element.tag, hname,
      containers]) hsplice
    exact .switch (hconveys.name.trans hname) htype' (hS.compares hf) hflat'
      (makesBranches hS hbranches (fun h hhead => (hS.conveys h).arm hhead)
        (fun hhead => Arm.name_mem hhead) hall)
  | _, .mk t' _, _, _, _, .command (t := t) hname hf, he => by
    have hconveys := hS.conveys he
    have htag : t'.name = t.name := hconveys.name
    have hx : t'.attribute? "x" = t.attribute? "x" := hconveys.plain "x" (by decide)
    have hy : t'.attribute? "y" = t.attribute? "y" := hconveys.plain "y" (by decide)
    have hz : t'.attribute? "z" = t.attribute? "z" := hconveys.plain "z" (by decide)
    rw [← hx, ← hy, ← hz]
    exact .command (htag ▸ hname) (htag ▸ hS.words hf)

theorem makesAll (hS : Counterparts v w S) : ∀ {es es' : List Element} {ns : List Node}
    {lo hi : Nat}, MakesAll v es lo ns hi → List.Forall₂ S es es' → MakesAll w es' lo ns hi
  | _, _, _, _, _, .nil, .nil => .nil
  | _, _, _, _, _, .cons hn hns, .cons he hes => .cons (makes hS hn he) (makesAll hS hns hes)
  | _, .mk t' _ :: _, _, _, _, .assert hname htype hcond hfailure hf hns, .cons he hes => by
    have hconveys := hS.conveys he
    obtain ⟨failure', hfailure', hshown⟩ := hconveys.failure hname _ hfailure
    rw [← hshown]
    exact .assert (hconveys.name.trans hname) ((hconveys.plain "type" (by decide)).trans htype)
      ((hconveys.plain "cond" (by decide)).trans hcond) hfailure' (hS.compares hf)
      (makesAll hS hns hes)

theorem makesBranches (hS : Counterparts v w S) : ∀ {head head' : Tag → Bool → NodeKind → Prop}
    {es es' : List Element} {ns : List Node} {lo hi : Nat}, MakesBranches v head es lo ns hi →
    (∀ {e e' last kind}, S e e' → head e.tag last kind → head' e'.tag last kind) →
    (∀ {t last kind}, head t last kind → t.name ∈ containers) →
    List.Forall₂ S es es' → MakesBranches w head' es' lo ns hi
  | _, _, _, _, _, _, _, .nil, _, _, .nil => .nil
  | _, _, _ :: es, .mk t' _ :: es', _, _, _, .cons hkind hsplice hns hms, hhead, hname,
      .cons he hes => by
    obtain ⟨inner', hinner', hall⟩ := hS.content he (hname hkind) hsplice
    have hlast : es'.isEmpty = es.isEmpty := by cases hes <;> rfl
    exact .cons (hlast ▸ hhead he hkind) hinner' (makesAll hS hns hall)
      (makesBranches hS hms hhead hname hes)

end

/-- A scene has the graph and the count of its counterpart. -/
theorem scene (hS : Counterparts v w S) {content content' : Element} {root : Node} {lo hi : Nat}
    (hsplice : ∀ {flat}, Spliced v.registry [content] flat →
      ∃ flat', Spliced w.registry [content'] flat' ∧ List.Forall₂ S flat flat')
    (h : v.scene content lo = .ok root hi) : w.scene content' lo = .ok root hi := by
  obtain ⟨flat, ns, hflat, hmakes, rfl⟩ := scene_eq_ok.mp h
  obtain ⟨flat', hflat', hall⟩ := hsplice hflat
  exact scene_eq_ok.mpr ⟨flat', ns, hflat', hS.makesAll hmakes hall, rfl⟩

end Counterparts

end Vocabulary

end SceneDispatch
