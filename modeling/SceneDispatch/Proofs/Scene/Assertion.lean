import Mathlib.Logic.Equiv.Defs
import SceneDispatch.Proofs.Scene.Resolution
import SceneDispatch.Proofs.Script.Renaming
/-!
An assertion stands for a switch with two arms: one holds what follows the assertion, the default
arm shows the failure. The two are numbered differently, since the assertion numbers its failure
first and the switch numbers it last. Main statement: wherever an assertion is accepted so is the
switch, and renaming the statuses turns graph, contexts and groups of the one into those of the
other.
-/
namespace SceneDispatch

namespace Build

variable {α β γ δ : Type} {d : Nat}

/-- A result in which everything is counted `d` further on. -/
def raise (d : Nat) (f : α → β) : EStateM.Result Fault Nat α → EStateM.Result Fault Nat β
  | .ok a hi => .ok (f a) (hi + d)
  | .error fault hi => .error fault (hi + d)

/-- From a count that is `d` higher the second step does what the first does, with a result that
`f` takes from the first's. -/
def Raises (d : Nat) (f : α → β) (x : Build α) (y : Build β) : Prop :=
  ∀ lo, y (lo + d) = raise d f (x lo)

theorem Raises.pure {f : α → β} {a : α} {b : β} (h : f a = b) : Raises d f (pure a) (pure b) := by
  intro lo
  exact congrArg (EStateM.Result.ok · (lo + d)) h.symm

theorem Raises.throw (f : α → β) (fault : Fault) : Raises d f (throw fault) (throw fault) :=
  fun _ => rfl

theorem Raises.ofExcept (x : Except Fault α) : Raises d id (ofExcept x) (ofExcept x) := by
  intro lo
  cases x <;> rfl

theorem Raises.newStatus : Raises d (· + (d : Int)) newStatus newStatus := by
  intro lo
  simp only [Build.newStatus, raise, Nat.add_right_comm lo d 1]
  push_cast
  rfl

theorem Raises.bind {f : α → β} {g : γ → δ} {x : Build α} {y : Build β} {k : α → Build γ}
    {l : β → Build δ} (hx : Raises d f x y) (hk : ∀ a, Raises d g (k a) (l (f a))) :
    Raises d g (x >>= k) (y >>= l) := by
  intro lo
  change EStateM.bind y l (lo + d) = raise d g (EStateM.bind x k lo)
  have hlo := hx lo
  unfold EStateM.bind
  cases hresult : x lo with
  | ok a mid =>
    rw [hresult] at hlo
    rw [hlo]
    exact hk a mid
  | error fault mid =>
    rw [hresult] at hlo
    rw [hlo]
    rfl

/-- What succeeds from the higher count succeeds from the lower one. -/
theorem Raises.ok {f : α → β} {x : Build α} {y : Build β} {b : β} {lo hi : Nat}
    (h : Raises d f x y) (hb : y (lo + d) = .ok b hi) :
    ∃ a mid, x lo = .ok a mid ∧ b = f a ∧ hi = mid + d := by
  rw [h lo] at hb
  cases hx : x lo with
  | ok a mid =>
    rw [hx] at hb
    cases hb
    exact ⟨a, mid, rfl, rfl, rfl⟩
  | error fault mid =>
    rw [hx] at hb
    cases hb

end Build

namespace Vocabulary

open Build

section Numbering

variable {v : Vocabulary} {d : Nat}

theorem message_raises (t : Tag) :
    Raises d (Node.rename (· + (d : Int))) (v.message t) (v.message t) :=
  .bind (.ofExcept _) fun _ => .bind (.ofExcept _) fun _ => .bind .newStatus fun _ => .pure rfl

theorem command_raises (t : Tag) :
    Raises d (Node.rename (· + (d : Int))) (v.command t) (v.command t) := by
  unfold command
  split
  · exact .throw _ _
  · exact .pure rfl

theorem assertionHead_raises (t : Tag) :
    Raises d (fun head => (head.1, head.2.1, head.2.2.rename (· + (d : Int)))) (v.assertionHead t)
      (v.assertionHead t) :=
  .bind (.ofExcept _) fun _ => .bind (.ofExcept _) fun _ => .bind (.ofExcept _) fun _ =>
    .bind (.ofExcept _) fun _ => .bind .newStatus fun _ => .pure rfl

mutual

/-- Numbering does not depend on where it starts. -/
theorem element_raises : ∀ (o : Outline),
    Raises d (Node.rename (· + (d : Int))) (element v o) (element v o)
  | .mk t content => by
    rw [element]
    split
    · exact .bind (.ofExcept _) fun f => .bind (switchContent_raises content) fun ns => .pure rfl
    · exact .bind (.ofExcept _) fun text => .bind .newStatus fun status =>
        .bind (optionsContent_raises t content) fun ns => .pure rfl
    · exact message_raises t
    · exact .throw _ _
    · exact .throw _ _
    · exact .throw _ _
    · exact command_raises t

theorem sequence_raises : ∀ (os : List Outline),
    Raises d (Node.renameAll (· + (d : Int))) (sequence v os) (sequence v os)
  | [] => .pure rfl
  | o :: rest => by
    rw [sequence]
    split
    · exact .bind (assertionHead_raises o.tag) fun head =>
        .bind (sequence_raises rest) fun ns => .pure rfl
    · exact .bind (element_raises o) fun n => .bind (sequence_raises rest) fun ns => .pure rfl

theorem body_raises : ∀ (o : Outline),
    Raises d (Node.renameAll (· + (d : Int))) (body v o) (body v o)
  | .mk _ content => by
    rw [body]
    exact sequenceContent_raises content

theorem arms_raises : ∀ (os : List Outline),
    Raises d (Node.renameAll (· + (d : Int))) (arms v os) (arms v os)
  | [] => .pure rfl
  | o :: rest => by
    rw [arms]
    exact .bind (.ofExcept _) fun test => .bind (body_raises o) fun inner =>
      .bind (arms_raises rest) fun ns => .pure rfl

theorem entries_raises : ∀ (os : List Outline),
    Raises d (Node.renameAll (· + (d : Int))) (entries v os) (entries v os)
  | [] => .pure rfl
  | o :: rest => by
    rw [entries]
    split
    · exact .bind (.throw id _) fun _ => .bind (.ofExcept _) fun label =>
        .bind (body_raises o) fun inner => .bind (entries_raises rest) fun ns => .pure rfl
    · exact .bind (.ofExcept _) fun label =>
        .bind (body_raises o) fun inner => .bind (entries_raises rest) fun ns => .pure rfl

theorem sequenceContent_raises : ∀ (content : Except Fault (List Outline)),
    Raises d (Node.renameAll (· + (d : Int))) (sequenceContent v content)
      (sequenceContent v content)
  | .ok os => sequence_raises os
  | .error fault => .throw _ fault

theorem switchContent_raises : ∀ (content : Except Fault (List Outline)),
    Raises d (Node.renameAll (· + (d : Int))) (switchContent v content) (switchContent v content)
  | .ok os => arms_raises os
  | .error fault => .throw _ fault

theorem optionsContent_raises (t : Tag) : ∀ (content : Except Fault (List Outline)),
    Raises d (Node.renameAll (· + (d : Int))) (optionsContent v t content)
      (optionsContent v t content)
  | .ok [] => .throw _ _
  | .ok (o :: os) => entries_raises (o :: os)
  | .error fault => .throw _ fault

end

end Numbering

end Vocabulary

namespace Status

/-- Moves `first` behind the `n` statuses that follow it; each of them moves one place down. -/
def behind (first : Int) (n : Nat) : Equiv.Perm Int where
  toFun s := if s = first then first + n else if first < s ∧ s ≤ first + n then s - 1 else s
  invFun s := if s = first + n then first else if first ≤ s ∧ s < first + n then s + 1 else s
  left_inv s := by
    simp only
    split_ifs <;> omega
  right_inv s := by
    simp only
    split_ifs <;> omega

variable {first s : Int} {n : Nat}

theorem behind_self : behind first n first = first + n := if_pos rfl

theorem behind_of_lt (h : s < first) : behind first n s = s := by
  change (if s = first then first + (n : Int) else
    if first < s ∧ s ≤ first + n then s - 1 else s) = s
  rw [if_neg (by omega), if_neg (by omega)]

theorem behind_succ (h : first ≤ s) (h' : s < first + n) : behind first n (s + 1) = s := by
  change (if s + 1 = first then first + (n : Int) else
    if first < s + 1 ∧ s + 1 ≤ first + n then s + 1 - 1 else s + 1) = s
  rw [if_neg (by omega), if_pos (by omega)]
  omega

end Status

theorem Tag.require_eq_ok {t : Tag} {name value : String} (h : t.attribute? name = some value) :
    t.require name = .ok value := by
  rw [Tag.require, h]

/-- Graphs built below a count do not change when only statuses from the count on are renamed. -/
theorem Built.map_rename {σ : Status → Status} {lo hi : Nat} {ns : List Node} (h : Built lo hi ns)
    (hσ : ∀ s : Int, lo ≤ s → s < hi → σ s = s) : ns.map (Node.rename σ) = ns := by
  have hagree : ∀ s ∈ Node.statusesIn ns, σ s = id s := by
    intro s hs
    obtain ⟨hlo, hhi⟩ := Status.mem_interval.mp (h.numbered.mem_iff.mp hs)
    exact hσ s hlo hhi
  rw [← Node.renameAll_eq_map, Node.renameAll_congr h.fresh hagree, Node.renameAll_id h.fresh]

namespace Vocabulary

open Build Outline

/-- A switch of two arms: `rest` stands in the one with the condition, and the default arm shows
the text. -/
inductive Spells (type condition text : String) (rest : List Element) : Element → Prop
  | mk {ts tc td tm : Tag} {below : List Element} :
    ts.name = "switch" → ts.attribute? "type" = some type →
    tc.name = "case" → tc.attribute? "cond" = some condition →
    td.name = "default" →
    tm.name = "message" → tm.attribute? "style" = some "ok" → tm.attribute? "text" = some text →
    Spells type condition text rest (.mk ts [.mk tc rest, .mk td [.mk tm below]])

variable {v : Vocabulary} {lo hi : Nat} {ns : List Node} {type condition text : String}

theorem switchFeature_congr {t t' : Tag} {f : Feature} (h : v.switchFeature t type = .ok f) :
    v.switchFeature t' type = .ok f := by
  unfold switchFeature at h ⊢
  split at h
  · exact h
  · cases h

/-- Without an assertion the elements in front are built on their own. -/
theorem sequence_append_ok {os ps : List Outline} (hos : ∀ o ∈ os, o.name ≠ "assert") :
    sequence v (os ++ ps) lo = .ok ns hi ↔
      ∃ ms mid ls, sequence v os lo = .ok ms mid ∧ sequence v ps mid = .ok ls hi ∧
        ns = ms ++ ls := by
  induction os generalizing lo hi ns with
  | nil =>
    constructor
    · intro h
      exact ⟨[], lo, ns, rfl, h, rfl⟩
    · rintro ⟨ms, mid, ls, hms, hls, rfl⟩
      obtain ⟨rfl, rfl⟩ := pure_eq_ok.mp hms
      exact hls
  | cons o os ih =>
    obtain ⟨ho, hos⟩ := List.forall_mem_cons.mp hos
    rw [List.cons_append, sequence, if_neg ho, sequence, if_neg ho]
    simp only [bind_eq_ok, pure_eq_ok, ih hos]
    constructor
    · rintro ⟨n, _, hn, _, _, ⟨ms, mid, ls, hms, hls, rfl⟩, rfl, rfl⟩
      exact ⟨n :: ms, mid, ls, ⟨n, _, hn, ms, mid, hms, rfl, rfl⟩, hls, rfl⟩
    · rintro ⟨_, mid, ls, ⟨n, _, hn, ms, _, hms, rfl, rfl⟩, hls, rfl⟩
      exact ⟨n, _, hn, ms ++ ls, hi, ⟨ms, _, ls, hms, hls, rfl⟩, rfl, rfl⟩

theorem sequence_singleton_ok {o : Outline} {n : Node} (ho : o.name ≠ "assert")
    (h : element v o lo = .ok n hi) : sequence v [o] lo = .ok [n] hi := by
  rw [sequence, if_neg ho, bind_eq_ok]
  exact ⟨n, hi, h, rfl⟩

/-- An assertion numbers its failure, then the rest. -/
theorem sequence_assert_ok {o : Outline} {rest : List Outline} {failure : String}
    (ho : o.name = "assert") (htype : o.tag.attribute? "type" = some type)
    (hcondition : o.tag.attribute? "cond" = some condition)
    (hfailure : o.tag.attribute? "onFail" = some failure)
    (h : sequence v (o :: rest) lo = .ok ns hi) :
    ∃ f ms, v.switchFeature o.tag type = .ok f ∧ sequence v rest (lo + 1) = .ok ms hi ∧
      ns = [assertion f condition
        (.leaf (.message lo .ok (v.resources.resolveOrLiteral failure))) ms] := by
  rw [sequence, if_pos ho] at h
  simp only [assertionHead, Tag.require_eq_ok htype, Tag.require_eq_ok hcondition,
    Tag.require_eq_ok hfailure, bind_eq_ok, ofExcept_eq_ok, newStatus_eq_ok, pure_eq_ok,
    Except.ok.injEq] at h
  obtain ⟨_, _, ⟨_, _, ⟨rfl, rfl⟩, _, _, ⟨rfl, rfl⟩, _, _, ⟨rfl, rfl⟩, f, _, ⟨hf, rfl⟩, _, _,
    ⟨rfl, rfl⟩, rfl, rfl⟩, ms, _, hms, rfl, rfl⟩ := h
  exact ⟨f, ms, hf, hms, rfl⟩

/-- A message that says its own text and style. -/
theorem element_message_ok {t : Tag} {below : List Element} (hname : t.name = "message")
    (hstyle : t.attribute? "style" = some "ok") (htext : t.attribute? "text" = some text) :
    element v (plain v.registry (.mk t below)) lo =
      .ok (.leaf (.message lo .ok text)) (lo + 1) := by
  have hmessage : v.message t lo = .ok (.leaf (.message lo .ok text)) (lo + 1) := by
    simp only [message, shownText, htext, messageStyle, hstyle, bind_eq_ok, ofExcept_eq_ok,
      newStatus_eq_ok, pure_eq_ok]
    exact ⟨_, _, ⟨rfl, rfl⟩, _, _, ⟨rfl, rfl⟩, _, _, ⟨rfl, rfl⟩, rfl, rfl⟩
  rw [plain, element]
  simpa [Element.tag, hname] using hmessage

theorem Spells.name_eq {rest : List Element} {s : Element}
    (hs : Spells type condition text rest s) : s.tag.name = "switch" := by
  cases hs with
  | mk hts => exact hts

/-- The switch numbers what its first arm holds, then the failure. -/
theorem Spells.element_ok {rest : List Element} {s : Element} {f : Feature} {t : Tag}
    {ms : List Node} (hs : Spells type condition text rest s)
    (hrest : ∀ e ∈ rest, e.tag.isSection = false) (hf : v.switchFeature t type = .ok f)
    (hms : sequence v (rest.map (plain v.registry)) lo = .ok ms hi) :
    element v (plain v.registry s) lo =
      .ok (assertion f condition (.leaf (.message hi .ok text)) ms) (hi + 1) := by
  obtain @⟨ts, tc, td, tm, below, hts, htype, htc, hcondition, htd, htm, hstyle, htext⟩ := hs
  have hdefault : body v (plain v.registry (.mk td [.mk tm below])) hi =
      .ok [.leaf (.message hi .ok text)] (hi + 1) := by
    rw [plain, body, Element.children,
      ofElements_plain (by simp [Element.tag, Tag.isSection, htm]), sequenceContent]
    exact sequence_singleton_ok (by simp [Outline.name, plain, Outline.tag, Element.tag, htm])
      (element_message_ok htm hstyle htext)
  have hholds : body v (plain v.registry (.mk tc rest)) lo = .ok ms hi := by
    rw [plain, body, Element.children, ofElements_plain hrest, sequenceContent]
    exact hms
  have harms : arms v [plain v.registry (.mk tc rest), plain v.registry (.mk td [.mk tm below])]
      lo = .ok [.fresh (.case (.condition condition)) ms,
        .fresh (.case .otherwise) [.leaf (.message hi .ok text)]] (hi + 1) := by
    have hcase : armTest tc false = .ok (.condition condition) := by
      simp [armTest, htc, hcondition]
    have hotherwise : armTest td true = .ok .otherwise := by
      simp [armTest, htd]
    simp only [arms, bind_eq_ok, ofExcept_eq_ok, pure_eq_ok]
    exact ⟨_, lo, ⟨hcase, rfl⟩, ms, hi, hholds, _, hi + 1, ⟨_, hi, ⟨hotherwise, rfl⟩, _, hi + 1,
      hdefault, [], _, ⟨rfl, rfl⟩, rfl, rfl⟩, rfl, rfl⟩
  have hfeature : (ts.require "type" >>= v.switchFeature ts) = .ok f := by
    rw [Tag.require_eq_ok htype]
    exact switchFeature_congr hf
  rw [plain, Element.children,
    ofElements_plain (by simp [Element.tag, Tag.isSection, htc, htd]), element]
  simp only [Element.tag, hts, hfeature, switchContent, bind_eq_ok, ofExcept_eq_ok, pure_eq_ok]
  exact ⟨f, lo, ⟨rfl, rfl⟩, _, hi + 1, harms, rfl, rfl⟩

/-- Moved behind the rest, the failure stands where the switch numbers it, and so does the rest. -/
theorem rename_assertion {ls : List Node} (h : Built lo hi ls) (f : Feature) :
    (assertion f condition (.leaf (.message lo .ok text))
      (Node.renameAll (· + ((1 : Nat) : Int)) ls)).rename (Status.behind lo (hi - lo)) =
      assertion f condition (.leaf (.message hi .ok text)) ls := by
  have hle := h.le
  have hfailure : Status.behind lo (hi - lo) lo = hi := by
    rw [Status.behind_self]
    omega
  have hrest : Node.renameAll (Status.behind lo (hi - lo))
      (Node.renameAll (· + ((1 : Nat) : Int)) ls) = ls := by
    rw [Node.renameAll_renameAll h.fresh, Node.renameAll_eq_map]
    exact h.map_rename fun s hlo hhi => Status.behind_succ hlo (by omega)
  rw [assertion, Node.rename_fresh, List.map_cons, List.map_singleton, Node.rename_fresh,
    Node.rename_fresh, ← Node.renameAll_eq_map, hrest, List.map_singleton, Node.leaf,
    Node.rename_fresh]
  simp only [NodeKind.rename, hfailure]
  rfl

/-- An assertion that is accepted can be written as a switch of the same type: what stands behind
the assertion goes into an arm with its condition, and a default arm shows its failure. The count
comes out the same. The graphs, their contexts and the contexts of their groups are the same once
the status of the failure is moved behind those of the arm. -/
theorem elements_assert_switch {pre rest : List Element} {a s : Element} {failure : String}
    (hspliced : ∀ e ∈ pre ++ a :: rest, e.tag.isSection = false)
    (hpre : ∀ e ∈ pre, e.name ≠ "assert") (ha : a.name = "assert")
    (htype : a.attribute? "type" = some type) (hcondition : a.attribute? "cond" = some condition)
    (hfailure : a.attribute? "onFail" = some failure)
    (hs : Spells type condition (v.resources.resolveOrLiteral failure) rest s)
    (h : v.elements (pre ++ a :: rest) lo = .ok ns hi) :
    ∃ mid ms ls f, v.elements pre lo = .ok ms mid ∧ v.elements rest (mid + 1) = .ok ls hi ∧
      ns = ms ++ [assertion f condition
        (.leaf (.message mid .ok (v.resources.resolveOrLiteral failure))) ls] ∧
      let σ := Status.behind mid (hi - 1 - mid)
      let root := Node.fresh .block ns
      let root' := Node.fresh .block (ns.map (.rename σ))
      v.elements (pre ++ [s]) lo = .ok (ns.map (.rename σ)) hi ∧
      root'.assignContexts = (root.assignContexts.1.rename σ, root.assignContexts.2.rename σ) ∧
      Drafting.Corresponds σ (Drafting.scene v.registry root.assignContexts.1 .empty)
        (Drafting.scene v.registry root'.assignContexts.1 .empty) := by
  obtain ⟨hfront, hback⟩ := List.forall_mem_append.mp hspliced
  obtain ⟨hasection, hrest⟩ := List.forall_mem_cons.mp hback
  have hplain : ∀ o ∈ pre.map (plain v.registry), o.name ≠ "assert" := by
    intro o ho
    obtain ⟨e, he, rfl⟩ := List.mem_map.mp ho
    exact hpre e he
  have hswitch : ∀ e ∈ pre ++ [s], e.tag.isSection = false :=
    List.forall_mem_append.mpr ⟨hfront, by simp [Tag.isSection, hs.name_eq]⟩
  have hname : (plain v.registry s).name ≠ "assert" := by
    rw [show (plain v.registry s).name = "switch" from hs.name_eq]
    decide
  rw [elements, ofElements_plain hspliced, sequenceContent, List.map_append, List.map_cons,
    sequence_append_ok hplain] at h
  obtain ⟨ms, mid, _, hms, hassert, rfl⟩ := h
  obtain ⟨f, _, hf, hlater, rfl⟩ :=
    sequence_assert_ok (o := plain v.registry a) ha htype hcondition hfailure hassert
  obtain ⟨ls, last, hls, rfl, rfl⟩ := (sequence_raises (rest.map (plain v.registry))).ok hlater
  obtain ⟨-, hbefore⟩ := sequence_built _ hms
  obtain ⟨-, hafter⟩ := sequence_built _ hls
  refine ⟨mid, ms, _, f, ?_, ?_, rfl, ?_⟩
  · rw [elements, ofElements_plain hfront]
    exact hms
  · rw [elements, ofElements_plain hrest]
    exact hlater
  intro σ root root'
  have hroot : root.rename σ = root' := Node.rename_fresh σ .block _
  have hstart : σ Status.start = Status.start := by
    apply Status.behind_of_lt
    rw [Status.start]
    omega
  refine ⟨?_, ?_, ?_⟩
  · have hms' : ms.map (.rename σ) = ms :=
      hbefore.map_rename fun s _ hs => Status.behind_of_lt hs
    rw [elements, ofElements_plain hswitch, sequenceContent, List.map_append,
      sequence_append_ok hplain, List.map_append, hms']
    refine ⟨ms, mid, _, hms, sequence_singleton_ok hname (hs.element_ok hrest hf hls), ?_⟩
    exact congrArg (ms ++ [·]) (rename_assertion hafter f)
  · rw [← hroot, Node.assignContexts_rename hstart]
  · rw [← hroot, Node.assignContexts_rename hstart]
    exact Drafting.scene_corresponds σ.injective _

end Vocabulary

namespace Sample

/-- What follows an assertion: a message, and the assertion again. -/
def promoted : List Element := [say "n" "well", promotion, element "give" [⟨"x", "5"⟩] []]

/-- The switch that the assertion in front of `promoted` stands for. -/
def promotionSwitch : Element :=
  element "switch" [⟨"type", "job"⟩]
    [element "case" [⟨"cond", "$x > 100"⟩] promoted, element "default" [] [say "ok" "no"]]

def promotedGraphs : List Node :=
  [.leaf (.message 0 .next "hi"),
    Vocabulary.assertion job "$x > 100" (.leaf (.message 1 .ok "no"))
      [.leaf (.message 2 .next "well"),
        Vocabulary.assertion job "$x > 100" (.leaf (.message 3 .ok "no")) [gift "5"]]]

end Sample

namespace Vocabulary

/-- An assertion behind a message, with a second one in what follows: the switch numbers the two
failures last and last but one. -/
theorem promotion_elements_assert_switch :
    Sample.fullVocabulary.elements (Sample.say "n" "hi" :: Sample.promotion :: Sample.promoted) 0 =
        .ok Sample.promotedGraphs 4 ∧
      Sample.fullVocabulary.elements [Sample.say "n" "hi", Sample.promotionSwitch] 0 =
        .ok (Sample.promotedGraphs.map (.rename (Status.behind 1 2))) 4 ∧
      Node.statusesIn Sample.promotedGraphs = [0, 2, 3, 1] ∧
      Node.statusesIn (Sample.promotedGraphs.map (.rename (Status.behind 1 2))) = [0, 1, 2, 3] ∧
      Drafting.Corresponds (Status.behind 1 2)
        (Drafting.scene Sample.fullRegistry
          (Node.fresh .block Sample.promotedGraphs).assignContexts.1 .empty)
        (Drafting.scene Sample.fullRegistry (Node.fresh .block
          (Sample.promotedGraphs.map (.rename (Status.behind 1 2)))).assignContexts.1 .empty) := by
  have hbuild : Sample.fullVocabulary.elements
      ([Sample.say "n" "hi"] ++ Sample.promotion :: Sample.promoted) 0 =
        .ok Sample.promotedGraphs 4 := rfl
  have hspells : Spells "job" "$x > 100" (Sample.fullVocabulary.resources.resolveOrLiteral "no")
      Sample.promoted Sample.promotionSwitch := .mk rfl rfl rfl rfl rfl rfl rfl rfl
  obtain ⟨mid, ms, ls, f, hpre, -, -, hswitch, -, hdraft⟩ :=
    elements_assert_switch (a := Sample.promotion) (by decide) (by decide) rfl rfl rfl rfl hspells
      hbuild
  have hmid : Sample.fullVocabulary.elements [Sample.say "n" "hi"] 0 =
      .ok [.leaf (.message 0 .next "hi")] 1 := rfl
  rw [hmid] at hpre
  cases hpre
  exact ⟨hbuild, hswitch, by decide, by decide, hdraft⟩

end Vocabulary

end SceneDispatch
