import Mathlib.Data.List.Nodup
import Mathlib.Data.List.Perm.Basic
import SceneDispatch.Proofs.Scene.Shape
import SceneDispatch.Scene.Build
/-!
What the builder makes. Each building function is inverted once: a success names the pieces it was
made from and the counts between them. It follows that built graphs are fresh and well-formed, and
that their suspend points share out the statuses counted, each status going to one of them.
-/
namespace SceneDispatch

section Steps

variable {ε σ α β : Type}

/-- A sequence of two steps succeeds when both do. -/
theorem bind_eq_ok {x : EStateM ε σ α} {f : α → EStateM ε σ β} {s t : σ} {b : β} :
    (x >>= f) s = .ok b t ↔ ∃ a u, x s = .ok a u ∧ f a u = .ok b t := by
  change EStateM.bind x f s = .ok b t ↔ _
  unfold EStateM.bind
  cases x s with
  | ok a u =>
    constructor
    · intro h
      exact ⟨a, u, rfl, h⟩
    · rintro ⟨_, _, hx, h⟩
      cases hx
      exact h
  | error e u => simp

theorem pure_eq_ok {a b : α} {s t : σ} :
    (pure a : EStateM ε σ α) s = .ok b t ↔ a = b ∧ s = t := by
  change EStateM.Result.ok a s = .ok b t ↔ _
  simp

theorem throw_ne_ok {e : ε} {b : α} {s t : σ} : (throw e : EStateM ε σ α) s ≠ .ok b t := by
  change EStateM.Result.error e s ≠ .ok b t
  simp

end Steps

namespace Build

theorem ofExcept_eq_ok {α : Type} {x : Except Fault α} {a : α} {lo hi : Nat} :
    Build.ofExcept x lo = .ok a hi ↔ x = .ok a ∧ lo = hi := by
  cases x with
  | ok b => simp [Build.ofExcept, pure_eq_ok]
  | error e => simp [Build.ofExcept, throw_ne_ok]

theorem newStatus_eq_ok {s : Status} {lo hi : Nat} :
    Build.newStatus lo = .ok s hi ↔ s = lo ∧ hi = lo + 1 := by
  simp [Build.newStatus, eq_comm]

end Build

namespace Vocabulary

open Build

variable {v : Vocabulary} {t : Tag} {o : Outline} {rest os : List Outline} {n : Node}
  {ns : List Node} {content : Except Fault (List Outline)} {lo hi : Nat}

theorem message_ok (h : v.message t lo = .ok n hi) :
    hi = lo + 1 ∧ ∃ style text, n = .leaf (.message lo style text) := by
  simp only [message, bind_eq_ok, ofExcept_eq_ok, newStatus_eq_ok, pure_eq_ok] at h
  obtain ⟨text, _, ⟨-, rfl⟩, style, _, ⟨-, rfl⟩, _, _, ⟨rfl, rfl⟩, rfl, rfl⟩ := h
  exact ⟨rfl, style, text, rfl⟩

theorem command_ok (h : v.command t lo = .ok n hi) :
    hi = lo ∧ ∃ f a, n = .leaf (.command f a) := by
  unfold command at h
  cases hf : v.registry.find? t.name with
  | none => simp [hf, throw_ne_ok] at h
  | some f =>
    simp only [hf, pure_eq_ok] at h
    exact ⟨h.2.symm, f, _, h.1.symm⟩

theorem assertionHead_ok {f : Feature} {condition : String}
    (h : v.assertionHead t lo = .ok (f, condition, n) hi) :
    hi = lo + 1 ∧ ∃ text, n = .leaf (.message lo .ok text) := by
  simp only [assertionHead, bind_eq_ok, ofExcept_eq_ok, newStatus_eq_ok, pure_eq_ok] at h
  obtain ⟨_, _, ⟨-, rfl⟩, _, _, ⟨-, rfl⟩, text, _, ⟨-, rfl⟩, _, _, ⟨-, rfl⟩, _, _, ⟨rfl, rfl⟩,
    heq, rfl⟩ := h
  cases heq
  exact ⟨rfl, _, rfl⟩

/-- An element becomes a switch, an options node, a message or a command. -/
theorem element_ok (h : element v (.mk t content) lo = .ok n hi) :
    (∃ f ns, switchContent v content lo = .ok ns hi ∧ n = .fresh (.switch f) ns) ∨
    (∃ text ns, optionsContent v t content (lo + 1) = .ok ns hi ∧
      n = .fresh (.options lo text) ns) ∨
    (hi = lo + 1 ∧ ∃ style text, n = .leaf (.message lo style text)) ∨
    (hi = lo ∧ ∃ f a, n = .leaf (.command f a)) := by
  obtain ⟨build, hbuild⟩ : ∃ build, element v (.mk t content) = build := ⟨_, rfl⟩
  rw [hbuild] at h
  rw [element] at hbuild
  split at hbuild <;> subst hbuild
  · simp only [bind_eq_ok, ofExcept_eq_ok, pure_eq_ok] at h
    obtain ⟨f, _, ⟨-, rfl⟩, ns, _, hns, rfl, rfl⟩ := h
    exact .inl ⟨f, ns, hns, rfl⟩
  · simp only [bind_eq_ok, ofExcept_eq_ok, newStatus_eq_ok, pure_eq_ok] at h
    obtain ⟨text, _, ⟨-, rfl⟩, _, _, ⟨rfl, rfl⟩, ns, _, hns, rfl, rfl⟩ := h
    exact .inr (.inl ⟨text, ns, hns, rfl⟩)
  · exact .inr (.inr (.inl (message_ok h)))
  · exact absurd h throw_ne_ok
  · exact absurd h throw_ne_ok
  · exact absurd h throw_ne_ok
  · exact .inr (.inr (.inr (command_ok h)))

/-- A sequence goes on behind its first element, unless that is an assertion: the assertion takes
the rest into its first arm, and its failure message is numbered before the rest. -/
theorem sequence_cons_ok (h : sequence v (o :: rest) lo = .ok ns hi) :
    (∃ f condition text ms, sequence v rest (lo + 1) = .ok ms hi ∧
      ns = [assertion f condition (.leaf (.message lo .ok text)) ms]) ∨
    (∃ n mid ms, element v o lo = .ok n mid ∧ sequence v rest mid = .ok ms hi ∧
      ns = n :: ms) := by
  rw [sequence] at h
  split at h
  · simp only [bind_eq_ok, pure_eq_ok] at h
    obtain ⟨⟨f, condition, failure⟩, _, hhead, ms, _, hms, rfl, rfl⟩ := h
    obtain ⟨rfl, text, rfl⟩ := assertionHead_ok hhead
    exact .inl ⟨f, condition, text, ms, hms, rfl⟩
  · simp only [bind_eq_ok, pure_eq_ok] at h
    obtain ⟨n, mid, hn, ms, _, hms, rfl, rfl⟩ := h
    exact .inr ⟨n, mid, ms, hn, hms, rfl⟩

theorem arms_cons_ok (h : arms v (o :: rest) lo = .ok ns hi) :
    ∃ test mid body ms, armTest o.tag rest.isEmpty = .ok test ∧ v.body o lo = .ok body mid ∧
      arms v rest mid = .ok ms hi ∧ ns = .fresh (.case test) body :: ms := by
  rw [arms] at h
  simp only [bind_eq_ok, ofExcept_eq_ok, pure_eq_ok] at h
  obtain ⟨test, _, ⟨htest, rfl⟩, body, mid, hbody, ms, _, hms, rfl, rfl⟩ := h
  exact ⟨test, mid, body, ms, htest, hbody, hms, rfl⟩

theorem entries_cons_ok (h : entries v (o :: rest) lo = .ok ns hi) :
    ∃ label mid body ms, v.body o lo = .ok body mid ∧ entries v rest mid = .ok ms hi ∧
      ns = .fresh (.option label) body :: ms := by
  rw [entries] at h
  split at h
  · obtain ⟨_, _, hthrow, -⟩ := bind_eq_ok.mp h
    exact absurd hthrow throw_ne_ok
  · simp only [bind_eq_ok, ofExcept_eq_ok, pure_eq_ok] at h
    obtain ⟨label, _, ⟨-, rfl⟩, body, mid, hbody, ms, _, hms, rfl, rfl⟩ := h
    exact ⟨label, mid, body, ms, hbody, hms, rfl⟩

/-- A default arm has no arm behind it. -/
theorem armTest_otherwise {last : Bool} (h : armTest t last = .ok .otherwise) : last = true := by
  unfold armTest at h
  split at h
  · split at h
    · simp at h
    · cases hval : t.require "val" with
      | error e => simp [hval, bind, Except.bind] at h
      | ok val =>
        simp only [hval, bind, Except.bind] at h
        split at h <;> simp at h
  · cases last with
    | true => rfl
    | false => simp at h
  · simp at h

end Vocabulary

/-- The statuses from `lo` on that come before `hi`. -/
def Status.interval (lo hi : Nat) : List Status := (List.range' lo (hi - lo)).map Int.ofNat

theorem Status.mem_interval {s : Int} {lo hi : Nat} :
    s ∈ Status.interval lo hi ↔ (lo : Int) ≤ s ∧ s < hi := by
  simp only [interval, List.mem_map, List.mem_range'_1]
  constructor
  · rintro ⟨k, hk, rfl⟩
    simp only [Int.ofNat_eq_natCast]
    omega
  · intro h
    exact ⟨s.toNat, by omega, by simp only [Int.ofNat_eq_natCast]; omega⟩

theorem Status.nodup_interval (lo hi : Nat) : (Status.interval lo hi).Nodup :=
  List.Nodup.map (fun _ _ h => Int.ofNat.inj h) List.nodup_range'

theorem Status.interval_append {lo mid hi : Nat} (h : lo ≤ mid) (h' : mid ≤ hi) :
    Status.interval lo mid ++ Status.interval mid hi = Status.interval lo hi := by
  have hmid : mid = lo + 1 * (mid - lo) := by omega
  have hlen : mid - lo + (hi - mid) = hi - lo := by omega
  have happ : List.range' lo (mid - lo) ++ List.range' (lo + 1 * (mid - lo)) (hi - mid) =
      List.range' lo (mid - lo + (hi - mid)) := List.range'_append
  rw [← hmid, hlen] at happ
  rw [interval, interval, interval, ← List.map_append, happ]

theorem Status.interval_succ (lo : Nat) : Status.interval lo (lo + 1) = [(lo : Int)] := by
  simp [interval]

/-- What holds of nodes built side by side while the count went from `lo` to `hi`. -/
structure Built (lo hi : Nat) (ns : List Node) : Prop where
  le : lo ≤ hi
  wellFormed : ∀ n ∈ ns, n.WellFormed
  fresh : ∀ n ∈ ns, n.Fresh
  numbered : (Node.statusesIn ns).Perm (Status.interval lo hi)

namespace Built

variable {n : Node} {ns : List Node} {kind : NodeKind} {lo mid hi : Nat}

theorem nil (lo : Nat) : Built lo lo [] :=
  ⟨Nat.le_refl lo, by simp, by simp, by simp [Node.statusesIn, Status.interval]⟩

theorem cons (hn : Built lo mid [n]) (hns : Built mid hi ns) : Built lo hi (n :: ns) where
  le := Nat.le_trans hn.le hns.le
  wellFormed := by
    intro m hm
    rcases List.mem_cons.mp hm with rfl | hm
    · exact hn.wellFormed m (by simp)
    · exact hns.wellFormed m hm
  fresh := by
    intro m hm
    rcases List.mem_cons.mp hm with rfl | hm
    · exact hn.fresh m (by simp)
    · exact hns.fresh m hm
  numbered := by
    have happ := hn.numbered.append hns.numbered
    rw [Status.interval_append hn.le hns.le] at happ
    simpa [Node.statusesIn] using happ

/-- A node is built from children once its own status is counted with theirs. -/
theorem node (hkind : kind.Admits (ns.map Node.kind)) (hns : Built mid hi ns) (hle : lo ≤ hi)
    (hnumbered : (kind.status?.toList ++ Node.statusesIn ns).Perm (Status.interval lo hi)) :
    Built lo hi [.fresh kind ns] where
  le := hle
  wellFormed := by
    intro m hm
    rw [List.mem_singleton.mp hm]
    exact Node.wellFormed_mk.mpr ⟨hkind, hns.wellFormed⟩
  fresh := by
    intro m hm
    rw [List.mem_singleton.mp hm]
    exact Node.fresh_mk.mpr ⟨rfl, hns.fresh⟩
  numbered := by
    simpa [Node.statusesIn, Node.statuses, Node.fresh] using hnumbered

/-- A node that suspends nothing has the statuses of its children. -/
theorem parent (hstatus : kind.status? = none) (hkind : kind.Admits (ns.map Node.kind))
    (hns : Built lo hi ns) : Built lo hi [.fresh kind ns] := by
  apply node hkind hns hns.le
  rw [hstatus]
  exact hns.numbered

/-- A suspend point takes the first status and leaves the others to its children. -/
theorem suspending (hstatus : kind.status? = some (lo : Int))
    (hkind : kind.Admits (ns.map Node.kind)) (hns : Built (lo + 1) hi ns) :
    Built lo hi [.fresh kind ns] := by
  apply node hkind hns (Nat.le_of_succ_le hns.le)
  rw [← Status.interval_append (Nat.le_succ lo) hns.le, Status.interval_succ, hstatus]
  exact hns.numbered.cons _

theorem message (lo : Nat) (style : MessageStyle) (text : String) :
    Built lo (lo + 1) [.leaf (.message lo style text)] :=
  suspending rfl rfl (nil (lo + 1))

theorem command (lo : Nat) (f : Feature) (a : Arguments) : Built lo lo [.leaf (.command f a)] :=
  parent rfl rfl (nil lo)

/-- The failure message of an assertion is numbered before the arm in front of it. -/
theorem assertion {ms : List Node} {f : Feature} {condition text : String}
    (harms : ∀ k ∈ ms.map Node.kind, k.isArm = false) (hms : Built (lo + 1) hi ms) :
    Built lo hi [Vocabulary.assertion f condition (.leaf (.message lo .ok text)) ms] := by
  have hholds : Built (lo + 1) hi [.fresh (.case (.condition condition)) ms] :=
    parent rfl harms hms
  have hfails : Built lo (lo + 1) [.fresh (.case .otherwise) [.leaf (.message lo .ok text)]] :=
    parent rfl (by simp [NodeKind.Admits, Node.leaf, Node.fresh, Node.kind, NodeKind.isArm])
      (message lo .ok text)
  refine parent rfl ⟨by simp [Node.fresh, Node.kind], by simp [Node.fresh, Node.kind]⟩
    ⟨Nat.le_of_succ_le hms.le, ?_, ?_, ?_⟩
  · simpa using ⟨hholds.wellFormed _ (by simp), hfails.wellFormed _ (by simp)⟩
  · simpa using ⟨hholds.fresh _ (by simp), hfails.fresh _ (by simp)⟩
  · rw [← Status.interval_append (Nat.le_succ lo) hms.le]
    refine List.Perm.trans ?_ (hfails.numbered.append hholds.numbered)
    simp only [Node.statusesIn, List.append_nil]
    exact List.perm_append_comm

end Built

namespace Vocabulary

variable {v : Vocabulary}

mutual

theorem element_built :
    ∀ (o : Outline) {lo hi : Nat} {n : Node}, element v o lo = .ok n hi →
      n.kind.isArm = false ∧ Built lo hi [n]
  | .mk t content, lo, hi, n, h => by
    rcases element_ok h with ⟨f, ns, hns, rfl⟩ | ⟨text, ns, hns, rfl⟩ | ⟨rfl, style, text, rfl⟩ |
      ⟨rfl, f, a, rfl⟩
    · obtain ⟨hcases, hlast, hbuilt⟩ := switchContent_built content hns
      exact ⟨rfl, .parent rfl ⟨hcases, hlast⟩ hbuilt⟩
    · obtain ⟨hne, hoptions, hbuilt⟩ := optionsContent_built t content hns
      exact ⟨rfl, .suspending rfl ⟨by simpa using hne, hoptions⟩ hbuilt⟩
    · exact ⟨rfl, .message lo style text⟩
    · exact ⟨rfl, .command _ f a⟩

theorem sequence_built :
    ∀ (os : List Outline) {lo hi : Nat} {ns : List Node}, sequence v os lo = .ok ns hi →
      (∀ k ∈ ns.map Node.kind, k.isArm = false) ∧ Built lo hi ns
  | [], lo, hi, ns, h => by
    obtain ⟨rfl, rfl⟩ := pure_eq_ok.mp h
    exact ⟨by simp, .nil lo⟩
  | o :: rest, lo, hi, ns, h => by
    rcases sequence_cons_ok h with ⟨f, condition, text, ms, hms, rfl⟩ | ⟨n, mid, ms, hn, hms, rfl⟩
    · obtain ⟨harms, hbuilt⟩ := sequence_built rest hms
      exact ⟨by simp [assertion, Node.fresh, Node.kind, NodeKind.isArm], .assertion harms hbuilt⟩
    · obtain ⟨harm, hfirst⟩ := element_built o hn
      obtain ⟨harms, hbuilt⟩ := sequence_built rest hms
      exact ⟨List.forall_mem_cons.mpr ⟨harm, harms⟩, hfirst.cons hbuilt⟩

theorem body_built :
    ∀ (o : Outline) {lo hi : Nat} {ns : List Node}, body v o lo = .ok ns hi →
      (∀ k ∈ ns.map Node.kind, k.isArm = false) ∧ Built lo hi ns
  | .mk _ content, _, _, _, h => sequenceContent_built content h

theorem arms_built :
    ∀ (os : List Outline) {lo hi : Nat} {ns : List Node}, arms v os lo = .ok ns hi →
      (∀ k ∈ ns.map Node.kind, ∃ test, k = .case test) ∧
        (∀ k ∈ (ns.map Node.kind).dropLast, k ≠ .case .otherwise) ∧ Built lo hi ns
  | [], lo, hi, ns, h => by
    obtain ⟨rfl, rfl⟩ := pure_eq_ok.mp h
    exact ⟨by simp, by simp, .nil lo⟩
  | o :: rest, lo, hi, ns, h => by
    obtain ⟨test, mid, inner, ms, htest, hbody, hms, rfl⟩ := arms_cons_ok h
    obtain ⟨harms, hinner⟩ := body_built o hbody
    obtain ⟨hcases, hlast, hbuilt⟩ := arms_built rest hms
    have harm : Built lo mid [.fresh (.case test) inner] := .parent rfl harms hinner
    refine ⟨by simpa [Node.fresh, Node.kind] using hcases, ?_, harm.cons hbuilt⟩
    intro k hk
    cases ms with
    | nil => simp at hk
    | cons m ms =>
      rcases List.mem_cons.mp hk with rfl | hk
      · intro hotherwise
        have hempty := armTest_otherwise ((NodeKind.case.inj hotherwise) ▸ htest)
        rw [List.isEmpty_iff.mp hempty] at hms
        simpa using (pure_eq_ok.mp hms).1
      · exact hlast k hk

theorem entries_built :
    ∀ (os : List Outline) {lo hi : Nat} {ns : List Node}, entries v os lo = .ok ns hi →
      (os ≠ [] → ns ≠ []) ∧ (∀ k ∈ ns.map Node.kind, ∃ label, k = .option label) ∧ Built lo hi ns
  | [], lo, hi, ns, h => by
    obtain ⟨rfl, rfl⟩ := pure_eq_ok.mp h
    exact ⟨by simp, by simp, .nil lo⟩
  | o :: rest, lo, hi, ns, h => by
    obtain ⟨label, mid, inner, ms, hbody, hms, rfl⟩ := entries_cons_ok h
    obtain ⟨harms, hinner⟩ := body_built o hbody
    obtain ⟨-, hoptions, hbuilt⟩ := entries_built rest hms
    have hentry : Built lo mid [.fresh (.option label) inner] := .parent rfl harms hinner
    exact ⟨by simp, by simpa [Node.fresh, Node.kind] using hoptions, hentry.cons hbuilt⟩

theorem sequenceContent_built :
    ∀ (content : Except Fault (List Outline)) {lo hi : Nat} {ns : List Node},
      sequenceContent v content lo = .ok ns hi →
        (∀ k ∈ ns.map Node.kind, k.isArm = false) ∧ Built lo hi ns
  | .ok os, _, _, _, h => sequence_built os h
  | .error _, _, _, _, h => absurd h throw_ne_ok

theorem switchContent_built :
    ∀ (content : Except Fault (List Outline)) {lo hi : Nat} {ns : List Node},
      switchContent v content lo = .ok ns hi →
        (∀ k ∈ ns.map Node.kind, ∃ test, k = .case test) ∧
          (∀ k ∈ (ns.map Node.kind).dropLast, k ≠ .case .otherwise) ∧ Built lo hi ns
  | .ok os, _, _, _, h => arms_built os h
  | .error _, _, _, _, h => absurd h throw_ne_ok

theorem optionsContent_built (t : Tag) :
    ∀ (content : Except Fault (List Outline)) {lo hi : Nat} {ns : List Node},
      optionsContent v t content lo = .ok ns hi →
        ns ≠ [] ∧ (∀ k ∈ ns.map Node.kind, ∃ label, k = .option label) ∧ Built lo hi ns
  | .ok [], _, _, _, h => absurd h throw_ne_ok
  | .ok (o :: os), _, _, _, h => by
    obtain ⟨hne, hoptions, hbuilt⟩ := entries_built (o :: os) h
    exact ⟨hne (by simp), hoptions, hbuilt⟩
  | .error _, _, _, _, h => absurd h throw_ne_ok

end

/-- The graph of a scene is well-formed and fresh, and its suspend points share out the statuses
from 0 up to the count. -/
theorem scene_built {content : Element} {root : Node} {count : Nat}
    (h : v.scene content 0 = .ok root count) : Built 0 count [root] := by
  simp only [scene, elements, bind_eq_ok, pure_eq_ok] at h
  obtain ⟨ns, _, hns, rfl, rfl⟩ := h
  obtain ⟨harms, hbuilt⟩ := sequenceContent_built _ hns
  exact .parent rfl harms hbuilt

theorem scene_kind {content : Element} {root : Node} {count : Nat}
    (h : v.scene content 0 = .ok root count) : root.kind = .block := by
  simp only [scene, elements, bind_eq_ok, pure_eq_ok] at h
  obtain ⟨ns, _, -, rfl, -⟩ := h
  rfl

end Vocabulary

/-! ### Scenes in a small vocabulary -/

namespace Sample

def element (name : String) (attributes : List Attribute) (children : List Element) : Element :=
  .mk ⟨name, .ofList attributes, "", .synthetic⟩ children

def job : Feature := ⟨"switch_job", "$x", none, .switch "$.getJob()"⟩

def give : Feature := ⟨"give", "$.gainMeso($x)", none, .plain⟩

def registry : Registry where
  manager := "cm"
  features := .ofList
    [job, give, ⟨"dlg_Next", "$.sendNext($x)", none, .plain⟩,
      ⟨"dlg_Options", "$.sendSimple($x)", none, .plain⟩]

def vocabulary : Vocabulary := ⟨registry, .empty⟩

def gift (amount : String) : Node := .leaf (.command give ⟨some amount, none, none⟩)

def say (style text : String) : Element :=
  element "message" [⟨"style", style⟩, ⟨"text", text⟩] []

def promotion : Element :=
  element "assert" [⟨"type", "job"⟩, ⟨"cond", "$x > 100"⟩, ⟨"onFail", "no"⟩] []

/-- Words for every kind of suspend point. -/
def fullRegistry : Registry where
  manager := "cm"
  features := .ofList
    [job, give, ⟨"dlg_Next", "$.sendNext($x)", none, .plain⟩,
      ⟨"dlg_PrevNext", "$.sendNextPrev($x)", none, .plain⟩,
      ⟨"dlg_YesNo", "$.sendYesNo($x)", none, .plain⟩, ⟨"dlg_Ok", "$.sendOk($x)", none, .plain⟩,
      ⟨"dlg_Options", "$.sendSimple($x)", none, .plain⟩,
      ⟨"special_End", "$.dispose()", none, .plain⟩]

def fullVocabulary : Vocabulary := ⟨fullRegistry, .empty⟩

/-- Two assertions, with a prompt between them and sections around and behind it. -/
def quest : Element :=
  element "ifndef" [⟨"name", "shop"⟩]
    [say "n" "hi", promotion,
      element "options" [⟨"text", "pick"⟩]
        [element "option" [⟨"text", "talk"⟩] [say "n" "well"],
          element "option" [⟨"text", "leave"⟩] []],
      element "ifdef" [⟨"name", "shop"⟩] [say "n" "closed"], promotion, say "ok" "done"]

def questGraph : Node :=
  .fresh .block
    [.leaf (.message 0 .next "hi"),
      Vocabulary.assertion job "$x > 100" (.leaf (.message 1 .ok "no"))
        [.fresh (.options 2 "pick")
          [.fresh (.option "talk") [.leaf (.message 3 .next "well")], .fresh (.option "leave") []],
          Vocabulary.assertion job "$x > 100" (.leaf (.message 4 .ok "no"))
            [.leaf (.message 5 .ok "done")]]]

theorem quest_builds : fullVocabulary.scene quest 0 = .ok questGraph 6 := rfl

-- the failure of an assertion is numbered before what the assertion guards
example : Built 0 6 [questGraph] := Vocabulary.scene_built quest_builds

/-- A prompt whose first entry asks for a yes, and two messages behind it. The second can be turned
back. -/
def offer : Element :=
  element "ifndef" [⟨"name", "shop"⟩]
    [element "options" [⟨"text", "pick"⟩]
      [element "option" [⟨"text", "buy"⟩]
        [element "message" [⟨"style", "yn"⟩, ⟨"text", "sure?"⟩, ⟨"no", "bye"⟩] [],
          element "give" [⟨"x", "5"⟩] []],
        element "option" [⟨"text", "look"⟩] []],
      say "n" "well", say "pn" "done"]

def offerGraph : Node :=
  .fresh .block
    [.fresh (.options 0 "pick")
      [.fresh (.option "buy") [.leaf (.message 1 (.yesNo "bye") "sure?"), gift "5"],
        .fresh (.option "look") []],
      .leaf (.message 2 .next "well"), .leaf (.message 3 .previousNext "done")]

theorem offer_builds : fullVocabulary.scene offer 0 = .ok offerGraph 4 := rfl

end Sample

end SceneDispatch
