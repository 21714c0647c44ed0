import SceneDispatch.Proofs.Script.Emission
import SceneDispatch.Proofs.Script.Listing
/-!
The groups of a draft, one by one. What a graph makes the draft do is one list of actions in the
order of a depth-first walk, each under a context. Main statement: for every graph, also for one
that no scene builds, the groups are the contexts in the order in which they are touched, and each
holds what the actions write under its context.
-/
namespace SceneDispatch

/-- A step of drafting a graph. -/
inductive Action where
  /-- Makes sure that there is a group for the context. -/
  | touch (context : StatusContext)
  /-- Writes the lines for which the node at `origin` is there. -/
  | emit (context : StatusContext) (origin : Path) (statements : List Statement)
  /-- Writes headers and braces, and what is done on a refusal. -/
  | frame (context : StatusContext) (statements : List Statement)

namespace Action

def context : Action → StatusContext
  | touch c => c
  | emit c _ _ => c
  | frame c _ => c

def statements : Action → List Statement
  | touch _ => []
  | emit _ _ xs => xs
  | frame _ xs => xs

/-- The contexts that are touched, one after another. -/
def touched : List Action → List StatusContext
  | [] => []
  | touch c :: as => c :: touched as
  | _ :: as => touched as

/-- What is written under a context. -/
def written (c : StatusContext) (as : List Action) : List Statement :=
  (as.filter (·.context = c)).flatMap statements

/-- The lines of the nodes in the order of writing, with their node and the context that they are
written under. -/
def emitted : List Action → List (Path × StatusContext × Statement)
  | [] => []
  | emit c p xs :: as => xs.map (fun x => (p, c, x)) ++ emitted as
  | _ :: as => emitted as

end Action

/-- The lines for which a node is there. Only commands and suspend points have any. -/
def Registry.lines (r : Registry) (n : Node) : List Statement :=
  match n.kind with
  | .command f a => [r.statement f a]
  | _ => r.display n

namespace Node

mutual

/-- What a node makes the draft do, from the place `p` on down. -/
def actions (r : Registry) (back : Option Status) (p : Path) : Node → List Action
  | mk kind c ns =>
    .touch c ::
    match kind with
    | .block | .case _ | .option _ => serialActions r .start p 0 ns
    | .switch f => branchActions r c (fun _ n => r.condition f n.test) .start p 0 ns
    | .command f a => [.emit c p [r.statement f a]]
    | .message status style text =>
      [.emit c p (.setStatus status :: r.shown style text ++ [.leave]),
        .touch (.singleton status), .frame (.singleton status) (r.refusal back style)]
    | .options status text =>
      .emit c p (.setStatus status :: r.prompted text ns ++ [.leave]) ::
      .touch (.singleton status) ::
      branchActions r (.singleton status) (fun i _ => some (.selected i)) .start p 0 ns

/-- What siblings make the draft do that run one after another, numbered from `i`. -/
def serialActions (r : Registry) (back : Status) (p : Path) (i : Nat) : List Node → List Action
  | [] => []
  | n :: ns =>
    actions r (some back) (p ++ [i]) n ++
      serialActions r (Drafting.backAfter back n) p (i + 1) ns

/-- What the arms of a fork make the draft do, numbered from `i`: headers and braces under `c`, and
what the arm itself does between its braces. -/
def branchActions (r : Registry) (c : StatusContext) (guard : Nat → Node → Option Condition)
    (back : Status) (p : Path) (i : Nat) : List Node → List Action
  | [] => []
  | n :: ns =>
    .frame c (Condition.header (i = 0) (guard i n)) :: .frame c [.opening] ::
      (actions r (some back) (p ++ [i]) n ++
        .frame c [.closing] :: branchActions r c guard (Drafting.backAfter back n) p (i + 1) ns)

end

mutual

/-- The nodes that are visited, depth first. What stands below a message or a command is not. -/
def visited (p : Path) : Node → List (Path × Node)
  | mk kind c ns => (p, mk kind c ns) :: if kind.hasChildren then visitedIn p 0 ns else []

def visitedIn (p : Path) (i : Nat) : List Node → List (Path × Node)
  | [] => []
  | n :: ns => visited (p ++ [i]) n ++ visitedIn p (i + 1) ns

end

end Node

/-! ### The order of the visit -/

namespace Node

mutual

theorem mem_visited : ∀ {n : Node} {p a : Path} {m : Node},
    (a, m) ∈ n.visited p ↔ ∃ q, a = p ++ q ∧ n.at? q = some m ∧ n.Visits q
  | mk kind c ns, p, a, m => by
    rw [visited, List.mem_cons]
    constructor
    · rintro (heq | hbelow)
      · cases heq
        exact ⟨[], by simp, rfl, visits_nil _⟩
      · split at hbelow
        · next hkind =>
          obtain ⟨j, n, q, hn, rfl, hm, hq⟩ := mem_visitedIn.mp hbelow
          refine ⟨j :: q, by simp, at?_cons_of_getElem? hn hm, visits_cons.mpr ⟨hkind, ?_⟩⟩
          intro child hchild
          obtain rfl := Option.some.inj (hn.symm.trans hchild)
          exact hq
        · cases hbelow
    · rintro ⟨q, rfl, hm, hq⟩
      cases q with
      | nil =>
        obtain rfl := Option.some.inj hm
        exact .inl (by simp)
      | cons j q =>
        obtain ⟨hkind, hbelow⟩ := visits_cons.mp hq
        obtain ⟨child, hchild, hm⟩ := Option.bind_eq_some_iff.mp hm
        rw [if_pos (show kind.hasChildren = true from hkind)]
        exact .inr (mem_visitedIn.mpr ⟨j, child, q, hchild, by simp, hm, hbelow child hchild⟩)

theorem mem_visitedIn : ∀ {ns : List Node} {p a : Path} {i : Nat} {m : Node},
    (a, m) ∈ visitedIn p i ns ↔ ∃ j n q, ns[j]? = some n ∧ a = p ++ (i + j) :: q ∧
      n.at? q = some m ∧ n.Visits q
  | [], _, _, _, _ => by simp [visitedIn]
  | n :: ns, p, a, i, m => by
    rw [visitedIn, List.mem_append, mem_visited, mem_visitedIn]
    constructor
    · rintro (⟨q, rfl, hm, hq⟩ | ⟨j, n', q, hn', rfl, hm, hq⟩)
      · exact ⟨0, n, q, rfl, by simp, hm, hq⟩
      · exact ⟨j + 1, n', q, hn', by rw [Nat.add_right_comm, Nat.add_assoc], hm, hq⟩
    · rintro ⟨j, n', q, hn', rfl, hm, hq⟩
      cases j with
      | zero =>
        obtain rfl := Option.some.inj hn'
        exact .inl ⟨q, by simp, hm, hq⟩
      | succ j => exact .inr ⟨j, n', q, hn', by rw [Nat.add_right_comm, Nat.add_assoc], hm, hq⟩

end

mutual

/-- Nodes are visited in the order of their paths. -/
theorem visited_sorted : ∀ (n : Node) (p : Path),
    ((n.visited p).map Prod.fst).Pairwise (· < ·)
  | mk kind c ns, p => by
    rw [visited, List.map_cons, List.pairwise_cons]
    split
    · refine ⟨?_, visitedIn_sorted ns p 0⟩
      intro a ha
      obtain ⟨⟨_, m⟩, hmem, rfl⟩ := List.mem_map.mp ha
      obtain ⟨j, n, q, -, rfl, -, -⟩ := mem_visitedIn.mp hmem
      have hlt : p ++ [] < p ++ (0 + j) :: q := List.append_left_lt (List.nil_lt_cons _ _)
      rwa [List.append_nil] at hlt
    · simp

theorem visitedIn_sorted : ∀ (ns : List Node) (p : Path) (i : Nat),
    ((visitedIn p i ns).map Prod.fst).Pairwise (· < ·)
  | [], _, _ => by simp [visitedIn]
  | n :: ns, p, i => by
    rw [visitedIn, List.map_append, List.pairwise_append]
    refine ⟨visited_sorted n _, visitedIn_sorted ns p (i + 1), ?_⟩
    intro a ha b hb
    obtain ⟨⟨_, m⟩, hmem, rfl⟩ := List.mem_map.mp ha
    obtain ⟨⟨_, m'⟩, hmem', rfl⟩ := List.mem_map.mp hb
    obtain ⟨q, rfl, -, -⟩ := mem_visited.mp hmem
    obtain ⟨j, n', q', -, rfl, -, -⟩ := mem_visitedIn.mp hmem'
    have hindex : i < i + 1 + j := by omega
    rw [List.append_assoc]
    exact List.append_left_lt (List.cons_lt_cons_iff.mpr (.inl hindex))

end

end Node

/-! ### What holds of the actions of a graph -/

namespace Action

variable {c : StatusContext} {as bs : List Action}

theorem written_append (c : StatusContext) (as bs : List Action) :
    written c (as ++ bs) = written c as ++ written c bs := by
  simp [written]

theorem written_cons (c : StatusContext) (a : Action) (as : List Action) :
    written c (a :: as) = (if a.context = c then a.statements else []) ++ written c as := by
  by_cases hc : a.context = c <;> simp [written, hc]

theorem emitted_append (as bs : List Action) : emitted (as ++ bs) = emitted as ++ emitted bs := by
  induction as with
  | nil => rfl
  | cons a as ih => cases a <;> simp [emitted, ih]

/-- Nothing is written under a context that is neither known nor touched before. -/
def Tended (known : List StatusContext) : List Action → Prop
  | [] => True
  | touch c :: as => Tended (known ++ [c]) as
  | a :: as => a.context ∈ known ∧ Tended known as

theorem Tended.mono : ∀ {as : List Action} {known more : List StatusContext}, Tended known as →
    known ⊆ more → Tended more as
  | [], _, _, _, _ => trivial
  | touch c :: as, known, more, h, hmore => by
    have hrest : Tended (known ++ [c]) as := h
    exact hrest.mono (List.append_subset.mpr
      ⟨List.Subset.trans hmore (List.subset_append_left _ _), List.subset_append_right _ _⟩)
  | emit .. :: _, _, _, h, hmore => ⟨hmore h.1, h.2.mono hmore⟩
  | frame .. :: _, _, _, h, hmore => ⟨hmore h.1, h.2.mono hmore⟩

theorem Tended.append : ∀ {as bs : List Action} {known : List StatusContext}, Tended known as →
    Tended known bs → Tended known (as ++ bs)
  | [], _, _, _, hbs => hbs
  | touch c :: as, _, known, has, hbs => by
    have hrest : Tended (known ++ [c]) as := has
    exact hrest.append (hbs.mono (List.subset_append_left known [c]))
  | emit .. :: _, _, _, has, hbs => ⟨has.1, has.2.append hbs⟩
  | frame .. :: _, _, _, has, hbs => ⟨has.1, has.2.append hbs⟩

theorem eraseDups_append_cons {known : List StatusContext} (h : c ∈ known)
    (cs : List StatusContext) : (known ++ c :: cs).eraseDups = (known ++ cs).eraseDups := by
  have hremove : (c :: cs).removeAll known = cs.removeAll known := by
    simp [List.removeAll, h]
  rw [List.eraseDups_append, List.eraseDups_append, hremove]

/-- Where actions are tended, only touching brings up a new context. -/
theorem Tended.eraseDups_eq : ∀ {as : List Action} {known : List StatusContext},
    Tended known as → (known ++ as.map context).eraseDups = (known ++ touched as).eraseDups
  | [], _, _ => rfl
  | touch c :: as, known, h => by
    have hrest : Tended (known ++ [c]) as := h
    simpa [touched, context] using hrest.eraseDups_eq
  | emit .. :: as, known, h => (eraseDups_append_cons h.1 _).trans h.2.eraseDups_eq
  | frame .. :: as, known, h => (eraseDups_append_cons h.1 _).trans h.2.eraseDups_eq

/-- What holds of the actions for a part of a graph, when some contexts are known. The nodes
visited there are `vs`. -/
structure Orderly (r : Registry) (known : List StatusContext) (vs : List (Path × Node))
    (as : List Action) : Prop where
  tended : Tended known as
  nested : ∀ c, Statement.Nested (written c as)
  emitted_eq : emitted as =
    vs.flatMap fun v => (r.lines v.2).map fun x => (v.1, v.2.context, x)

section Orderly

variable {r : Registry} {known : List StatusContext} {vs ws : List (Path × Node)} {n : Node}
  {p : Path} {xs : List Statement}

theorem orderly_nil : Orderly r known [] [] := ⟨trivial, fun _ => .nil, rfl⟩

theorem Orderly.append (has : Orderly r known vs as) (hbs : Orderly r known ws bs) :
    Orderly r known (vs ++ ws) (as ++ bs) where
  tended := has.tended.append hbs.tended
  nested c := by
    rw [written_append]
    exact (has.nested c).append (hbs.nested c)
  emitted_eq := by rw [emitted_append, has.emitted_eq, hbs.emitted_eq, List.flatMap_append]

theorem nested_written_cons {a : Action} (ha : Statement.Nested a.statements)
    (h : ∀ c, Statement.Nested (written c as)) (c : StatusContext) :
    Statement.Nested (written c (a :: as)) := by
  rw [written_cons]
  split
  · exact ha.append (h c)
  · exact h c

theorem Orderly.touch (h : Orderly r (known ++ [c]) vs as) :
    Orderly r known vs (.touch c :: as) :=
  ⟨h.tended, nested_written_cons .nil h.nested, h.emitted_eq⟩

theorem Orderly.frame (hc : c ∈ known) (hxs : Statement.Nested xs) (h : Orderly r known vs as) :
    Orderly r known vs (.frame c xs :: as) :=
  ⟨⟨hc, h.tended⟩, nested_written_cons hxs h.nested, h.emitted_eq⟩

/-- The braces around what an arm does stand under one context. -/
theorem Orderly.braces (hc : c ∈ known) (h : Orderly r known vs as) :
    Orderly r known vs (.frame c [.opening] :: (as ++ [.frame c [.closing]])) where
  tended := ⟨hc, h.tended.append ⟨hc, trivial⟩⟩
  nested k := by
    by_cases hk : c = k
    · have hbraces := (h.nested k).braces
      simpa [written_cons, written_append, context, statements, hk, written] using hbraces
    · have hnested := h.nested k
      simpa [written_cons, written_append, context, statements, hk, written] using hnested
  emitted_eq := by simp [emitted, emitted_append, h.emitted_eq]

theorem Orderly.emit (hc : n.context ∈ known) (hxs : Statement.Nested (r.lines n))
    (h : Orderly r known vs as) :
    Orderly r known ((p, n) :: vs) (.emit n.context p (r.lines n) :: as) where
  tended := ⟨hc, h.tended⟩
  nested := nested_written_cons hxs h.nested
  emitted_eq := by rw [emitted, h.emitted_eq, List.flatMap_cons]

/-- Nodes without lines of their own are only passed. -/
theorem Orderly.pass (hn : r.lines n = []) (h : Orderly r known vs as) :
    Orderly r known ((p, n) :: vs) as where
  tended := h.tended
  nested := h.nested
  emitted_eq := by simp [h.emitted_eq, hn]

end Orderly

end Action

namespace Registry

open Statement

theorem nested_builtIn (r : Registry) (name : String) (a : Arguments) :
    Nested (r.builtIn name a) := by
  unfold builtIn
  split
  · exact .line (isBrace_terminated _)
  · exact .nil

theorem nested_shown (r : Registry) (style : MessageStyle) (text : String) :
    Nested (r.shown style text) := by
  unfold shown
  split
  · exact (r.nested_builtIn _ _).append (r.nested_builtIn _ _)
  · exact (r.nested_builtIn _ _).append .nil

theorem nested_lines (r : Registry) (n : Node) : Nested (r.lines n) := by
  have hsuspend : ∀ (status : Status) {xs : List Statement}, Nested xs →
      Nested (.setStatus status :: xs ++ [.leave]) := by
    intro status xs hxs
    exact (Nested.line (x := .setStatus status) rfl).append (hxs.append (.line rfl))
  unfold lines display
  cases n.kind with
  | command f a => exact .line (isBrace_terminated _)
  | message status style text => exact hsuspend status (r.nested_shown _ _)
  | options status text => exact hsuspend status (r.nested_builtIn _ _)
  | _ => exact .nil

theorem nested_refusal (r : Registry) (back : Option Status) (style : MessageStyle) :
    Nested (r.refusal back style) := by
  have hrefused : ∀ {xs : List Statement}, Nested xs →
      Nested (.branch .refused :: .opening :: xs ++ [.closing]) := by
    intro xs hxs
    exact (Nested.line (x := .branch .refused) rfl).append hxs.braces
  cases style with
  | next => exact .nil
  | ok => exact .nil
  | previousNext =>
    cases back with
    | none => exact .nil
    | some previous =>
      have hback : Nested [.setStatus previous, .redispatch, .leave] :=
        nested_of_no_brace (by simp [isBrace])
      exact hrefused hback
  | yesNo text =>
    have hshown := r.nested_builtIn MessageStyle.ok.featureName (.single (Text.quote text))
    have hended := r.nested_builtIn Drafting.endFeature .empty
    simpa [refusal] using hrefused ((hshown.append hended).append (.line (x := .leave) rfl))

end Registry

theorem Condition.nested_header (first : Bool) (condition : Option Condition) :
    Statement.Nested (header first condition) := by
  cases condition with
  | none =>
    cases first with
    | true => exact .nil
    | false => exact .line rfl
  | some condition => cases first <;> exact .line rfl

namespace Node

variable {r : Registry}

mutual

theorem actions_orderly : ∀ (n : Node) (back : Option Status) (p : Path)
    (known : List StatusContext), Action.Orderly r known (n.visited p) (n.actions r back p)
  | mk kind c ns, back, p, known => by
    have hc : c ∈ known ++ [c] := by simp
    have hlines := r.nested_lines (mk kind c ns)
    cases kind with
    | block => exact ((serialActions_orderly ns .start p 0 _).pass rfl).touch
    | case test => exact ((serialActions_orderly ns .start p 0 _).pass rfl).touch
    | option label => exact ((serialActions_orderly ns .start p 0 _).pass rfl).touch
    | switch f => exact ((branchActions_orderly _ ns .start p 0 hc).pass rfl).touch
    | command f a => exact (Action.orderly_nil.emit hc hlines).touch
    | message status style text =>
      have hstatus : OrderedSet.singleton status ∈ known ++ [c] ++ [.singleton status] := by simp
      have hrefusal := (Action.orderly_nil (r := r)).frame hstatus (r.nested_refusal back style)
      exact (hrefusal.touch.emit hc hlines).touch
    | options status text =>
      have hstatus : OrderedSet.singleton status ∈ known ++ [c] ++ [.singleton status] := by simp
      have hentries := branchActions_orderly (fun i _ => some (.selected i)) ns .start p 0 hstatus
      exact (hentries.touch.emit hc hlines).touch

theorem serialActions_orderly : ∀ (ns : List Node) (back : Status) (p : Path) (i : Nat)
    (known : List StatusContext),
    Action.Orderly r known (visitedIn p i ns) (serialActions r back p i ns)
  | [], _, _, _, _ => Action.orderly_nil
  | n :: ns, _, p, i, known =>
    (actions_orderly n _ _ known).append (serialActions_orderly ns _ p (i + 1) known)

theorem branchActions_orderly {c : StatusContext} (guard : Nat → Node → Option Condition) :
    ∀ (ns : List Node) (back : Status) (p : Path) (i : Nat) {known : List StatusContext},
    c ∈ known → Action.Orderly r known (visitedIn p i ns) (branchActions r c guard back p i ns)
  | [], _, _, _, _, _ => Action.orderly_nil
  | n :: ns, back, p, i, known, hc => by
    have hfirst := (actions_orderly n (some back) (p ++ [i]) known).braces hc
    have hrest := branchActions_orderly guard ns (Drafting.backAfter back n) p (i + 1) hc
    have hboth := (hfirst.append hrest).frame hc
      (Condition.nested_header (decide (i = 0)) (guard i n))
    simpa [branchActions, visitedIn] using hboth

end

end Node

/-! ### Drafting does what the actions say -/

/-- An action as an emission; for whom it is written does not matter to the groups. -/
def Action.emission (a : Action) : Emission := ⟨a.context, [], a.statements⟩

/-- Touching a group that is written to next changes nothing. -/
theorem Draft.Holds.touch_before {d : Draft} {es : List Emission} {c : StatusContext} {p : Path}
    {xs : List Statement} (h : d.Holds (es ++ [⟨c, p, xs⟩])) :
    d.Holds (es ++ [⟨c, p, []⟩, ⟨c, p, xs⟩]) := by
  have hcontexts : Emission.contexts (es ++ [⟨c, p, []⟩] ++ [⟨c, p, xs⟩]) =
      Emission.contexts (es ++ [⟨c, p, xs⟩]) := by
    have hmem : c ∈ Emission.contexts (es ++ [⟨c, p, []⟩]) := Emission.mem_contexts_concat
    rw [Emission.contexts_concat_of_mem (e := ⟨c, p, xs⟩) hmem]
    simp [Emission.contexts]
  rw [List.append_cons]
  simp only [Draft.Holds, Emission.collect, hcontexts] at h ⊢
  rw [h]
  apply List.map_congr_left
  intro k _
  by_cases hk : c = k <;> simp [hk]

namespace Drafting

variable {r : Registry}

mutual

theorem node_acts : ∀ {n : Node} {place : Option Place} {back : Option Status} {p : Path}
    {es : List Emission} {u : Unit} {d d' : Draft}, Leads place n back → d.Holds es →
    node r place n d = .ok u d' → d'.Holds (es ++ (n.actions r back p).map Action.emission)
  | .mk kind c ns, place, back, p, es, u, d, d', hback, hd, h => by
    simp only [node, bind_eq_ok, touch_ok] at h
    obtain ⟨_, _, rfl, h⟩ := h
    have htouched : (d.touch c).Holds (es ++ [⟨c, [], []⟩]) := hd.touch
    have hc : c ∈ Emission.contexts (es ++ [⟨c, [], []⟩]) := Emission.mem_contexts_concat
    unfold Node.actions
    rw [List.map_cons, List.append_cons]
    cases kind with
    | block => exact serial_acts reached_start htouched h
    | case test => exact serial_acts reached_start htouched h
    | option label => exact serial_acts reached_start htouched h
    | switch f =>
      refine arms_acts htouched ?_ h
      exact hc
    | command f a =>
      simp only [bind_eq_ok, use_ok, write_ok] at h
      obtain ⟨_, _, ⟨rfl, rfl⟩, rfl⟩ := h
      exact (htouched.record _).write hc _
    | message status style text =>
      have hmessage := message_ok (p := []) htouched hc h
      rw [hback rfl, List.append_cons] at hmessage
      have hwritten := hmessage.touch_before
      simpa [Action.emission, Action.context, Action.statements] using hwritten
    | options status text =>
      simp only [bind_eq_ok, feature_ok, write_ok, touch_ok] at h
      obtain ⟨send, _, ⟨hsend, rfl⟩, _, d₁, hsuspend, _, _, rfl, _, _, rfl, h⟩ := h
      have hshown : r.prompted text ns =
          [r.statement send (.single (Text.quote (prompt text ns)))] := by
        rw [Registry.prompted, Registry.builtIn, hsend]
      have hd₁ := ((suspend_ok (p := []) htouched hc hsuspend).write_more [.leave]).touch
        (c := .singleton status) (p := [])
      have hentries := choices_acts (p := p) reached_start hd₁ Emission.mem_contexts_concat h
      simpa [hshown, Action.emission, Action.context, Action.statements] using hentries

theorem serial_acts : ∀ {ns : List Node} {parent : Node} {back : Status} {p : Path} {i : Nat}
    {es : List Emission} {u : Unit} {d d' : Draft}, Reached parent i back ns → d.Holds es →
    serial r parent i ns d = .ok u d' →
    d'.Holds (es ++ (Node.serialActions r back p i ns).map Action.emission)
  | [], _, _, _, _, _, _, _, _, _, hd, h => by
    obtain ⟨-, rfl⟩ := pure_eq_ok.mp h
    simpa [Node.serialActions] using hd
  | n :: ns, parent, back, p, i, es, u, d, d', hback, hd, h => by
    simp only [serial, bind_eq_ok] at h
    obtain ⟨_, d₁, hnode, h⟩ := h
    rw [Node.serialActions, List.map_append, ← List.append_assoc]
    exact serial_acts hback.next (node_acts hback.leads hd hnode) h

theorem arms_acts : ∀ {ns : List Node} {parent : Node} {f : Feature} {p : Path} {i : Nat}
    {es : List Emission} {u : Unit} {d d' : Draft}, d.Holds es →
    parent.context ∈ Emission.contexts es → arms r parent f i ns d = .ok u d' →
    d'.Holds (es ++ (Node.branchActions r parent.context (fun _ n => r.condition f n.test) .start
      p i ns).map Action.emission)
  | [], _, _, _, _, _, _, _, _, hd, _, h => by
    obtain ⟨-, rfl⟩ := pure_eq_ok.mp h
    simpa [Node.branchActions] using hd
  | n :: ns, parent, f, p, i, es, u, d, d', hd, hc, h => by
    rw [arms] at h
    -- nothing is known about the arms beforehand, but drafting fails at one that is not a case
    cases hkind : n.kind with
    | case test =>
      simp only [hkind, bind_eq_ok, write_ok] at h
      obtain ⟨expression, d₁, hexpression, _, _, rfl, _, d₂, hnode, _, _, rfl, h⟩ := h
      obtain ⟨hcondition, hgroups⟩ := expression?_ok hexpression
      have htest : r.condition f n.test = expression.map .test := by
        rw [hcondition, Node.test, hkind]
      have hsuspends : n.kind.suspends = false := by rw [hkind]; rfl
      have hback : backAfter .start n = .start := by simp [backAfter, hsuspends]
      have hd₂ := braces_ok (p := []) (q := []) (show d₁.Holds es from hgroups.trans hd) hc
        fun hes => node_acts (p := p ++ [i]) (leads_of_not_suspends hsuspends (some .start))
          hes hnode
      rw [header_eq, ← htest] at hd₂
      have hd' := arms_acts (p := p) hd₂ (Emission.mem_contexts_append hc) h
      simpa [Node.branchActions, hback, Action.emission, Action.context, Action.statements]
        using hd'
    | _ =>
      simp only [hkind] at h
      exact absurd h throw_ne_ok

theorem choices_acts : ∀ {ns : List Node} {parent : Node} {c : StatusContext} {p : Path} {i : Nat}
    {back : Status} {es : List Emission} {u : Unit} {d d' : Draft}, Reached parent i back ns →
    d.Holds es → c ∈ Emission.contexts es → choices r parent c i ns d = .ok u d' →
    d'.Holds (es ++ (Node.branchActions r c (fun i _ => some (.selected i)) back p i ns).map
      Action.emission)
  | [], _, _, _, _, _, _, _, _, _, _, hd, _, h => by
    obtain ⟨-, rfl⟩ := pure_eq_ok.mp h
    simpa [Node.branchActions] using hd
  | n :: ns, parent, c, p, i, back, es, u, d, d', hback, hd, hc, h => by
    simp only [choices, bind_eq_ok, write_ok] at h
    obtain ⟨_, _, rfl, _, d₁, hnode, _, _, rfl, h⟩ := h
    have hd₁ : (d₁.write c [.closing]).Holds (es ++ ⟨c, [], [choice i]⟩ :: ⟨c, [], [.opening]⟩ ::
        ((n.actions r (some back) (p ++ [i])).map Action.emission ++ [⟨c, [], [.closing]⟩])) :=
      braces_ok hd hc fun hes => node_acts hback.leads hes hnode
    rw [choice_eq] at hd₁
    have hd' := choices_acts (p := p) hback.next hd₁ (Emission.mem_contexts_append hc) h
    simpa [Node.branchActions, Action.emission, Action.context, Action.statements] using hd'

end

/-- The groups of a graph are projections of its actions, whatever the contexts of its nodes are.
The contexts of the groups are those that are touched, in the order of their first touch, and a
group holds what is written under its context. There every brace has its counterpart, so that the
lines stand as many levels below the first as there are braces around them. The lines for which
nodes are there are written once each, under the contexts of their nodes and in the order of the
nodes: a command or a suspend point has its lines written if it stands below no message and no
command. -/
theorem groups_are_projections {r : Registry} {n : Node} {place : Option Place} {u : Unit}
    {d : Draft} (h : node r place n .empty = .ok u d) :
    let as := n.actions r (previous place).toOption []
    d.groups = (Action.touched as).eraseDups.map (fun c => ⟨c, Action.written c as⟩) ∧
    (∀ g ∈ d.groups, Statement.Nested g.statements ∧
      Layout.render Layout.baseDepth (g.statements.map Statement.item) =
        String.join (Statement.listing g.statements)) ∧
    Action.emitted as =
      (n.visited []).flatMap (fun v => (r.lines v.2).map fun x => (v.1, v.2.context, x)) ∧
    ((n.visited []).map Prod.fst).Pairwise (· < ·) ∧
    ∀ q m, (q, m) ∈ n.visited [] ↔ n.at? q = some m ∧ n.Visits q := by
  intro as
  have horderly : Action.Orderly r [] (n.visited []) as := n.actions_orderly _ [] []
  have hholds : d.Holds (as.map Action.emission) := node_acts (fun _ => rfl) Draft.holds_empty h
  have hcontexts : Emission.contexts (as.map Action.emission) = (Action.touched as).eraseDups := by
    rw [Emission.contexts, List.map_map]
    exact horderly.tended.eraseDups_eq
  have hgroups : d.groups =
      (Action.touched as).eraseDups.map (fun c => ⟨c, Action.written c as⟩) := by
    rw [show d.groups = _ from hholds, Emission.collect, hcontexts]
    apply List.map_congr_left
    intro c _
    rw [Action.written, List.filter_map, List.flatMap_map]
    rfl
  refine ⟨hgroups, ?_, horderly.emitted_eq, n.visited_sorted [], ?_⟩
  · intro g hg
    rw [hgroups] at hg
    obtain ⟨c, -, rfl⟩ := List.mem_map.mp hg
    exact ⟨horderly.nested c, congrArg String.join (horderly.nested c).texts_eq⟩
  · intro q m
    simp [Node.mem_visited]

end Drafting

/-- A graph that no scene builds: messages stand directly below a prompt, and the groups of the
prompt and of the switch around it are written to while braces are open in them. -/
def Sample.tangle : Node :=
  .mk (.switch job) .start
    [.mk (.case (.values ["110"])) .start
      [.mk (.options 3 "pick") .start
        [.mk (.message 4 .next "hi") (.singleton 3) [],
          .mk (.message 5 .previousNext "well") .start []],
        .mk (.command give ⟨some "5", none, none⟩) (.singleton 3) []]]

namespace Drafting

/-- The second message goes to the group of the start, where the braces of the switch are still
open, and the gift behind the prompt to the group of the prompt. -/
theorem tangle_groups_are_projections :
    let as := Sample.tangle.actions Sample.fullRegistry none []
    ∃ d, node Sample.fullRegistry none Sample.tangle .empty = .ok () d ∧
      d.groups = (Action.touched as).eraseDups.map (fun c => ⟨c, Action.written c as⟩) ∧
      (Action.touched as).eraseDups = [.start, .singleton 3, .singleton 4, .singleton 5] ∧
      (∀ g ∈ d.groups, Statement.Nested g.statements) ∧
      (Sample.tangle.visited []).map Prod.fst =
        [[], [0], [0, 0], [0, 0, 0], [0, 0, 1], [0, 1]] := by
  obtain ⟨d, hd⟩ : ∃ d, node Sample.fullRegistry none Sample.tangle .empty = .ok () d := ⟨_, rfl⟩
  obtain ⟨hgroups, hlines, -⟩ := groups_are_projections hd
  exact ⟨d, hd, hgroups, by decide, fun g hg => (hlines g hg).1, by decide⟩

end Drafting

/-- A gift below a message. -/
def Sample.buried : Node :=
  .mk .block .start
    [.mk (.message 0 .next "hi") .start
      [.mk (.command give ⟨some "5", none, none⟩) (.singleton 0) []]]

namespace Drafting

/-- Not every command is written: the one below a message is in no group. -/
theorem buried_command_unwritten :
    ¬ ∀ (r : Registry) (n : Node) (d : Draft), node r none n .empty = .ok () d →
      ∀ q c f a ns, n.at? q = some (.mk (.command f a) c ns) →
        ∃ g ∈ d.groups, g.context = c ∧ r.statement f a ∈ g.statements := by
  intro h
  obtain ⟨xs, hdraft⟩ : ∃ xs, node Sample.registry none Sample.buried .empty =
      .ok () ⟨[⟨.start, xs⟩, ⟨.singleton 0, []⟩], .empty⟩ := ⟨_, rfl⟩
  obtain ⟨g, hg, hcontext, hmem⟩ :=
    h _ _ _ hdraft [0, 0] (.singleton 0) Sample.give ⟨some "5", none, none⟩ [] rfl
  have hapart : StatusContext.start ≠ .singleton 0 := by decide
  rcases List.mem_cons.mp hg with rfl | hg
  · exact absurd hcontext hapart
  · obtain rfl := List.mem_singleton.mp hg
    cases hmem

end Drafting

end SceneDispatch
