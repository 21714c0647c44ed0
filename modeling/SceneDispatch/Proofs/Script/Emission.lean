import SceneDispatch.Proofs.Scene.Construction
import SceneDispatch.Script.Generate
/-!
What a scene writes, as one list in the order of writing, with the place of the node that each
piece is written for. Main statement: the groups of a finished draft are these emissions, collected
by context.
-/
namespace SceneDispatch

/-- Statements written together into the group of a context, for the node at `origin`. Without
statements they only make sure that the group is there. -/
structure Emission where
  context : StatusContext
  origin : Path
  statements : List Statement

namespace Registry

variable (r : Registry)

/-- The statement that uses a feature. -/
def statement (f : Feature) (a : Arguments) : Statement := .terminated (f.expand r.manager a)

/-- The statement that uses a built-in feature; there is none for a feature that is missing. -/
def builtIn (name : String) (a : Arguments) : List Statement :=
  match r.lookup name with
  | .ok f => [r.statement f a]
  | .error _ => []

/-- The statements that show a message. -/
def shown (style : MessageStyle) (text : String) : List Statement :=
  r.builtIn style.featureName (.single (Text.quote text)) ++
    if style = .ok then r.builtIn Drafting.endFeature .empty else []

/-- The statements that show the entries of an options node. -/
def prompted (text : String) (entries : List Node) : List Statement :=
  r.builtIn Drafting.optionsFeature (.single (Text.quote (Drafting.prompt text entries)))

/-- The statements by which a suspend point shows itself. -/
def display (n : Node) : List Statement :=
  match n.kind with
  | .message status style text => .setStatus status :: r.shown style text ++ [.leave]
  | .options status text => .setStatus status :: r.prompted text n.children ++ [.leave]
  | _ => []

/-- The statements behind a message that only a refusal runs. -/
def refusal (back : Option Status) : MessageStyle → List Statement
  | .next | .ok => []
  | .previousNext =>
    match back with
    | none => []
    | some previous =>
      [.branch .refused, .opening, .setStatus previous, .redispatch, .leave, .closing]
  | .yesNo text =>
    [.branch .refused, .opening] ++
      r.builtIn MessageStyle.ok.featureName (.single (Text.quote text)) ++
      r.builtIn Drafting.endFeature .empty ++ [.leave, .closing]

/-- The condition under which an arm of a switch is entered; a default arm has none. -/
def condition (f : Feature) : CaseTest → Option Condition
  | .otherwise => none
  | .condition expression =>
    some (.test (.ofList (Text.replaceAll ['$', 'x'] ((f.subject? r.manager).getD "").toList
      expression.toList)))
  | .values tests =>
    some (.test (" || ".intercalate (tests.map fun value => f.expand r.manager (.single value))))

end Registry

/-- The header of an arm with a condition. -/
def Condition.header (first : Bool) : Option Condition → List Statement
  | none => if first then [] else [.otherwise]
  | some condition => if first then [.branch condition] else [.alternative condition]

theorem Condition.header_first (condition : Condition) :
    header true (some condition) = [.branch condition] := rfl

theorem Condition.header_later (condition : Condition) :
    header false (some condition) = [.alternative condition] := rfl

theorem Condition.header_otherwise : header false none = [.otherwise] := rfl

namespace Node

/-- The test of an arm of a switch. -/
def test (n : Node) : CaseTest :=
  match n.kind with
  | .case test => test
  | _ => .otherwise

mutual

/-- What a node writes, from the place `p` on down. -/
def emissions (r : Registry) (back : Option Status) (p : Path) : Node → List Emission
  | mk kind c ns =>
    ⟨c, p, []⟩ ::
    match kind with
    | .block | .case _ | .option _ => serialEmissions r .start p 0 ns
    | .switch f => branchEmissions r c (fun _ n => r.condition f n.test) p 0 ns
    | .command f a => [⟨c, p, [r.statement f a]⟩]
    | .message status style text =>
      [⟨c, p, .setStatus status :: r.shown style text ++ [.leave]⟩,
        ⟨.singleton status, p, r.refusal back style⟩]
    | .options status text =>
      ⟨c, p, .setStatus status :: r.prompted text ns ++ [.leave]⟩ ::
      ⟨.singleton status, p, []⟩ ::
      branchEmissions r (.singleton status) (fun i _ => some (.selected i)) p 0 ns

/-- What siblings write that run one after another, numbered from `i`. -/
def serialEmissions (r : Registry) (back : Status) (p : Path) (i : Nat) :
    List Node → List Emission
  | [] => []
  | n :: ns =>
    emissions r (some back) (p ++ [i]) n ++
      serialEmissions r (Drafting.backAfter back n) p (i + 1) ns

/-- What the arms of a fork write, numbered from `i`, each within its braces. The braces stand in
the group of the context `c` that flows into the arms. -/
def branchEmissions (r : Registry) (c : StatusContext) (guard : Nat → Node → Option Condition)
    (p : Path) (i : Nat) : List Node → List Emission
  | [] => []
  | n :: ns =>
    ⟨c, p, Condition.header (i = 0) (guard i n)⟩ :: ⟨c, p ++ [i], [.opening]⟩ ::
      (emissions r (some .start) (p ++ [i]) n ++
        ⟨c, p ++ [i], [.closing]⟩ :: branchEmissions r c guard p (i + 1) ns)

end

section Equations

variable (r : Registry) (back : Option Status) (p : Path) (c : StatusContext) (ns : List Node)

theorem emissions_serial {kind : NodeKind} (h : kind.isSerial = true) :
    emissions r back p (mk kind c ns) = ⟨c, p, []⟩ :: serialEmissions r .start p 0 ns := by
  cases kind <;> first | rfl | simp [NodeKind.isSerial] at h

theorem emissions_switch (f : Feature) :
    emissions r back p (mk (.switch f) c ns) =
      ⟨c, p, []⟩ :: branchEmissions r c (fun _ n => r.condition f n.test) p 0 ns := rfl

theorem emissions_command (f : Feature) (a : Arguments) :
    emissions r back p (mk (.command f a) c ns) = [⟨c, p, []⟩, ⟨c, p, [r.statement f a]⟩] := rfl

theorem emissions_message (status : Status) (style : MessageStyle) (text : String) :
    emissions r back p (mk (.message status style text) c ns) =
      [⟨c, p, []⟩, ⟨c, p, .setStatus status :: r.shown style text ++ [.leave]⟩,
        ⟨.singleton status, p, r.refusal back style⟩] := rfl

theorem emissions_options (status : Status) (text : String) :
    emissions r back p (mk (.options status text) c ns) =
      ⟨c, p, []⟩ :: ⟨c, p, .setStatus status :: r.prompted text ns ++ [.leave]⟩ ::
      ⟨.singleton status, p, []⟩ ::
      branchEmissions r (.singleton status) (fun i _ => some (.selected i)) p 0 ns := rfl

theorem emissions_cons (n : Node) : ∃ es, n.emissions r back p = ⟨n.context, p, []⟩ :: es := by
  obtain ⟨kind, c, ns⟩ := n
  cases kind <;> exact ⟨_, rfl⟩

end Equations

end Node

theorem condition_of_not_otherwise {r : Registry} {n : Node} {test : CaseTest} (f : Feature)
    (hkind : n.kind = .case test) (h : n.isOtherwise = false) :
    ∃ e, r.condition f n.test = some (.test e) := by
  have htest : n.test = test := by rw [Node.test, hkind]
  rw [htest]
  cases test with
  | otherwise => simp [Node.isOtherwise, hkind] at h
  | condition expression => exact ⟨_, rfl⟩
  | values values => exact ⟨_, rfl⟩

theorem condition_of_otherwise {r : Registry} {n : Node} (f : Feature) (h : n.isOtherwise = true) :
    r.condition f n.test = none := by
  have hkind : n.kind = .case .otherwise := of_decide_eq_true h
  rw [Node.test, hkind]
  rfl

/-- The contexts written to, in the order of their first use. -/
def Emission.contexts (es : List Emission) : List StatusContext :=
  (es.map Emission.context).eraseDups

/-- The groups that emissions make: each context gets what is written for it. -/
def Emission.collect (es : List Emission) : List Group :=
  (contexts es).map fun c => ⟨c, (es.filter (·.context = c)).flatMap Emission.statements⟩

namespace Emission

variable {es : List Emission} {e : Emission}

theorem mem_contexts {c : StatusContext} : c ∈ contexts es ↔ ∃ e ∈ es, e.context = c := by
  simp [contexts]

theorem contexts_cons (e : Emission) (es : List Emission) :
    contexts (e :: es) = e.context :: contexts (es.filter (·.context ≠ e.context)) := by
  simp only [contexts, List.map_cons, List.eraseDups_cons, List.filter_map]
  congr 4
  funext e'
  simp only [Function.comp_apply, beq_eq_decide, ne_eq, decide_not]

/-- What is written stands in the group of its context. -/
theorem exists_group {statement : Statement} (he : e ∈ es) (h : statement ∈ e.statements) :
    ∃ g ∈ collect es, g.context = e.context ∧ statement ∈ g.statements := by
  refine ⟨_, List.mem_map_of_mem (mem_contexts.mpr ⟨e, he, rfl⟩), rfl, ?_⟩
  exact List.mem_flatMap.mpr ⟨e, List.mem_filter.mpr ⟨he, by simp⟩, h⟩

theorem mem_contexts_concat : e.context ∈ contexts (es ++ [e]) :=
  mem_contexts.mpr ⟨e, List.mem_append_right _ List.mem_cons_self, rfl⟩

theorem mem_contexts_append {c : StatusContext} {es' : List Emission} (h : c ∈ contexts es) :
    c ∈ contexts (es ++ es') := by
  obtain ⟨e, he, hc⟩ := mem_contexts.mp h
  exact mem_contexts.mpr ⟨e, List.mem_append_left _ he, hc⟩

theorem contexts_concat_of_mem (h : e.context ∈ contexts es) :
    contexts (es ++ [e]) = contexts es := by
  have hmem : e.context ∈ es.map Emission.context := by simpa [contexts] using h
  simp only [contexts, List.map_append, List.map_cons, List.map_nil, List.eraseDups_append,
    List.removeAll]
  rw [List.filter_cons_of_neg (by simpa using hmem)]
  exact List.append_nil _

theorem contexts_concat_of_not_mem (h : e.context ∉ contexts es) :
    contexts (es ++ [e]) = contexts es ++ [e.context] := by
  have hmem : e.context ∉ es.map Emission.context := by simpa [contexts] using h
  simp only [contexts, List.map_append, List.map_cons, List.map_nil, List.eraseDups_append,
    List.removeAll]
  rw [List.filter_cons_of_pos (by simpa using hmem)]
  rfl

end Emission

namespace Draft

/-- The draft holds just what the emissions write. -/
def Holds (d : Draft) (es : List Emission) : Prop := d.groups = Emission.collect es

theorem holds_empty : empty.Holds [] := rfl

variable {d : Draft} {es : List Emission} {c : StatusContext} {p : Path}

theorem Holds.contexts (h : d.Holds es) : d.groups.map Group.context = Emission.contexts es := by
  rw [show d.groups = _ from h, Emission.collect, List.map_map]
  exact List.map_id _

theorem Holds.statements {g : Group} (h : d.Holds es) (hg : g ∈ d.groups) :
    g.statements = (es.filter (·.context = g.context)).flatMap Emission.statements := by
  rw [show d.groups = _ from h, Emission.collect] at hg
  obtain ⟨c, -, rfl⟩ := List.mem_map.mp hg
  rfl

theorem Holds.record (h : d.Holds es) (dependency : Option String) :
    (d.record dependency).Holds es := by
  cases dependency <;> exact h

theorem write_append (d : Draft) (c : StatusContext) (xs ys : List Statement) :
    d.write c (xs ++ ys) = (d.write c xs).write c ys := by
  simp only [write, List.map_map, Draft.mk.injEq, and_true]
  apply List.map_congr_left
  intro g _
  by_cases hg : g.context = c <;> simp [hg]

theorem Holds.write (h : d.Holds es) (hc : c ∈ Emission.contexts es) (xs : List Statement) :
    (d.write c xs).Holds (es ++ [⟨c, p, xs⟩]) := by
  have hcontexts := Emission.contexts_concat_of_mem (e := ⟨c, p, xs⟩) hc
  simp only [Holds, Draft.write, Emission.collect, hcontexts, show d.groups = _ from h,
    List.map_map]
  apply List.map_congr_left
  intro k _
  by_cases hk : k = c
  · simp [hk]
  · simp [hk, Ne.symm hk]

/-- Writing on is as good as writing more at once. -/
theorem Holds.write_more {xs : List Statement} (h : d.Holds (es ++ [⟨c, p, xs⟩]))
    (ys : List Statement) : (d.write c ys).Holds (es ++ [⟨c, p, xs ++ ys⟩]) := by
  have hc : c ∈ Emission.contexts (es ++ [⟨c, p, xs⟩]) := Emission.mem_contexts_concat
  have hwrite := h.write (p := p) hc ys
  have hcontexts := Emission.contexts_concat_of_mem (e := ⟨c, p, ys⟩) hc
  have hsame : Emission.contexts (es ++ [⟨c, p, xs ++ ys⟩]) =
      Emission.contexts (es ++ [⟨c, p, xs⟩]) := by
    simp [Emission.contexts]
  simp only [Holds, Emission.collect, hcontexts, hsame] at hwrite ⊢
  rw [hwrite]
  apply List.map_congr_left
  intro k _
  by_cases hk : c = k <;> simp [hk]

theorem Holds.touch (h : d.Holds es) : (d.touch c).Holds (es ++ [⟨c, p, []⟩]) := by
  by_cases hc : c ∈ Emission.contexts es
  · have hwrite := h.write (p := p) hc []
    rw [touch_of_mem (h.contexts ▸ hc)]
    simpa [Draft.write] using hwrite
  · have hcontexts := Emission.contexts_concat_of_not_mem (e := ⟨c, p, []⟩) hc
    rw [touch_of_not_mem (h.contexts ▸ hc)]
    simp only [Holds, Emission.collect, hcontexts, show d.groups = _ from h, List.map_append]
    congr 1
    · apply List.map_congr_left
      intro k _
      by_cases hk : c = k <;> simp [hk]
    · have hnone : es.filter (·.context = c) = [] := by
        simpa [Emission.mem_contexts] using hc
      simp [hnone]

end Draft

namespace Drafting

section Steps

variable {r : Registry} {d d' : Draft} {c : StatusContext} {f : Feature}

theorem touch_ok {u : Unit} : touch c d = .ok u d' ↔ d' = d.touch c := by
  change EStateM.Result.ok () (d.touch c) = .ok u d' ↔ _
  simp [eq_comm]

theorem write_ok {u : Unit} {xs : List Statement} :
    write c xs d = .ok u d' ↔ d' = d.write c xs := by
  change EStateM.Result.ok () (d.write c xs) = .ok u d' ↔ _
  simp [eq_comm]

theorem feature_ok {name : String} :
    feature r name d = .ok f d' ↔ r.lookup name = .ok f ∧ d' = d := by
  unfold feature
  cases r.lookup name with
  | ok f => simp [pure_eq_ok, eq_comm]
  | error cause => simp [throw_ne_ok]

theorem use_ok {a : Arguments} {text : String} :
    use r f a d = .ok text d' ↔ text = f.expand r.manager a ∧ d' = d.record f.dependency := by
  change EStateM.Result.ok (f.expand r.manager a) (d.record f.dependency) = .ok text d' ↔ _
  simp [eq_comm]

theorem subject_ok {text : String} :
    subject r f d = .ok text d' ↔
      f.subject? r.manager = some text ∧ d' = d.record f.dependency := by
  unfold subject
  cases f.subject? r.manager with
  | none => simp [throw_ne_ok]
  | some subject =>
    change EStateM.Result.ok subject (d.record f.dependency) = .ok text d' ↔ _
    simp [eq_comm]

theorem groups_record (d : Draft) (dependency : Option String) :
    (d.record dependency).groups = d.groups := by
  cases dependency <;> rfl

theorem call_ok {name : String} {a : Arguments} {statement : Statement}
    (h : call r name a d = .ok statement d') :
    r.builtIn name a = [statement] ∧ d'.groups = d.groups := by
  simp only [call, bind_eq_ok, feature_ok, use_ok, pure_eq_ok] at h
  obtain ⟨g, _, ⟨hg, rfl⟩, text, _, ⟨rfl, rfl⟩, rfl, rfl⟩ := h
  rw [Registry.builtIn, hg]
  exact ⟨rfl, groups_record _ _⟩

theorem values_ok {tests texts : List String} (h : values r f tests d = .ok texts d') :
    texts = tests.map (fun value => f.expand r.manager (.single value)) ∧
      d'.groups = d.groups := by
  induction tests generalizing d texts with
  | nil =>
    obtain ⟨rfl, rfl⟩ := pure_eq_ok.mp h
    exact ⟨rfl, rfl⟩
  | cons value rest ih =>
    simp only [values, bind_eq_ok, use_ok, pure_eq_ok] at h
    obtain ⟨text, _, ⟨rfl, rfl⟩, texts, _, hrest, rfl, rfl⟩ := h
    obtain ⟨rfl, hgroups⟩ := ih hrest
    exact ⟨rfl, hgroups.trans (groups_record _ _)⟩

theorem expression?_ok {test : CaseTest} {expression : Option String}
    (h : expression? r f test d = .ok expression d') :
    expression.map .test = r.condition f test ∧ d'.groups = d.groups := by
  cases test with
  | otherwise =>
    obtain ⟨rfl, rfl⟩ := pure_eq_ok.mp h
    exact ⟨rfl, rfl⟩
  | condition text =>
    simp only [expression?, bind_eq_ok, subject_ok, pure_eq_ok] at h
    obtain ⟨subject, _, ⟨hsubject, rfl⟩, rfl, rfl⟩ := h
    exact ⟨by simp [Registry.condition, hsubject], groups_record _ _⟩
  | values tests =>
    simp only [expression?, bind_eq_ok, pure_eq_ok] at h
    obtain ⟨texts, _, htexts, rfl, rfl⟩ := h
    obtain ⟨rfl, hgroups⟩ := values_ok htexts
    exact ⟨rfl, hgroups⟩

theorem header_eq (first : Bool) (expression : Option String) :
    header first expression = Condition.header first (expression.map .test) := by
  cases expression <;> rfl

theorem choice_eq (i : Nat) : [choice i] = Condition.header (i = 0) (some (.selected i)) := by
  by_cases hi : i = 0 <;> simp [choice, Condition.header, hi]

end Steps

section Scenes

variable {r : Registry} {es : List Emission} {c : StatusContext} {p : Path}

theorem suspend_ok {status : Status} {send : Feature} {text : String} {u : Unit} {d d' : Draft}
    (hd : d.Holds es) (hc : c ∈ Emission.contexts es)
    (h : suspend r c status send text d = .ok u d') :
    d'.Holds
      (es ++ [⟨c, p, [.setStatus status, r.statement send (.single (Text.quote text))]⟩]) := by
  simp only [suspend, bind_eq_ok, use_ok, write_ok] at h
  obtain ⟨_, _, ⟨rfl, rfl⟩, rfl⟩ := h
  exact (hd.record _).write hc _

theorem refusal_ok {place : Option Place} {style : MessageStyle} {u : Unit} {d d' : Draft}
    (hd : d.Holds (es ++ [⟨c, p, []⟩])) (h : refusal r place c style d = .ok u d') :
    d'.Holds (es ++ [⟨c, p, r.refusal (previous place).toOption style⟩]) := by
  cases style with
  | next =>
    obtain ⟨-, rfl⟩ := pure_eq_ok.mp h
    exact hd
  | ok =>
    obtain ⟨-, rfl⟩ := pure_eq_ok.mp h
    exact hd
  | previousNext =>
    rw [refusal] at h
    cases hback : previous place with
    | error fault =>
      rw [hback] at h
      exact absurd h throw_ne_ok
    | ok status =>
      rw [hback] at h
      obtain rfl := write_ok.mp h
      exact hd.write_more _
  | yesNo text =>
    simp only [refusal, bind_eq_ok, write_ok] at h
    obtain ⟨shown, d₁, hshown, ended, d₂, hended, rfl⟩ := h
    obtain ⟨hshown, hgroups₁⟩ := call_ok hshown
    obtain ⟨hended, hgroups₂⟩ := call_ok hended
    have hd₂ : d₂.Holds (es ++ [⟨c, p, []⟩]) := (hgroups₂.trans hgroups₁).trans hd
    simpa [Registry.refusal, hshown, hended] using hd₂.write_more
      [.branch .refused, .opening, shown, ended, .leave, .closing]

theorem message_ok {place : Option Place} {status : Status} {style : MessageStyle} {text : String}
    {u : Unit} {d d' : Draft} (hd : d.Holds es) (hc : c ∈ Emission.contexts es)
    (h : message r place c status style text d = .ok u d') :
    d'.Holds (es ++ [⟨c, p, .setStatus status :: r.shown style text ++ [.leave]⟩,
      ⟨.singleton status, p, r.refusal (previous place).toOption style⟩]) := by
  have hrest : ∀ {d₁ : Draft},
      d₁.Holds (es ++ [⟨c, p, .setStatus status :: r.shown style text⟩]) →
      (do write c [.leave]; touch (.singleton status); refusal r place (.singleton status) style)
        d₁ = .ok u d' →
      d'.Holds (es ++ [⟨c, p, .setStatus status :: r.shown style text ++ [.leave]⟩,
        ⟨.singleton status, p, r.refusal (previous place).toOption style⟩]) := by
    intro d₁ hd₁ h
    simp only [bind_eq_ok, write_ok, touch_ok] at h
    obtain ⟨_, _, rfl, _, _, rfl, hrefusal⟩ := h
    simpa using refusal_ok (hd₁.write_more [.leave]).touch hrefusal
  simp only [message, bind_eq_ok, feature_ok] at h
  obtain ⟨send, _, ⟨hsend, rfl⟩, _, d₁, hsuspend, h⟩ := h
  have hd₁ := suspend_ok (p := p) hd hc hsuspend
  have hfirst : r.builtIn style.featureName (.single (Text.quote text)) =
      [r.statement send (.single (Text.quote text))] := by
    rw [Registry.builtIn, hsend]
  by_cases hstyle : style = .ok
  · rw [if_pos hstyle, bind_eq_ok] at h
    obtain ⟨ended, d₂, hended, h⟩ := h
    obtain ⟨_, _, hwrite, h⟩ := bind_eq_ok.mp h
    obtain ⟨hended, hgroups⟩ := call_ok hended
    obtain rfl := write_ok.mp hwrite
    refine hrest ?_ h
    rw [Registry.shown, hfirst, if_pos hstyle, hended]
    exact Draft.Holds.write_more (show d₂.Holds _ from hgroups.trans hd₁) _
  · rw [if_neg hstyle] at h
    refine hrest ?_ h
    rw [Registry.shown, hfirst, if_neg hstyle]
    exact hd₁

/-- What is written between the braces of an arm stays between them. -/
theorem braces_ok {header : List Statement} {inner : List Emission} {q : Path} {d d' : Draft}
    (hd : d.Holds es) (hc : c ∈ Emission.contexts es)
    (hinner : ∀ {es : List Emission}, (d.write c (header ++ [.opening])).Holds es →
      d'.Holds (es ++ inner)) :
    (d'.write c [.closing]).Holds
      (es ++ ⟨c, p, header⟩ :: ⟨c, q, [.opening]⟩ :: (inner ++ [⟨c, q, [.closing]⟩])) := by
  have hopened : (d.write c (header ++ [.opening])).Holds
      (es ++ [⟨c, p, header⟩] ++ [⟨c, q, [.opening]⟩]) := by
    rw [Draft.write_append]
    exact (hd.write hc header).write Emission.mem_contexts_concat _
  have hclosed := (hinner hopened).write (c := c) (p := q)
    (Emission.mem_contexts.mpr ⟨⟨c, p, header⟩, by simp, rfl⟩) [.closing]
  simpa using hclosed

mutual

/-- A node that is drafted adds its emissions. -/
theorem node_ok : ∀ {n : Node} {place : Option Place} {back : Option Status} {p : Path}
    {es : List Emission} {u : Unit} {d d' : Draft}, n.WellFormed → Leads place n back →
    d.Holds es → node r place n d = .ok u d' → d'.Holds (es ++ n.emissions r back p)
  | .mk kind c ns, place, back, p, es, u, d, d', hwf, hback, hd, h => by
    obtain ⟨hkind, hns⟩ := Node.wellFormed_mk.mp hwf
    simp only [node, bind_eq_ok, touch_ok] at h
    obtain ⟨_, _, rfl, h⟩ := h
    have htouched : (d.touch c).Holds (es ++ [⟨c, p, []⟩]) := hd.touch
    have hc : c ∈ Emission.contexts (es ++ [⟨c, p, []⟩]) := Emission.mem_contexts_concat
    cases kind with
    | block =>
      rw [Node.emissions_serial _ _ _ _ _ rfl, List.append_cons]
      exact serial_ok hns reached_start htouched h
    | case test =>
      rw [Node.emissions_serial _ _ _ _ _ rfl, List.append_cons]
      exact serial_ok hns reached_start htouched h
    | option label =>
      rw [Node.emissions_serial _ _ _ _ _ rfl, List.append_cons]
      exact serial_ok hns reached_start htouched h
    | switch f =>
      rw [Node.emissions_switch, List.append_cons]
      refine arms_ok hns (by simpa using hkind.1) htouched ?_ h
      exact hc
    | command f a =>
      simp only [bind_eq_ok, use_ok, write_ok] at h
      obtain ⟨_, _, ⟨rfl, rfl⟩, rfl⟩ := h
      rw [Node.emissions_command, List.append_cons]
      exact (htouched.record _).write hc _
    | message status style text =>
      rw [Node.emissions_message, ← hback rfl, List.append_cons]
      exact message_ok htouched hc h
    | options status text =>
      simp only [bind_eq_ok, feature_ok, write_ok, touch_ok] at h
      obtain ⟨send, _, ⟨hsend, rfl⟩, _, d₁, hsuspend, _, _, rfl, _, _, rfl, h⟩ := h
      have hshown : r.prompted text ns =
          [r.statement send (.single (Text.quote (prompt text ns)))] := by
        rw [Registry.prompted, Registry.builtIn, hsend]
      have hd₁ := ((suspend_ok (p := p) htouched hc hsuspend).write_more [.leave]).touch
        (c := .singleton status) (p := p)
      rw [Node.emissions_options, hshown, List.append_cons, List.append_cons, List.append_cons]
      exact choices_ok hns (by simpa using hkind.2) hd₁ Emission.mem_contexts_concat h

theorem serial_ok : ∀ {ns : List Node} {parent : Node} {back : Status} {p : Path} {i : Nat}
    {es : List Emission} {u : Unit} {d d' : Draft}, (∀ n ∈ ns, n.WellFormed) →
    Reached parent i back ns → d.Holds es → serial r parent i ns d = .ok u d' →
    d'.Holds (es ++ Node.serialEmissions r back p i ns)
  | [], _, _, _, _, _, _, _, _, _, _, hd, h => by
    obtain ⟨-, rfl⟩ := pure_eq_ok.mp h
    simpa [Node.serialEmissions] using hd
  | n :: ns, parent, back, p, i, es, u, d, d', hwf, hback, hd, h => by
    obtain ⟨hn, hns⟩ := List.forall_mem_cons.mp hwf
    simp only [serial, bind_eq_ok] at h
    obtain ⟨_, d₁, hnode, h⟩ := h
    rw [Node.serialEmissions, ← List.append_assoc]
    exact serial_ok hns hback.next (node_ok hn hback.leads hd hnode) h

theorem arms_ok : ∀ {ns : List Node} {parent : Node} {f : Feature} {p : Path} {i : Nat}
    {es : List Emission} {u : Unit} {d d' : Draft}, (∀ n ∈ ns, n.WellFormed) →
    (∀ n ∈ ns, ∃ test, n.kind = .case test) → d.Holds es →
    parent.context ∈ Emission.contexts es → arms r parent f i ns d = .ok u d' →
    d'.Holds (es ++
      Node.branchEmissions r parent.context (fun _ n => r.condition f n.test) p i ns)
  | [], _, _, _, _, _, _, _, _, _, _, hd, _, h => by
    obtain ⟨-, rfl⟩ := pure_eq_ok.mp h
    simpa [Node.branchEmissions] using hd
  | n :: ns, parent, f, p, i, es, u, d, d', hwf, hcase, hd, hc, h => by
    obtain ⟨hn, hns⟩ := List.forall_mem_cons.mp hwf
    obtain ⟨⟨test, htest⟩, hcases⟩ := List.forall_mem_cons.mp hcase
    simp only [arms, htest, bind_eq_ok, write_ok] at h
    obtain ⟨expression, d₁, hexpression, _, _, rfl, _, d₂, hnode, _, _, rfl, h⟩ := h
    obtain ⟨hcondition, hgroups⟩ := expression?_ok hexpression
    have htest' : r.condition f n.test = expression.map .test := by
      rw [hcondition, Node.test, htest]
    have hback : n.kind.suspends = false := by rw [htest]; rfl
    have hd₂ := braces_ok (p := p) (q := p ++ [i]) (show d₁.Holds es from hgroups.trans hd) hc
      fun hes => node_ok (p := p ++ [i]) hn (leads_of_not_suspends hback (some .start)) hes hnode
    rw [header_eq, ← htest'] at hd₂
    have hd' := arms_ok (p := p) hns hcases hd₂ (Emission.mem_contexts_append hc) h
    simpa [Node.branchEmissions] using hd'

theorem choices_ok : ∀ {ns : List Node} {parent : Node} {c : StatusContext} {p : Path} {i : Nat}
    {es : List Emission} {u : Unit} {d d' : Draft}, (∀ n ∈ ns, n.WellFormed) →
    (∀ n ∈ ns, ∃ label, n.kind = .option label) → d.Holds es → c ∈ Emission.contexts es →
    choices r parent c i ns d = .ok u d' →
    d'.Holds (es ++ Node.branchEmissions r c (fun i _ => some (.selected i)) p i ns)
  | [], _, _, _, _, _, _, _, _, _, _, hd, _, h => by
    obtain ⟨-, rfl⟩ := pure_eq_ok.mp h
    simpa [Node.branchEmissions] using hd
  | n :: ns, parent, c, p, i, es, u, d, d', hwf, hoption, hd, hc, h => by
    obtain ⟨hn, hns⟩ := List.forall_mem_cons.mp hwf
    obtain ⟨⟨label, hlabel⟩, hoptions⟩ := List.forall_mem_cons.mp hoption
    simp only [choices, bind_eq_ok, write_ok] at h
    obtain ⟨_, _, rfl, _, d₁, hnode, _, _, rfl, h⟩ := h
    have hback : n.kind.suspends = false := by rw [hlabel]; rfl
    have hd₁ : (d₁.write c [.closing]).Holds (es ++ ⟨c, p, [choice i]⟩ ::
        ⟨c, p ++ [i], [.opening]⟩ ::
        (n.emissions r (some .start) (p ++ [i]) ++ [⟨c, p ++ [i], [.closing]⟩])) :=
      braces_ok hd hc fun hes => node_ok hn (leads_of_not_suspends hback _) hes hnode
    rw [choice_eq] at hd₁
    have hd' := choices_ok (p := p) hns hoptions hd₁ (Emission.mem_contexts_append hc) h
    simpa [Node.branchEmissions] using hd'

end

/-- The groups of a scene's draft are what the scene writes, collected by context. -/
theorem scene_ok {scene : Node} {u : Unit} {d : Draft} (hwf : scene.WellFormed)
    (h : Drafting.scene r scene .empty = .ok u d) :
    d.groups = Emission.collect (scene.emissions r none []) :=
  node_ok hwf (leads_alone scene) Draft.holds_empty h

end Scenes

/-- The node was drafted somewhere without a failure. -/
def Drafted (r : Registry) (n : Node) : Prop :=
  ∃ place d d', node r place n d = .ok () d'

section Below

variable {r : Registry} {n : Node}

theorem drafted_of_serial : ∀ {ns : List Node} {parent : Node} {i : Nat} {u : Unit}
    {d d' : Draft}, serial r parent i ns d = .ok u d' → n ∈ ns → Drafted r n
  | m :: ns, parent, i, u, d, d', h, hn => by
    simp only [serial, bind_eq_ok] at h
    obtain ⟨_, _, hfirst, h⟩ := h
    rcases List.mem_cons.mp hn with rfl | hn
    · exact ⟨_, _, _, hfirst⟩
    · exact drafted_of_serial h hn

theorem drafted_of_arms : ∀ {ns : List Node} {parent : Node} {f : Feature} {i : Nat} {u : Unit}
    {d d' : Draft}, arms r parent f i ns d = .ok u d' → n ∈ ns → Drafted r n
  | m :: ns, parent, f, i, u, d, d', h, hn => by
    rw [arms] at h
    cases hkind : m.kind with
    | case test =>
      simp only [hkind, bind_eq_ok] at h
      obtain ⟨_, _, -, _, _, -, _, _, hfirst, _, _, -, h⟩ := h
      rcases List.mem_cons.mp hn with rfl | hn
      · exact ⟨_, _, _, hfirst⟩
      · exact drafted_of_arms h hn
    | _ =>
      simp only [hkind] at h
      exact absurd h throw_ne_ok

theorem drafted_of_choices : ∀ {ns : List Node} {parent : Node} {c : StatusContext} {i : Nat}
    {u : Unit} {d d' : Draft}, choices r parent c i ns d = .ok u d' → n ∈ ns → Drafted r n
  | m :: ns, parent, c, i, u, d, d', h, hn => by
    simp only [choices, bind_eq_ok] at h
    obtain ⟨_, _, -, _, _, hfirst, _, _, -, h⟩ := h
    rcases List.mem_cons.mp hn with rfl | hn
    · exact ⟨_, _, _, hfirst⟩
    · exact drafted_of_choices h hn

/-- With a node its children are drafted. -/
theorem Drafted.child {kind : NodeKind} {c : StatusContext} {ns : List Node}
    (h : Drafted r (.mk kind c ns)) (hwf : (Node.mk kind c ns).WellFormed) (hn : n ∈ ns) :
    Drafted r n := by
  obtain ⟨place, d, d', h⟩ := h
  have hkind := (Node.wellFormed_mk.mp hwf).1
  simp only [node, bind_eq_ok] at h
  obtain ⟨_, _, -, h⟩ := h
  cases kind with
  | block => exact drafted_of_serial h hn
  | case test => exact drafted_of_serial h hn
  | option label => exact drafted_of_serial h hn
  | switch f => exact drafted_of_arms h hn
  | options status text =>
    simp only [bind_eq_ok] at h
    obtain ⟨_, _, -, _, _, -, _, _, -, _, _, -, h⟩ := h
    exact drafted_of_choices h hn
  | command f a =>
    rw [List.map_eq_nil_iff.mp hkind] at hn
    cases hn
  | message status style text =>
    rw [List.map_eq_nil_iff.mp hkind] at hn
    cases hn

/-- With a node everything below it is drafted. -/
theorem Drafted.at? {m : Node} {q : Path} (h : Drafted r n) (hwf : n.WellFormed)
    (hm : n.at? q = some m) : Drafted r m := by
  induction q generalizing n with
  | nil => exact Option.some.inj hm ▸ h
  | cons i q ih =>
    obtain ⟨kind, c, ns⟩ := n
    obtain ⟨child, hchild, hm⟩ := Option.bind_eq_some_iff.mp hm
    have hmem : child ∈ ns := List.mem_of_getElem? hchild
    exact ih (h.child hwf hmem) ((Node.wellFormed_mk.mp hwf).2 child hmem) hm

/-- A message was drafted with the feature that shows it. -/
theorem Drafted.message_feature {c : StatusContext} {ns : List Node} {status : Status}
    {style : MessageStyle} {text : String}
    (h : Drafted r (.mk (.message status style text) c ns)) :
    ∃ send, r.lookup style.featureName = .ok send := by
  obtain ⟨place, d, d', h⟩ := h
  simp only [node, message, bind_eq_ok, feature_ok] at h
  obtain ⟨_, _, -, send, _, ⟨hsend, -⟩, -⟩ := h
  exact ⟨send, hsend⟩

/-- A message that can be refused was drafted with the features that its refusal uses. -/
theorem Drafted.refusal_features {c : StatusContext} {ns : List Node} {status : Status}
    {no text : String} (h : Drafted r (.mk (.message status (.yesNo no) text) c ns)) :
    ∃ f g, r.lookup MessageStyle.ok.featureName = .ok f ∧ r.lookup endFeature = .ok g := by
  obtain ⟨place, d, d', h⟩ := h
  simp only [node, message, refusal, call, reduceCtorEq, ↓reduceIte, bind_eq_ok, feature_ok] at h
  obtain ⟨_, _, -, _, _, -, _, _, -, _, _, -, _, _, -, _, _, ⟨f, _, ⟨hf, -⟩, -⟩, _, _,
    ⟨g, _, ⟨hg, -⟩, -⟩, -⟩ := h
  exact ⟨f, g, hf, hg⟩

/-- A prompt was drafted with the feature that shows it. -/
theorem Drafted.options_feature {c : StatusContext} {ns : List Node} {status : Status}
    {text : String} (h : Drafted r (.mk (.options status text) c ns)) :
    ∃ send, r.lookup optionsFeature = .ok send := by
  obtain ⟨place, d, d', h⟩ := h
  simp only [node, bind_eq_ok, feature_ok] at h
  obtain ⟨_, _, -, send, _, ⟨hsend, -⟩, -⟩ := h
  exact ⟨send, hsend⟩

end Below

end Drafting

end SceneDispatch
