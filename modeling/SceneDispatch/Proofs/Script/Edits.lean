import SceneDispatch.Script.Generate
/-!
What drafting does to a draft, also where it fails. A step touches groups, writes to them and
records dependencies, and no step looks at the draft. Main statement: whatever nodes are drafted
one after another, each of them to its end or up to its failure, the draft gets one list of edits,
which is the same for every draft.
-/
namespace SceneDispatch

/-- The ways in which drafting changes a draft. -/
inductive Edit where
  | touch (context : StatusContext)
  | write (context : StatusContext) (statements : List Statement)
  | record (dependency : Option String)

def Draft.edit (d : Draft) : Edit → Draft
  | .touch c => d.touch c
  | .write c xs => d.write c xs
  | .record dependency => d.record dependency

namespace Drafting

/-- A node to be drafted, and the place at which it is said to stand. -/
structure Task where
  place : Option Place
  node : Node

/-- The draft that a step leaves, whether it succeeds or fails. -/
def leaves {α : Type} (x : Drafting α) (d : Draft) : Draft :=
  match x d with
  | .ok _ d' => d'
  | .error _ d' => d'

/-- The draft after several tasks. A failure ends the task that it happens in, and the next one
goes on with what was written before. -/
def after (r : Registry) (tasks : List Task) (d : Draft) : Draft :=
  tasks.foldl (fun d t => leaves (node r t.place t.node) d) d

/-- A step that ended in this way on the draft. -/
def ended {α : Type} : Except Fault α → Draft → EStateM.Result Fault Draft α
  | .ok a, d => .ok a d
  | .error fault, d => .error fault d

/-- The step makes the edits one after another and ends in this way, whatever the draft is. -/
def Performs {α : Type} (x : Drafting α) (es : List Edit) (result : Except Fault α) : Prop :=
  ∀ d, x d = ended result (es.foldl Draft.edit d)

/-- What the step does is the same for every draft. -/
def Uniform {α : Type} (x : Drafting α) : Prop := ∃ es result, Performs x es result

section Uniform

variable {r : Registry} {α β : Type} {x : Drafting α} {k : α → Drafting β} {c : StatusContext}
  {f : Feature}

theorem Performs.leaves_eq {es : List Edit} {result : Except Fault α} (h : Performs x es result)
    (d : Draft) : leaves x d = es.foldl Draft.edit d := by
  rw [leaves, h d]
  cases result <;> rfl

/-- What follows a step is done when the step succeeds. -/
theorem Uniform.bind (hx : Uniform x) (hk : ∀ a, Uniform (k a)) : Uniform (x >>= k) := by
  obtain ⟨es, result, hes⟩ := hx
  cases result with
  | error fault =>
    refine ⟨es, .error fault, fun d => ?_⟩
    change EStateM.bind x k d = _
    rw [EStateM.bind, hes d]
    rfl
  | ok a =>
    obtain ⟨fs, result, hfs⟩ := hk a
    refine ⟨es ++ fs, result, fun d => ?_⟩
    change EStateM.bind x k d = _
    rw [EStateM.bind, hes d, List.foldl_append]
    exact hfs _

theorem pure_uniform (a : α) : Uniform (pure a : Drafting α) := ⟨[], .ok a, fun _ => rfl⟩

theorem throw_uniform (fault : Fault) : Uniform (throw fault : Drafting α) :=
  ⟨[], .error fault, fun _ => rfl⟩

theorem touch_uniform : Uniform (touch c) := ⟨[.touch c], .ok (), fun _ => rfl⟩

theorem write_uniform {xs : List Statement} : Uniform (write c xs) :=
  ⟨[.write c xs], .ok (), fun _ => rfl⟩

theorem use_uniform {a : Arguments} : Uniform (use r f a) :=
  ⟨[.record f.dependency], .ok (f.expand r.manager a), fun _ => rfl⟩

theorem feature_uniform {name : String} : Uniform (feature r name) := by
  unfold feature
  cases r.lookup name with
  | ok f => exact pure_uniform f
  | error cause => exact throw_uniform _

theorem call_uniform {name : String} {a : Arguments} : Uniform (call r name a) :=
  feature_uniform.bind fun _ => use_uniform.bind fun _ => pure_uniform _

theorem subject_uniform : Uniform (subject r f) := by
  unfold subject
  cases f.subject? r.manager with
  | none => exact throw_uniform _
  | some text => exact ⟨[.record f.dependency], .ok text, fun _ => rfl⟩

theorem values_uniform : ∀ tests : List String, Uniform (values r f tests)
  | [] => pure_uniform _
  | _ :: tests => use_uniform.bind fun _ => (values_uniform tests).bind fun _ => pure_uniform _

theorem expression?_uniform (test : CaseTest) : Uniform (expression? r f test) := by
  cases test with
  | otherwise => exact pure_uniform _
  | condition expression => exact subject_uniform.bind fun _ => pure_uniform _
  | values tests => exact (values_uniform tests).bind fun _ => pure_uniform _

theorem suspend_uniform {status : Status} {send : Feature} {text : String} :
    Uniform (suspend r c status send text) :=
  use_uniform.bind fun _ => write_uniform

theorem refusal_uniform {place : Option Place} (style : MessageStyle) :
    Uniform (refusal r place c style) := by
  cases style with
  | next => exact pure_uniform _
  | ok => exact pure_uniform _
  | previousNext =>
    rw [refusal]
    cases previous place with
    | error fault => exact throw_uniform fault
    | ok status => exact write_uniform
  | yesNo text => exact call_uniform.bind fun _ => call_uniform.bind fun _ => write_uniform

theorem message_uniform {place : Option Place} {status : Status} {style : MessageStyle}
    {text : String} : Uniform (message r place c status style text) := by
  have hbehind : Uniform (do write c [.leave]; touch (.singleton status)
                             refusal r place (.singleton status) style) :=
    write_uniform.bind fun _ => touch_uniform.bind fun _ => refusal_uniform style
  refine feature_uniform.bind fun _ => suspend_uniform.bind fun _ => ?_
  split
  · exact call_uniform.bind fun _ => write_uniform.bind fun _ => hbehind
  · exact hbehind

mutual

theorem node_uniform : ∀ (n : Node) (place : Option Place), Uniform (node r place n)
  | .mk kind c ns, place => by
    unfold node
    refine touch_uniform.bind fun _ => ?_
    cases kind with
    | block => exact serial_uniform ns _ 0
    | case test => exact serial_uniform ns _ 0
    | option label => exact serial_uniform ns _ 0
    | switch f => exact arms_uniform ns _ f 0
    | command f a => exact use_uniform.bind fun _ => write_uniform
    | message status style text => exact message_uniform
    | options status text =>
      exact feature_uniform.bind fun _ => suspend_uniform.bind fun _ => write_uniform.bind fun _ =>
        touch_uniform.bind fun _ => choices_uniform ns _ _ 0

theorem serial_uniform : ∀ (ns : List Node) (parent : Node) (i : Nat),
    Uniform (serial r parent i ns)
  | [], _, _ => pure_uniform _
  | n :: ns, parent, i => by
    rw [serial]
    exact (node_uniform n _).bind fun _ => serial_uniform ns parent (i + 1)

theorem arms_uniform : ∀ (ns : List Node) (parent : Node) (f : Feature) (i : Nat),
    Uniform (arms r parent f i ns)
  | [], _, _, _ => pure_uniform _
  | n :: ns, parent, f, i => by
    rw [arms]
    cases n.kind with
    | case test =>
      exact (expression?_uniform test).bind fun _ => write_uniform.bind fun _ =>
        (node_uniform n _).bind fun _ => write_uniform.bind fun _ =>
          arms_uniform ns parent f (i + 1)
    | _ => exact throw_uniform _

theorem choices_uniform : ∀ (ns : List Node) (parent : Node) (c : StatusContext) (i : Nat),
    Uniform (choices r parent c i ns)
  | [], _, _, _ => pure_uniform _
  | n :: ns, parent, c, i => by
    rw [choices]
    exact write_uniform.bind fun _ => (node_uniform n _).bind fun _ => write_uniform.bind fun _ =>
      choices_uniform ns parent c (i + 1)

end

end Uniform

theorem exists_edits (r : Registry) (tasks : List Task) :
    ∃ es : List Edit, ∀ d, after r tasks d = es.foldl Draft.edit d := by
  induction tasks with
  | nil => exact ⟨[], fun _ => rfl⟩
  | cons t tasks ih =>
    obtain ⟨es, result, hes⟩ := node_uniform (r := r) t.node t.place
    obtain ⟨fs, hfs⟩ := ih
    refine ⟨es ++ fs, fun d => ?_⟩
    rw [List.foldl_append, ← hes.leaves_eq d, ← hfs]
    rfl

end Drafting

end SceneDispatch
