import SceneDispatch.Proofs.Feature.Calls
import SceneDispatch.Proofs.Script.Demand
import SceneDispatch.Proofs.Script.Table
/-!
The packages that a script imports. Drafting records what each use of a feature depends on, and
expanding the calls in the body records the rest. Main statement: a script imports what the
features depend on that its graph uses or its body calls, each package once and in increasing
order, right behind its first line.
-/
namespace SceneDispatch

/-- A case that compares with values compares with one at least. -/
def NodeKind.Testing : NodeKind → Prop
  | case (.values values) => values ≠ []
  | _ => True

namespace Registry

/-- The features that a graph uses: those of its commands, those of its switches that test
something, and the built-in ones that its suspend points ask for. -/
inductive Uses (r : Registry) : Node → Feature → Prop
  | command {f : Feature} {a : Arguments} {c : StatusContext} {ns : List Node} :
    Uses r (.mk (.command f a) c ns) f
  | switch {f : Feature} {c : StatusContext} {ns : List Node} {arm : Node} {test : CaseTest} :
    arm ∈ ns → arm.kind = .case test → test ≠ .otherwise → Uses r (.mk (.switch f) c ns) f
  | builtIn {kind : NodeKind} {c : StatusContext} {ns : List Node} {name : String} {f : Feature} :
    name ∈ kind.demands → r.find? name = some f → Uses r (.mk kind c ns) f
  | inside {kind : NodeKind} {c : StatusContext} {ns : List Node} {n : Node} {f : Feature} :
    n ∈ ns → Uses r n f → Uses r (.mk kind c ns) f

theorem uses_mk {r : Registry} {kind : NodeKind} {c : StatusContext} {ns : List Node}
    {f : Feature} : r.Uses (.mk kind c ns) f ↔
      (∃ a, kind = .command f a) ∨
      (kind = .switch f ∧ ∃ arm ∈ ns, ∃ test, arm.kind = .case test ∧ test ≠ .otherwise) ∨
      (∃ name ∈ kind.demands, r.find? name = some f) ∨ ∃ n ∈ ns, r.Uses n f := by
  constructor
  · intro h
    cases h with
    | command => exact .inl ⟨_, rfl⟩
    | switch harm hkind htest => exact .inr (.inl ⟨rfl, _, harm, _, hkind, htest⟩)
    | builtIn hname hf => exact .inr (.inr (.inl ⟨_, hname, hf⟩))
    | inside hn hf => exact .inr (.inr (.inr ⟨_, hn, hf⟩))
  · rintro (⟨a, rfl⟩ | ⟨rfl, arm, harm, test, hkind, htest⟩ | ⟨name, hname, hf⟩ | ⟨n, hn, hf⟩)
    · exact .command
    · exact .switch harm hkind htest
    · exact .builtIn hname hf
    · exact .inside hn hf

/-- A call of the feature is expanded in the text. -/
def Calls (r : Registry) (text : String) (f : Feature) : Prop :=
  ∃ segments call, Call.Parted r text.toList segments ∧ .call call ∈ segments ∧ call.feature = f

end Registry

namespace Vocabulary

theorem armTest_values {t : Tag} {last : Bool} {values : List String}
    (h : armTest t last = .ok (.values values)) : values ≠ [] := by
  unfold armTest at h
  split at h
  · split at h
    · cases h
    · cases hval : t.require "val" with
      | error fault => simp [hval, bind, Except.bind] at h
      | ok text =>
        simp only [hval, bind, Except.bind] at h
        split at h
        · cases h
        · next hne =>
          cases h
          simpa using hne
  · split at h <;> cases h
  · cases h

theorem grants_testing (v : Vocabulary) : v.Grants NodeKind.Testing where
  block := trivial
  message := trivial
  options := trivial
  option := trivial
  command := trivial
  switch _ := trivial
  arm {_ _ test} htest := by
    cases test with
    | values values => exact armTest_values htest
    | condition expression => exact trivial
    | otherwise => exact trivial
  condition := trivial
  otherwise := trivial

end Vocabulary

namespace Drafting

/-- The step records what the features depend on for which `P` holds, and nothing else. -/
def Records (P : Feature → Prop) {α : Type} (x : Drafting α) : Prop :=
  ∀ d a d', x d = .ok a d' → ∀ package, package ∈ d'.dependencies ↔
    package ∈ d.dependencies ∨ ∃ f, P f ∧ f.dependency = some package

section Records

open Registry

variable {r : Registry} {P Q : Feature → Prop} {α β : Type} {x : Drafting α} {k : α → Drafting β}
  {c : StatusContext} {f : Feature}

theorem Records.congr (h : Records P x) (hPQ : ∀ f, P f ↔ Q f) : Records Q x := by
  intro d a d' hx package
  rw [h d a d' hx package]
  simp only [hPQ]

theorem Records.bind (hx : Records P x) (hk : ∀ a, Records Q (k a)) :
    Records (fun f => P f ∨ Q f) (x >>= k) := by
  intro d b d'' h package
  obtain ⟨a, d', ha, hb⟩ := bind_eq_ok.mp h
  rw [hk a d' b d'' hb package, hx d a d' ha package, or_assoc, ← exists_or]
  simp only [or_and_right]

theorem records_nothing (h : ∀ d a d', x d = .ok a d' → d'.dependencies = d.dependencies) :
    Records (fun _ => False) x := by
  intro d a d' hx package
  simp [h d a d' hx]

/-- A step that records nothing leaves to the others what is recorded. -/
theorem Records.after (hx : Records (fun _ => False) x) (hk : ∀ a, Records Q (k a)) :
    Records Q (x >>= k) :=
  (hx.bind hk).congr fun _ => iff_of_eq (false_or _)

theorem Records.before (hx : Records P x) (hk : ∀ a, Records (fun _ => False) (k a)) :
    Records P (x >>= k) :=
  (hx.bind hk).congr fun _ => iff_of_eq (or_false _)

theorem pure_records (a : α) : Records (fun _ => False) (pure a : Drafting α) := by
  apply records_nothing
  intro d _ d' h
  obtain ⟨-, rfl⟩ := pure_eq_ok.mp h
  rfl

theorem throw_records (fault : Fault) : Records P (throw fault : Drafting α) := by
  intro d _ d' h
  exact absurd h throw_ne_ok

theorem touch_records : Records (fun _ => False) (touch c) := by
  apply records_nothing
  intro d _ d' h
  rw [touch_ok.mp h, Draft.touch]
  split <;> rfl

theorem write_records {xs : List Statement} : Records (fun _ => False) (write c xs) := by
  apply records_nothing
  intro d _ d' h
  rw [write_ok.mp h]
  rfl

theorem record_dependencies {d : Draft} {package : String} :
    package ∈ (d.record f.dependency).dependencies ↔
      package ∈ d.dependencies ∨ ∃ g, g = f ∧ g.dependency = some package := by
  cases hf : f.dependency with
  | none => simp [Draft.record, hf]
  | some dependency =>
    simp only [Draft.record, OrderedSet.mem_insert, exists_eq_left, hf, Option.some.injEq]
    rw [or_comm, eq_comm]

theorem use_records {a : Arguments} : Records (· = f) (use r f a) := by
  intro d _ d' h package
  obtain ⟨-, rfl⟩ := use_ok.mp h
  exact record_dependencies

theorem subject_records : Records (· = f) (subject r f) := by
  intro d _ d' h package
  obtain ⟨-, rfl⟩ := subject_ok.mp h
  exact record_dependencies

/-- What is recorded for a built-in feature depends on what it is. -/
theorem feature_records {name : String} {k : Feature → Drafting β}
    (hk : ∀ f, r.find? name = some f → Records P (k f)) : Records P (feature r name >>= k) := by
  intro d b d'' h package
  obtain ⟨f, _, hf, hb⟩ := bind_eq_ok.mp h
  obtain ⟨hlookup, rfl⟩ := feature_ok.mp hf
  exact hk f (lookup_eq_ok.mp hlookup) _ b d'' hb package

theorem call_records {name : String} {a : Arguments} :
    Records (fun f => r.find? name = some f) (call r name a) := by
  refine feature_records fun f hf => ?_
  refine (use_records.before fun _ => pure_records _).congr fun g => ?_
  rw [hf, Option.some.injEq, eq_comm]

theorem values_records {values : List String} :
    Records (fun g => g = f ∧ values ≠ []) (Drafting.values r f values) := by
  induction values with
  | nil => exact (pure_records _).congr fun g => by simp
  | cons value rest ih =>
    refine (use_records.bind fun _ => ih.before fun _ => pure_records _).congr fun g => ?_
    simp only [ne_eq, reduceCtorEq, not_false_eq_true, and_true]
    exact or_iff_left_of_imp And.left

theorem expression?_records {test : CaseTest} (h : (NodeKind.case test).Testing) :
    Records (fun g => g = f ∧ test ≠ .otherwise) (expression? r f test) := by
  cases test with
  | otherwise => exact (pure_records _).congr fun g => by simp
  | condition expression =>
    exact (subject_records.before fun _ => pure_records _).congr fun g => by simp
  | values values =>
    have hvalues : values ≠ [] := h
    exact (values_records.before fun _ => pure_records _).congr fun g => by simp [hvalues]

theorem suspend_records {status : Status} {send : Feature} {text : String} :
    Records (· = send) (suspend r c status send text) :=
  use_records.before fun _ => write_records

/-- Showing a message records the features that it asks for. -/
theorem message_records {place : Option Place} {status : Status} {style : MessageStyle}
    {text : String} :
    Records (fun f => ∃ name ∈ (NodeKind.message status style text).demands, r.find? name = some f)
      (message r place c status style text) := by
  unfold message
  refine feature_records fun send hsend => ?_
  have hown : ∀ f, f = send ↔ r.find? style.featureName = some f := by
    intro f
    rw [hsend, Option.some.injEq, eq_comm]
  cases style with
  | next =>
    refine (suspend_records.before fun _ => write_records.before fun _ =>
      touch_records.before fun _ => pure_records _).congr fun f => ?_
    rw [hown]
    simp [NodeKind.demands, MessageStyle.featureName]
  | previousNext =>
    have hrefusal : ∀ c', Records (fun _ => False) (refusal r place c' .previousNext) := by
      intro c'
      rw [refusal]
      cases previous place with
      | error fault => exact throw_records _
      | ok status => exact write_records
    refine (suspend_records.before fun _ => write_records.before fun _ =>
      touch_records.before fun _ => hrefusal _).congr fun f => ?_
    rw [hown]
    simp [NodeKind.demands, MessageStyle.featureName]
  | ok =>
    refine (suspend_records.bind fun _ => call_records.before fun _ =>
      write_records.before fun _ => write_records.before fun _ =>
        touch_records.before fun _ => pure_records _).congr fun f => ?_
    rw [hown]
    simp [NodeKind.demands, MessageStyle.featureName, endFeature]
  | yesNo text =>
    refine (suspend_records.bind fun _ => write_records.after fun _ => touch_records.after fun _ =>
      call_records.bind fun _ => call_records.before fun _ => write_records).congr fun f => ?_
    rw [hown]
    simp [NodeKind.demands, MessageStyle.featureName, endFeature]

mutual

/-- Drafting a built graph records what the graph uses. -/
theorem node_records : ∀ (n : Node) (place : Option Place), n.WellFormed →
    (∀ kind ∈ n.preorder, kind.Testing) → Records (r.Uses n) (node r place n)
  | .mk kind c ns, place, hwf, htesting => by
    obtain ⟨hkind, hns⟩ := Node.wellFormed_mk.mp hwf
    obtain ⟨-, hbelow⟩ := List.forall_mem_cons.mp htesting
    unfold node
    refine touch_records.after fun _ => ?_
    cases kind with
    | block =>
      exact (serial_records ns hns hbelow).congr fun f => by simp [uses_mk, NodeKind.demands]
    | case test =>
      exact (serial_records ns hns hbelow).congr fun f => by simp [uses_mk, NodeKind.demands]
    | option label =>
      exact (serial_records ns hns hbelow).congr fun f => by simp [uses_mk, NodeKind.demands]
    | switch f =>
      have hcases : ∀ n ∈ ns, ∃ test, n.kind = .case test := fun n hn =>
        hkind.1 n.kind (List.mem_map_of_mem hn)
      refine (arms_records ns hns hbelow hcases).congr fun g => ?_
      simp [uses_mk, NodeKind.demands, eq_comm]
    | command f a =>
      obtain rfl : ns = [] := List.map_eq_nil_iff.mp hkind
      refine (use_records.before fun _ => write_records).congr fun g => ?_
      simp [uses_mk, NodeKind.demands, eq_comm]
    | message status style text =>
      obtain rfl : ns = [] := List.map_eq_nil_iff.mp hkind
      exact message_records.congr fun g => by simp [uses_mk]
    | options status text =>
      refine feature_records fun send hsend => ?_
      refine (suspend_records.bind fun _ => write_records.after fun _ =>
        touch_records.after fun _ => choices_records ns hns hbelow).congr fun g => ?_
      have hname : r.find? "dlg_Options" = some send := hsend
      simp [uses_mk, NodeKind.demands, hname, eq_comm]

theorem serial_records : ∀ (ns : List Node) {parent : Node} {i : Nat}, (∀ n ∈ ns, n.WellFormed) →
    (∀ kind ∈ Node.preorderIn ns, kind.Testing) →
    Records (fun f => ∃ n ∈ ns, r.Uses n f) (serial r parent i ns)
  | [], _, _, _, _ => (pure_records _).congr fun f => by simp
  | n :: ns, parent, i, hwf, htesting => by
    obtain ⟨hn, hns⟩ := List.forall_mem_cons.mp hwf
    obtain ⟨hfirst, hrest⟩ := List.forall_mem_append.mp htesting
    rw [serial]
    refine ((node_records n _ hn hfirst).bind fun _ => serial_records ns hns hrest).congr
      fun f => ?_
    simp

theorem arms_records {f : Feature} : ∀ (ns : List Node) {parent : Node} {i : Nat},
    (∀ n ∈ ns, n.WellFormed) → (∀ kind ∈ Node.preorderIn ns, kind.Testing) →
    (∀ n ∈ ns, ∃ test, n.kind = .case test) →
    Records (fun g => (g = f ∧ ∃ n ∈ ns, ∃ test, n.kind = .case test ∧ test ≠ .otherwise) ∨
      ∃ n ∈ ns, r.Uses n g) (arms r parent f i ns)
  | [], _, _, _, _, _ => (pure_records _).congr fun g => by simp
  | n :: ns, parent, i, hwf, htesting, hcase => by
    obtain ⟨hn, hns⟩ := List.forall_mem_cons.mp hwf
    obtain ⟨hfirst, hrest⟩ := List.forall_mem_append.mp htesting
    obtain ⟨⟨test, htest⟩, hcases⟩ := List.forall_mem_cons.mp hcase
    have hkind : (NodeKind.case test).Testing := by
      obtain ⟨kind, context, children⟩ := n
      obtain rfl : kind = .case test := htest
      exact hfirst _ List.mem_cons_self
    rw [arms]
    simp only [htest]
    refine ((expression?_records hkind).bind fun _ => write_records.after fun _ =>
      (node_records n _ hn hfirst).bind fun _ => write_records.after fun _ =>
        arms_records ns hns hrest hcases).congr fun g => ?_
    simp only [List.mem_cons, exists_eq_or_imp, htest, NodeKind.case.injEq, exists_eq_left']
    rw [and_or_left, or_assoc, or_left_comm (a := r.Uses n g)]

theorem choices_records : ∀ (ns : List Node) {parent : Node} {c : StatusContext} {i : Nat},
    (∀ n ∈ ns, n.WellFormed) → (∀ kind ∈ Node.preorderIn ns, kind.Testing) →
    Records (fun f => ∃ n ∈ ns, r.Uses n f) (choices r parent c i ns)
  | [], _, _, _, _, _ => (pure_records _).congr fun f => by simp
  | n :: ns, parent, c, i, hwf, htesting => by
    obtain ⟨hn, hns⟩ := List.forall_mem_cons.mp hwf
    obtain ⟨hfirst, hrest⟩ := List.forall_mem_append.mp htesting
    rw [choices]
    exact (write_records.after fun _ => (node_records n _ hn hfirst).bind fun _ =>
      write_records.after fun _ => choices_records ns hns hrest).congr fun f => by simp

end

end Records

end Drafting

/-- What a text depends on by the calls in it. -/
theorem Expansion.mem_dependencies {r : Registry} {manager text package : String} :
    package ∈ (Expansion.of r manager text).dependencies ↔
      ∃ f, r.Calls text f ∧ f.dependency = some package := by
  have hparted : Call.Parted r text.toList (Call.segments r text) := Call.parted_segmentsFrom _
  simp only [Expansion.of, List.mem_filterMap]
  constructor
  · rintro ⟨segment, hsegment, hdependency⟩
    cases segment with
    | literal c => cases hdependency
    | call call => exact ⟨call.feature, ⟨_, call, hparted, hsegment, rfl⟩, hdependency⟩
  · rintro ⟨_, ⟨segments, call, hsegments, hcall, rfl⟩, hdependency⟩
    rw [hsegments.eq_segments] at hcall
    exact ⟨.call call, hcall, hdependency⟩

theorem Script.assemble_eq (date manager body : String) (dependencies : List String) :
    ∃ rest, Script.assemble date manager body dependencies =
      "/* This script was automatically generated by dlgc on " ++ date ++ " */\n" ++
        String.join (dependencies.map fun package => "importPackage(" ++ package ++ ");\n") ++
        "var status = 0;\n" ++ rest := by
  have hname : "/* This script was automatically generated by " ++ "dlgc" ++ " on " =
      "/* This script was automatically generated by dlgc on " := by decide
  rw [← hname]
  refine ⟨?rest, ?same⟩
  case same =>
    unfold assemble
    simp only [String.append_assoc]
    rfl

namespace Registry

/-- A script imports what the features depend on that its graph uses or that are called in its
body, each package once and in increasing order. The imports stand between its first line and the
line that sets the status. -/
theorem compile_imports {r : Registry} {source date : String} {script : Script}
    (h : r.compile source date = .ok script) :
    ∃ element resources content root count d, Markup.parse? source = some element ∧
      sceneParts element = .ok (resources, [content]) ∧
      r.Drafts resources content root count d ∧
      script.dependencies.Pairwise (· < ·) ∧
      (∀ package, package ∈ script.dependencies ↔
        ∃ f, (r.Uses root.assignContexts.1 f ∨ r.Calls d.body f) ∧ f.dependency = some package) ∧
      ∃ rest, script.source =
        "/* This script was automatically generated by dlgc on " ++ date ++ " */\n" ++
          String.join (script.dependencies.map fun package =>
            "importPackage(" ++ package ++ ");\n") ++
          "var status = 0;\n" ++ rest := by
  obtain ⟨element, resources, content, helement, hparts, hcontent⟩ := compile_eq_ok.mp h
  obtain ⟨root, count, d, hdrafts, rfl⟩ := compileContent_eq_ok.mp hcontent
  have hprepared := Vocabulary.scene_prepared hdrafts.built
  have htesting : ∀ kind ∈ root.assignContexts.1.preorder, kind.Testing := by
    rw [Node.assignContexts, Node.preorder_assign]
    exact Vocabulary.scene_grants (Vocabulary.grants_testing _) hdrafts.built
  have hrecords := Drafting.node_records (r := r) _ none hprepared.wellFormed htesting
  refine ⟨element, resources, content, root, count, d, helement, hparts, hdrafts,
    OrderedSet.sorted _, fun package => ?_, Script.assemble_eq ..⟩
  rw [show package ∈ (Script.ofDraft r d date count).dependencies ↔
    package ∈ d.dependencies ∪ .ofList (Expansion.of r r.manager d.body).dependencies from Iff.rfl,
    OrderedSet.mem_union, OrderedSet.mem_ofList, Expansion.mem_dependencies,
    hrecords _ _ _ hdrafts.drafted]
  simp [Draft.empty, or_and_right, exists_or]

end Registry

/-- A gift whose amount is a call, in a switch with nothing but a default. -/
def Sample.taxedSource : String :=
  "<scene><switch type='job'><default><give x='$tax(1)'/></default></switch></scene>"

namespace Registry

/-- A switch that tests nothing imports nothing, and an amount that calls a feature does. -/
theorem taxed_compile_imports :
    ∃ script rest, Sample.packaged.compile Sample.taxedSource "today" = .ok script ∧
      script.dependencies = ["money", "taxes"] ∧
      script.source = "/* This script was automatically generated by dlgc on today */\n" ++
        "importPackage(money);\nimportPackage(taxes);\nvar status = 0;\n" ++ rest := by
  have hcompiled : (Sample.packaged.compile Sample.taxedSource "today").toOption.map
      Script.dependencies = some ["money", "taxes"] := by
    decide +kernel
  obtain ⟨script, hscript, hdependencies⟩ := Option.map_eq_some_iff.mp hcompiled
  have hscript := eq_ok_of_toOption hscript
  obtain ⟨-, -, -, -, -, -, -, -, -, -, -, rest, hsource⟩ := compile_imports hscript
  refine ⟨script, rest, hscript, hdependencies, ?_⟩
  rw [hsource, hdependencies]
  rfl

end Registry

end SceneDispatch
