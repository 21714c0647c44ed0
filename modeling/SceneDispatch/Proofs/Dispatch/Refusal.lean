import SceneDispatch.Proofs.Dispatch.Isolation
/-!
Messages that are refused or turned back. Main statement: a call with mode 0 under the status of
such a message runs the block behind the message and nothing else.
-/
namespace SceneDispatch

namespace Machine

variable {α : Type} {k : Invocation} {m : Machine α} {a : α} {xs : List (α × Statement)}

theorem dispatch_of_not_mem {ps : List (Passage α)} (h : ∀ g ∈ ps, m.story.status ∉ g.context) :
    m.dispatch k ps = m := by
  induction ps with
  | nil => rfl
  | cons g gs ih =>
    obtain ⟨hg, hgs⟩ := List.forall_mem_cons.mp h
    rw [dispatch_cons, if_neg hg, ih hgs]

/-- With mode 0 the block of a refusal is entered. -/
theorem run_refused (hmode : k.mode = 0) (h : m.Ready) (hended : m.story.ended = false) :
    m.run k ((a, .branch .refused) :: (a, .opening) :: xs) =
      run k xs
        { m with
          taken := true
          trace := m.trace ++ [(a, .branch .refused), (a, .opening)] } := by
  have hholds : m.story.holds k .refused = true := by simp [Story.holds, hmode]
  rw [run_cons, run_cons, step_performed k h.skipping hended (by simp),
    step_entered k (by exact h.skipping) (by exact hended) (by exact hholds)]
  simp [perform, judge, log, hholds, h.next, Story.weigh]

end Machine

open Machine

/-- A call comes first to the group of its status alone, and there to what was written first. -/
theorem Emission.dispatch_alone {es before after : List Emission} {e : Emission} {s : Status}
    (hes : es = before ++ e :: after) (he : e.context = .singleton s)
    (hbefore : ∀ e ∈ before, s ∉ e.context) :
    ∃ rest gs, ∀ k, (Machine.start s : Machine Path).dispatch k (passages es) =
      ((Machine.start s : Machine Path).run k (e.lines ++ rest)).dispatch k gs := by
  obtain ⟨front, rear, hcontexts, hfront⟩ := contexts_of_opensAlone ⟨_, _, _, hes, he, hbefore⟩
  have hnothing : select (· = OrderedSet.singleton s) before = [] := by
    refine select_eq_nil fun e' he' => decide_eq_false ?_
    intro heq
    exact hbefore e' he' (heq ▸ OrderedSet.mem_singleton.mpr rfl)
  have hlines : select (· = OrderedSet.singleton s) es =
      e.lines ++ select (· = OrderedSet.singleton s) after := by
    rw [hes, select_append, hnothing, select_cons_of_keep (by simpa using he), List.nil_append]
  refine ⟨select (· = OrderedSet.singleton s) after,
    rear.map fun c => ⟨c, select (· = c) es⟩, fun k => ?_⟩
  have hpassed : (Machine.start s : Machine Path).dispatch k
      (front.map fun c => ⟨c, select (· = c) es⟩) = .start s := by
    apply dispatch_of_not_mem
    intro g hg
    obtain ⟨c, hc, rfl⟩ := List.mem_map.mp hg
    exact hfront c hc
  have hown : (Machine.start s : Machine Path).story.status ∈ OrderedSet.singleton s :=
    OrderedSet.mem_singleton.mpr rfl
  rw [passages, hcontexts, List.map_append, dispatch_append, hpassed, List.map_cons, dispatch_cons,
    if_pos hown, hlines]

section Refusal

variable {r : Registry} {k : Invocation} {scene parent : Node} {exit c : StatusContext}
  {count : Nat} {a q : Path} {j : Nat} {status : Status} {style : MessageStyle} {text : String}
  {ns : List Node}

/-- A call under the status of a message comes first to what stands behind the message. -/
theorem Prepared.dispatch_message (h : Prepared scene exit count)
    (hparent : scene.at? q = some parent)
    (hm : parent.children[j]? = some (.mk (.message status style text) c ns)) :
    ∃ rest gs, ∀ k, (Machine.start status : Machine Path).dispatch k (scene.passages r) =
      ((Machine.start status : Machine Path).run k
        ((r.refusal (some (parent.backTo j)) style).map (Prod.mk (q ++ [j])) ++ rest)).dispatch k
          gs := by
  obtain ⟨c', out, front, rear, hflow, hsep, hstretch⟩ :=
    h.flows.node_stretch (r := r) (b := none) (p := []) h.wellFormed h.separate hparent hm
  obtain rfl : c = c' := hflow.context
  have hstatus : status ∈ (Node.mk (.message status style text) c ns).statuses := by
    simp [Node.statuses, NodeKind.status?]
  have hout : status ∉ c := hsep.apart status hstatus
  have hsplit : scene.emissions r none [] = (front ++ [⟨c, q ++ [j], []⟩,
      ⟨c, q ++ [j], .setStatus status :: r.shown style text ++ [.leave]⟩]) ++
      ⟨.singleton status, q ++ [j], r.refusal (some (parent.backTo j)) style⟩ :: rear := by
    rw [hstretch.eq, Node.written, if_neg (by simp [Node.kind, NodeKind.isArm]),
      Node.emissions_message]
    simp
  refine Emission.dispatch_alone hsplit rfl (List.forall_mem_append.mpr ⟨?_, ?_⟩)
  · exact hstretch.before_context status hstatus
  · exact List.forall_mem_cons.mpr ⟨hout, List.forall_mem_singleton.mpr hout⟩

/-- A message has a parent: only the scene itself has none. -/
theorem Prepared.exists_parent (h : Prepared scene exit count)
    (hat : scene.at? a = some (.mk (.message status style text) c ns)) :
    ∃ q j parent, a = q ++ [j] ∧ scene.at? q = some parent ∧
      parent.children[j]? = some (.mk (.message status style text) c ns) := by
  refine Node.exists_parent hat ?_
  rintro rfl
  cases hat
  cases h.kind

/-- A refusal that ends the conversation: what the call executes, and how far it comes. -/
theorem Prepared.dispatch_refused {no : String} {f g : Feature} (h : Prepared scene exit count)
    (hat : scene.at? a = some (.mk (.message status (.yesNo no) text) c ns))
    (hf : r.lookup MessageStyle.ok.featureName = .ok f)
    (hg : r.lookup Drafting.endFeature = .ok g) (hmode : k.mode = 0) :
    ((Machine.start status).dispatch k (scene.passages r)).trace =
        [(a, .branch .refused), (a, .opening), (a, r.statement f (.single (Text.quote no))),
          (a, r.statement g .empty), (a, .leave)] ∧
      ((Machine.start status).dispatch k (scene.passages r)).story =
        ⟨status, [r.statement f (.single (Text.quote no)), r.statement g .empty].filterMap
          Statement.event?, true⟩ := by
  obtain ⟨q, j, parent, rfl, hparent, hm⟩ := h.exists_parent hat
  obtain ⟨rest, gs, hdispatch⟩ := h.dispatch_message (r := r) hparent hm
  have hplain : ∀ x ∈ [(q ++ [j], r.statement f (.single (Text.quote no))),
      (q ++ [j], r.statement g .empty)], x.2.event?.isSome = true := by
    simp [Registry.statement, Statement.plain_terminated]
  have hlines : (r.refusal (some (parent.backTo j)) (.yesNo no)).map (Prod.mk (q ++ [j])) ++ rest =
      (q ++ [j], .branch .refused) :: (q ++ [j], .opening) ::
        ([(q ++ [j], r.statement f (.single (Text.quote no))), (q ++ [j], r.statement g .empty)] ++
          (q ++ [j], .leave) :: (q ++ [j], .closing) :: rest) := by
    simp [Registry.refusal, Registry.builtIn, hf, hg]
  rw [hdispatch k, hlines, run_refused hmode ⟨rfl, rfl⟩ rfl, run_plain_leave rfl rfl hplain,
    dispatch_of_ended rfl]
  exact ⟨rfl, rfl⟩

/-- A message that is turned back: what the call executes, and how far it comes. -/
theorem Prepared.dispatch_turned (h : Prepared scene exit count)
    (hparent : scene.at? q = some parent)
    (hm : parent.children[j]? = some (.mk (.message status .previousNext text) c ns))
    (hmode : k.mode = 0) :
    ((Machine.start status).dispatch k (scene.passages r)).trace =
        [(q ++ [j], .branch .refused), (q ++ [j], .opening),
          (q ++ [j], .setStatus (parent.backTo j)), (q ++ [j], .redispatch),
          (q ++ [j], .leave)] ∧
      ((Machine.start status).dispatch k (scene.passages r)).story =
        ⟨parent.backTo j, [.redispatched], true⟩ := by
  obtain ⟨rest, gs, hdispatch⟩ := h.dispatch_message (r := r) hparent hm
  have hplain : ∀ x ∈ [(q ++ [j], Statement.redispatch)], x.2.event?.isSome = true := by
    simp [Statement.event?]
  have hlines : (r.refusal (some (parent.backTo j)) .previousNext).map (Prod.mk (q ++ [j])) ++
      rest = (q ++ [j], .branch .refused) :: (q ++ [j], .opening) ::
        (q ++ [j], .setStatus (parent.backTo j)) :: ([(q ++ [j], .redispatch)] ++
          (q ++ [j], .leave) :: (q ++ [j], .closing) :: rest) := rfl
  rw [hdispatch k, hlines, run_refused hmode ⟨rfl, rfl⟩ rfl, run_cons,
    step_performed k rfl rfl (by simp), run_plain_leave rfl rfl hplain, dispatch_of_ended rfl]
  exact ⟨rfl, rfl⟩

/-- Let a scene be built and drafted. The lines of its passages are those of the groups of the
draft. A call with mode 0 under the status of a message that asks for yes or no, or that offers a
way back, executes the block behind the message and nothing else, whatever is selected and however
tests come out. The one shows the refusal and ends the conversation. The other sets the status that
leads back and calls the routine once more: the least status of the context of the suspend point
before the message among its siblings, or the start status if there is none. -/
theorem refused_dispatch {v : Vocabulary} {content : Element} {root m : Node} {d : Draft}
    (hbuild : v.scene content 0 = .ok root count)
    (hdraft : Drafting.scene v.registry root.assignContexts.1 .empty = .ok () d)
    (hat : root.assignContexts.1.at? a = some m) (hkind : m.kind = .message status style text)
    (hmode : k.mode = 0) :
    (root.assignContexts.1.passages v.registry).map (Passage.relabel fun _ => ()) =
        d.groups.map Group.passage ∧
      (∀ no, style = .yesNo no → ∃ f g, v.registry.lookup MessageStyle.ok.featureName = .ok f ∧
        v.registry.lookup Drafting.endFeature = .ok g ∧
        root.assignContexts.1.trace v.registry k status =
          [(a, .branch .refused), (a, .opening),
            (a, v.registry.statement f (.single (Text.quote no))),
            (a, v.registry.statement g .empty), (a, .leave)] ∧
        ((Machine.start status).dispatch k (d.groups.map Group.passage)).story =
          ⟨status, [v.registry.statement f (.single (Text.quote no)),
            v.registry.statement g .empty].filterMap Statement.event?, true⟩) ∧
      (style = .previousNext → ∃ q j parent, a = q ++ [j] ∧
        root.assignContexts.1.at? q = some parent ∧ parent.children[j]? = some m ∧
        root.assignContexts.1.trace v.registry k status =
          [(a, .branch .refused), (a, .opening), (a, .setStatus (parent.backTo j)),
            (a, .redispatch), (a, .leave)] ∧
        ((Machine.start status).dispatch k (d.groups.map Group.passage)).story =
          ⟨parent.backTo j, [.redispatched], true⟩) := by
  have hscene := Vocabulary.scene_prepared hbuild
  have hstory := story_dispatch_groups (s := status) (k := k) hscene.wellFormed hdraft
  obtain ⟨kind, c, ns⟩ := m
  obtain rfl : kind = .message status style text := hkind
  refine ⟨?_, ?_, ?_⟩
  · rw [Drafting.scene_ok hscene.wellFormed hdraft]
    exact Emission.relabel_passages _
  · rintro no rfl
    have hdrafted : Drafting.Drafted v.registry root.assignContexts.1 := ⟨none, .empty, d, hdraft⟩
    obtain ⟨f, g, hf, hg⟩ := (hdrafted.at? hscene.wellFormed hat).refusal_features
    obtain ⟨htrace, htold⟩ := hscene.dispatch_refused hat hf hg hmode
    exact ⟨f, g, hf, hg, htrace, hstory.trans htold⟩
  · rintro rfl
    obtain ⟨q, j, parent, rfl, hparent, hm⟩ := hscene.exists_parent hat
    obtain ⟨htrace, htold⟩ := hscene.dispatch_turned (r := v.registry) hparent hm hmode
    exact ⟨q, j, parent, rfl, hparent, hm, htrace, hstory.trans htold⟩

/-- In the sample scene a no at the question of the first entry shows the refusal and ends; turning
back from the last message sets the status of the prompt, the least that leads to the message
before. -/
theorem offer_refused_dispatch :
    ∃ d, Drafting.scene Sample.fullRegistry Sample.offerGraph.assignContexts.1 .empty = .ok () d ∧
      Sample.offerGraph.assignContexts.1.trace Sample.fullRegistry ⟨0, 7, fun _ _ => true⟩ 1 =
        [([0, 0, 0], .branch .refused), ([0, 0, 0], .opening),
          ([0, 0, 0], .line "cm.sendOk(\"bye\");"), ([0, 0, 0], .line "cm.dispose();"),
          ([0, 0, 0], .leave)] ∧
      Sample.offerGraph.assignContexts.1.trace Sample.fullRegistry ⟨0, 7, fun _ _ => true⟩ 3 =
        [([2], .branch .refused), ([2], .opening), ([2], .setStatus 0), ([2], .redispatch),
          ([2], .leave)] := by
  obtain ⟨d, hd⟩ : ∃ d, Drafting.scene Sample.fullRegistry
      Sample.offerGraph.assignContexts.1 .empty = .ok () d := ⟨_, rfl⟩
  refine ⟨d, hd, ?_, ?_⟩
  · obtain ⟨-, hrefused, -⟩ := refused_dispatch (k := ⟨0, 7, fun _ _ => true⟩) (a := [0, 0, 0])
      Sample.offer_builds hd rfl rfl rfl
    obtain ⟨f, g, hf, hg, htrace, -⟩ := hrefused "bye" rfl
    cases hf
    cases hg
    exact htrace.trans (by decide +kernel)
  · obtain ⟨-, -, hturned⟩ := refused_dispatch (k := ⟨0, 7, fun _ _ => true⟩) (a := [2])
      Sample.offer_builds hd rfl rfl rfl
    obtain ⟨q, j, parent, hplace, hparent, -, htrace, -⟩ := hturned rfl
    obtain ⟨rfl, rfl⟩ : q = [] ∧ j = 2 := by
      cases q with
      | nil => simpa [eq_comm] using hplace
      | cons i q => simp at hplace
    cases hparent
    exact htrace.trans (by decide +kernel)

end Refusal

end SceneDispatch
