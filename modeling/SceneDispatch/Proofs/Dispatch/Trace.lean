import SceneDispatch.Proofs.Dispatch.Machine
/-!
The trace of a call: the lines that it executed, with their labels. Main statements: every line of
the trace was executed by one of the groups, and a line between the braces of a block was executed
only if the block was entered.
-/
namespace SceneDispatch

namespace Machine

variable {α : Type} {k : Invocation} {m : Machine α} {xs : List (α × Statement)}
  {x : α × Statement} {s : Status} {ps : List (Passage α)}

theorem trace_step (m : Machine α) (x : α × Statement) :
    (m.step k x).trace = m.trace ∨ (m.step k x).trace = m.trace ++ [x] := by
  obtain ⟨a, statement⟩ := x
  have hperform : (m.perform k statement).trace = m.trace := by
    cases statement with
    | alternative condition =>
      rw [perform]
      split <;> rfl
    | _ => rfl
  unfold step
  split
  · exact .inl rfl
  · split
    · cases statement <;> exact .inl rfl
    · split
      · exact .inl rfl
      · exact .inr (congrArg (· ++ _) hperform)

theorem mem_trace_run_of_mem (h : x ∈ m.trace) : x ∈ (m.run k xs).trace := by
  induction xs generalizing m with
  | nil => exact h
  | cons y ys ih =>
    rcases trace_step (k := k) m y with hstep | hstep
    · exact ih (by rwa [hstep])
    · exact ih (by rw [hstep]; exact List.mem_append_left _ h)

theorem mem_of_mem_trace_run (h : x ∈ (m.run k xs).trace) : x ∈ m.trace ∨ x ∈ xs := by
  induction xs generalizing m with
  | nil => exact .inl h
  | cons y ys ih =>
    rcases ih h with hx | hx
    · rcases trace_step (k := k) m y with hstep | hstep
      · exact .inl (hstep ▸ hx)
      · rw [hstep, List.mem_append, List.mem_singleton] at hx
        rcases hx with hx | rfl
        · exact .inl hx
        · exact .inr List.mem_cons_self
    · exact .inr (List.mem_cons_of_mem _ hx)

/-- The first line of a group that is run is executed. -/
theorem mem_trace_run_head (h : m.Ready) (hended : m.story.ended = false) (x : α × Statement)
    (xs : List (α × Statement)) : x ∈ (m.run k (x :: xs)).trace := by
  obtain ⟨a, statement⟩ := x
  rw [run_cons]
  apply mem_trace_run_of_mem
  by_cases hopening : statement = .opening
  · subst hopening
    rw [step_entered k h.skipping hended h.next]
    exact List.mem_append_right _ List.mem_cons_self
  · rw [step_performed k h.skipping hended hopening]
    exact List.mem_append_right _ List.mem_cons_self

theorem mem_trace_dispatch_of_mem (h : x ∈ m.trace) : x ∈ (m.dispatch k ps).trace := by
  induction ps generalizing m with
  | nil => exact h
  | cons g gs ih =>
    rw [dispatch_cons]
    split
    · exact ih (mem_trace_run_of_mem h)
    · exact ih h

theorem dispatch_append (ps qs : List (Passage α)) :
    m.dispatch k (ps ++ qs) = (m.dispatch k ps).dispatch k qs := List.foldl_append

theorem mem_trace_dispatch_of_run {before after : List (Passage α)} {g : Passage α}
    (hg : (m.dispatch k before).story.status ∈ g.context)
    (h : x ∈ ((m.dispatch k before).run k g.lines).trace) :
    x ∈ (m.dispatch k (before ++ g :: after)).trace := by
  rw [dispatch_append, dispatch_cons, if_pos hg]
  exact mem_trace_dispatch_of_mem h

/-- A line that a call executes is executed for the first time in one of the groups. -/
theorem exists_of_mem_trace_dispatch (h : x ∈ (m.dispatch k ps).trace) (hm : x ∉ m.trace) :
    ∃ before g after, ps = before ++ g :: after ∧
      (m.dispatch k before).story.status ∈ g.context ∧
      x ∉ (m.dispatch k before).trace ∧ x ∈ ((m.dispatch k before).run k g.lines).trace := by
  induction ps generalizing m with
  | nil => exact absurd h hm
  | cons g gs ih =>
    rw [dispatch_cons] at h
    by_cases hx : x ∈ (if m.story.status ∈ g.context then m.run k g.lines else m).trace
    · split at hx
      · next hmem => exact ⟨[], g, gs, rfl, hmem, hm, hx⟩
      · exact absurd hx hm
    · obtain ⟨before, g', after, rfl, hstatus, hnot, hrun⟩ := ih h hx
      exact ⟨g :: before, g', after, rfl, hstatus, hnot, hrun⟩

/-- As long as a call on tame groups goes on, it stands ready under the same status. -/
theorem ready_dispatch (htame : ∀ g ∈ ps, Tame k g.lines) (h : m.Ready)
    (hended : (m.dispatch k ps).story.ended = false) :
    (m.dispatch k ps).Ready ∧ (m.dispatch k ps).story.status = m.story.status := by
  induction ps generalizing m with
  | nil => exact ⟨h, rfl⟩
  | cons g gs ih =>
    obtain ⟨hg, hgs⟩ := List.forall_mem_cons.mp htame
    rw [dispatch_cons] at hended ⊢
    by_cases hmem : m.story.status ∈ g.context
    · rw [if_pos hmem] at hended ⊢
      have hopen : (m.run k g.lines).story.ended = false := by
        cases hrun : (m.run k g.lines).story.ended with
        | false => rfl
        | true =>
          rw [dispatch_of_ended hrun, hrun] at hended
          cases hended
      obtain ⟨hready, hstatus⟩ := ih hgs (hg.ready m h hopen) hended
      exact ⟨hready, hstatus.trans (hg.settled m hopen)⟩
    · rw [if_neg hmem] at hended ⊢
      exact ih hgs h hended

/-- A block logs nothing unless it is entered. -/
theorem trace_run_braces {a : α} {body : List (α × Statement)} (hbody : Tame k body) :
    (m.run k ((a, .opening) :: (body ++ [(a, .closing)]))).trace = m.trace ∨
      (a, .opening) ∈ (m.run k ((a, .opening) :: (body ++ [(a, .closing)]))).trace := by
  cases hended : m.story.ended with
  | true => exact .inl (by rw [run_of_ended k hended])
  | false =>
    rcases Nat.eq_zero_or_pos m.skipping with hskipping | hskipping
    · cases hnext : m.next with
      | false => exact .inl (by rw [run_braces_passed hbody hskipping hended hnext])
      | true =>
        rw [run_cons, step_entered k hskipping hended hnext]
        exact .inr (mem_trace_run_of_mem (List.mem_append_right _ List.mem_cons_self))
    · have htame : Tame k ([] ++ (a, .opening) :: (body ++ [(a, .closing)])) :=
        .braces (by simp) hbody
      exact .inl (congrArg Machine.trace (htame.skipped m hskipping))

/-- If a line is executed that stands only within a block or in its braces, the block was
entered. -/
theorem opening_mem_trace {a : α} {before body after : List (α × Statement)} (hbody : Tame k body)
    (hbefore : x ∉ before) (hafter : x ∉ after) (hm : x ∉ m.trace)
    (hx : x ∈ (m.run k (before ++ (a, .opening) :: (body ++ (a, .closing) :: after))).trace) :
    (a, .opening) ∈
      (m.run k (before ++ (a, .opening) :: (body ++ (a, .closing) :: after))).trace := by
  have hsplit : before ++ (a, .opening) :: (body ++ (a, .closing) :: after) =
      before ++ ((a, .opening) :: (body ++ [(a, .closing)]) ++ after) := by
    simp
  rw [hsplit, run_append, run_append] at hx ⊢
  rcases trace_run_braces (a := a) (m := m.run k before) hbody with hsame | hentered
  · have hblock := (mem_of_mem_trace_run hx).resolve_right hafter
    rw [hsame] at hblock
    exact absurd ((mem_of_mem_trace_run hblock).resolve_right hbefore) hm
  · exact mem_trace_run_of_mem hentered

end Machine

end SceneDispatch
