import SceneDispatch.Proofs.Dispatch.Walk
/-!
Calls that differ only in how tests come out. Every test is told, so no two tests of a call come
after the same events, and outcomes can be chosen for one stretch of lines after another. Main
statements: whether lines can be passed is settled piece by piece.
-/
namespace SceneDispatch

/-- How tests come out after what has happened before them. -/
abbrev World := List Event → String → Bool

/-- The same call in another world. -/
def Invocation.within (k : Invocation) (w : World) : Invocation := { k with world := w }

namespace Machine

variable {α : Type} {k : Invocation} {m : Machine α} {x : α × Statement}
  {xs ys : List (α × Statement)} {w w' : World}

section Worlds

theorem length_events_perform (m : Machine α) (statement : Statement) :
    m.story.events.length ≤ (m.perform k statement).story.events.length := by
  have hweigh : ∀ condition, m.story.events.length ≤
      (m.story.weigh k condition).events.length := by
    intro condition
    cases condition <;> simp [Story.weigh, Story.tell]
  cases statement with
  | branch condition => exact hweigh condition
  | alternative condition =>
    rw [perform]
    split
    · exact Nat.le_refl _
    · exact hweigh condition
  | line text => simp [perform, Story.tell]
  | redispatch => simp [perform, Story.tell]
  | _ => exact Nat.le_refl _

theorem length_events_step (m : Machine α) (x : α × Statement) :
    m.story.events.length ≤ (m.step k x).story.events.length := by
  unfold step
  split
  · exact Nat.le_refl _
  · split
    · exact Nat.le_of_eq (by rw [story_skip])
    · split
      · exact Nat.le_refl _
      · exact length_events_perform m x.2

theorem length_events_run (m : Machine α) (xs : List (α × Statement)) :
    m.story.events.length ≤ (m.run k xs).story.events.length := by
  induction xs generalizing m with
  | nil => exact Nat.le_refl _
  | cons x xs ih => exact Nat.le_trans (length_events_step m x) (ih _)

/-- Only a statement that tells something looks at the world, and it looks at what has happened
before. -/
theorem perform_congr {statement : Statement}
    (h : m.story.events.length < (m.perform (k.within w) statement).story.events.length →
      ∀ e, w' m.story.events e = w m.story.events e) :
    m.perform (k.within w') statement = m.perform (k.within w) statement := by
  have hjudge : ∀ condition,
      (m.story.events.length < (m.judge (k.within w) condition).story.events.length →
        ∀ e, w' m.story.events e = w m.story.events e) →
      m.judge (k.within w') condition = m.judge (k.within w) condition := by
    intro condition h
    cases condition with
    | test e =>
      have hsame := h (by simp [judge, Story.weigh, Story.tell]) e
      simp [judge, Story.weigh, Story.holds, Invocation.within, hsame]
    | selected index => rfl
    | refused => rfl
  cases statement with
  | branch condition => exact hjudge condition h
  | alternative condition =>
    rw [perform, perform]
    split
    · rfl
    · next htaken =>
      apply hjudge condition
      intro hlength
      exact h (by rwa [perform, if_neg htaken])
  | _ => rfl

theorem step_congr
    (h : m.story.events.length < (m.step (k.within w) x).story.events.length →
      ∀ e, w' m.story.events e = w m.story.events e) :
    m.step (k.within w') x = m.step (k.within w) x := by
  unfold step at h ⊢
  split
  · rfl
  · split
    · rfl
    · split
      · rfl
      · next hended hskipping hopening =>
        rw [if_neg hended, if_neg hskipping, if_neg hopening] at h
        rw [perform_congr h]

/-- Worlds that agree on all histories which come up make the same of the lines. -/
theorem run_congr
    (h : ∀ l e, m.story.events.length ≤ l.length →
      l.length < (m.run (k.within w) xs).story.events.length → w' l e = w l e) :
    m.run (k.within w') xs = m.run (k.within w) xs := by
  induction xs generalizing m with
  | nil => rfl
  | cons x xs ih =>
    have hstep : m.step (k.within w') x = m.step (k.within w) x := by
      apply step_congr
      intro hlength e
      exact h _ e (Nat.le_refl _)
        (Nat.lt_of_lt_of_le hlength (length_events_run (k := k.within w) _ xs))
    rw [run_cons, run_cons, hstep]
    apply ih
    intro l e hlo hhi
    exact h l e (Nat.le_trans (length_events_step m x) hlo) hhi

/-- Lines can be run in one world and the lines behind them in another. -/
theorem exists_run_append (k : Invocation) (m : Machine α) (w w' : World)
    (xs ys : List (α × Statement)) :
    ∃ u, m.run (k.within u) (xs ++ ys) = (m.run (k.within w) xs).run (k.within w') ys := by
  obtain ⟨n, hn⟩ : ∃ n, (m.run (k.within w) xs).story.events.length = n := ⟨_, rfl⟩
  refine ⟨fun l e => if l.length < n then w l e else w' l e, ?_⟩
  have hfirst : m.run (k.within fun l e => if l.length < n then w l e else w' l e) xs =
      m.run (k.within w) xs := by
    apply run_congr
    intro l e _ hlt
    exact if_pos (hn ▸ hlt)
  rw [run_append, hfirst]
  apply run_congr
  intro l e hle _
  exact if_neg (by omega)

end Worlds

/-- In some world the lines make of the machine what is asked. -/
def May (k : Invocation) (m : Machine α) (xs : List (α × Statement)) (P : Machine α → Prop) :
    Prop :=
  ∃ w, P (m.run (k.within w) xs)

theorem May.append {P Q : Machine α → Prop} (hx : May k m xs Q)
    (hy : ∀ w, Q (m.run (k.within w) xs) → May k (m.run (k.within w) xs) ys P) :
    May k m (xs ++ ys) P := by
  obtain ⟨w, hw⟩ := hx
  obtain ⟨w', hw'⟩ := hy w hw
  obtain ⟨u, hu⟩ := exists_run_append k m w w' xs ys
  exact ⟨u, by rwa [hu]⟩

/-- Whether the lines end the call: they do in every world, or there is one in which they do
not. -/
def Settles (k : Invocation) (m : Machine α) (xs : List (α × Statement)) : Bool → Prop
  | true => ∀ w, (m.run (k.within w) xs).story.ended = true
  | false => May k m xs (·.story.ended = false)

section Settling

variable {a b : Bool}

theorem Settles.nil (hended : m.story.ended = false) : Settles k m [] false :=
  ⟨k.world, hended⟩

/-- Lines end the call if a part of them does. -/
theorem Settles.append (hx : Settles k m xs a)
    (hy : ∀ w, (m.run (k.within w) xs).story.ended = false →
      Settles k (m.run (k.within w) xs) ys b) : Settles k m (xs ++ ys) (a || b) := by
  cases a with
  | true =>
    intro w
    rw [run_append, run_of_ended _ (hx w)]
    exact hx w
  | false =>
    cases b with
    | true =>
      intro w
      rw [run_append]
      cases hended : (m.run (k.within w) xs).story.ended with
      | true => rw [run_of_ended _ hended, hended]
      | false => exact hy w hended w
    | false => exact May.append (P := (·.story.ended = false)) (Q := (·.story.ended = false)) hx hy

/-- A block that is entered ends the call if what stands in it does. -/
theorem Settles.block {a b : α} {inner : List (α × Statement)} {settled : Bool}
    (htame : ∀ w, Tame (k.within w) inner) (hm : m.Ready) (hended : m.story.ended = false)
    (h : Settles k (m.log (a, .opening)) inner settled) :
    Settles k m ((a, .opening) :: (inner ++ [(b, .closing)])) settled := by
  have hstory : ∀ w, (m.run (k.within w) ((a, .opening) :: (inner ++ [(b, .closing)]))).story =
      ((m.log (a, .opening)).run (k.within w) inner).story := by
    intro w
    exact (ready_of_entered (htame w) hm.skipping hended hm.next).1
  cases settled with
  | true =>
    intro w
    rw [hstory]
    exact h w
  | false =>
    obtain ⟨w, hw⟩ := h
    exact ⟨w, (congrArg Story.ended (hstory w)).trans hw⟩

end Settling

end Machine

open Machine

/-- The lines of an arm, with its header in front and what follows it in the chain. -/
def armLines (p : Path) (i : Nat) (header : List Statement)
    (inner rest : List (Path × Statement)) : List (Path × Statement) :=
  header.map (Prod.mk p) ++ ((p ++ [i], .opening) :: (inner ++ [(p ++ [i], .closing)]) ++ rest)

section Arms

variable {k : Invocation} {m : Machine Path} {p : Path} {i : Nat} {header : List Statement}
  {inner rest : List (Path × Statement)} {a b : Bool}

/-- The header lets a call in, in whatever world. -/
def LetsIn (k : Invocation) (m : Machine Path) (p : Path) (header : List Statement) : Prop :=
  ∀ w, (m.run (k.within w) (header.map (Prod.mk p))).Ready ∧
    (m.run (k.within w) (header.map (Prod.mk p))).story.ended = false

theorem letsIn_none {first : Bool} (h : m.Ready) (hended : m.story.ended = false)
    (hfirst : first = false → m.taken = false) :
    LetsIn k m p (Condition.header first none) := by
  intro w
  obtain ⟨hskipping, hnext, hstory⟩ := run_header_none (k := k.within w) (p := p) h hended hfirst
  exact ⟨⟨hskipping, hnext⟩, by rw [hstory, hended]⟩

theorem letsIn_selected {index : Nat} (h : m.Ready) (hended : m.story.ended = false)
    (hselected : k.selection = index) :
    LetsIn k m p (Condition.header true (some (.selected index))) := by
  intro w
  have hfirst : true = false → m.taken = false := by simp
  obtain ⟨hskipping, hnext, -, hstory⟩ :=
    run_header_some (k := k.within w) (p := p) (.selected index) h hended hfirst
  exact ⟨⟨hskipping, hnext.trans (decide_eq_true hselected)⟩, by rw [hstory, ended_weigh, hended]⟩

/-- A block that is entered ends the call if what stands in it does, since no arm behind it is
entered. -/
theorem settles_entered (htame : ∀ w, Tame (k.within w) inner) (h : m.Ready)
    (hended : m.story.ended = false)
    (hinner : ∀ x : Machine Path, x.Ready → x.story.ended = false → Settles k x inner a)
    (hrest : ∀ w (x : Machine Path), x.Ready → x.story.ended = false → x.taken = true →
      (x.run (k.within w) rest).story = x.story) :
    Settles k m ((p ++ [i], .opening) :: (inner ++ [(p ++ [i], .closing)]) ++ rest) a := by
  rw [← Bool.or_false a]
  refine (Settles.block htame h hended (hinner _ ⟨h.skipping, h.next⟩ hended)).append
    fun w hended' => ?_
  obtain ⟨hready, htaken⟩ := (ready_of_entered (htame w) h.skipping hended h.next).2 hended'
  exact ⟨k.world, (congrArg Story.ended (hrest _ _ hready hended' htaken)).trans hended'⟩

/-- An arm that lets every call in ends the call if what stands in it does. -/
theorem settles_arm (htame : ∀ w, Tame (k.within w) inner) (hheader : LetsIn k m p header)
    (hinner : ∀ x : Machine Path, x.Ready → x.story.ended = false → Settles k x inner a)
    (hrest : ∀ w (x : Machine Path), x.Ready → x.story.ended = false → x.taken = true →
      (x.run (k.within w) rest).story = x.story) :
    Settles k m (armLines p i header inner rest) a := by
  have hheaders : Settles k m (header.map (Prod.mk p)) false := ⟨k.world, (hheader _).2⟩
  rw [armLines, ← Bool.false_or a]
  exact hheaders.append fun w _ =>
    settles_entered htame (hheader w).1 (hheader w).2 hinner hrest

section Tests

variable {first : Bool} {e : String}

/-- Behind a test that holds stands the block of its arm. -/
theorem run_test_true (w : World) (h : m.Ready) (hended : m.story.ended = false)
    (hfirst : first = false → m.taken = false) (hw : w m.story.events e = true) :
    let x := m.run (k.within w) ((Condition.header first (some (.test e))).map (Prod.mk p))
    x.Ready ∧ x.story.ended = false := by
  obtain ⟨hskipping, hnext, -, hstory⟩ :=
    run_header_some (k := k.within w) (p := p) (.test e) h hended hfirst
  exact ⟨⟨hskipping, hnext.trans hw⟩, by rw [hstory, ended_weigh, hended]⟩

/-- A test that fails leads past the block of its arm. -/
theorem run_test_false (w : World) (htame : Tame (k.within w) inner) (h : m.Ready)
    (hended : m.story.ended = false) (hfirst : first = false → m.taken = false)
    (hw : w m.story.events e = false) :
    let x := (m.run (k.within w)
      ((Condition.header first (some (.test e))).map (Prod.mk p))).run (k.within w)
        ((p ++ [i], .opening) :: (inner ++ [(p ++ [i], .closing)]))
    x.Ready ∧ x.story.ended = false ∧ x.taken = false := by
  obtain ⟨hskipping, hnext, htaken, hstory⟩ :=
    run_header_some (k := k.within w) (p := p) (.test e) h hended hfirst
  have hopen : (m.run (k.within w)
      ((Condition.header first (some (.test e))).map (Prod.mk p))).story.ended = false := by
    rw [hstory, ended_weigh, hended]
  rw [run_braces_passed htame hskipping hopen (hnext.trans hw)]
  exact ⟨⟨hskipping, rfl⟩, hopen, htaken.trans hw⟩

theorem may_test_true (h : m.Ready) (hended : m.story.ended = false)
    (hfirst : first = false → m.taken = false) :
    May k m ((Condition.header first (some (.test e))).map (Prod.mk p))
      fun x => x.Ready ∧ x.story.ended = false :=
  ⟨fun _ _ => true, run_test_true _ h hended hfirst rfl⟩

theorem may_test_false (htame : ∀ w, Tame (k.within w) inner) (h : m.Ready)
    (hended : m.story.ended = false) (hfirst : first = false → m.taken = false) :
    May k m ((Condition.header first (some (.test e))).map (Prod.mk p) ++
        (p ++ [i], .opening) :: (inner ++ [(p ++ [i], .closing)]))
      fun x => x.Ready ∧ x.story.ended = false ∧ x.taken = false := by
  refine ⟨fun _ _ => false, ?_⟩
  rw [Machine.run_append]
  exact run_test_false _ (htame _) h hended hfirst rfl

/-- An arm whose test fails leads on to what follows. -/
theorem may_arm_passed {P : Machine Path → Prop} (htame : ∀ w, Tame (k.within w) inner)
    (h : m.Ready) (hended : m.story.ended = false) (hfirst : first = false → m.taken = false)
    (hrest : ∀ x : Machine Path, x.Ready → x.story.ended = false → x.taken = false →
      May k x rest P) :
    May k m (armLines p i (Condition.header first (some (.test e))) inner rest) P := by
  rw [armLines, ← List.append_assoc]
  exact May.append (may_test_false htame h hended hfirst)
    fun _ ⟨hready, hopen, hnot⟩ => hrest _ hready hopen hnot

/-- An arm behind a test ends the call if both what stands in it and what follows do. -/
theorem settles_arm_test (htame : ∀ w, Tame (k.within w) inner) (h : m.Ready)
    (hended : m.story.ended = false) (hfirst : first = false → m.taken = false)
    (hinner : ∀ x : Machine Path, x.Ready → x.story.ended = false → Settles k x inner a)
    (htaken : ∀ w (x : Machine Path), x.Ready → x.story.ended = false → x.taken = true →
      (x.run (k.within w) rest).story = x.story)
    (hrest : ∀ x : Machine Path, x.Ready → x.story.ended = false → x.taken = false →
      Settles k x rest b) :
    Settles k m (armLines p i (Condition.header first (some (.test e))) inner rest) (a && b) := by
  cases a with
  | false =>
    -- a world in which the test holds leads into the block
    change May k m (armLines p i _ inner rest) (·.story.ended = false)
    exact May.append (may_test_true h hended hfirst) fun w ⟨hready, hopen⟩ =>
      settles_entered htame hready hopen hinner htaken
  | true =>
    cases b with
    | false =>
      -- a world in which it fails leads past the block
      exact may_arm_passed (P := (·.story.ended = false)) htame h hended hfirst hrest
    | true =>
      intro w
      cases hw : w m.story.events e with
      | true =>
        obtain ⟨hready, hopen⟩ := run_test_true (k := k) (p := p) w h hended hfirst hw
        rw [armLines, Machine.run_append]
        exact settles_entered htame hready hopen hinner htaken w
      | false =>
        obtain ⟨hready, hopen, hnot⟩ :=
          run_test_false (k := k) (p := p) (i := i) w (htame w) h hended hfirst hw
        rw [armLines, Machine.run_append, Machine.run_append]
        exact hrest _ hready hopen hnot w

end Tests

section Ends

variable {P : Machine Path → Prop} {ys : List (Path × Statement)} {first : Bool} {e : String}
  (hP : ∀ x, P x → x.story.ended = true)

include hP

/-- A call that has ended is what it is, whatever lines follow. -/
theorem may_append_of_ended {xs : List (Path × Statement)} (h : May k m xs P) :
    May k m (xs ++ ys) P := by
  obtain ⟨w, hw⟩ := h
  refine ⟨w, ?_⟩
  rwa [Machine.run_append, run_of_ended _ (hP _ hw)]

theorem may_entered (htame : ∀ w, Tame (k.within w) inner) (h : m.Ready)
    (hended : m.story.ended = false)
    (hinner : ∀ x : Machine Path, x.Ready → x.story.ended = false → May k x inner P) :
    May k m ((p ++ [i], .opening) :: (inner ++ [(p ++ [i], .closing)]) ++ rest) P := by
  obtain ⟨w, hw⟩ := hinner (m.log (p ++ [i], .opening)) ⟨h.skipping, h.next⟩ hended
  refine may_append_of_ended hP ⟨w, ?_⟩
  rwa [run_braces_entered (htame w) h.skipping hended h.next, if_pos (hP _ hw)]

theorem may_arm (htame : ∀ w, Tame (k.within w) inner) (hheader : LetsIn k m p header)
    (hinner : ∀ x : Machine Path, x.Ready → x.story.ended = false → May k x inner P) :
    May k m (armLines p i header inner rest) P :=
  May.append (Q := fun x => x.Ready ∧ x.story.ended = false) ⟨k.world, hheader k.world⟩
    fun _ ⟨hready, hended⟩ => may_entered hP htame hready hended hinner

theorem may_arm_test (htame : ∀ w, Tame (k.within w) inner) (h : m.Ready)
    (hended : m.story.ended = false) (hfirst : first = false → m.taken = false)
    (hinner : ∀ x : Machine Path, x.Ready → x.story.ended = false → May k x inner P) :
    May k m (armLines p i (Condition.header first (some (.test e))) inner rest) P :=
  May.append (may_test_true h hended hfirst) fun _ ⟨hready, hopen⟩ =>
    may_entered hP htame hready hopen hinner

end Ends

end Arms

end SceneDispatch
