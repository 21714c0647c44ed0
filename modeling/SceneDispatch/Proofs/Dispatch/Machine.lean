import SceneDispatch.Script.Draft
/-!
One call of the dispatch routine, line by line. Lines carry a label that does not matter to what
they do. A block that is not entered is skipped up to its own closing brace, and nothing is done
behind a return. Main statements: a list of lines that is tame has no effect where it is skipped,
leaves no block half open, and sets the status only to return.
-/
namespace SceneDispatch

/-- What a call does that can be seen from outside. -/
inductive Event where
  | line (text : String)
  | tested (expression : String) (outcome : Bool)
  | redispatched
  deriving DecidableEq

namespace Statement

/-- What can be seen of a statement by itself. -/
def event? : Statement → Option Event
  | line text => some (.line text)
  | redispatch => some .redispatched
  | _ => none

def isHeader : Statement → Bool
  | branch _ => true
  | alternative _ => true
  | otherwise => true
  | _ => false

end Statement

/-- The arguments of a call, and the outcome of each test after what has happened before it. -/
structure Invocation where
  mode : Int
  selection : Int
  world : List Event → String → Bool

/-- How far a call has come. -/
structure Story where
  status : Status
  events : List Event
  ended : Bool
  deriving DecidableEq

namespace Story

/-- Before anything has happened. -/
def start (status : Status) : Story := ⟨status, [], false⟩

def tell (y : Story) (events : List Event) : Story := { y with events := y.events ++ events }

/-- Shows something under a status and ends. -/
def suspend (y : Story) (status : Status) (events : List Event) : Story :=
  ⟨status, y.events ++ events, true⟩

def holds (k : Invocation) (y : Story) : Condition → Bool
  | .test expression => k.world y.events expression
  | .selected index => k.selection = index
  | .refused => k.mode = 0

/-- The story once a condition has been looked at; only tests are seen from outside. -/
def weigh (k : Invocation) (y : Story) (condition : Condition) : Story :=
  match condition with
  | .test expression => y.tell [.tested expression (y.holds k condition)]
  | _ => y

end Story

/-- The routine in the middle of a call. `next` says whether the next block is entered and `taken`
whether the chain of branches that stands here has had its branch. -/
structure Machine (α : Type) where
  story : Story
  trace : List (α × Statement)
  skipping : Nat
  next : Bool
  taken : Bool

namespace Machine

variable {α : Type}

def start (status : Status) : Machine α := ⟨.start status, [], 0, true, false⟩

/-- A branch is entered when its condition holds. -/
def judge (k : Invocation) (m : Machine α) (condition : Condition) : Machine α :=
  { m with
    story := m.story.weigh k condition
    next := m.story.holds k condition
    taken := m.story.holds k condition }

/-- What a statement does that is not skipped. A block that was entered leaves its chain taken. -/
def perform (k : Invocation) (m : Machine α) : Statement → Machine α
  | .line text => { m with story := m.story.tell [.line text] }
  | .setStatus status => { m with story.status := status }
  | .redispatch => { m with story := m.story.tell [.redispatched] }
  | .leave => { m with story.ended := true }
  | .branch condition => m.judge k condition
  | .alternative condition => if m.taken then { m with next := false } else m.judge k condition
  | .otherwise => { m with next := !m.taken, taken := true }
  | .opening => m
  | .closing => { m with next := true, taken := true }

/-- What a statement does that is skipped: braces are counted. -/
def skip (m : Machine α) : Statement → Machine α
  | .opening => { m with skipping := m.skipping + 1 }
  | .closing => { m with skipping := m.skipping - 1 }
  | _ => m

def log (m : Machine α) (line : α × Statement) : Machine α := { m with trace := m.trace ++ [line] }

def step (k : Invocation) (m : Machine α) (line : α × Statement) : Machine α :=
  if m.story.ended then m
  else if 0 < m.skipping then m.skip line.2
  else if line.2 = .opening ∧ m.next = false then { m with skipping := 1, next := true }
  else (m.perform k line.2).log line

def run (k : Invocation) (lines : List (α × Statement)) (m : Machine α) : Machine α :=
  lines.foldl (step k) m

section Steps

variable (k : Invocation) {m : Machine α} {a : α} {statement : Statement}

@[simp] theorem run_nil (m : Machine α) : m.run k [] = m := rfl

@[simp] theorem run_cons (m : Machine α) (x : α × Statement) (xs : List (α × Statement)) :
    m.run k (x :: xs) = (m.step k x).run k xs := rfl

@[simp] theorem run_append (m : Machine α) (xs ys : List (α × Statement)) :
    m.run k (xs ++ ys) = (m.run k xs).run k ys := List.foldl_append

theorem step_of_ended (h : m.story.ended = true) (x : α × Statement) : m.step k x = m :=
  if_pos h

theorem run_of_ended (h : m.story.ended = true) (xs : List (α × Statement)) : m.run k xs = m := by
  induction xs with
  | nil => rfl
  | cons x xs ih => rw [run_cons, step_of_ended k h, ih]

theorem step_skipped (h : 0 < m.skipping) (hended : m.story.ended = false)
    (x : α × Statement) : m.step k x = m.skip x.2 := by
  rw [step, if_neg (by simp [hended]), if_pos h]

theorem step_passed (h : m.skipping = 0) (hended : m.story.ended = false)
    (hnext : m.next = false) :
    m.step k (a, .opening) = { m with skipping := 1, next := true } := by
  rw [step, if_neg (by simp [hended]), if_neg (by simp [h]), if_pos ⟨rfl, hnext⟩]

theorem step_entered (h : m.skipping = 0) (hended : m.story.ended = false)
    (hnext : m.next = true) : m.step k (a, .opening) = m.log (a, .opening) := by
  rw [step, if_neg (by simp [hended]), if_neg (by simp [h]), if_neg (by simp [hnext])]
  rfl

theorem step_performed (h : m.skipping = 0) (hended : m.story.ended = false)
    (hopening : statement ≠ .opening) :
    m.step k (a, statement) = (m.perform k statement).log (a, statement) := by
  rw [step, if_neg (by simp [hended]), if_neg (by simp [h]), if_neg (by simp [hopening])]

theorem status_weigh (y : Story) (condition : Condition) :
    (y.weigh k condition).status = y.status := by
  cases condition <;> rfl

theorem ended_weigh (y : Story) (condition : Condition) :
    (y.weigh k condition).ended = y.ended := by
  cases condition <;> rfl

theorem status_perform (h : ∀ s, statement ≠ .setStatus s) :
    (m.perform k statement).story.status = m.story.status := by
  cases statement with
  | setStatus s => exact absurd rfl (h s)
  | branch condition => exact status_weigh k m.story condition
  | alternative condition =>
    rw [perform]
    split
    · rfl
    · exact status_weigh k m.story condition
  | _ => rfl

theorem story_skip (m : Machine α) (statement : Statement) :
    (m.skip statement).story = m.story := by
  cases statement <;> rfl

theorem status_step (h : ∀ s, statement ≠ .setStatus s) :
    (m.step k (a, statement)).story.status = m.story.status := by
  unfold step
  split
  · rfl
  · split
    · rw [story_skip]
    · split
      · rfl
      · exact status_perform k h

end Steps

/-- Lines stand open to be run: nothing is being skipped and no header waits for its block. -/
structure Ready (m : Machine α) : Prop where
  skipping : m.skipping = 0
  next : m.next = true

/-- Lines that have no effect where they are skipped, that leave no block half open, and that set
the status only to return. -/
structure Tame (k : Invocation) (xs : List (α × Statement)) : Prop where
  skipped : ∀ m : Machine α, 0 < m.skipping → m.run k xs = m
  ready : ∀ m : Machine α, m.Ready → (m.run k xs).story.ended = false → (m.run k xs).Ready
  settled : ∀ m : Machine α, (m.run k xs).story.ended = false →
    (m.run k xs).story.status = m.story.status

section Tameness

variable {k : Invocation} {m : Machine α} {a : α} {xs ys : List (α × Statement)}

/-- A return ends the call for good. -/
theorem not_ended_of_run (h : (m.run k xs).story.ended = false) : m.story.ended = false := by
  cases hended : m.story.ended with
  | false => rfl
  | true => rw [run_of_ended k hended, hended] at h; cases h

theorem Tame.nil : Tame k ([] : List (α × Statement)) :=
  ⟨fun _ _ => rfl, fun _ h _ => h, fun _ _ => rfl⟩

theorem Tame.append (hx : Tame k xs) (hy : Tame k ys) : Tame k (xs ++ ys) := by
  constructor
  · intro m h
    rw [run_append, hx.skipped m h, hy.skipped m h]
  · intro m h hended
    rw [run_append] at hended ⊢
    exact hy.ready _ (hx.ready m h (not_ended_of_run hended)) hended
  · intro m hended
    rw [run_append] at hended ⊢
    rw [hy.settled _ hended, hx.settled m (not_ended_of_run hended)]

theorem run_flat_skipped (hbraces : ∀ x ∈ xs, x.2 ≠ .opening ∧ x.2 ≠ .closing)
    (h : 0 < m.skipping) : m.run k xs = m := by
  induction xs with
  | nil => rfl
  | cons x xs ih =>
    obtain ⟨hx, hxs⟩ := List.forall_mem_cons.mp hbraces
    have hstep : m.step k x = m := by
      obtain ⟨a, statement⟩ := x
      cases hended : m.story.ended with
      | true => exact step_of_ended k hended _
      | false =>
        rw [step_skipped k h hended]
        cases statement <;> first | rfl | simp at hx
    rw [run_cons, hstep, ih hxs]

theorem status_run (hxs : ∀ x ∈ xs, ∀ s, x.2 ≠ .setStatus s) :
    (m.run k xs).story.status = m.story.status := by
  induction xs generalizing m with
  | nil => rfl
  | cons x xs ih =>
    obtain ⟨hx, hxs⟩ := List.forall_mem_cons.mp hxs
    rw [run_cons, ih hxs, status_step k hx]

theorem Tame.of_flat (hbraces : ∀ x ∈ xs, x.2 ≠ .opening ∧ x.2 ≠ .closing)
    (hready : ∀ m : Machine α, m.Ready → (m.run k xs).story.ended = false → (m.run k xs).Ready)
    (hsettled : ∀ m : Machine α, m.skipping = 0 → (m.run k xs).story.ended = false →
      (m.run k xs).story.status = m.story.status) : Tame k xs := by
  refine ⟨fun m h => run_flat_skipped hbraces h, hready, fun m hended => ?_⟩
  rcases Nat.eq_zero_or_pos m.skipping with h | h
  · exact hsettled m h hended
  · rw [run_flat_skipped hbraces h]

/-- Statements that only show something are told one after another. -/
theorem run_plain (h : m.skipping = 0) (hended : m.story.ended = false)
    (hxs : ∀ x ∈ xs, x.2.event?.isSome = true) :
    m.run k xs =
      { m with
        story := m.story.tell (xs.filterMap (·.2.event?))
        trace := m.trace ++ xs } := by
  induction xs generalizing m with
  | nil => simp [Story.tell]
  | cons x xs ih =>
    obtain ⟨hx, hrest⟩ := List.forall_mem_cons.mp hxs
    obtain ⟨a, statement⟩ := x
    cases statement with
    | line text =>
      rw [run_cons, step_performed k h hended (by simp), ih (by exact h) (by exact hended) hrest]
      simp [perform, log, Story.tell, Statement.event?]
    | redispatch =>
      rw [run_cons, step_performed k h hended (by simp), ih (by exact h) (by exact hended) hrest]
      simp [perform, log, Story.tell, Statement.event?]
    | _ => cases hx

/-- What is shown in front of a return is all that is shown. -/
theorem run_plain_leave (h : m.skipping = 0) (hended : m.story.ended = false)
    (hxs : ∀ x ∈ xs, x.2.event?.isSome = true) :
    m.run k (xs ++ (a, .leave) :: ys) =
      { m with
        story := m.story.suspend m.story.status (xs.filterMap (·.2.event?))
        trace := m.trace ++ (xs ++ [(a, .leave)]) } := by
  rw [run_append, run_plain h hended hxs, run_cons,
    step_performed k (by exact h) (by exact hended) (by simp), run_of_ended k (by rfl)]
  simp [perform, log, Story.tell, Story.suspend]

/-- Setting the status, showing something and returning. -/
theorem run_suspension (status : Status) (h : m.skipping = 0) (hended : m.story.ended = false)
    (hxs : ∀ x ∈ xs, x.2.event?.isSome = true) :
    m.run k ((a, .setStatus status) :: (xs ++ (a, .leave) :: ys)) =
      { m with
        story := m.story.suspend status (xs.filterMap (·.2.event?))
        trace := m.trace ++ (a, .setStatus status) :: (xs ++ [(a, .leave)]) } := by
  rw [run_cons, step_performed k h hended (by simp),
    run_plain_leave (by exact h) (by exact hended) hxs]
  simp [perform, log, Story.suspend]

theorem story_suspension (status : Status) (h : m.skipping = 0) (hended : m.story.ended = false)
    (hxs : ∀ x ∈ xs, x.2.event?.isSome = true) :
    (m.run k ((a, .setStatus status) :: (xs ++ [(a, .leave)]))).story =
      m.story.suspend status (xs.filterMap (·.2.event?)) := by
  rw [run_suspension status h hended hxs]

theorem flat_of_plain (hxs : ∀ x ∈ xs, x.2.event?.isSome = true) :
    ∀ x ∈ xs, x.2 ≠ .opening ∧ x.2 ≠ .closing := by
  intro x hx
  have hplain := hxs x hx
  constructor
  · intro h
    rw [h] at hplain
    cases hplain
  · intro h
    rw [h] at hplain
    cases hplain

theorem Tame.suspension {status : Status} (hxs : ∀ x ∈ xs, x.2.event?.isSome = true) :
    Tame k ((a, .setStatus status) :: (xs ++ [(a, .leave)])) := by
  have hends : ∀ m : Machine α, m.skipping = 0 →
      (m.run k ((a, .setStatus status) :: (xs ++ [(a, .leave)]))).story.ended ≠ false := by
    intro m h hended
    rw [story_suspension status h (not_ended_of_run hended) hxs] at hended
    cases hended
  refine .of_flat ?_ (fun m h hended => absurd hended (hends m h.skipping))
    fun m h hended => absurd hended (hends m h)
  intro x hx
  rw [List.mem_cons, List.mem_append, List.mem_singleton] at hx
  rcases hx with rfl | hx | rfl
  · simp
  · exact flat_of_plain hxs x hx
  · simp

theorem Tame.plain (hxs : ∀ x ∈ xs, x.2.event?.isSome = true) : Tame k xs := by
  refine .of_flat (flat_of_plain hxs) (fun m h hended => ?_) fun m h hended => ?_
  · rw [run_plain h.skipping (not_ended_of_run hended) hxs]
    exact ⟨h.skipping, h.next⟩
  · rw [run_plain h (not_ended_of_run hended) hxs]
    rfl

theorem Tame.leave : Tame k [(a, .leave)] := by
  have hends : ∀ m : Machine α, m.skipping = 0 → (m.run k [(a, .leave)]).story.ended ≠ false := by
    intro m h hended
    have hopen := not_ended_of_run hended
    rw [run_cons, step_performed k h hopen (by simp)] at hended
    cases hended
  refine .of_flat (by simp) (fun m h hended => absurd hended (hends m h.skipping))
    fun m h hended => absurd hended (hends m h)

/-- A header leaves open only whether the block behind it is entered. -/
theorem run_headers {header : List (α × Statement)}
    (hheader : ∀ x ∈ header, x.2.isHeader = true) (h : m.skipping = 0)
    (hended : m.story.ended = false) :
    (m.run k header).skipping = 0 ∧ (m.run k header).story.ended = false := by
  induction header generalizing m with
  | nil => exact ⟨h, hended⟩
  | cons x xs ih =>
    obtain ⟨hx, hxs⟩ := List.forall_mem_cons.mp hheader
    obtain ⟨a, statement⟩ := x
    have hopening : statement ≠ .opening := by
      rintro rfl
      cases hx
    rw [run_cons, step_performed k h hended hopening]
    cases statement with
    | branch condition => exact ih hxs h ((ended_weigh k _ _).trans hended)
    | alternative condition =>
      rw [perform]
      split
      · exact ih hxs h hended
      · exact ih hxs h ((ended_weigh k _ _).trans hended)
    | otherwise => exact ih hxs h hended
    | _ => cases hx

/-- The block of a branch that is not entered does nothing. -/
theorem run_braces_passed {body : List (α × Statement)} {b : α} (hbody : Tame k body)
    (h : m.skipping = 0) (hended : m.story.ended = false) (hnext : m.next = false) :
    m.run k ((a, .opening) :: (body ++ [(b, .closing)])) = { m with next := true } := by
  rw [run_cons, step_passed k h hended hnext, run_append, hbody.skipped _ (by simp), run_cons,
    step_skipped k (by simp) (by exact hended)]
  simp [skip, h]

/-- Once its block is run, a branch that was entered leaves its chain taken. -/
theorem run_braces_entered {body : List (α × Statement)} {b : α} (hbody : Tame k body)
    (h : m.skipping = 0) (hended : m.story.ended = false) (hnext : m.next = true) :
    m.run k ((a, .opening) :: (body ++ [(b, .closing)])) =
      let inner := (m.log (a, .opening)).run k body
      if inner.story.ended then inner else { inner with taken := true }.log (b, .closing) := by
  have hready : (m.log (a, .opening)).Ready := ⟨h, hnext⟩
  rw [run_cons, step_entered k h hended hnext, run_append, run_cons, run_nil]
  cases hinner : ((m.log (a, .opening)).run k body).story.ended with
  | true => rw [step_of_ended k hinner, if_pos hinner]
  | false =>
    have hopen := hbody.ready _ hready hinner
    rw [step_performed k hopen.skipping hinner (by simp), if_neg (by simp [hinner]), perform,
      hopen.next]

theorem ready_of_entered {body : List (α × Statement)} {b : α} (hbody : Tame k body)
    (h : m.skipping = 0) (hended : m.story.ended = false) (hnext : m.next = true) :
    let after := m.run k ((a, .opening) :: (body ++ [(b, .closing)]))
    after.story = ((m.log (a, .opening)).run k body).story ∧
      (after.story.ended = false → after.Ready ∧ after.taken = true) := by
  have hready : (m.log (a, .opening)).Ready := ⟨h, hnext⟩
  rw [run_braces_entered hbody h hended hnext]
  cases hinner : ((m.log (a, .opening)).run k body).story.ended with
  | true => simp [hinner]
  | false =>
    have hopen := hbody.ready _ hready hinner
    simp only [hinner]
    exact ⟨rfl, fun _ => ⟨⟨hopen.skipping, hopen.next⟩, rfl⟩⟩

theorem Tame.braces {header body : List (α × Statement)} {b : α}
    (hheader : ∀ x ∈ header, x.2.isHeader = true) (hbody : Tame k body) :
    Tame k (header ++ (a, .opening) :: (body ++ [(b, .closing)])) := by
  have hflat : ∀ x ∈ header, x.2 ≠ .opening ∧ x.2 ≠ .closing := by
    intro x hx
    have hx := hheader x hx
    constructor
    · intro h
      rw [h] at hx
      cases hx
    · intro h
      rw [h] at hx
      cases hx
  have hkeeps : ∀ x ∈ header, ∀ s, x.2 ≠ .setStatus s := by
    intro x hx s h
    have hx := hheader x hx
    rw [h] at hx
    cases hx
  constructor
  · intro m h
    cases hended : m.story.ended with
    | true => exact run_of_ended k hended _
    | false =>
      rw [run_append, run_flat_skipped hflat h, run_cons, step_skipped k h hended, run_append,
        hbody.skipped _ (Nat.succ_pos _), run_cons,
        step_skipped k (Nat.succ_pos _) (by exact hended)]
      simp [skip]
  · intro m h hended
    rw [run_append] at hended ⊢
    have hopen := not_ended_of_run (not_ended_of_run hended)
    obtain ⟨hskipping, hstory⟩ := run_headers (k := k) hheader h.skipping hopen
    cases hnext : (m.run k header).next with
    | false =>
      rw [run_braces_passed hbody hskipping hstory hnext]
      exact ⟨hskipping, rfl⟩
    | true =>
      exact ((ready_of_entered hbody hskipping hstory hnext).2 hended).1
  · intro m hended
    rw [run_append, run_cons, run_append] at hended ⊢
    rw [run_cons, run_nil, status_step k (by simp), hbody.settled _ (not_ended_of_run hended),
      status_step k (by simp), status_run hkeeps]

end Tameness

end Machine

/-- The lines of one group. -/
structure Passage (α : Type) where
  context : StatusContext
  lines : List (α × Statement)

def Passage.relabel {α β : Type} (f : α → β) (g : Passage α) : Passage β :=
  ⟨g.context, g.lines.map (Prod.map f id)⟩

def Group.passage (g : Group) : Passage Unit := ⟨g.context, g.statements.map (Prod.mk ())⟩

namespace Machine

variable {α β : Type}

/-- The groups run one after another, each when its context holds the current status. -/
def dispatch (k : Invocation) (passages : List (Passage α)) (m : Machine α) : Machine α :=
  passages.foldl (fun m g => if m.story.status ∈ g.context then m.run k g.lines else m) m

section Dispatch

variable {k : Invocation} {m : Machine α} {s : Status} {passages : List (Passage α)}

theorem dispatch_cons (g : Passage α) :
    m.dispatch k (g :: passages) =
      (if m.story.status ∈ g.context then m.run k g.lines else m).dispatch k passages := rfl

theorem dispatch_of_ended (h : m.story.ended = true) : m.dispatch k passages = m := by
  induction passages with
  | nil => rfl
  | cons g gs ih => rw [dispatch_cons, run_of_ended k h, ite_self, ih]

/-- As long as the call goes on the status stays what it was, so the groups that run are those
that hold it. -/
theorem dispatch_eq_run (htame : ∀ g ∈ passages, Tame k g.lines) (hs : m.story.status = s) :
    m.dispatch k passages =
      m.run k ((passages.filter (s ∈ ·.context)).flatMap Passage.lines) := by
  induction passages generalizing m with
  | nil => rfl
  | cons g gs ih =>
    obtain ⟨hg, hgs⟩ := List.forall_mem_cons.mp htame
    rw [dispatch_cons, hs]
    by_cases hmem : s ∈ g.context
    · rw [if_pos hmem, List.filter_cons_of_pos (by simpa using hmem), List.flatMap_cons,
        run_append]
      cases hended : (m.run k g.lines).story.ended with
      | true => rw [dispatch_of_ended hended, run_of_ended k hended]
      | false => exact ih hgs ((hg.settled m hended).trans hs)
    · rw [if_neg hmem, List.filter_cons_of_neg (by simpa using hmem), ih hgs hs]

end Dispatch

section Labels

variable {k : Invocation} {m : Machine α} (f : α → β)

def relabel (m : Machine α) : Machine β :=
  ⟨m.story, m.trace.map (Prod.map f id), m.skipping, m.next, m.taken⟩

theorem relabel_perform (statement : Statement) :
    (m.relabel f).perform k statement = (m.perform k statement).relabel f := by
  cases statement with
  | alternative condition =>
    rw [perform, perform]
    split <;> simp_all [relabel, judge]
  | _ => rfl

theorem relabel_step (x : α × Statement) :
    (m.relabel f).step k (Prod.map f id x) = (m.step k x).relabel f := by
  obtain ⟨a, statement⟩ := x
  have hskip : (m.relabel f).skip statement = (m.skip statement).relabel f := by
    cases statement <;> rfl
  have hlog : ((m.relabel f).perform k statement).log (f a, statement) =
      ((m.perform k statement).log (a, statement)).relabel f := by
    rw [relabel_perform]
    simp [log, relabel]
  simp only [step, apply_ite (relabel f), Prod.map_apply, id_eq, hskip, hlog]
  rfl

theorem relabel_run (xs : List (α × Statement)) :
    (m.relabel f).run k (xs.map (Prod.map f id)) = (m.run k xs).relabel f := by
  induction xs generalizing m with
  | nil => rfl
  | cons x xs ih => rw [List.map_cons, run_cons, run_cons, relabel_step, ih]

/-- Labels do not matter to what a call does. -/
theorem relabel_dispatch (passages : List (Passage α)) :
    (m.relabel f).dispatch k (passages.map (Passage.relabel f)) =
      (m.dispatch k passages).relabel f := by
  induction passages generalizing m with
  | nil => rfl
  | cons g gs ih =>
    rw [List.map_cons, dispatch_cons, dispatch_cons, ← ih]
    congr 1
    rw [apply_ite (relabel f), ← relabel_run]
    rfl

end Labels

end Machine

end SceneDispatch
