import SceneDispatch.Script.Statement
/-!
Where the lines of a group stand. Braces that are properly nested put each line as many levels
below the first as there are braces open around it.
-/
namespace SceneDispatch

namespace Statement

/-- What stands on the line of a statement. -/
def words (x : Statement) : String :=
  match x.item with
  | .line text => text
  | .enter => "\x7b"
  | .leave => "\x7d"

/-- The number of braces around line `i`: those opened before it and not closed up to it. A closing
brace stands outside the braces that it closes. -/
def bracesAround (xs : List Statement) (i : Nat) : Nat :=
  (xs.take i).count .opening - (xs.take (i + 1)).count .closing

/-- The lines of the statements. Those without braces around them stand three levels deep, the
others a level deeper for every brace. -/
def listing (xs : List Statement) : List String :=
  xs.mapIdx fun i x => Layout.indented (3 + bracesAround xs i) x.words

def isBrace : Statement → Bool
  | opening => true
  | closing => true
  | _ => false

/-- Statements in which every brace has its counterpart. -/
inductive Nested : List Statement → Prop
  | nil : Nested []
  | line {x : Statement} : x.isBrace = false → Nested [x]
  | append {xs ys : List Statement} : Nested xs → Nested ys → Nested (xs ++ ys)
  | braces {xs : List Statement} : Nested xs → Nested (.opening :: xs ++ [.closing])

variable {xs : List Statement}

theorem nested_of_no_brace (h : ∀ x ∈ xs, x.isBrace = false) : Nested xs := by
  induction xs with
  | nil => exact .nil
  | cons x xs ih =>
    obtain ⟨hx, hxs⟩ := List.forall_mem_cons.mp h
    exact (Nested.line hx).append (ih hxs)

theorem isBrace_terminated (text : String) : (terminated text).isBrace = false := by
  simp only [terminated]
  split
  · rfl
  · split <;> rfl

/-- No brace is closed that was not opened before. -/
theorem Nested.count_take_le (h : Nested xs) (i : Nat) :
    (xs.take i).count .closing ≤ (xs.take i).count .opening := by
  induction h generalizing i with
  | nil => simp
  | @line x hx =>
    cases i with
    | zero => simp
    | succ i => cases x <;> simp [isBrace] at hx ⊢
  | @append xs ys _ _ hxs hys =>
    have hx := hxs i
    have hy := hys (i - xs.length)
    simp only [List.take_append, List.count_append]
    omega
  | @braces xs _ ih =>
    cases i with
    | zero => simp
    | succ i =>
      have hx := ih i
      have hlast : ([closing].take (i - xs.length)).count .closing ≤ 1 :=
        Nat.le_trans List.count_le_length (List.length_take_le' _ _)
      have htake : (opening :: xs ++ [closing]).take (i + 1) =
          opening :: (xs.take i ++ [closing].take (i - xs.length)) := by
        simp [List.take_append]
      rw [htake, List.count_cons_self, List.count_cons_of_ne (by decide), List.count_append,
        List.count_append]
      omega

theorem take_length_succ (xs : List Statement) (y : Statement) (ys : List Statement) :
    (xs ++ y :: ys).take (xs.length + 1) = xs ++ [y] := by
  rw [List.append_cons, List.take_left' (by simp)]

theorem bracesAround_append (xs : List Statement) (y : Statement) (ys : List Statement) :
    bracesAround (xs ++ y :: ys) xs.length =
      xs.count .opening - (xs ++ [y]).count .closing := by
  rw [bracesAround, take_length_succ, List.take_left]

/-- Reading on behind `xs`, at the depth that its open braces give. -/
theorem texts_behind (ys : List Statement) : ∀ xs : List Statement,
    (∀ i, ((xs ++ ys).take i).count .closing ≤ ((xs ++ ys).take i).count .opening) →
    Layout.texts (Layout.baseDepth + (xs.count .opening - xs.count .closing)) (ys.map item) =
      ys.mapIdx fun i y =>
        Layout.indented (Layout.baseDepth + bracesAround (xs ++ ys) (xs.length + i)) y.words := by
  induction ys with
  | nil => exact fun _ _ => rfl
  | cons y ys ih =>
    intro xs hxs
    have hbefore : xs.count .closing ≤ xs.count .opening := by
      simpa using hxs xs.length
    have hbehind : (xs ++ [y]).count .closing ≤ (xs ++ [y]).count .opening := by
      simpa only [take_length_succ] using hxs (xs.length + 1)
    have htext : Layout.text (Layout.baseDepth + (xs.count .opening - xs.count .closing)) y.item =
        Layout.indented (Layout.baseDepth + bracesAround (xs ++ y :: ys) xs.length) y.words := by
      rw [bracesAround_append]
      cases y with
      | closing =>
        -- the brace that is closed here was open, so that the depth is not cut off
        have hdepth : Layout.baseDepth + (xs.count .opening - xs.count .closing) - 1 =
            Layout.baseDepth + (xs.count .opening - (xs ++ [closing]).count .closing) := by
          simp at hbehind ⊢
          omega
        exact congrArg (Layout.indented · "\x7d") hdepth
      | _ => simp [Layout.text, words, item]
    have hdepth : Layout.depthAfter
        (Layout.baseDepth + (xs.count .opening - xs.count .closing)) y.item =
        Layout.baseDepth + ((xs ++ [y]).count .opening - (xs ++ [y]).count .closing) := by
      cases y <;> simp [Layout.depthAfter, item] at hbehind ⊢ <;> omega
    have hlength : ∀ i, (xs ++ [y]).length + i = xs.length + (i + 1) := by
      intro i
      simp only [List.length_append, List.length_singleton]
      omega
    have hrest := ih (xs ++ [y]) (by simpa using hxs)
    simp only [hlength, ← List.append_cons] at hrest
    rw [List.map_cons, Layout.texts, List.mapIdx_cons, htext, hdepth, hrest]
    rfl

/-- The text of nested statements is their listing. -/
theorem Nested.texts_eq (h : Nested xs) :
    Layout.texts Layout.baseDepth (xs.map item) = listing xs := by
  have htexts := texts_behind xs [] h.count_take_le
  simpa [listing, Layout.baseDepth] using htexts

section Depth

variable {before after : List Statement}

/-- A closing brace has its opening one, and what stands between them is nested. -/
theorem Nested.exists_opening (h : Nested xs) (hsplit : xs = before ++ closing :: after) :
    ∃ outer inner, before = outer ++ opening :: inner ∧ Nested inner := by
  induction h generalizing before after with
  | nil => simp at hsplit
  | @line x hx =>
    obtain ⟨rfl, hcons⟩ | ⟨_, rfl, hnil⟩ := List.append_eq_cons_iff.mp hsplit.symm
    · obtain ⟨rfl, -⟩ := List.cons.inj hcons
      cases hx
    · simp at hnil
  | @append xs ys _ _ hxs hys =>
    obtain ⟨between, rfl, hright⟩ | ⟨between, hleft, hright⟩ := List.append_eq_append_iff.mp hsplit
    · obtain ⟨outer, inner, rfl, hinner⟩ := hys hright
      exact ⟨xs ++ outer, inner, by simp, hinner⟩
    · cases between with
      | nil =>
        have hclosed : ys = [] ++ closing :: after := hright.symm
        obtain ⟨outer, inner, hempty, -⟩ := hys hclosed
        simp at hempty
      | cons y between =>
        obtain ⟨rfl, -⟩ := List.cons.inj hright
        exact hxs hleft
  | @braces xs hnested ih =>
    obtain ⟨rfl, hcons⟩ | ⟨front, rfl, hrest⟩ := List.append_eq_cons_iff.mp hsplit.symm
    · cases (List.cons.inj hcons).1
    · obtain ⟨between, rfl, hright⟩ | ⟨between, hleft, hright⟩ :=
        List.append_eq_append_iff.mp hrest
      · cases between with
        | nil => exact ⟨[], xs, by simp, hnested⟩
        | cons y between => simp at hright
      · cases between with
        | nil => exact ⟨[], xs, by simpa using hleft.symm, hnested⟩
        | cons y between =>
          obtain ⟨rfl, -⟩ := List.cons.inj hright
          obtain ⟨outer, inner, rfl, hinner⟩ := ih hleft
          exact ⟨opening :: outer, inner, by simp, hinner⟩

/-- The depth behind statements that begin at `depth`. -/
def depthBehind (depth : Nat) (xs : List Statement) : Nat :=
  (xs.map item).foldl Layout.depthAfter depth

theorem depthBehind_append (depth : Nat) (xs ys : List Statement) :
    depthBehind depth (xs ++ ys) = depthBehind (depthBehind depth xs) ys := by
  simp [depthBehind]

/-- Nested statements end at the depth at which they begin. -/
theorem Nested.depthBehind_eq (h : Nested xs) (depth : Nat) : depthBehind depth xs = depth := by
  induction h generalizing depth with
  | nil => rfl
  | @line x hx => cases x <;> first | rfl | cases hx
  | append _ _ hxs hys => rw [depthBehind_append, hxs, hys]
  | @braces xs _ ih =>
    have hopened : depthBehind depth [opening] = depth + 1 := rfl
    have hclosed : depthBehind (depth + 1) [closing] = depth := rfl
    rw [List.cons_append, ← List.singleton_append, depthBehind_append, depthBehind_append, hopened,
      ih, hclosed]

/-- No brace is closed at depth 0. -/
theorem Nested.depthBehind_pos (h : Nested xs) (hsplit : xs = before ++ closing :: after)
    (depth : Nat) : 0 < depthBehind depth before := by
  obtain ⟨outer, inner, rfl, hinner⟩ := h.exists_opening hsplit
  rw [← List.singleton_append, depthBehind_append, depthBehind_append, hinner.depthBehind_eq]
  exact Nat.succ_pos _

end Depth

end Statement

end SceneDispatch
