/-!
Finite sets over a linear order, kept as strictly increasing lists. Every set has one list, so
two sets with the same members are equal.
-/
namespace SceneDispatch

structure OrderedSet (α : Type) [LT α] where
  toList : List α
  sorted : toList.Pairwise (· < ·)
  deriving DecidableEq

namespace OrderedSet

section Views

variable {α : Type} [LT α]

def empty : OrderedSet α := ⟨[], .nil⟩

def singleton (a : α) : OrderedSet α := ⟨[a], by simp⟩

def size (s : OrderedSet α) : Nat := s.toList.length

def isEmpty (s : OrderedSet α) : Bool := s.toList.isEmpty

def least? (s : OrderedSet α) : Option α := s.toList.head?

instance : Membership α (OrderedSet α) := ⟨fun s a => a ∈ s.toList⟩

instance [DecidableEq α] (a : α) (s : OrderedSet α) : Decidable (a ∈ s) :=
  inferInstanceAs (Decidable (a ∈ s.toList))

theorem mem_iff {a : α} {s : OrderedSet α} : a ∈ s ↔ a ∈ s.toList := Iff.rfl

@[simp] theorem not_mem_empty (a : α) : a ∉ (empty : OrderedSet α) := List.not_mem_nil

@[simp] theorem mem_singleton {a b : α} : a ∈ singleton b ↔ a = b := List.mem_singleton

theorem eq_of_toList_eq {s t : OrderedSet α} (h : s.toList = t.toList) : s = t := by
  cases s; cases t; simp_all

end Views

section Extensionality

variable {α : Type} [LE α] [LT α] [Std.IsLinearOrder α] [Std.LawfulOrderLT α]

/-- Sets are equal when they have the same members. -/
theorem ext {s t : OrderedSet α} (h : ∀ x, x ∈ s ↔ x ∈ t) : s = t := by
  refine eq_of_toList_eq ?_
  obtain ⟨l, hl⟩ := s
  obtain ⟨m, hm⟩ := t
  simp only [mem_iff] at h
  show l = m
  induction l generalizing m with
  | nil =>
    cases m with
    | nil => rfl
    | cons b m => exact absurd ((h b).mpr (by simp)) (by simp)
  | cons a l ih =>
    cases m with
    | nil => exact absurd ((h a).mp (by simp)) (by simp)
    | cons b m =>
      obtain ⟨ha, hl'⟩ := List.pairwise_cons.mp hl
      obtain ⟨hb, hm'⟩ := List.pairwise_cons.mp hm
      have hab : a = b := by
        rcases List.mem_cons.mp ((h a).mp (by simp)) with hab | ham
        · exact hab
        · rcases List.mem_cons.mp ((h b).mpr (by simp)) with hba | hbl
          · exact hba.symm
          · exact absurd (Std.lt_trans (hb a ham) (ha b hbl)) Std.lt_irrefl
      subst hab
      congr 1
      refine ih hl' m hm' fun x => ⟨fun hx => ?_, fun hx => ?_⟩
      · rcases List.mem_cons.mp ((h x).mp (List.mem_cons_of_mem _ hx)) with rfl | hx'
        · exact absurd (ha x hx) Std.lt_irrefl
        · exact hx'
      · rcases List.mem_cons.mp ((h x).mpr (List.mem_cons_of_mem _ hx)) with rfl | hx'
        · exact absurd (hb x hx) Std.lt_irrefl
        · exact hx'

end Extensionality

section Insertion

variable {α : Type} [LT α] [DecidableLT α]

/-- Puts `a` in its place; an equal element is already there. -/
def insertList (a : α) : List α → List α
  | [] => [a]
  | b :: l => if a < b then a :: b :: l else if b < a then b :: insertList a l else b :: l

theorem mem_of_mem_insertList {a x : α} {l : List α} (h : x ∈ insertList a l) :
    x = a ∨ x ∈ l := by
  induction l with
  | nil => simpa [insertList] using h
  | cons b l ih =>
    unfold insertList at h
    split at h
    · simpa using h
    · split at h
      · rcases List.mem_cons.mp h with rfl | h
        · simp
        · rcases ih h with h | h <;> simp [h]
      · exact .inr h

end Insertion

section Operations

variable {α : Type} [LE α] [LT α] [DecidableLT α] [Std.IsLinearOrder α] [Std.LawfulOrderLT α]

theorem sorted_insertList (a : α) {l : List α} (h : l.Pairwise (· < ·)) :
    (insertList a l).Pairwise (· < ·) := by
  induction l with
  | nil => simp [insertList]
  | cons b l ih =>
    obtain ⟨hb, hl⟩ := List.pairwise_cons.mp h
    unfold insertList
    split
    · next hab =>
      refine List.pairwise_cons.mpr ⟨?_, h⟩
      intro x hx
      rcases List.mem_cons.mp hx with rfl | hx
      · exact hab
      · exact Std.lt_trans hab (hb x hx)
    · split
      · next hba =>
        refine List.pairwise_cons.mpr ⟨?_, ih hl⟩
        intro x hx
        rcases mem_of_mem_insertList hx with rfl | hx
        · exact hba
        · exact hb x hx
      · exact h

theorem mem_insertList {a x : α} {l : List α} : x ∈ insertList a l ↔ x = a ∨ x ∈ l := by
  refine ⟨mem_of_mem_insertList, ?_⟩
  induction l with
  | nil => simp [insertList]
  | cons b l ih =>
    intro h
    unfold insertList
    split
    · simpa using h
    · next hab =>
      split
      · rcases h with rfl | h
        · exact List.mem_cons_of_mem _ (ih (.inl rfl))
        · rcases List.mem_cons.mp h with rfl | h
          · simp
          · exact List.mem_cons_of_mem _ (ih (.inr h))
      · next hba =>
        rcases h with rfl | h
        · exact List.mem_cons.mpr (.inl (Std.Trichotomous.trichotomous _ _ hab hba))
        · exact h

def insert (s : OrderedSet α) (a : α) : OrderedSet α :=
  ⟨insertList a s.toList, sorted_insertList a s.sorted⟩

/-- Adds every member of `t` to `s`. -/
def union (s t : OrderedSet α) : OrderedSet α :=
  t.toList.foldr (fun a r => r.insert a) s

def ofList (l : List α) : OrderedSet α := l.foldr (fun a r => r.insert a) empty

instance : Union (OrderedSet α) := ⟨union⟩

@[simp] theorem mem_insert {s : OrderedSet α} {a x : α} : x ∈ s.insert a ↔ x = a ∨ x ∈ s :=
  mem_insertList

@[simp] theorem mem_union {s t : OrderedSet α} {x : α} : x ∈ s ∪ t ↔ x ∈ s ∨ x ∈ t := by
  suffices h : ∀ l : List α, x ∈ l.foldr (fun a r => OrderedSet.insert r a) s ↔ x ∈ s ∨ x ∈ l from
    h t.toList
  intro l
  induction l with
  | nil => simp
  | cons a l ih => simp only [List.foldr_cons, mem_insert, ih, List.mem_cons]; grind

@[simp] theorem mem_ofList {l : List α} {x : α} : x ∈ ofList l ↔ x ∈ l := by
  induction l with
  | nil => simp [ofList]
  | cons a l ih =>
    have : ofList (a :: l) = (ofList l).insert a := rfl
    simp [this, ih]

/-- Lexicographic comparison of the members in increasing order; a proper beginning is smaller. -/
def order [DecidableEq α] (s t : OrderedSet α) : Ordering :=
  if s.toList < t.toList then .lt else if s.toList = t.toList then .eq else .gt

end Operations

end OrderedSet

end SceneDispatch
