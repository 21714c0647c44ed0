/-!
Finite tables whose entries carry their own key, kept in strictly increasing order of the keys.
A key has at most one entry, and an entry that is added is found in place of the one before.
-/
namespace SceneDispatch

structure OrderedTable {α κ : Type} [LT κ] (key : α → κ) where
  entries : List α
  sorted : entries.Pairwise (key · < key ·)

namespace OrderedTable

section Views

variable {α κ : Type} [LT κ] {key : α → κ}

def empty : OrderedTable key := ⟨[], .nil⟩

instance : Inhabited (OrderedTable key) := ⟨empty⟩

def size (t : OrderedTable key) : Nat := t.entries.length

def isEmpty (t : OrderedTable key) : Bool := t.entries.isEmpty

def keys (t : OrderedTable key) : List κ := t.entries.map key

def find? [DecidableEq κ] (t : OrderedTable key) (k : κ) : Option α :=
  t.entries.find? (key · = k)

def contains [DecidableEq κ] (t : OrderedTable key) (k : κ) : Bool := (t.find? k).isSome

@[simp] theorem find?_empty [DecidableEq κ] (k : κ) : (empty : OrderedTable key).find? k = none :=
  rfl

theorem find?_eq_some_iff [DecidableEq κ] [Std.Irrefl (α := κ) (· < ·)] {t : OrderedTable key}
    {k : κ} {a : α} : t.find? k = some a ↔ a ∈ t.entries ∧ key a = k := by
  refine ⟨fun h => ⟨List.mem_of_find?_eq_some h, by simpa using List.find?_some h⟩, ?_⟩
  rintro ⟨ha, rfl⟩
  obtain ⟨before, after, hsplit⟩ := List.append_of_mem ha
  have hsorted := t.sorted
  rw [hsplit] at hsorted
  rw [find?, hsplit, List.find?_append, List.find?_eq_none.mpr]
  · simp
  · intro b hb
    have hlt : key b < key a := (List.pairwise_append.mp hsorted).2.2 b hb a List.mem_cons_self
    have hne : key b ≠ key a := fun hsame => Std.Irrefl.irrefl _ (hsame ▸ hlt)
    simpa using hne

theorem eq_of_entries_eq {s t : OrderedTable key} (h : s.entries = t.entries) : s = t := by
  cases s; cases t; simp_all

instance [DecidableEq α] : DecidableEq (OrderedTable key) := fun s t =>
  if h : s.entries = t.entries then .isTrue (eq_of_entries_eq h)
  else .isFalse fun e => h (e ▸ rfl)

end Views

section Insertion

variable {α κ : Type} [LT κ] [DecidableLT κ]

/-- Puts `a` in its place; an entry with the same key gives way to it. -/
def insertList (key : α → κ) (a : α) : List α → List α
  | [] => [a]
  | b :: l =>
    if key a < key b then a :: b :: l
    else if key b < key a then b :: insertList key a l
    else a :: l

theorem mem_of_mem_insertList {key : α → κ} {a x : α} {l : List α}
    (h : x ∈ insertList key a l) : x = a ∨ x ∈ l := by
  induction l with
  | nil => simpa [insertList] using h
  | cons b l ih =>
    unfold insertList at h
    split at h
    · simpa using h
    · split at h
      · rcases List.mem_cons.mp h with rfl | h
        · simp
        · rcases ih h with h | h <;> simp [h]
      · rcases List.mem_cons.mp h with h | h <;> simp [h]

end Insertion

section Operations

variable {α κ : Type} [LE κ] [LT κ] [DecidableLT κ] [Std.IsLinearOrder κ] [Std.LawfulOrderLT κ]
  {key : α → κ}

theorem sorted_insertList (a : α) {l : List α} (h : l.Pairwise (key · < key ·)) :
    (insertList key a l).Pairwise (key · < key ·) := by
  induction l with
  | nil => simp [insertList]
  | cons b l ih =>
    obtain ⟨hb, hl⟩ := List.pairwise_cons.mp h
    unfold insertList
    split
    · next hab =>
      refine List.pairwise_cons.mpr ⟨?_, h⟩
      intro x hx
      rcases List.mem_cons.mp hx with rfl | hx
      · exact hab
      · exact Std.lt_trans hab (hb x hx)
    · next hab =>
      split
      · next hba =>
        refine List.pairwise_cons.mpr ⟨?_, ih hl⟩
        intro x hx
        rcases mem_of_mem_insertList hx with rfl | hx
        · exact hba
        · exact hb x hx
      · next hba =>
        have same : key a = key b := Std.Trichotomous.trichotomous _ _ hab hba
        exact List.pairwise_cons.mpr ⟨fun x hx => same ▸ hb x hx, hl⟩

/-- Adds an entry, in place of the one that has its key. -/
def insert (t : OrderedTable key) (a : α) : OrderedTable key :=
  ⟨insertList key a t.entries, sorted_insertList a t.sorted⟩

theorem find?_insertList [DecidableEq κ] (a : α) (k : κ) (l : List α) :
    (insertList key a l).find? (key · = k) =
      if key a = k then some a else l.find? (key · = k) := by
  induction l with
  | nil => by_cases h : key a = k <;> simp [insertList, h]
  | cons b l ih =>
    unfold insertList
    split
    · by_cases h : key a = k <;> simp [h]
    · next hab =>
      split
      · next hba =>
        by_cases hb : key b = k
        · have hne : key a ≠ k := fun ha => absurd (ha ▸ hb ▸ hba) Std.lt_irrefl
          simp [hb, hne]
        · simp [hb, ih]
      · next hba =>
        have same : key a = key b := Std.Trichotomous.trichotomous _ _ hab hba
        by_cases h : key a = k
        · simp [h]
        · have hb : key b ≠ k := same ▸ h
          simp [h, hb]

@[simp] theorem find?_insert [DecidableEq κ] (t : OrderedTable key) (a : α) (k : κ) :
    (t.insert a).find? k = if key a = k then some a else t.find? k :=
  find?_insertList a k t.entries

/-- Later entries take the place of earlier ones with the same key. -/
def ofList (l : List α) : OrderedTable key := l.foldl insert empty

end Operations

end OrderedTable

end SceneDispatch
