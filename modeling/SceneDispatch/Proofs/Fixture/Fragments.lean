import Mathlib.Data.List.Infix
import SceneDispatch.Fixture.Check
/-!
Fragments of a script in a given order. A check looks for each fragment at its first place behind
the one before. Main statement: this finds the fragments exactly if they can be placed one behind
the other in some way, and the fragment it misses is the first that no placing reaches.
-/
namespace SceneDispatch

namespace Text

/-- The fragments make up the text in their order, with a gap in front of each and what is left
behind the last. -/
def InOrder (fragments : List String) (text : List Char) : Prop :=
  ∃ (gaps : List (List Char)) (last : List Char), gaps.length = fragments.length ∧
    text = (List.zipWith (fun gap f => gap ++ f.toList) gaps fragments).flatten ++ last

section Placing

variable {f : String} {fs : List String} {p s gap rest text : List Char}

@[simp] theorem inOrder_nil : InOrder [] text := ⟨[], text, rfl, rfl⟩

theorem inOrder_cons_iff :
    InOrder (f :: fs) text ↔ ∃ gap rest, text = gap ++ (f.toList ++ rest) ∧ InOrder fs rest := by
  constructor
  · rintro ⟨gaps, last, hlength, rfl⟩
    cases gaps with
    | nil => simp at hlength
    | cons gap gaps =>
      refine ⟨gap, _, ?_, gaps, last, by simpa using hlength, rfl⟩
      simp
  · rintro ⟨gap, rest, rfl, gaps, last, hlength, rfl⟩
    exact ⟨gap :: gaps, last, by simp [hlength], by simp⟩

/-- More text in front widens the first gap. -/
theorem InOrder.of_suffix (h : InOrder fs rest) (hrest : rest <:+ text) : InOrder fs text := by
  obtain ⟨front, rfl⟩ := hrest
  cases fs with
  | nil => exact inOrder_nil
  | cons f fs =>
    obtain ⟨gap, inner, rfl, hinner⟩ := inOrder_cons_iff.mp h
    exact inOrder_cons_iff.mpr ⟨front ++ gap, inner, by simp, hinner⟩

theorem eq_append_of_afterFirst? (h : afterFirst? p s = some rest) :
    ∃ gap, s = gap ++ (p ++ rest) := by
  induction s with
  | nil =>
    simp only [afterFirst?, List.isEmpty_iff] at h
    split at h
    · next hp => exact ⟨[], by simp_all⟩
    · cases h
  | cons c s ih =>
    rw [afterFirst?] at h
    split at h
    · next hp =>
      obtain ⟨inner, hinner⟩ := List.isPrefixOf_iff_prefix.mp hp
      cases h
      exact ⟨[], by rw [← hinner]; simp⟩
    · obtain ⟨gap, rfl⟩ := ih h
      exact ⟨c :: gap, rfl⟩

/-- The first place leaves at least as much behind it as any other. -/
theorem afterFirst?_leaves_most (gap p rest : List Char) :
    ∃ rest', afterFirst? p (gap ++ (p ++ rest)) = some rest' ∧ rest <:+ rest' := by
  induction gap with
  | nil =>
    refine ⟨rest, ?_, List.suffix_rfl⟩
    rw [List.nil_append]
    cases hs : p ++ rest with
    | nil => simp_all [afterFirst?]
    | cons c s =>
      rw [afterFirst?, ← hs, if_pos (List.isPrefixOf_iff_prefix.mpr ⟨rest, rfl⟩), List.drop_left]
  | cons c gap ih =>
    rw [List.cons_append, afterFirst?]
    split
    · next hp =>
      -- an earlier place: what lies behind it ends in what lies behind the given one
      obtain ⟨inner, hinner⟩ := List.isPrefixOf_iff_prefix.mp hp
      have hgiven : rest <:+ p ++ inner := by
        rw [hinner]
        exact ⟨c :: gap ++ p, by simp⟩
      have hlength := congrArg List.length hinner
      simp only [List.length_append, List.length_cons] at hlength
      refine ⟨inner, by rw [← hinner, List.drop_left], ?_⟩
      exact List.suffix_of_suffix_length_le hgiven (List.suffix_append p inner) (by omega)
    · exact ih

/-- If the fragments can be placed at all, they can be placed with the first at its first place. -/
theorem inOrder_cons_iff_first :
    InOrder (f :: fs) text ↔ ∃ rest, afterFirst? f.toList text = some rest ∧ InOrder fs rest := by
  rw [inOrder_cons_iff]
  constructor
  · rintro ⟨gap, rest, rfl, hrest⟩
    obtain ⟨rest', hfirst, hsuffix⟩ := afterFirst?_leaves_most gap f.toList rest
    exact ⟨rest', hfirst, hrest.of_suffix hsuffix⟩
  · rintro ⟨rest, hfirst, hrest⟩
    obtain ⟨gap, rfl⟩ := eq_append_of_afterFirst? hfirst
    exact ⟨gap, rest, rfl, hrest⟩

end Placing

end Text

namespace FixtureCase

open Text

section Search

variable {index i : Nat} {text rest : List Char} {f : String} {fs : List String}

theorem missingFragment?_cons_of_found (h : afterFirst? f.toList text = some rest) :
    missingFragment? index text (f :: fs) = missingFragment? (index + 1) rest fs := by
  rw [missingFragment?, h]

theorem missingFragment?_cons_of_missing (h : afterFirst? f.toList text = none) :
    missingFragment? index text (f :: fs) = some (index, f) := by
  rw [missingFragment?, h]

theorem inOrder_cons_of_found (h : afterFirst? f.toList text = some rest) :
    InOrder (f :: fs) text ↔ InOrder fs rest := by
  simp [inOrder_cons_iff_first, h]

theorem not_inOrder_cons_of_missing (h : afterFirst? f.toList text = none) :
    ¬ InOrder (f :: fs) text := by
  simp [inOrder_cons_iff_first, h]

theorem missingFragment?_eq_none_iff :
    missingFragment? index text fs = none ↔ InOrder fs text := by
  induction fs generalizing index text with
  | nil => simp [missingFragment?]
  | cons f fs ih =>
    cases hfirst : afterFirst? f.toList text with
    | none =>
      simp [missingFragment?_cons_of_missing hfirst, not_inOrder_cons_of_missing hfirst]
    | some rest => rw [missingFragment?_cons_of_found hfirst, inOrder_cons_of_found hfirst, ih]

theorem le_of_missingFragment? (h : missingFragment? index text fs = some (i, f)) : index ≤ i := by
  induction fs generalizing index text with
  | nil => cases h
  | cons g fs ih =>
    cases hfirst : afterFirst? g.toList text with
    | none =>
      rw [missingFragment?_cons_of_missing hfirst] at h
      obtain ⟨rfl, -⟩ := Prod.mk.inj (Option.some.inj h)
      exact Nat.le_refl _
    | some rest =>
      rw [missingFragment?_cons_of_found hfirst] at h
      exact Nat.le_of_succ_le (ih h)

/-- The missing fragment is the one with which the fragments can no longer be placed. -/
theorem missingFragment?_eq_some_iff :
    missingFragment? index text fs = some (index + i, f) ↔
      fs[i]? = some f ∧ InOrder (fs.take i) text ∧ ¬ InOrder (fs.take (i + 1)) text := by
  induction fs generalizing index i text with
  | nil => simp [missingFragment?]
  | cons g fs ih =>
    cases hfirst : afterFirst? g.toList text with
    | none =>
      rw [missingFragment?_cons_of_missing hfirst]
      cases i with
      | zero => simp [not_inOrder_cons_of_missing hfirst]
      | succ i => simp [not_inOrder_cons_of_missing hfirst]
    | some rest =>
      rw [missingFragment?_cons_of_found hfirst]
      cases i with
      | zero =>
        have hfound : InOrder [g] text := (inOrder_cons_of_found hfirst).mpr inOrder_nil
        have hlater : missingFragment? (index + 1) rest fs ≠ some (index, f) := fun h =>
          absurd (le_of_missingFragment? h) (Nat.not_succ_le_self index)
        simp [hfound, hlater]
      | succ i =>
        rw [List.take_succ_cons, List.take_succ_cons, inOrder_cons_of_found hfirst,
          inOrder_cons_of_found hfirst, List.getElem?_cons_succ, ← ih,
          show index + (i + 1) = index + 1 + i by omega]

end Search

instance (fs : List String) (text : List Char) : Decidable (InOrder fs text) :=
  decidable_of_iff (missingFragment? 0 text fs = none) missingFragment?_eq_none_iff

theorem agrees_iff {α : Type} [DecidableEq α] {expected : Option α} {actual : α} :
    agrees expected actual = true ↔ ∀ e, expected = some e → e = actual := by
  cases expected <;> simp [agrees]

section Verdict

variable {c : FixtureCase} {s : Script}

theorem checkScript_eq_ok_iff :
    c.checkScript s = .ok () ↔
      missingFragment? 0 s.source.toList c.fragments = none ∧
        agrees c.statusGroups s.statusGroups = true ∧
        agrees c.dependencies s.dependencies = true := by
  unfold checkScript
  split
  · next hmissing => simp [hmissing]
  · next hplaced => split_ifs <;> simp_all

theorem checkScript_eq_fragmentMissing_iff {index : Nat} {fragment source : String} :
    c.checkScript s = .error (.fragmentMissing index fragment source) ↔
      source = s.source ∧
        missingFragment? 0 s.source.toList c.fragments = some (index, fragment) := by
  unfold checkScript
  split
  · next i f hmissing =>
    simp only [hmissing, Except.error.injEq, FixtureFault.fragmentMissing.injEq, Option.some.injEq,
      Prod.mk.injEq]
    exact ⟨fun ⟨hi, hf, hs⟩ => ⟨hs.symm, hi, hf⟩, fun ⟨hs, hi, hf⟩ => ⟨hi, hf, hs.symm⟩⟩
  · next hplaced => split_ifs <;> simp [hplaced]

end Verdict

/-- A script passes exactly if its text can be made up of the fragments in their order and its
groups and dependencies are the expected ones, where any are expected. A fragment is reported as
missing exactly if those before it can be placed, and those up to it cannot. -/
theorem checkScript_decides_order (c : FixtureCase) (s : Script) :
    (c.checkScript s = .ok () ↔
      InOrder c.fragments s.source.toList ∧
      (∀ groups, c.statusGroups = some groups → groups = s.statusGroups) ∧
      ∀ dependencies, c.dependencies = some dependencies → dependencies = s.dependencies) ∧
    ∀ index fragment source,
      c.checkScript s = .error (.fragmentMissing index fragment source) ↔
        source = s.source ∧ c.fragments[index]? = some fragment ∧
        InOrder (c.fragments.take index) s.source.toList ∧
        ¬ InOrder (c.fragments.take (index + 1)) s.source.toList := by
  refine ⟨?_, fun index fragment source => ?_⟩
  · rw [checkScript_eq_ok_iff, missingFragment?_eq_none_iff, agrees_iff, agrees_iff]
  · have hmissing : missingFragment? 0 s.source.toList c.fragments =
        some (0 + index, fragment) ↔ _ :=
      missingFragment?_eq_some_iff
    rw [Nat.zero_add] at hmissing
    rw [checkScript_eq_fragmentMissing_iff, hmissing]

/-- Occurrences do not overlap, and an empty fragment stands everywhere. -/
example : InOrder ["ab", "", "b", ""] "abb".toList ∧ ¬ InOrder ["aba", "aba"] "ababa".toList := by
  decide

end FixtureCase

end SceneDispatch
