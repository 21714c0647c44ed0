import Mathlib.Data.List.Infix
import Mathlib.Data.List.TakeWhile
import SceneDispatch.Feature.Call
/-!
Where calls stand in a text. A text is parted from left to right: a call is taken where one begins,
and a single character elsewhere. Main statements: the segments of a text are what this gives, and
registries that find the same calls in a text part it alike.
-/
namespace SceneDispatch

namespace Call

/-- The arguments of a call: the fields between commas, empty ones left out. -/
def argumentsOf (text : List Char) : Arguments :=
  .ofList (((text.splitOn ',').filter (!·.isEmpty)).map .ofList)

/-- A call stands at the beginning of a text, and `rest` follows it. -/
inductive Begins (r : Registry) : List Char → Call → List Char → Prop
  | intro {name arguments rest : List Char} {f : Feature} :
    isIdentifier name = true → r.find? (.ofList name) = some f → ')' ∉ arguments →
    Begins r ('$' :: (name ++ '(' :: (arguments ++ ')' :: rest))) ⟨f, argumentsOf arguments⟩ rest

/-- A text and the segments that it is parted into. -/
inductive Parted (r : Registry) : List Char → List Segment → Prop
  | nil : Parted r [] []
  | call {s rest : List Char} {call : Call} {segments : List Segment} :
    Begins r s call rest → Parted r rest segments → Parted r s (.call call :: segments)
  | literal {c : Char} {s : List Char} {segments : List Segment} :
    (∀ call rest, ¬ Begins r (c :: s) call rest) → Parted r s segments →
    Parted r (c :: s) (.literal c :: segments)

section Reading

variable {r : Registry} {s rest : List Char} {call : Call} {n : Nat}

/-- Names are made of letters, digits and underscores. -/
theorem not_mem_of_isIdentifier {x : Char} {name : List Char} (h : isIdentifier name = true)
    (hx : (x.isAlphanum || x = '_') = false := by decide) : x ∉ name := by
  cases name with
  | nil => cases h
  | cons c name =>
    simp only [isIdentifier, beginsIdentifier, Bool.and_eq_true, List.all_eq_true] at h
    intro hmem
    rcases List.mem_cons.mp hmem with rfl | hmem
    · simp_all [Char.isAlphanum]
    · simp_all

/-- Up to a character that is not among the first ones, and no further. -/
theorem takeWhile_ne_append {c : Char} {before : List Char} (h : c ∉ before) (after : List Char) :
    (before ++ c :: after).takeWhile (· ≠ c) = before := by
  rw [List.takeWhile_append_of_pos]
  · simp
  · intro x hx
    simpa using fun hxc : x = c => h (hxc ▸ hx)

theorem eq_takeWhile_append {c : Char} {s : List Char}
    (h : (s.takeWhile (· ≠ c)).length < s.length) :
    s = s.takeWhile (· ≠ c) ++ c :: s.drop ((s.takeWhile (· ≠ c)).length + 1) := by
  induction s with
  | nil => cases h
  | cons x s ih =>
    by_cases hx : x = c
    · simp [hx]
    · have htake : (x :: s).takeWhile (· ≠ c) = x :: s.takeWhile (· ≠ c) := by simp [hx]
      rw [htake] at h ⊢
      simp only [List.length_cons, Nat.add_lt_add_iff_right] at h
      simpa using ih h

theorem begins_of_read? (h : read? r s = some (call, n)) :
    Begins r ('$' :: s) call (s.drop n) := by
  simp only [read?] at h
  split at h
  · next hshape =>
    simp only [Bool.and_eq_true, decide_eq_true_eq] at hshape
    obtain ⟨⟨hname, harguments⟩, hidentifier⟩ := hshape
    obtain ⟨f, hf, heq⟩ := Option.map_eq_some_iff.mp h
    obtain ⟨rfl, rfl⟩ := Prod.mk.inj heq
    have hs := eq_takeWhile_append hname
    have hrest := eq_takeWhile_append harguments
    generalize s.takeWhile (· ≠ '(') = name at *
    generalize hafter : s.drop (name.length + 1) = after at *
    have hclosed : ')' ∉ after.takeWhile (· ≠ ')') := by
      intro hmem
      simpa using List.mem_takeWhile_imp hmem
    generalize after.takeWhile (· ≠ ')') = arguments at *
    have hdrop : s.drop (name.length + arguments.length + 2) =
        after.drop (arguments.length + 1) := by
      rw [← hafter, List.drop_drop]
      congr 1
      omega
    rw [hdrop]
    have hbegins : Begins r ('$' :: (name ++ '(' :: (arguments ++ ')' ::
        after.drop (arguments.length + 1)))) ⟨f, argumentsOf arguments⟩
        (after.drop (arguments.length + 1)) := .intro hidentifier hf hclosed
    rwa [← hrest, ← hs] at hbegins
  · cases h

theorem Begins.exists_read? (h : Begins r s call rest) :
    ∃ tail n, s = '$' :: tail ∧ read? r tail = some (call, n) ∧ tail.drop n = rest := by
  obtain @⟨name, arguments, rest, f, hidentifier, hf, hclosed⟩ := h
  refine ⟨_, name.length + arguments.length + 2, rfl, ?_, ?_⟩
  · have hname := takeWhile_ne_append (c := '(') (not_mem_of_isIdentifier hidentifier)
      (arguments ++ ')' :: rest)
    have harguments := takeWhile_ne_append hclosed rest
    have hdrop : (name ++ '(' :: (arguments ++ ')' :: rest)).drop (name.length + 1) =
        arguments ++ ')' :: rest := by
      simp [List.drop_append]
    simp only [read?, hname, hdrop, harguments, hidentifier, hf]
    rw [if_pos (by simp)]
    rfl
  · have hsplit : name ++ '(' :: (arguments ++ ')' :: rest) =
        (name ++ '(' :: (arguments ++ [')'])) ++ rest := by simp
    rw [hsplit]
    apply List.drop_left'
    simp only [List.length_append, List.length_cons, List.length_nil]
    omega

theorem segmentsFrom_eq (r : Registry) (skip : Nat) (s : List Char) :
    segmentsFrom r skip s = segmentsFrom r 0 (s.drop skip) := by
  induction s generalizing skip with
  | nil => simp [segmentsFrom]
  | cons c s ih =>
    cases skip with
    | zero => rfl
    | succ skip => rw [segmentsFrom, ih, List.drop_succ_cons]

theorem Begins.segments_eq (h : Begins r s call rest) :
    segmentsFrom r 0 s = .call call :: segmentsFrom r 0 rest := by
  obtain ⟨tail, n, rfl, hread, rfl⟩ := h.exists_read?
  rw [segmentsFrom, if_pos rfl, hread]
  exact congrArg (.call call :: ·) (segmentsFrom_eq r n tail)

theorem segments_literal {c : Char} (h : ∀ call rest, ¬ Begins r (c :: s) call rest) :
    segmentsFrom r 0 (c :: s) = .literal c :: segmentsFrom r 0 s := by
  rw [segmentsFrom]
  split
  · next call n hread =>
    split at hread
    · next hc =>
      subst hc
      exact absurd (begins_of_read? hread) (h _ _)
    · cases hread
  · rfl

end Reading

section Parting

variable {r : Registry}

theorem Begins.length_lt {s rest : List Char} {call : Call} (h : Begins r s call rest) :
    rest.length < s.length := by
  obtain @⟨name, arguments, rest, f, -, -, -⟩ := h
  simp only [List.length_cons, List.length_append]
  omega

theorem Begins.rest_suffix {s rest : List Char} {call : Call} (h : Begins r s call rest) :
    rest <:+ s := by
  obtain @⟨name, arguments, rest, f, -, -, -⟩ := h
  exact ⟨'$' :: (name ++ '(' :: (arguments ++ [')'])), by simp⟩

theorem Parted.eq_segments {s : List Char} {segments : List Segment} (h : Parted r s segments) :
    segments = segmentsFrom r 0 s := by
  induction h with
  | nil => rfl
  | call hbegins _ ih => rw [hbegins.segments_eq, ih]
  | literal hnot _ ih => rw [segments_literal hnot, ih]

/-- The segments of a text part it. -/
theorem parted_segmentsFrom (s : List Char) : Parted r s (segmentsFrom r 0 s) := by
  -- what follows a call is shorter than the text, but not one character shorter
  induction hlength : s.length using Nat.strong_induction_on generalizing s with
  | h length ih =>
    by_cases hcall : ∃ call rest, Begins r s call rest
    · obtain ⟨call, rest, hbegins⟩ := hcall
      rw [hbegins.segments_eq]
      exact .call hbegins (ih rest.length (hlength ▸ hbegins.length_lt) rest rfl)
    · push Not at hcall
      cases s with
      | nil => exact .nil
      | cons c s =>
        rw [segments_literal hcall]
        refine .literal hcall (ih s.length ?_ s rfl)
        rw [← hlength, List.length_cons]
        exact Nat.lt_succ_self _

end Parting

/-- Registries that find the same calls in a text part it alike. -/
theorem Parted.congr {r r' : Registry} {s : List Char} {segments : List Segment}
    (h : Parted r s segments)
    (hsame : ∀ t, t <:+ s → ∀ call rest, Begins r t call rest ↔ Begins r' t call rest) :
    Parted r' s segments := by
  induction h with
  | nil => exact .nil
  | @call s rest call segments hbegins _ ih =>
    refine .call ((hsame s List.suffix_rfl _ _).mp hbegins) (ih fun t ht => hsame t ?_)
    exact ht.trans hbegins.rest_suffix
  | @literal c s segments hnot _ ih =>
    refine .literal (fun call rest hbegins => ?_) (ih fun t ht => hsame t ?_)
    · exact hnot call rest ((hsame _ List.suffix_rfl _ _).mpr hbegins)
    · exact ht.trans (List.suffix_cons c s)

end Call

/-- Words that depend on packages. -/
def Sample.packaged : Registry where
  manager := "cm"
  features := .ofList
    [⟨"switch_job", "$x", some "jobs", .switch "$.getJob()"⟩,
      ⟨"give", "$.gainMeso($x)", some "money", .plain⟩, ⟨"tax", "$.tax($x)", some "taxes", .plain⟩]

end SceneDispatch
