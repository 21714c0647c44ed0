import SceneDispatch.Ordered.Set
import SceneDispatch.Proofs.Feature.Calls
/-!
A text as calls and the literal text between them. Main statements: a text has one factorisation in
which every call that could be taken from the left is taken, and expanding the text replaces the
calls of this factorisation and nothing else.
-/
namespace SceneDispatch

/-- A call as it is written: the name of its feature behind a dollar sign, and what stands between
the parentheses. -/
structure WrittenCall where
  feature : Feature
  arguments : List Char
  deriving DecidableEq, Repr

namespace WrittenCall

def text (c : WrittenCall) : List Char :=
  '$' :: (c.feature.name.toList ++ '(' :: (c.arguments ++ [')']))

/-- The feature is registered under a name that can be called, and the arguments end at the first
closing parenthesis. -/
structure Calls (c : WrittenCall) (r : Registry) : Prop where
  identifier : Call.isIdentifier c.feature.name.toList = true
  registered : r.find? c.feature.name = some c.feature
  closed : ')' ∉ c.arguments

/-- The arguments between commas, without the empty ones. -/
def tokens (c : WrittenCall) : List String :=
  ((c.arguments.splitOn ',').filter (!·.isEmpty)).map .ofList

/-- What the call expands to: the first three tokens are its arguments, and a missing one is
empty. -/
def replacement (manager : String) (c : WrittenCall) : List Char :=
  (c.feature.expand manager
    ⟨some (c.tokens.getD 0 ""), some (c.tokens.getD 1 ""), some (c.tokens.getD 2 "")⟩).toList

end WrittenCall

/-- A call starts the text. -/
def Registry.CallStarts (r : Registry) (s : List Char) : Prop :=
  ∃ (c : WrittenCall) (rest : List Char), c.Calls r ∧ s = c.text ++ rest

/-- No call starts within the literal text when `rest` follows it. -/
def Registry.NoCallIn (r : Registry) (literal rest : List Char) : Prop :=
  ∀ before after, literal = before ++ after → after ≠ [] → ¬ r.CallStarts (after ++ rest)

/-- Calls, each with the literal text in front of it, and the literal text behind the last one. -/
structure Factorisation where
  pieces : List (List Char × WrittenCall)
  last : List Char
  deriving DecidableEq, Repr

namespace Factorisation

def text : List (List Char × WrittenCall) → List Char → List Char
  | [], last => last
  | (literal, c) :: pieces, last => literal ++ (c.text ++ text pieces last)

/-- The literal texts, each with all that follows it. -/
def literals : List (List Char × WrittenCall) → List Char → List (List Char × List Char)
  | [], last => [(last, [])]
  | (literal, c) :: pieces, last => (literal, c.text ++ text pieces last) :: literals pieces last

/-- The calls and the literals make up the text, and no call starts within a literal. -/
structure Of (p : Factorisation) (r : Registry) (s : List Char) : Prop where
  text_eq : text p.pieces p.last = s
  calls : ∀ literal c, (literal, c) ∈ p.pieces → c.Calls r
  free : ∀ literal rest, (literal, rest) ∈ literals p.pieces p.last → r.NoCallIn literal rest

/-- The text with every call replaced by what it expands to. -/
def rewritten (manager : String) (p : Factorisation) : List Char :=
  (p.pieces.flatMap fun piece => piece.1 ++ piece.2.replacement manager) ++ p.last

end Factorisation

theorem Registry.name_of_find? {r : Registry} {name : String} {f : Feature}
    (h : r.find? name = some f) : f.name = name :=
  (OrderedTable.find?_eq_some_iff.mp h).2

theorem Feature.expand_missing (f : Feature) (manager : String) (a : Arguments) :
    f.expand manager ⟨some (a.x.getD ""), some (a.y.getD ""), some (a.z.getD "")⟩ =
      f.expand manager a := rfl

namespace Segment

@[simp] theorem text_literal (manager : String) (c : Char) : (literal c).text manager = [c] := rfl

@[simp] theorem text_call (manager : String) (c : Call) :
    (call c).text manager = (c.feature.expand manager c.arguments).toList := rfl

@[simp] theorem dependency?_literal (c : Char) : (literal c).dependency? = none := rfl

@[simp] theorem dependency?_call (c : Call) : (call c).dependency? = c.feature.dependency := rfl

end Segment

namespace WrittenCall

variable {r : Registry} {c c' : WrittenCall} {s rest rest' : List Char}

theorem text_append (c : WrittenCall) (rest : List Char) :
    c.text ++ rest = '$' :: (c.feature.name.toList ++ '(' :: (c.arguments ++ ')' :: rest)) := by
  simp [text]

/-- Texts that are equal up to and behind their first `x`. -/
theorem first_inj {x : Char} {before before' after after' : List Char} (h : x ∉ before)
    (h' : x ∉ before') (heq : before ++ x :: after = before' ++ x :: after') :
    before = before' ∧ after = after' := by
  have hbefore : before = before' := by
    rw [← Call.takeWhile_ne_append h after, heq, Call.takeWhile_ne_append h']
  subst hbefore
  exact ⟨rfl, (List.cons.inj (List.append_cancel_left heq)).2⟩

/-- A call is read off the beginning of a text in one way. -/
theorem Calls.text_append_inj (h : c.Calls r) (h' : c'.Calls r)
    (heq : c.text ++ rest = c'.text ++ rest') : c = c' ∧ rest = rest' := by
  rw [text_append, text_append] at heq
  obtain ⟨hname, harguments⟩ := first_inj (Call.not_mem_of_isIdentifier h.identifier)
    (Call.not_mem_of_isIdentifier h'.identifier) (List.cons.inj heq).2
  obtain ⟨harguments, hrest⟩ := first_inj h.closed h'.closed harguments
  have hfeature : some c.feature = some c'.feature := by
    rw [← h.registered, ← h'.registered, String.toList_injective hname]
  refine ⟨?_, hrest⟩
  obtain ⟨f, arguments⟩ := c
  obtain ⟨f', arguments'⟩ := c'
  obtain rfl : f = f' := Option.some.inj hfeature
  obtain rfl : arguments = arguments' := harguments
  rfl

/-- The call that is taken where a written call starts the text. -/
theorem Calls.begins (h : c.Calls r) (rest : List Char) :
    Call.Begins r (c.text ++ rest) ⟨c.feature, Call.argumentsOf c.arguments⟩ rest := by
  rw [text_append]
  exact .intro h.identifier (by simpa using h.registered) h.closed

theorem exists_of_begins {call : Call} (h : Call.Begins r s call rest) :
    ∃ c : WrittenCall, c.Calls r ∧ s = c.text ++ rest ∧
      call = ⟨c.feature, Call.argumentsOf c.arguments⟩ := by
  obtain @⟨name, arguments, rest, f, hidentifier, hf, hclosed⟩ := h
  have hname : f.name = .ofList name := Registry.name_of_find? hf
  refine ⟨⟨f, arguments⟩, ⟨?_, ?_, hclosed⟩, ?_, rfl⟩
  · simpa [hname] using hidentifier
  · simpa [hname] using hf
  · simp [text_append, hname]

theorem replacement_eq (manager : String) (c : WrittenCall) :
    c.replacement manager =
      (c.feature.expand manager (Call.argumentsOf c.arguments)).toList := by
  rw [← Feature.expand_missing]
  simp only [replacement, tokens, Call.argumentsOf, Arguments.ofList, List.getD_eq_getElem?_getD]

end WrittenCall

theorem Registry.callStarts_iff {r : Registry} {s : List Char} :
    r.CallStarts s ↔ ∃ call rest, Call.Begins r s call rest := by
  constructor
  · rintro ⟨c, rest, hc, rfl⟩
    exact ⟨_, rest, hc.begins rest⟩
  · rintro ⟨call, rest, hbegins⟩
    obtain ⟨c, hc, heq, -⟩ := WrittenCall.exists_of_begins hbegins
    exact ⟨c, rest, hc, heq⟩

theorem Registry.callStarts_cons_iff {r : Registry} {x : Char} {s : List Char} :
    r.CallStarts (x :: s) ↔ x = '$' ∧ (Call.read? r s).isSome = true := by
  rw [callStarts_iff, Option.isSome_iff_exists]
  constructor
  · rintro ⟨call, rest, hbegins⟩
    obtain ⟨tail, n, heq, hread, -⟩ := hbegins.exists_read?
    obtain ⟨rfl, rfl⟩ := List.cons.inj heq
    exact ⟨rfl, _, hread⟩
  · rintro ⟨rfl, ⟨call, n⟩, hread⟩
    exact ⟨call, _, Call.begins_of_read? hread⟩

theorem Registry.not_callStarts_nil (r : Registry) : ¬ r.CallStarts [] := by
  rintro ⟨c, rest, -, heq⟩
  cases heq

instance (r : Registry) (s : List Char) : Decidable (r.CallStarts s) :=
  match s with
  | [] => .isFalse r.not_callStarts_nil
  | _ :: _ => decidable_of_iff _ Registry.callStarts_cons_iff.symm

namespace Factorisation

variable {r : Registry} {s : List Char} {p q : Factorisation}

/-- What the parts of a factorisation are for expansion. -/
def segments (p : Factorisation) : List Segment :=
  (p.pieces.flatMap fun piece => piece.1.map .literal ++
    [.call ⟨piece.2.feature, Call.argumentsOf piece.2.arguments⟩]) ++ p.last.map .literal

theorem of_last_iff {last : List Char} : Of ⟨[], last⟩ r s ↔ last = s ∧ r.NoCallIn last [] := by
  constructor
  · intro h
    exact ⟨h.text_eq, h.free last [] List.mem_cons_self⟩
  · rintro ⟨rfl, hfree⟩
    refine ⟨rfl, fun _ _ hmem => absurd hmem List.not_mem_nil, fun literal rest hmem => ?_⟩
    obtain ⟨rfl, rfl⟩ := Prod.mk.inj (List.mem_singleton.mp hmem)
    exact hfree

theorem of_cons_iff {literal last : List Char} {c : WrittenCall}
    {pieces : List (List Char × WrittenCall)} :
    Of ⟨(literal, c) :: pieces, last⟩ r s ↔
      ∃ rest, s = literal ++ (c.text ++ rest) ∧ c.Calls r ∧
        r.NoCallIn literal (c.text ++ rest) ∧ Of ⟨pieces, last⟩ r rest := by
  constructor
  · intro h
    refine ⟨text pieces last, h.text_eq.symm, h.calls literal c List.mem_cons_self,
      h.free literal _ List.mem_cons_self, rfl, fun l c' hmem => ?_, fun l rest hmem => ?_⟩
    · exact h.calls l c' (List.mem_cons_of_mem _ hmem)
    · exact h.free l rest (List.mem_cons_of_mem _ hmem)
  · rintro ⟨_, rfl, hc, hfree, rfl, hcalls, hliterals⟩
    refine ⟨rfl, fun l c' hmem => ?_, fun l rest hmem => ?_⟩
    · rcases List.mem_cons.mp hmem with heq | hmem
      · obtain ⟨rfl, rfl⟩ := Prod.mk.inj heq
        exact hc
      · exact hcalls l c' hmem
    · rcases List.mem_cons.mp hmem with heq | hmem
      · obtain ⟨rfl, rfl⟩ := Prod.mk.inj heq
        exact hfree
      · exact hliterals l rest hmem

/-- Literal text in which no call starts is passed character by character. -/
theorem parted_literal {literal rest : List Char} {segments : List Segment}
    (hfree : r.NoCallIn literal rest) (hrest : Call.Parted r rest segments) :
    Call.Parted r (literal ++ rest) (literal.map .literal ++ segments) := by
  induction literal with
  | nil => exact hrest
  | cons x literal ih =>
    refine .literal (fun call behind hbegins => ?_) (ih fun before after hsplit => ?_)
    · exact hfree [] (x :: literal) rfl (by simp) (Registry.callStarts_iff.mpr ⟨_, _, hbegins⟩)
    · exact hfree (x :: before) after (by rw [hsplit]; rfl)

theorem Of.parted (h : p.Of r s) : Call.Parted r s p.segments := by
  obtain ⟨pieces, last⟩ := p
  induction pieces generalizing s with
  | nil =>
    obtain ⟨rfl, hfree⟩ := of_last_iff.mp h
    simpa [segments] using parted_literal hfree .nil
  | cons piece pieces ih =>
    obtain ⟨literal, c⟩ := piece
    obtain ⟨rest, rfl, hc, hfree, hbehind⟩ := of_cons_iff.mp h
    simpa [segments] using parted_literal hfree (.call (hc.begins rest) (ih hbehind))

/-- Literal text does not reach beyond the place where a call starts. -/
theorem exists_append_of_noCallIn {literal literal' rest rest' : List Char}
    (hfree : r.NoCallIn literal rest) (hcall : r.CallStarts rest')
    (heq : literal ++ rest = literal' ++ rest') : ∃ more, literal' = literal ++ more := by
  obtain ⟨more, hmore, -⟩ | ⟨more, hmore, hrest⟩ := List.append_eq_append_iff.mp heq
  · exact ⟨more, hmore⟩
  · by_cases hempty : more = []
    · exact ⟨[], by simp [hmore, hempty]⟩
    · exact absurd (hrest ▸ hcall) (hfree literal' more hmore hempty)

theorem callStarts_text {c : WrittenCall} (hc : c.Calls r) (rest : List Char) :
    r.CallStarts (c.text ++ rest) :=
  ⟨c, rest, hc, rfl⟩

/-- The literal text before the last call cannot hold all of a text. -/
theorem not_of_last_of_cons {literal last last' : List Char} {c : WrittenCall}
    {pieces : List (List Char × WrittenCall)} (h : Of ⟨[], last'⟩ r s) :
    ¬ Of ⟨(literal, c) :: pieces, last⟩ r s := by
  intro hcons
  obtain ⟨rfl, hfree⟩ := of_last_iff.mp h
  obtain ⟨rest, rfl, hc, -, -⟩ := of_cons_iff.mp hcons
  exact hfree literal (c.text ++ rest) rfl (by simp [WrittenCall.text])
    (by simpa using callStarts_text hc rest)

/-- A text has one factorisation. -/
theorem Of.unique (hp : p.Of r s) (hq : q.Of r s) : p = q := by
  obtain ⟨pieces, last⟩ := p
  obtain ⟨pieces', last'⟩ := q
  induction pieces generalizing s pieces' with
  | nil =>
    cases pieces' with
    | nil => rw [(of_last_iff.mp hp).1, (of_last_iff.mp hq).1]
    | cons piece' pieces' => exact absurd hq (not_of_last_of_cons hp)
  | cons piece pieces ih =>
    cases pieces' with
    | nil => exact absurd hp (not_of_last_of_cons hq)
    | cons piece' pieces' =>
      obtain ⟨literal, c⟩ := piece
      obtain ⟨literal', c'⟩ := piece'
      obtain ⟨rest, rfl, hc, hfree, hbehind⟩ := of_cons_iff.mp hp
      obtain ⟨rest', heq, hc', hfree', hbehind'⟩ := of_cons_iff.mp hq
      obtain ⟨more, hmore⟩ := exists_append_of_noCallIn hfree (callStarts_text hc' rest') heq
      obtain ⟨more', hmore'⟩ := exists_append_of_noCallIn hfree' (callStarts_text hc rest) heq.symm
      obtain rfl : literal = literal' := by
        have hlength := congrArg List.length hmore
        have hlength' := congrArg List.length hmore'
        simp only [List.length_append] at hlength hlength'
        have hempty : more = [] := List.length_eq_zero_iff.mp (by omega)
        simpa [hempty] using hmore.symm
      obtain ⟨rfl, rfl⟩ := hc.text_append_inj hc' (List.append_cancel_left heq)
      cases ih hbehind _ hbehind'
      rfl

/-- Every text has a factorisation, made from its segments from behind. -/
theorem exists_of {segments : List Segment} (h : Call.Parted r s segments) :
    ∃ p : Factorisation, p.Of r s := by
  induction h with
  | nil => exact ⟨⟨[], []⟩, of_last_iff.mpr ⟨rfl, fun before after hsplit hne => by simp_all⟩⟩
  | @call s rest call segments hbegins _ ih =>
    obtain ⟨⟨pieces, last⟩, hp⟩ := ih
    obtain ⟨c, hc, rfl, -⟩ := WrittenCall.exists_of_begins hbegins
    refine ⟨⟨([], c) :: pieces, last⟩, of_cons_iff.mpr ⟨rest, rfl, hc, ?_, hp⟩⟩
    exact fun before after hsplit hne => by simp_all
  | @literal x s segments hnot _ ih =>
    obtain ⟨⟨pieces, last⟩, hp⟩ := ih
    -- the character joins the literal text in front of the first call
    have hfirst : ∀ {literal rest : List Char}, s = literal ++ rest → r.NoCallIn literal rest →
        r.NoCallIn (x :: literal) rest := by
      intro literal rest hs hfree before after hsplit hne
      cases before with
      | nil =>
        rintro hstarts
        obtain ⟨call, behind, hbegins⟩ := Registry.callStarts_iff.mp hstarts
        refine hnot call behind ?_
        rw [hs]
        simpa [← show x :: literal = after from hsplit] using hbegins
      | cons y before => exact hfree before after (List.cons.inj hsplit).2 hne
    cases pieces with
    | nil =>
      obtain ⟨rfl, hfree⟩ := of_last_iff.mp hp
      exact ⟨⟨[], x :: last⟩, of_last_iff.mpr ⟨rfl, hfirst (by simp) hfree⟩⟩
    | cons piece pieces =>
      obtain ⟨literal, c⟩ := piece
      obtain ⟨rest, hs, hc, hfree, hbehind⟩ := of_cons_iff.mp hp
      refine ⟨⟨(x :: literal, c) :: pieces, last⟩, of_cons_iff.mpr ⟨rest, ?_, hc, ?_, hbehind⟩⟩
      · rw [hs]
        rfl
      · exact hfirst hs hfree

/-- The text that the segments of a factorisation expand to. -/
theorem flatMap_text_segments (manager : String) (p : Factorisation) :
    p.segments.flatMap (·.text manager) = p.rewritten manager := by
  simp [segments, rewritten, List.flatMap_assoc, List.flatMap_map, WrittenCall.replacement_eq]

theorem mem_dependencies_segments {p : Factorisation} {package : String} :
    package ∈ p.segments.filterMap Segment.dependency? ↔
      ∃ literal c, (literal, c) ∈ p.pieces ∧ c.feature.dependency = some package := by
  have hliteral : ∀ literal : List Char,
      (literal.map Segment.literal).filterMap Segment.dependency? = [] := by
    intro literal
    simp
  simp [segments, List.filterMap_flatMap, hliteral]

end Factorisation

namespace Expansion

variable {r : Registry} {manager text : String}

theorem text_of_parted {segments : List Segment} (h : Call.Parted r text.toList segments) :
    (of r manager text).text.toList = segments.flatMap (·.text manager) := by
  rw [h.eq_segments]
  simp [of, Call.segments]

theorem dependencies_of_parted {segments : List Segment}
    (h : Call.Parted r text.toList segments) :
    (of r manager text).dependencies = segments.filterMap Segment.dependency? := by
  rw [h.eq_segments]
  rfl

/-- Expanding a text replaces the calls of its one factorisation, and adds what these depend on to
what was recorded before. A text without calls stays as it is. -/
theorem leftmost_rewriting (r : Registry) (manager text : String) (recorded : OrderedSet String) :
    ∃ p : Factorisation, p.Of r text.toList ∧ (∀ q : Factorisation, q.Of r text.toList → q = p) ∧
      (of r manager text).text.toList = p.rewritten manager ∧
      (∀ package, package ∈ recorded ∪ .ofList (of r manager text).dependencies ↔
        package ∈ recorded ∨
          ∃ literal c, (literal, c) ∈ p.pieces ∧ c.feature.dependency = some package) ∧
      ((∀ s, s <:+ text.toList → ¬ r.CallStarts s) →
        (of r manager text).text = text ∧
          recorded ∪ .ofList (of r manager text).dependencies = recorded) := by
  obtain ⟨p, hp⟩ := Factorisation.exists_of (Call.parted_segmentsFrom (r := r) text.toList)
  have htext : (of r manager text).text.toList = p.rewritten manager := by
    rw [text_of_parted hp.parted, p.flatMap_text_segments]
  have hrecorded : ∀ package, package ∈ recorded ∪ .ofList (of r manager text).dependencies ↔
      package ∈ recorded ∨
        ∃ literal c, (literal, c) ∈ p.pieces ∧ c.feature.dependency = some package := by
    intro package
    rw [OrderedSet.mem_union, OrderedSet.mem_ofList, dependencies_of_parted hp.parted,
      Factorisation.mem_dependencies_segments]
  refine ⟨p, hp, fun q hq => hq.unique hp, htext, hrecorded, fun hnone => ?_⟩
  have hwhole : Factorisation.Of ⟨[], text.toList⟩ r text.toList :=
    Factorisation.of_last_iff.mpr ⟨rfl, fun before after hsplit _ hstarts =>
      hnone after ⟨before, hsplit.symm⟩ (by simpa using hstarts)⟩
  obtain rfl := hp.unique hwhole
  refine ⟨String.toList_injective (by rw [htext]; rfl), OrderedSet.ext fun package => ?_⟩
  simp [hrecorded]

/-- A call among the arguments of another, a name that is not registered, and a call with empty and
surplus arguments; and a text in which dollar signs stand without a call. -/
theorem bundle_leftmost_rewriting :
    (∃ p : Factorisation, p.Of Sample.packaged "$give($tax(1)) $gift(2) $tax(,3,,4,5,6)".toList ∧
      p.rewritten "cm" = "cm.gainMeso($tax(1)) $gift(2) cm.tax(3)".toList ∧
      ∃ literal c, (literal, c) ∈ p.pieces ∧ c.feature.dependency = some "taxes") ∧
    (∀ s, s <:+ "$gift(2) $$tax".toList → ¬ Sample.packaged.CallStarts s) ∧
    (of Sample.packaged "cm" "$gift(2) $$tax").text = "$gift(2) $$tax" := by
  have hnone : ∀ s, s <:+ "$gift(2) $$tax".toList → ¬ Sample.packaged.CallStarts s := by
    simp only [← List.mem_tails]
    decide +kernel
  refine ⟨?_, hnone, ?_⟩
  · obtain ⟨p, hp, -, htext, hrecorded, -⟩ := leftmost_rewriting Sample.packaged "cm"
      "$give($tax(1)) $gift(2) $tax(,3,,4,5,6)" .empty
    refine ⟨p, hp, ?_, ?_⟩
    · rw [← htext]
      decide +kernel
    · have hmem := (hrecorded "taxes").mp (by decide +kernel)
      exact hmem.resolve_left (OrderedSet.not_mem_empty _)
  · obtain ⟨p, -, -, -, -, hunchanged⟩ := leftmost_rewriting Sample.packaged "cm" "$gift(2) $$tax"
      .empty
    exact (hunchanged hnone).1

end Expansion

end SceneDispatch
