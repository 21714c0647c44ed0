import Mathlib.Data.List.TakeWhile
import SceneDispatch.Markup.Document
import SceneDispatch.Proofs.Feature.Calls
/-!
Start tags as they are written. A tag holds a name and attributes in quotes, and ends at the first
`>` outside quotes. Main statements: what is read as a start tag is one, and the text through its
first `>` is the whole tag exactly if no attribute value holds a `>`.
-/
namespace SceneDispatch.Markup

/-- The text is one qualified name. -/
def IsName (s : List Char) : Prop := ∃ q, qualifiedName? s = some (q, [])

/-- An attribute as it is written, with the spaces in front of it and around its equals sign. -/
structure AttributeText where
  space : List Char
  name : List Char
  before : List Char
  behind : List Char
  quote : Char
  value : List Char

namespace AttributeText

/-- What stands in front of the opening quote. -/
def lead (a : AttributeText) : List Char := a.space ++ (a.name ++ (a.before ++ '=' :: a.behind))

def text (a : AttributeText) : List Char := a.lead ++ a.quote :: (a.value ++ [a.quote])

structure WellFormed (a : AttributeText) : Prop where
  spaced : a.space ≠ []
  space : ∀ c ∈ a.space, isSpace c = true
  named : IsName a.name
  before : ∀ c ∈ a.before, isSpace c = true
  behind : ∀ c ∈ a.behind, isSpace c = true
  quoted : a.quote = '"' ∨ a.quote = '\''
  value : ∀ c ∈ a.value, c ≠ a.quote ∧ c ≠ '<' ∧ isDocumentChar c = true
  references : (attributeValue? a.value).isSome

end AttributeText

/-- A start tag as it is written; a closed one is the whole of its element. -/
structure StartTag where
  name : List Char
  attributes : List AttributeText
  space : List Char
  closed : Bool

namespace StartTag

/-- The tag without the `>` that ends it. -/
def inner (t : StartTag) : List Char :=
  '<' :: (t.name ++ (t.attributes.flatMap AttributeText.text ++
    (t.space ++ if t.closed then ['/'] else [])))

def text (t : StartTag) : List Char := t.inner ++ ['>']

structure WellFormed (t : StartTag) : Prop where
  named : IsName t.name
  attributes : ∀ a ∈ t.attributes, a.WellFormed
  space : ∀ c ∈ t.space, isSpace c = true

end StartTag

/-- The text through the first `>` outside quotes; `quote` is the quote that is still to be
closed. -/
def throughTagEnd (quote : Option Char) : List Char → List Char
  | [] => []
  | c :: s =>
    match quote with
    | some q => c :: throughTagEnd (if c = q then none else some q) s
    | none =>
      if c = '>' then [c]
      else c :: throughTagEnd (if c = '"' || c = '\'' then some c else none) s

/-! ### Names -/

section Names

variable {s rest : List Char} {q : QualifiedName}

def inName (c : Char) : Bool := isNameChar c || c = ':'

/-- The parts of a name between its colons. -/
def nameParts? (name : List Char) : Option QualifiedName :=
  match name.splitOn ':' with
  | [name] => if beginsName name then some ⟨"", .ofList name⟩ else none
  | [qualifier, name] =>
    if (qualifier.isEmpty || beginsName qualifier) && beginsName name then
      some ⟨.ofList qualifier, .ofList name⟩
    else none
  | _ => none

/-- A name is read as far as its characters go. -/
theorem qualifiedName?_eq (s : List Char) :
    qualifiedName? s = (nameParts? (s.takeWhile inName)).map (·, s.dropWhile inName) := by
  unfold qualifiedName? nameParts?
  rw [show (fun c => isNameChar c || decide (c = ':')) = inName from rfl]
  dsimp only
  rcases (s.takeWhile inName).splitOn ':' with _ | ⟨name, _ | ⟨name', _ | _⟩⟩
  · rfl
  · dsimp only
    split <;> rfl
  · dsimp only
    split <;> rfl
  · rfl

theorem qualifiedName?_eq_some_iff :
    qualifiedName? s = some (q, rest) ↔
      nameParts? (s.takeWhile inName) = some q ∧ s.dropWhile inName = rest := by
  rw [qualifiedName?_eq, Option.map_eq_some_iff]
  simp

theorem IsName.inName (h : IsName s) : ∀ c ∈ s, inName c = true := by
  obtain ⟨q, hq⟩ := h
  exact List.dropWhile_eq_nil_iff.mp (qualifiedName?_eq_some_iff.mp hq).2

theorem qualifiedName?_sound (h : qualifiedName? s = some (q, rest)) :
    ∃ name, s = name ++ rest ∧ qualifiedName? name = some (q, []) := by
  obtain ⟨hparts, rfl⟩ := qualifiedName?_eq_some_iff.mp h
  have hall : ∀ c ∈ s.takeWhile Markup.inName, Markup.inName c = true := fun c hc =>
    List.mem_takeWhile_imp hc
  refine ⟨s.takeWhile Markup.inName, List.takeWhile_append_dropWhile.symm, ?_⟩
  rw [qualifiedName?_eq_some_iff, List.takeWhile_eq_self_iff.mpr hall]
  exact ⟨hparts, List.dropWhile_eq_nil_iff.mpr hall⟩

end Names

/-! ### Where a tag ends -/

section Ends

variable {s t : List Char}

/-- Characters that neither end a tag nor open a quoted value. -/
def Inert (c : Char) : Prop := c ≠ '>' ∧ c ≠ '"' ∧ c ≠ '\''

theorem inert_of_isSpace {c : Char} (h : isSpace c = true) : Inert c := by
  refine ⟨?_, ?_, ?_⟩ <;> rintro rfl <;> exact absurd h (by decide)

theorem inert_of_inName {c : Char} (h : inName c = true) : Inert c := by
  refine ⟨?_, ?_, ?_⟩ <;> rintro rfl <;> exact absurd h (by decide)

theorem throughTagEnd_inert (h : ∀ c ∈ t, Inert c) :
    throughTagEnd none (t ++ s) = t ++ throughTagEnd none s := by
  induction t with
  | nil => rfl
  | cons c t ih =>
    obtain ⟨⟨hend, hdouble, hsingle⟩, ht⟩ := List.forall_mem_cons.mp h
    simp [throughTagEnd, hend, hdouble, hsingle, ih ht]

theorem throughTagEnd_quoted {q : Char} (h : q ∉ t) :
    throughTagEnd (some q) (t ++ q :: s) = t ++ q :: throughTagEnd none s := by
  induction t with
  | nil => simp [throughTagEnd]
  | cons c t ih =>
    obtain ⟨hc, ht⟩ := not_or.mp (mt List.mem_cons.mpr h)
    simp [throughTagEnd, Ne.symm hc, ih ht]

theorem AttributeText.WellFormed.inert_lead {a : AttributeText} (h : a.WellFormed) :
    ∀ c ∈ a.lead, Inert c := by
  intro c hc
  simp only [AttributeText.lead, List.mem_append, List.mem_cons] at hc
  rcases hc with hc | hc | hc | rfl | hc
  · exact inert_of_isSpace (h.space c hc)
  · exact inert_of_inName (h.named.inName c hc)
  · exact inert_of_isSpace (h.before c hc)
  · exact ⟨by decide, by decide, by decide⟩
  · exact inert_of_isSpace (h.behind c hc)

theorem throughTagEnd_attribute {a : AttributeText} (h : a.WellFormed) (s : List Char) :
    throughTagEnd none (a.text ++ s) = a.text ++ throughTagEnd none s := by
  have hopens : ∀ u, throughTagEnd none (a.quote :: u) =
      a.quote :: throughTagEnd (some a.quote) u := by
    intro u
    rcases h.quoted with hq | hq <;> simp [throughTagEnd, hq]
  have hvalue : a.quote ∉ a.value := fun hmem => (h.value _ hmem).1 rfl
  calc throughTagEnd none (a.text ++ s)
      = throughTagEnd none (a.lead ++ a.quote :: (a.value ++ a.quote :: s)) := by
        simp [AttributeText.text]
    _ = a.lead ++ a.quote :: (a.value ++ a.quote :: throughTagEnd none s) := by
        rw [throughTagEnd_inert h.inert_lead, hopens, throughTagEnd_quoted hvalue]
    _ = a.text ++ throughTagEnd none s := by simp [AttributeText.text]

theorem throughTagEnd_attributes {as : List AttributeText} (h : ∀ a ∈ as, a.WellFormed)
    (s : List Char) : throughTagEnd none (as.flatMap AttributeText.text ++ s) =
      as.flatMap AttributeText.text ++ throughTagEnd none s := by
  induction as with
  | nil => rfl
  | cons a as ih =>
    obtain ⟨ha, has⟩ := List.forall_mem_cons.mp h
    rw [List.flatMap_cons, List.append_assoc, throughTagEnd_attribute ha, ih has,
      List.append_assoc]

namespace StartTag.WellFormed

variable {w : StartTag}

theorem inert_name (h : w.WellFormed) : ∀ c ∈ '<' :: w.name, Inert c :=
  List.forall_mem_cons.mpr ⟨⟨by decide, by decide, by decide⟩,
    fun c hc => inert_of_inName (h.named.inName c hc)⟩

theorem inert_space (h : w.WellFormed) :
    ∀ c ∈ w.space ++ (if w.closed then ['/'] else []), Inert c := by
  intro c hc
  rcases List.mem_append.mp hc with hc | hc
  · exact inert_of_isSpace (h.space c hc)
  · split at hc
    · obtain rfl := List.mem_singleton.mp hc
      exact ⟨by decide, by decide, by decide⟩
    · cases hc

/-- A start tag reaches to the first `>` outside quotes. -/
theorem throughTagEnd (h : w.WellFormed) (after : List Char) :
    throughTagEnd none (w.text ++ after) = w.text := by
  rw [show w.text ++ after = ('<' :: w.name) ++ (w.attributes.flatMap AttributeText.text ++
      ((w.space ++ if w.closed then ['/'] else []) ++ '>' :: after)) by simp [text, inner],
    throughTagEnd_inert h.inert_name, throughTagEnd_attributes h.attributes,
    throughTagEnd_inert h.inert_space]
  simp [text, inner, Markup.throughTagEnd]

end StartTag.WellFormed

theorem mem_attribute_text_iff {a : AttributeText} (h : a.WellFormed) :
    '>' ∈ a.text ↔ '>' ∈ a.value := by
  have hlead : '>' ∉ a.lead := fun hmem => (h.inert_lead _ hmem).1 rfl
  have hquote : '>' ≠ a.quote := by rcases h.quoted with hq | hq <;> simp [hq]
  simp [AttributeText.text, hlead, hquote]

/-- The text through the first `>` of a start tag is the whole tag if no value holds a `>`. -/
theorem StartTag.WellFormed.openingText_eq_iff {w : StartTag} (h : w.WellFormed) :
    (openingText w.text).toList = w.text ↔ ∀ a ∈ w.attributes, '>' ∉ a.value := by
  have hname : '>' ∉ '<' :: w.name := fun hmem => (h.inert_name _ hmem).1 rfl
  have hspace : '>' ∉ w.space ++ (if w.closed then ['/'] else []) := fun hmem =>
    (h.inert_space _ hmem).1 rfl
  have hinner : '>' ∈ w.inner ↔ ∃ a ∈ w.attributes, '>' ∈ a.text := by
    rw [StartTag.inner, ← List.cons_append, List.mem_append, List.mem_append, List.mem_flatMap,
      or_iff_right hname, or_iff_left hspace]
  have hfirst : (openingText w.text).toList = w.text ↔ '>' ∉ w.inner := by
    rw [openingText, String.toList_ofList, StartTag.text, List.append_cancel_right_eq]
    constructor
    · intro heq hmem
      rw [← heq] at hmem
      simpa using List.mem_takeWhile_imp hmem
    · intro hmem
      exact Call.takeWhile_ne_append hmem []
  rw [hfirst, hinner]
  push Not
  exact forall₂_congr fun a ha => not_congr (mem_attribute_text_iff (h.attributes a ha))

end Ends

/-! ### Reading a tag -/

section Reading

variable {s front rest : List Char}

theorem behind?_eq_some_iff {p : List Char} : behind? p s = some rest ↔ s = p ++ rest := by
  unfold behind?
  constructor
  · intro h
    split at h
    · next hp =>
      obtain ⟨tail, rfl⟩ := List.isPrefixOf_iff_prefix.mp hp
      rw [List.drop_left] at h
      rw [Option.some.inj h]
    · cases h
  · rintro rfl
    rw [if_pos (List.isPrefixOf_iff_prefix.mpr ⟨rest, rfl⟩), List.drop_left]

/-- Spaces that are passed over. -/
theorem exists_spaces (s : List Char) :
    ∃ space, s = space ++ s.dropWhile isSpace ∧ ∀ c ∈ space, isSpace c = true :=
  ⟨s.takeWhile isSpace, List.takeWhile_append_dropWhile.symm,
    fun _ hc => List.mem_takeWhile_imp hc⟩

theorem quoted?_sound {value : List Char} (h : quoted? s = some (value, rest)) :
    ∃ q, (q = '"' ∨ q = '\'') ∧ s = q :: (value ++ q :: rest) ∧
      ∀ c ∈ value, c ≠ q ∧ c ≠ '<' ∧ isDocumentChar c = true := by
  cases s with
  | nil => cases h
  | cons q s =>
    rw [quoted?] at h
    split at h
    · next hq =>
      dsimp only at h
      split at h
      · next c tail hdrop =>
        split at h
        · next hc =>
          obtain ⟨rfl, rfl⟩ := Prod.mk.inj (Option.some.inj h)
          simp only [Bool.and_eq_true, decide_eq_true_eq, List.all_eq_true] at hc
          obtain ⟨rfl, hdocument⟩ := hc
          refine ⟨c, by simpa using hq, ?_, fun x hx => ?_⟩
          · rw [← hdrop, List.takeWhile_append_dropWhile]
          · have hvalue := List.mem_takeWhile_imp hx
            simp only [Bool.and_eq_true, decide_eq_true_eq] at hvalue
            exact ⟨hvalue.1, hvalue.2, hdocument x hx⟩
        · cases h
      · cases h
    · cases h

theorem attribute?_sound {a : WrittenAttribute} (h : attribute? s = some (a, rest))
    (hfront : front ≠ []) (hspace : ∀ c ∈ front, isSpace c = true) :
    ∃ (w : AttributeText) (body : List Char),
      w.WellFormed ∧ w.text = front ++ body ∧ body ≠ [] ∧ s = body ++ rest := by
  simp only [attribute?, Option.bind_eq_bind, Option.bind_eq_some_iff] at h
  obtain ⟨⟨q, t⟩, hname, u, hequals, ⟨value, tail⟩, hquoted, v, hvalue, hread⟩ := h
  obtain ⟨-, rfl⟩ := Prod.mk.inj (Option.some.inj hread)
  obtain ⟨name, rfl, hq⟩ := qualifiedName?_sound hname
  obtain ⟨before, ht, hbefore⟩ := exists_spaces t
  obtain ⟨behind, hu, hbehind⟩ := exists_spaces u
  obtain ⟨quote, hquote, htail, hchars⟩ := quoted?_sound hquoted
  refine ⟨⟨front, name, before, behind, quote, value⟩,
    name ++ (before ++ '=' :: (behind ++ quote :: (value ++ [quote]))),
    ⟨hfront, hspace, ⟨q, hq⟩, hbefore, hbehind, hquote, hchars, by rw [hvalue]; rfl⟩, ?_, ?_, ?_⟩
  · simp [AttributeText.text, AttributeText.lead]
  · simp
  · rw [ht, behind?_eq_some_iff.mp hequals, hu, htail]
    simp

/-- The text begins with attributes, spaces and the end of a tag, and `rest` follows. -/
def ReadsBody (s : List Char) (closed : Bool) (rest : List Char) : Prop :=
  ∃ (ws : List AttributeText) (space : List Char), (∀ a ∈ ws, a.WellFormed) ∧
    (∀ c ∈ space, isSpace c = true) ∧
    s = ws.flatMap AttributeText.text ++ (space ++ ((if closed then ['/'] else []) ++ '>' :: rest))

theorem attributesFrom_skip (n : Nat) (s : List Char) :
    attributesFrom n false s = attributesFrom 0 false (s.drop n) := by
  induction n generalizing s with
  | zero => rfl
  | succ n ih =>
    cases s with
    | nil => rfl
    | cons c s => rw [attributesFrom, ih, List.drop_succ_cons]

/-- `front` holds the spaces that have been read since the last attribute. -/
theorem attributesFrom_sound {spaced closed : Bool} {as : List WrittenAttribute}
    (h : attributesFrom 0 spaced s = some (as, closed, rest))
    (hfront : spaced = true → front ≠ []) (hspace : ∀ c ∈ front, isSpace c = true) :
    ReadsBody (front ++ s) closed rest := by
  induction hn : s.length using Nat.strong_induction_on generalizing s front spaced as with
  | _ n ih =>
    cases s with
    | nil => cases h
    | cons c s =>
      rw [attributesFrom] at h
      split_ifs at h with hblank hend hslash hspaced
      · have hmore : ∀ x ∈ front ++ [c], isSpace x = true :=
          List.forall_mem_append.mpr ⟨hspace, List.forall_mem_singleton.mpr hblank⟩
        have hbody := ih s.length (by simp [← hn]) h (fun _ => by simp) hmore rfl
        simpa using hbody
      · obtain ⟨-, hrest⟩ := Prod.mk.inj (Option.some.inj h)
        obtain ⟨rfl, rfl⟩ := Prod.mk.inj hrest
        exact ⟨[], front, by simp, hspace, by simp [hend]⟩
      · obtain ⟨tail, htail, hread⟩ := Option.map_eq_some_iff.mp h
        obtain ⟨-, hrest⟩ := Prod.mk.inj hread
        obtain ⟨rfl, rfl⟩ := Prod.mk.inj hrest
        exact ⟨[], front, by simp, hspace, by simp [hslash, behind?_eq_some_iff.mp htail]⟩
      · simp only [Option.bind_eq_bind, Option.bind_eq_some_iff] at h
        obtain ⟨⟨a, t⟩, hattribute, ⟨as', closed', rest'⟩, hlater, hread⟩ := h
        obtain ⟨-, hread⟩ := Prod.mk.inj (Option.some.inj hread)
        obtain ⟨rfl, rfl⟩ := Prod.mk.inj hread
        obtain ⟨w, body, hw, htext, hbody, hsplit⟩ :=
          attribute?_sound hattribute (hfront hspaced) hspace
        obtain ⟨b, body, rfl⟩ := List.exists_cons_of_ne_nil hbody
        have hs : s = body ++ t := (List.cons.inj hsplit).2
        have hskip : s.drop (s.length - t.length) = t := by simp [hs]
        rw [attributesFrom_skip] at hlater
        dsimp only at hlater
        rw [hskip] at hlater
        have hshorter : t.length < n := by
          rw [← hn, hs, List.length_cons, List.length_append]
          omega
        have hnone : ∀ x ∈ ([] : List Char), isSpace x = true := by simp
        obtain ⟨ws, space, hws, hblank, hrest⟩ :=
          ih t.length hshorter hlater (fun hno => by cases hno) hnone rfl
        refine ⟨w :: ws, space, List.forall_mem_cons.mpr ⟨hw, hws⟩, hblank, ?_⟩
        rw [hsplit, ← List.append_assoc, ← htext, List.flatMap_cons, List.append_assoc, ← hrest]
        rfl

/-- What is read as a start tag is one, under the name it is read with. -/
theorem start?_sound {token : Token} (h : start? s = some (token, rest)) :
    ∃ (w : StartTag) (q : QualifiedName) (as : List WrittenAttribute), w.WellFormed ∧
      qualifiedName? w.name = some (q, []) ∧ token = .start q as w.closed ∧
      '<' :: s = w.text ++ rest := by
  simp only [start?, Option.bind_eq_bind, Option.bind_eq_some_iff] at h
  obtain ⟨⟨q, t⟩, hname, ⟨as, closed, tail⟩, hattributes, hread⟩ := h
  obtain ⟨rfl, rfl⟩ := Prod.mk.inj (Option.some.inj hread)
  obtain ⟨name, rfl, hq⟩ := qualifiedName?_sound hname
  have hnone : ∀ x ∈ ([] : List Char), isSpace x = true := by simp
  obtain ⟨ws, space, hws, hspace, ht⟩ :=
    attributesFrom_sound hattributes (fun hno => by cases hno) hnone
  refine ⟨⟨name, ws, space, closed⟩, q, as, ⟨⟨q, hq⟩, hws, hspace⟩, hq, rfl, ?_⟩
  rw [List.nil_append] at ht
  dsimp only at ht
  rw [ht]
  simp [StartTag.text, StartTag.inner]

section Kinds

variable {token : Token}

theorem comment?_kind (h : comment? s = some (token, rest)) : token = .comment := by
  simp only [comment?, Option.bind_eq_bind, Option.bind_eq_some_iff] at h
  obtain ⟨⟨body, tail⟩, -, hread⟩ := h
  split at hread
  · cases hread
  · exact (Prod.mk.inj (Option.some.inj hread)).1.symm

theorem instruction?_kind (h : instruction? s = some (token, rest)) : token = .instruction := by
  unfold instruction? at h
  split at h
  · cases h
  · split at h
    · obtain ⟨_, -, hread⟩ := Option.map_eq_some_iff.mp h
      exact (Prod.mk.inj hread).1.symm
    · cases h

theorem verbatim?_kind (h : verbatim? s = some (token, rest)) : token = .verbatim := by
  obtain ⟨_, -, hread⟩ := Option.map_eq_some_iff.mp h
  exact (Prod.mk.inj hread).1.symm

theorem stop?_kind (h : stop? s = some (token, rest)) : ∃ name, token = .stop name := by
  simp only [stop?, Option.bind_eq_bind, Option.bind_eq_some_iff] at h
  obtain ⟨⟨name, _⟩, -, _, -, hread⟩ := h
  exact ⟨name, (Prod.mk.inj (Option.some.inj hread)).1.symm⟩

theorem text?_kind (h : text? s = some (token, rest)) : token = .text := by
  unfold text? at h
  dsimp only at h
  split at h
  · exact (Prod.mk.inj (Option.some.inj h)).1.symm
  · cases h

end Kinds

/-- Only a start tag is read as one. -/
theorem token?_start {q : QualifiedName} {as : List WrittenAttribute} {closed : Bool}
    (h : token? s = some (.start q as closed, rest)) :
    ∃ w : StartTag, w.WellFormed ∧ qualifiedName? w.name = some (q, []) ∧ s = w.text ++ rest := by
  unfold token? at h
  split at h
  · cases comment?_kind h
  · cases verbatim?_kind h
  · cases h
  · split at h
    · cases h
    · cases instruction?_kind h
  · obtain ⟨name, hname⟩ := stop?_kind h
    cases hname
  · obtain ⟨w, q', as', hw, hq, htoken, hs⟩ := start?_sound h
    cases htoken
    exact ⟨w, hw, hq, hs⟩
  · cases text?_kind h

end Reading

end SceneDispatch.Markup
