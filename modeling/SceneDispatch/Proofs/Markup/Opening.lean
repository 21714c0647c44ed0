import Mathlib.Data.List.Infix
import SceneDispatch.Proofs.Markup.Position
import SceneDispatch.Proofs.Markup.StartTag
/-!
The opening text of elements. Every element of a document begins with a start tag of the source, at
the place that is recorded for it. Main statement: the opening text that is kept of the element is
this start tag exactly if no attribute value in it holds a `>`, and otherwise ends at the first
such `>`.
-/
namespace SceneDispatch

namespace Location

theorem past_append (p : Location) (s t : List Char) : p.past (s ++ t) = (p.past s).past t :=
  List.foldl_append

theorem past_cons (p : Location) (c : Char) (s : List Char) :
    p.past (c :: s) = (p.next c).past s := rfl

theorem line_le_past (p : Location) (s : List Char) : p.line ≤ (p.past s).line := by
  induction s generalizing p with
  | nil => exact Nat.le_refl _
  | cons c s ih =>
    refine Nat.le_trans ?_ (ih (p.next c))
    unfold next
    split
    · exact Nat.le_succ _
    · exact Nat.le_refl _

/-- A text that stays on its line moves on by its length. -/
theorem column_past {p : Location} {s : List Char} (h : (p.past s).line = p.line) :
    (p.past s).column = p.column + s.length := by
  induction s generalizing p with
  | nil => rfl
  | cons c s ih =>
    rw [past_cons] at h ⊢
    by_cases hc : c = '\n'
    · have hnext : (p.next c).line = p.line + 1 := by rw [next, if_pos hc]
      have hline := line_le_past (p.next c) s
      omega
    · have hnext : p.next c = ⟨p.line, p.column + 1⟩ := if_neg hc
      rw [hnext] at h ⊢
      rw [ih h]
      show p.column + 1 + s.length = p.column + (s.length + 1)
      omega

theorem eq_nil_of_past_eq {p : Location} {s : List Char} (h : p.past s = p) : s = [] := by
  have hcolumn := column_past (congrArg line h)
  rw [h] at hcolumn
  exact List.eq_nil_of_length_eq_zero (by omega)

/-- Different places of one text have different locations. -/
theorem past_inj {p : Location} {a b c d : List Char} (h : a ++ c = b ++ d)
    (hp : p.past a = p.past b) : a = b := by
  rcases List.append_eq_append_iff.mp h with ⟨u, rfl, -⟩ | ⟨u, rfl, -⟩
  · rw [past_append] at hp
    rw [eq_nil_of_past_eq hp.symm, List.append_nil]
  · rw [past_append] at hp
    rw [eq_nil_of_past_eq hp, List.append_nil]

end Location

namespace Markup

/-! ### The body of a document -/

section Body

variable {s t rest : List Char}

theorem qualifiedName?_suffix {q : QualifiedName} (h : qualifiedName? s = some (q, rest)) :
    rest <:+ s := by
  obtain ⟨name, rfl, -⟩ := qualifiedName?_sound h
  exact List.suffix_append name rest

theorem behind?_suffix {p : List Char} (h : behind? p s = some rest) : rest <:+ s :=
  ⟨p, (behind?_eq_some_iff.mp h).symm⟩

theorem quoted?_suffix {value : List Char} (h : quoted? s = some (value, rest)) : rest <:+ s := by
  obtain ⟨q, -, rfl, -⟩ := quoted?_sound h
  exact ⟨q :: (value ++ [q]), by simp⟩

theorem declared?_suffix {word : List Char} (h : declared? word s = some rest) : rest <:+ s := by
  unfold declared? at h
  split at h
  · simp only [Option.bind_eq_bind, Option.bind_eq_some_iff] at h
    obtain ⟨⟨q, t⟩, hname, u, hequals, ⟨value, tail⟩, hquoted, hread⟩ := h
    cases hread
    exact (quoted?_suffix hquoted).trans <| (List.dropWhile_suffix _).trans <|
      (behind?_suffix hequals).trans <|
        (List.dropWhile_suffix _).trans (qualifiedName?_suffix hname)
  · cases h

theorem itemEnd?_suffix (h : itemEnd? s = some rest) : rest <:+ s := by
  unfold itemEnd? at h
  split at h
  · cases h
    exact List.suffix_rfl
  · split_ifs at h
    · cases h
      exact List.dropWhile_suffix _
    · cases h
      exact List.suffix_rfl

/-- An item that may be missing is followed by the rest of its declaration. -/
theorem suffix_of_optional {c : Prop} [Decidable c] {x : Option (List Char)}
    {k : List Char → Option (List Char)} (hx : ∀ u, x = some u → u <:+ s)
    (hk : ∀ u tail, k u = some tail → tail <:+ u)
    (h : (if c then x.bind k else (some s).bind k) = some rest) : rest <:+ s := by
  split at h
  · obtain ⟨u, hu, hrest⟩ := Option.bind_eq_some_iff.mp h
    exact (hk u rest hrest).trans (hx u hu)
  · exact hk s rest h

theorem declaration?_suffix (h : declaration? s = some rest) : rest <:+ s := by
  simp only [declaration?, Option.bind_eq_bind] at h
  obtain ⟨t, hmark, h⟩ := Option.bind_eq_some_iff.mp h
  obtain ⟨u, hversion, h⟩ := Option.bind_eq_some_iff.mp h
  obtain ⟨v, hspace, h⟩ := Option.bind_eq_some_iff.mp h
  have hhead : v <:+ s :=
    (itemEnd?_suffix hspace).trans <| (declared?_suffix hversion).trans <|
      (List.dropWhile_suffix _).trans (behind?_suffix hmark)
  refine List.IsSuffix.trans (suffix_of_optional ?_ ?_ h) hhead
  · intro w hw
    obtain ⟨x, hencoding, hend⟩ := Option.bind_eq_some_iff.mp hw
    exact (itemEnd?_suffix hend).trans (declared?_suffix hencoding)
  · intro w tail hw
    refine suffix_of_optional (fun x hx => declared?_suffix hx) ?_ hw
    exact fun x y hy => (behind?_suffix hy).trans (List.dropWhile_suffix _)

theorem documentBody?_suffix (h : documentBody? s = some rest) : rest <:+ s := by
  have hmark : (behind? ['\ufeff'] s).getD s <:+ s := by
    cases hbehind : behind? ['\ufeff'] s with
    | none => exact List.suffix_rfl
    | some t => exact behind?_suffix hbehind
  unfold documentBody? at h
  dsimp only at h
  split at h
  · exact (declaration?_suffix h).trans hmark
  · cases h
    exact hmark

end Body

/-! ### Lexemes -/

section Lexemes

variable {s : List Char} {ls : List Lexeme}

/-- A lexeme that is read as a start tag is written as one. -/
def Lexeme.IsWritten (l : Lexeme) : Prop :=
  ∀ q as closed, l.token = .start q as closed →
    ∃ w : StartTag, w.WellFormed ∧ qualifiedName? w.name = some (q, []) ∧ l.text = w.text

theorem Lexeme.isWritten_of_token? {c : Char} {token : Token} {rest : List Char}
    (h : token? (c :: s) = some (token, rest)) :
    IsWritten ⟨token, c :: s.take (s.length - rest.length)⟩ := by
  rintro q as closed rfl
  obtain ⟨w, hw, hq, hs⟩ := token?_start h
  refine ⟨w, hw, hq, ?_⟩
  obtain ⟨b, t, ht⟩ : ∃ b t, w.text = b :: t := ⟨'<', _, rfl⟩
  rw [ht] at hs
  obtain ⟨rfl, hrest⟩ := List.cons.inj hs
  rw [ht]
  show c :: s.take (s.length - rest.length) = c :: t
  rw [hrest]
  simp

/-- The lexemes make up the text without a gap. -/
theorem lexemesFrom_sound {skip : Nat} (h : lexemesFrom skip s = some ls) :
    ls.flatMap Lexeme.text = s.drop skip ∧ ∀ l ∈ ls, l.IsWritten := by
  fun_induction lexemesFrom skip s generalizing ls with
  | case1 =>
    cases h
    simp
  | case2 skip c s ih => exact ih h
  | case3 c s ih =>
    obtain ⟨⟨token, rest⟩, htoken, hread⟩ := Option.bind_eq_some_iff.mp h
    obtain ⟨later, hlater, rfl⟩ := Option.map_eq_some_iff.mp hread
    obtain ⟨htext, hwritten⟩ := ih rest hlater
    refine ⟨?_, List.forall_mem_cons.mpr ⟨Lexeme.isWritten_of_token? htoken, hwritten⟩⟩
    rw [List.flatMap_cons, htext, List.cons_append, List.take_append_drop]
    rfl

end Lexemes

/-! ### Elements -/

/-- The element begins with the start tag that stands behind `before`, and this is the text of
which its opening text is kept. -/
structure BeginsWith (source : List Char) (t : Tag) (before : List Char) (w : StartTag)
    (after : List Char) : Prop where
  split : source = before ++ (w.text ++ after)
  place : Location.first.past before = t.span.start
  wellFormed : w.WellFormed
  named : ∃ qualifier, qualifiedName? w.name = some (⟨qualifier, t.name⟩, [])
  opening : t.opening = openingText w.text

def Begins (source : List Char) (t : Tag) : Prop :=
  ∃ before w after, BeginsWith source t before w after

namespace Progress

/-- A property of the tags of all elements that have been read, whether they are finished or
not. -/
structure Everywhere (P : Tag → Prop) (p : Progress) : Prop where
  root : ∀ e, p.root = some e → e.Everywhere P
  opened : ∀ o ∈ p.stack, ∀ stop, P (o.close stop).tag
  children : ∀ o ∈ p.stack, ∀ e ∈ o.children, e.Everywhere P

variable {P : Tag → Prop} {p p' : Progress}

theorem Everywhere.add {e : Element} (hp : p.Everywhere P) (he : e.Everywhere P)
    (h : p.add e = some p') : p'.Everywhere P := by
  unfold Progress.add at h
  split at h
  · next o rest hstack =>
    cases h
    obtain ⟨hroot, hopened, hchildren⟩ := hp
    rw [hstack] at hopened hchildren
    obtain ⟨ho, hrest⟩ := List.forall_mem_cons.mp hopened
    obtain ⟨hbelow, hothers⟩ := List.forall_mem_cons.mp hchildren
    exact ⟨hroot, List.forall_mem_cons.mpr ⟨ho, hrest⟩,
      List.forall_mem_cons.mpr ⟨List.forall_mem_cons.mpr ⟨he, hbelow⟩, hothers⟩⟩
  · split at h
    · cases h
    · cases h
      refine ⟨?_, by simp, by simp⟩
      rintro e' heq
      cases heq
      exact he

theorem everywhere_close {o : OpenElement} (ho : ∀ stop, P (o.close stop).tag)
    (hchildren : ∀ e ∈ o.children, e.Everywhere P) (stop : Location) :
    (o.close stop).Everywhere P :=
  .mk (ho stop) fun e he => hchildren e (List.mem_reverse.mp he)

/-- One lexeme: a start tag brings a new tag, and no other lexeme does. -/
theorem Everywhere.step {here after : Location} {l : Lexeme} (hp : p.Everywhere P)
    (hnew : ∀ q as closed, l.token = .start q as closed → ∀ attributes stop,
      P ⟨q.name, attributes, openingText l.text, here, stop⟩)
    (h : p.step here after l = some p') : p'.Everywhere P := by
  unfold Progress.step at h
  split at h
  · cases h
    exact hp
  · cases h
    exact hp
  · split at h
    · cases h
    · cases h
      exact hp
  · split at h
    · cases h
    · cases h
      exact hp
  · next name written closed htoken =>
    dsimp only at h
    by_cases hsecond : (p.stack.isEmpty && p.root.isSome) = true
    · simp [hsecond] at h
    · rw [if_neg hsecond] at h
      obtain ⟨⟨scope, attributes⟩, -, h⟩ := Option.bind_eq_some_iff.mp h
      have hopened := hnew name written closed htoken attributes
      cases closed with
      | true => exact hp.add (everywhere_close hopened (by simp) after) h
      | false =>
        cases h
        exact ⟨hp.root, List.forall_mem_cons.mpr ⟨hopened, hp.opened⟩,
          List.forall_mem_cons.mpr ⟨by simp, hp.children⟩⟩
  · next name htoken =>
    split at h
    · cases h
    · next o rest hstack =>
      split at h
      · obtain ⟨hroot, hopened, hchildren⟩ := hp
        rw [hstack] at hopened hchildren
        obtain ⟨ho, hrest⟩ := List.forall_mem_cons.mp hopened
        obtain ⟨hbelow, hothers⟩ := List.forall_mem_cons.mp hchildren
        have hpopped : Everywhere P { p with stack := rest } := ⟨hroot, hrest, hothers⟩
        exact hpopped.add (everywhere_close ho hbelow after) h
      · cases h

theorem Everywhere.run {source before : List Char} {ls : List Lexeme}
    (hp : p.Everywhere (Begins source)) (hsource : source = before ++ ls.flatMap Lexeme.text)
    (hwritten : ∀ l ∈ ls, l.IsWritten) (h : p.run (Location.first.past before) ls = some p') :
    p'.Everywhere (Begins source) := by
  induction ls generalizing p before with
  | nil =>
    cases h
    exact hp
  | cons l ls ih =>
    obtain ⟨q, hstep, hrun⟩ := Option.bind_eq_some_iff.mp h
    obtain ⟨hl, hls⟩ := List.forall_mem_cons.mp hwritten
    rw [List.flatMap_cons] at hsource
    have hafter : source = (before ++ l.text) ++ ls.flatMap Lexeme.text := by simp [hsource]
    rw [← Location.past_append] at hrun
    refine ih (hp.step ?_ hstep) hafter hls hrun
    intro name as closed htoken attributes stop
    obtain ⟨w, hw, hq, htext⟩ := hl name as closed htoken
    exact ⟨before, w, ls.flatMap Lexeme.text,
      ⟨htext ▸ hsource, rfl, hw, ⟨name.qualifier, hq⟩, by rw [htext]⟩⟩

end Progress

section Documents

variable {source : String} {root e : Element} {p : Path}

theorem parse?_begins (h : parse? source = some root) :
    root.Everywhere (Begins source.toList) := by
  simp only [parse?, Option.bind_eq_bind, Option.bind_eq_some_iff] at h
  obtain ⟨body, hbody, ls, hlexemes, p, hrun, hroot⟩ := h
  obtain ⟨htext, hwritten⟩ := lexemesFrom_sound hlexemes
  obtain ⟨front, hfront⟩ := documentBody?_suffix hbody
  have hbefore : source.toList.take (source.toList.length - body.length) = front := by
    simp [← hfront]
  rw [hbefore] at hrun
  have hsource : source.toList = front ++ ls.flatMap Lexeme.text := by rw [htext, ← hfront]; rfl
  have hstart : Progress.Everywhere (Begins source.toList) ⟨none, []⟩ :=
    ⟨by simp, by simp, by simp⟩
  have hdone := hstart.run hsource hwritten hrun
  split at hroot
  · exact hdone.root root hroot
  · cases hroot

/-- Every element of a document begins with a start tag, at the one place of the source that has
its location. The tag reaches to the first `>` outside quotes, and the opening text to the first
`>` of all: the two are the same exactly if no attribute value of the tag holds a `>`. -/
theorem opening_eq_tag_iff (h : parse? source = some root) (hat : root.at? p = some e) :
    ∃ before w after, BeginsWith source.toList e.tag before w after ∧
      (∀ front back, source.toList = front ++ back →
        Location.first.past front = e.tag.span.start → front = before) ∧
      throughTagEnd none (w.text ++ after) = w.text ∧
      (e.tag.opening.toList = w.text ↔ ∀ a ∈ w.attributes, '>' ∉ a.value) := by
  obtain ⟨before, w, after, hbegins⟩ := parse?_begins h p e hat
  refine ⟨before, w, after, hbegins, fun front back hsplit hplace => ?_,
    hbegins.wellFormed.throughTagEnd after, ?_⟩
  · exact Location.past_inj (hsplit.symm.trans hbegins.split) (hplace.trans hbegins.place.symm)
  · rw [hbegins.opening]
    exact hbegins.wellFormed.openingText_eq_iff

end Documents

end Markup

/-- A condition that compares, in an element below the root. -/
def Sample.comparing : String := "<scene><case cond='$x > 1'/></scene>"

namespace Markup

/-- The opening text breaks off inside the condition. -/
theorem comparing_opening_eq_tag_iff :
    ∃ root e before w after, parse? Sample.comparing = some root ∧ root.at? [0] = some e ∧
      BeginsWith Sample.comparing.toList e.tag before w after ∧
      w.text = "<case cond='$x > 1'/>".toList ∧ e.tag.opening = "<case cond='$x >" ∧
      ∃ a ∈ w.attributes, '>' ∈ a.value := by
  have hcase : ((parse? Sample.comparing).bind (·.at? [0])).map
      (fun e => (e.tag.opening, e.tag.span.start)) = some ("<case cond='$x >", ⟨1, 8⟩) := by
    decide +kernel
  obtain ⟨e, he, htag⟩ := Option.map_eq_some_iff.mp hcase
  obtain ⟨root, hroot, hat⟩ := Option.bind_eq_some_iff.mp he
  obtain ⟨hopening, hplace⟩ := Prod.mk.inj htag
  obtain ⟨before, w, after, hbegins, hunique, hend, hiff⟩ := opening_eq_tag_iff hroot hat
  have hsplit : Sample.comparing.toList =
      "<scene>".toList ++ "<case cond='$x > 1'/></scene>".toList := by
    decide +kernel
  have hbefore : "<scene>".toList = before := hunique _ _ hsplit (by rw [hplace]; decide)
  have hrest : "<case cond='$x > 1'/></scene>".toList = w.text ++ after :=
    List.append_cancel_left (hsplit.symm.trans (hbefore ▸ hbegins.split))
  have htext : w.text = "<case cond='$x > 1'/>".toList := by
    rw [← hend, ← hrest]
    decide +kernel
  refine ⟨root, e, before, w, after, hroot, hat, hbegins, htext, hopening, ?_⟩
  by_contra hnone
  push Not at hnone
  have hwhole := hiff.mpr hnone
  rw [hopening, htext] at hwhole
  exact absurd hwhole (by decide)

end Markup

end SceneDispatch
