import Mathlib.Data.List.Infix
import SceneDispatch.Feature.Basic
/-!
Templates filled in at once. The placeholders of a template are filled in one after another, in
texts that hold values already. Main statement: where no dollar signs stand side by side in the
template and no value brings one in before a later placeholder, this is the same as filling all of
them in one pass.
-/
namespace SceneDispatch

namespace Template

/-- What is put for a dollar sign and the character behind it. -/
abbrev Environment := Char → Option (List Char)

/-- Fills in all placeholders in one pass from left to right. What is inserted is not looked at. -/
def substitute (e : Environment) : List Char → List Char
  | [] => []
  | [c] => [c]
  | c :: d :: s =>
    if c = '$' then
      match e d with
      | some value => value ++ substitute e s
      | none => c :: substitute e (d :: s)
    else c :: substitute e (d :: s)

/-- The placeholder stands in the text. -/
def Mentions (s : List Char) (d : Char) : Prop := ['$', d] <:+: s

/-- No two dollar signs stand side by side. -/
def Spaced (s : List Char) : Prop := ¬ ['$', '$'] <:+: s

namespace Environment

def nothing : Environment := fun _ => none

def single (name : Char) (value : List Char) : Environment :=
  fun d => if d = name then some value else none

/-- The first environment, and the second where the first has no value. -/
def orElse (e e' : Environment) : Environment := fun d => (e d).or (e' d)

/-- No value holds a dollar sign. -/
def Plain (e : Environment) : Prop := ∀ d value, e d = some value → '$' ∉ value

end Environment

section Substituting

open Environment

variable {e e' : Environment} {c d : Char} {s t value : List Char}

theorem substitute_of_ne (hc : c ≠ '$') : substitute e (c :: s) = c :: substitute e s := by
  cases s with
  | nil => rfl
  | cons d s => rw [substitute, if_neg hc]

theorem substitute_some (h : e d = some value) :
    substitute e ('$' :: d :: s) = value ++ substitute e s := by
  rw [substitute, if_pos rfl, h]

theorem substitute_none (h : e d = none) :
    substitute e ('$' :: d :: s) = '$' :: substitute e (d :: s) := by
  rw [substitute, if_pos rfl, h]

/-- Text without a dollar sign in front is passed over. -/
theorem substitute_append_of_not_mem (h : '$' ∉ s) :
    substitute e (s ++ t) = s ++ substitute e t := by
  induction s with
  | nil => rfl
  | cons c s ih =>
    rw [List.mem_cons, not_or] at h
    rw [List.cons_append, substitute_of_ne (Ne.symm h.1), ih h.2, List.cons_append]

theorem mentions_cons_of_ne (hc : c ≠ '$') : Mentions (c :: s) d ↔ Mentions s d := by
  rw [Mentions, List.infix_cons_iff, List.cons_prefix_cons]
  exact or_iff_right fun h => hc h.1.symm

theorem mentions_dollar {x : Char} : Mentions ('$' :: x :: s) d ↔ d = x ∨ Mentions (x :: s) d := by
  rw [Mentions, List.infix_cons_iff, List.cons_prefix_cons, List.cons_prefix_cons]
  simp [Mentions]

theorem mentions_append_of_not_mem (h : '$' ∉ s) : Mentions (s ++ t) d ↔ Mentions t d := by
  induction s with
  | nil => rfl
  | cons c s ih =>
    rw [List.mem_cons, not_or] at h
    rw [List.cons_append, mentions_cons_of_ne (Ne.symm h.1), ih h.2]

theorem Spaced.tail (h : Spaced (c :: s)) : Spaced s :=
  fun hinside => h (hinside.trans (List.suffix_cons c s).isInfix)

theorem Spaced.ne_dollar (h : Spaced ('$' :: d :: s)) : d ≠ '$' := by
  rintro rfl
  exact h (mentions_dollar.mpr (.inl rfl))

/-- Values without dollar signs take no part in a second pass, and what the first pass leaves is
filled in by the second as if it had not come first. -/
theorem substitute_substitute (hs : Spaced s) (he : e.Plain) :
    substitute e' (substitute e s) = substitute (e.orElse e') s := by
  fun_induction substitute e s with
  | case1 => rfl
  | case2 c => rfl
  | case3 d s value hvalue ih =>
    have horElse : e.orElse e' d = some value := by simp [orElse, hvalue]
    rw [substitute_append_of_not_mem (he d value hvalue), ih hs.tail.tail, substitute_some horElse]
  | case4 d s hnone ih =>
    have hd := hs.ne_dollar
    have hrest := ih hs.tail
    rw [substitute_of_ne hd] at hrest ⊢
    rw [substitute_of_ne hd, substitute_of_ne hd] at hrest
    have hrest := (List.cons.inj hrest).2
    have horElse : e.orElse e' d = e' d := by simp [orElse, hnone]
    cases hvalue : e' d with
    | some value => rw [substitute_some hvalue, substitute_some (horElse.trans hvalue), hrest]
    | none =>
      rw [substitute_none hvalue, substitute_none (horElse.trans hvalue), substitute_of_ne hd,
        substitute_of_ne hd, hrest]
  | case5 c d s hc ih =>
    rw [substitute_of_ne hc, substitute_of_ne hc, ih hs.tail]

/-- Only the placeholders of the text count. -/
theorem substitute_congr (h : ∀ d, Mentions s d → e d = e' d) :
    substitute e s = substitute e' s := by
  fun_induction substitute e s with
  | case1 => rfl
  | case2 c => rfl
  | case3 d s value hvalue ih =>
    have hd := h d (mentions_dollar.mpr (.inl rfl))
    rw [substitute_some (hd.symm.trans hvalue), ih fun x hx => h x ?_]
    exact hx.trans ((List.suffix_cons d s).trans (List.suffix_cons '$' _)).isInfix
  | case4 d s hnone ih =>
    have hd := h d (mentions_dollar.mpr (.inl rfl))
    rw [substitute_none (hd.symm.trans hnone), ih fun x hx => h x (mentions_dollar.mpr (.inr hx))]
  | case5 c d s hc ih =>
    rw [substitute_of_ne hc, ih fun x hx => h x ((mentions_cons_of_ne hc).mpr hx)]

theorem substitute_nothing (s : List Char) : substitute nothing s = s := by
  fun_induction substitute nothing s with
  | case1 => rfl
  | case2 c => rfl
  | case3 d s value hvalue ih => cases hvalue
  | case4 d s hnone ih => rw [ih]
  | case5 c d s hc ih => rw [ih]

/-- A text is filled in part by part where it is not cut behind a dollar sign. -/
theorem substitute_append (h : s.getLast? ≠ some '$') :
    substitute e (s ++ t) = substitute e s ++ substitute e t := by
  fun_induction substitute e s with
  | case1 => rfl
  | case2 c =>
    have hc : c ≠ '$' := by simpa using h
    exact substitute_of_ne hc
  | case3 d s value hvalue ih =>
    rw [List.cons_append, List.cons_append, substitute_some hvalue, ih ?_, List.append_assoc]
    cases s with
    | nil => simp
    | cons c s => simpa using h
  | case4 d s hnone ih =>
    rw [List.cons_append, List.cons_append, substitute_none hnone, ← List.cons_append,
      ih (by simpa using h), List.cons_append]
  | case5 c d s hc ih =>
    rw [List.cons_append, substitute_of_ne hc, ih (by simpa using h), List.cons_append]

/-- Values without dollar signs bring in no placeholders. -/
theorem mentions_substitute (hs : Spaced s) (he : e.Plain) (hd : e d = none) :
    Mentions (substitute e s) d ↔ Mentions s d := by
  fun_induction substitute e s with
  | case1 => rfl
  | case2 c => rfl
  | case3 x s value hvalue ih =>
    have hne : d ≠ x := by
      rintro rfl
      rw [hd] at hvalue
      cases hvalue
    rw [mentions_append_of_not_mem (he x value hvalue), ih hs.tail.tail, mentions_dollar,
      mentions_cons_of_ne hs.ne_dollar, or_iff_right hne]
  | case4 x s hnone ih =>
    have hx := hs.ne_dollar
    rw [substitute_of_ne hx, mentions_dollar, ← substitute_of_ne hx, ih hs.tail, mentions_dollar]
  | case5 c x s hc ih =>
    rw [mentions_cons_of_ne hc, ih hs.tail, mentions_cons_of_ne hc]

/-- Replacing one placeholder is substituting for it alone. -/
theorem replaceAll_eq (name : Char) (value s : List Char) :
    Text.replaceAll ['$', name] value s = substitute (single name value) s := by
  rw [Text.replaceAll]
  fun_induction substitute (single name value) s with
  | case1 => rfl
  | case2 c => simp [Text.replaceFrom]
  | case3 d s inserted hinserted ih =>
    simp only [single, Option.ite_none_right_eq_some, Option.some.injEq] at hinserted
    obtain ⟨rfl, rfl⟩ := hinserted
    rw [Text.replaceFrom, if_pos (by simp), ← ih]
    rfl
  | case4 d s hnone ih =>
    have hd : d ≠ name := by simpa [single] using hnone
    rw [Text.replaceFrom, if_neg (by simpa using hd.symm), ih]
  | case5 c d s hc ih =>
    rw [Text.replaceFrom, if_neg (by simp [Ne.symm hc]), ih]

end Substituting

end Template

theorem Text.occurs_iff {p s : List Char} : occurs p s = true ↔ p <:+: s := by
  rw [occurs]
  induction s with
  | nil => simp [afterFirst?]
  | cons c s ih =>
    rw [afterFirst?, List.infix_cons_iff, ← ih, ← List.isPrefixOf_iff_prefix]
    split <;> simp_all

namespace Arguments

/-- The value that an argument puts for its placeholder; a missing one is empty. -/
def value (a : Arguments) (d : Char) : Option (List Char) :=
  if d = 'x' then some (a.x.getD "").toList
  else if d = 'y' then some (a.y.getD "").toList
  else if d = 'z' then some (a.z.getD "").toList
  else none

end Arguments

namespace Template

open Environment

/-- What a template is filled with: the manager reference with its dot, and the arguments. -/
def environment (manager : List Char) (a : Arguments) : Environment :=
  fun d => if d = '.' then some (manager ++ ['.']) else a.value d

/-- A placeholder is filled in where the template has it. -/
def filling (template : List Char) (d : Char) (value : Option String) : Environment :=
  if Text.occurs ['$', d] template then single d (value.getD "").toList else nothing

section Filling

variable {e e' : Environment} {manager template s : List Char} {d : Char} {v : Option String}
  {a : Arguments}

theorem fillPlaceholder_eq (template : List Char) (d : Char) (v : Option String) (s : List Char) :
    fillPlaceholder template d v s = substitute (filling template d v) s := by
  rw [fillPlaceholder, filling]
  split
  · exact replaceAll_eq d _ s
  · exact (substitute_nothing s).symm

theorem filling_congr (h : Mentions template d ↔ Mentions s d) :
    filling template d v = filling s d v := by
  have hoccurs : Text.occurs ['$', d] template = Text.occurs ['$', d] s :=
    Bool.eq_iff_iff.mpr (Text.occurs_iff.trans (h.trans Text.occurs_iff.symm))
  rw [filling, filling, hoccurs]

theorem filling_of_mentions (h : Mentions template d) :
    filling template d v = single d (v.getD "").toList :=
  if_pos (Text.occurs_iff.mpr h)

theorem filling_of_not_mentions (h : ¬ Mentions template d) : filling template d v = nothing :=
  if_neg (mt Text.occurs_iff.mp h)

/-- A placeholder of the template is filled with its value and no other. -/
theorem filling_apply {x : Char} (h : Mentions template x) :
    filling template d v x = if x = d then some (v.getD "").toList else none := by
  by_cases hd : x = d
  · subst hd
    rw [filling_of_mentions h, single]
  · unfold filling
    split <;> simp [single, nothing, hd]

theorem plain_single (h : '$' ∉ s) : (single d s).Plain := by
  intro x value hvalue
  simp only [single, Option.ite_none_right_eq_some, Option.some.injEq] at hvalue
  exact hvalue.2 ▸ h

theorem plain_orElse (he : e.Plain) (he' : e'.Plain) : (e.orElse e').Plain := by
  intro x value hvalue
  rcases Option.or_eq_some_iff.mp hvalue with h | ⟨-, h⟩
  · exact he x value h
  · exact he' x value h

theorem plain_filling (h : Mentions template d → '$' ∉ (v.getD "").toList) :
    (filling template d v).Plain := by
  by_cases hd : Mentions template d
  · rw [filling_of_mentions hd]
    exact plain_single (h hd)
  · rw [filling_of_not_mentions hd]
    intro x value hvalue
    cases hvalue

/-- One more placeholder of the template is filled in, if the values so far hold no dollar sign. -/
theorem substitute_filling (hs : Spaced template) (he : Mentions template d → e.Plain) :
    substitute (filling template d v) (substitute e template) =
      substitute (e.orElse (filling template d v)) template := by
  by_cases hd : Mentions template d
  · exact substitute_substitute hs (he hd)
  · rw [filling_of_not_mentions hd, substitute_nothing]
    exact substitute_congr fun x _ => by simp [orElse, nothing]

/-- Values that come before later placeholders of the template hold no dollar sign. -/
def Settled (a : Arguments) (template : List Char) : Prop :=
  ∀ p q, [p, q].Sublist ['x', 'y', 'z'] → Mentions template p → Mentions template q →
    ∀ value, a.value p = some value → '$' ∉ value

theorem settled_iff : Settled a template ↔
    ∀ x ∈ [('x', 'y'), ('x', 'z'), ('y', 'z')], Mentions template x.1 → Mentions template x.2 →
      ∀ value ∈ a.value x.1, '$' ∉ value := by
  constructor
  · rintro h ⟨p, q⟩ hmem
    have hsublist : [p, q].Sublist ['x', 'y', 'z'] := by
      simp only [List.mem_cons, Prod.mk.injEq, List.not_mem_nil, or_false] at hmem
      rcases hmem with ⟨rfl, rfl⟩ | ⟨rfl, rfl⟩ | ⟨rfl, rfl⟩ <;> decide
    exact h p q hsublist
  · intro h p q hsublist
    have hp := hsublist.subset (List.mem_cons_self (a := p) (l := [q]))
    have hq := hsublist.subset (List.mem_cons_of_mem p (List.mem_singleton_self q))
    simp only [List.mem_cons, List.not_mem_nil, or_false] at hp hq
    refine h (p, q) ?_
    rcases hp with rfl | rfl | rfl <;> rcases hq with rfl | rfl | rfl <;>
      revert hsublist <;> decide

instance : Decidable (Mentions s d) := inferInstanceAs (Decidable (_ <:+: _))

instance : Decidable (Spaced s) := inferInstanceAs (Decidable (¬ _))

instance : Decidable (Settled a template) := decidable_of_iff _ settled_iff.symm

theorem fillManager_eq (manager template : List Char) :
    fillManager manager template = substitute (single '.' (manager ++ ['.'])) template :=
  replaceAll_eq ..

/-- Filling in one after another is filling in at once. -/
theorem fillArguments_eq (hmanager : '$' ∉ manager) (hs : Spaced template)
    (ha : Settled a template) :
    fillArguments a (fillManager manager template) =
      substitute (environment manager a) template := by
  have hplain : (single '.' (manager ++ ['.'])).Plain := plain_single (by simpa using hmanager)
  have hkept : ∀ {d : Char} {v : Option String}, d ≠ '.' →
      filling (fillManager manager template) d v = filling template d v := by
    intro d v hd
    rw [fillManager_eq]
    exact filling_congr (mentions_substitute hs hplain (by simp [single, hd]))
  have hx : ∀ q, ['x', q].Sublist ['x', 'y', 'z'] → Mentions template q →
      (filling template 'x' a.x).Plain := by
    intro q hq hmentions
    exact plain_filling fun hx => ha 'x' q hq hx hmentions _ rfl
  have hy : Mentions template 'z' → (filling template 'y' a.y).Plain := by
    intro hz
    exact plain_filling fun hy => ha 'y' 'z' (by decide) hy hz _ rfl
  rw [fillArguments, fillPlaceholder_eq, fillPlaceholder_eq, fillPlaceholder_eq,
    hkept (by decide), hkept (by decide), hkept (by decide), fillManager_eq,
    substitute_filling hs fun _ => hplain,
    substitute_filling hs fun hmentions => plain_orElse hplain (hx 'y' (by decide) hmentions),
    substitute_filling hs fun hmentions =>
      plain_orElse (plain_orElse hplain (hx 'z' (by decide) hmentions)) (hy hmentions)]
  refine substitute_congr fun d hd => ?_
  simp only [orElse, filling_apply hd, single, environment, Arguments.value]
  by_cases hdot : d = '.'
  · simp [hdot]
  · by_cases hfirst : d = 'x'
    · simp [hfirst]
    · by_cases hsecond : d = 'y' <;> simp [hdot, hfirst, hsecond]

/-- The text between placeholders that are filled in with one value is filled in for itself. -/
theorem substitute_intercalate {value : List Char} {parts : List (List Char)}
    (hs : Spaced (['$', d].intercalate parts)) (hd : e d = some value) :
    substitute e (['$', d].intercalate parts) = value.intercalate (parts.map (substitute e)) := by
  induction parts with
  | nil => rfl
  | cons part parts ih =>
    cases parts with
    | nil => simp
    | cons part' parts =>
      rw [List.intercalate_cons_cons, List.append_assoc] at hs ⊢
      have hrest : Spaced (['$', d].intercalate (part' :: parts)) := by
        intro hinside
        exact hs (hinside.trans ⟨part ++ ['$', d], [], by simp⟩)
      have hlast : part.getLast? ≠ some '$' := by
        intro hlast
        obtain ⟨front, rfl⟩ := List.getLast?_eq_some_iff.mp hlast
        exact hs ⟨front, d :: ['$', d].intercalate (part' :: parts), by simp⟩
      rw [substitute_append hlast, List.cons_append, List.cons_append, List.nil_append,
        substitute_some hd, ih hrest]
      simp only [List.map_cons, List.intercalate_cons_cons, List.append_assoc]

theorem infix_intercalate {parts : List (List Char)} {part : List Char} (separator : List Char)
    (h : part ∈ parts) : part <:+: separator.intercalate parts := by
  induction parts with
  | nil => cases h
  | cons first parts ih =>
    cases parts with
    | nil =>
      obtain rfl := List.mem_singleton.mp h
      simp
    | cons second parts =>
      rw [List.intercalate_cons_cons]
      rcases List.mem_cons.mp h with rfl | h
      · exact ⟨[], separator ++ separator.intercalate (second :: parts), by simp⟩
      · exact (ih h).trans (List.suffix_append _ _).isInfix

/-- A value is inserted as it is when its placeholder is the only one of the template. -/
theorem fillArguments_only {parts : List (List Char)} (hmanager : '$' ∉ manager)
    (hs : Spaced template) (hparts : template = ['$', 'x'].intercalate parts)
    (hx : ∀ part ∈ parts, ¬ Mentions part 'x') (hy : ¬ Mentions template 'y')
    (hz : ¬ Mentions template 'z') :
    fillArguments a (fillManager manager template) =
      (a.x.getD "").toList.intercalate (parts.map (fillManager manager)) := by
  have ha : Settled a template := by
    intro p q hsublist hp hq
    have hboth : (p = 'x' ∨ p = 'y' ∨ p = 'z') ∧ (q = 'x' ∨ q = 'y' ∨ q = 'z') := by
      have hsubset := hsublist.subset
      simpa using hsubset
    obtain rfl : p = 'x' := by grind
    obtain rfl : q = 'x' := by grind
    exact absurd hsublist (by decide)
  have hvalue : environment manager a 'x' = some (a.x.getD "").toList := rfl
  rw [fillArguments_eq hmanager hs ha, hparts, substitute_intercalate (hparts ▸ hs) hvalue]
  congr 1
  refine List.map_congr_left fun part hpart => ?_
  rw [fillManager_eq]
  refine substitute_congr fun d hd => ?_
  have hmentioned : Mentions template d := hd.trans (hparts ▸ infix_intercalate _ hpart)
  have hnone : a.value d = none := by
    simp only [Arguments.value]
    rw [if_neg, if_neg, if_neg]
    · rintro rfl
      exact hz hmentioned
    · rintro rfl
      exact hy hmentioned
    · rintro rfl
      exact hx part hpart hd
  simp [environment, single, hnone]

end Filling

end Template

namespace Feature

/-- What stands in front of the filled template of a feature: the subject of a switch feature,
compared with what follows. -/
def leading (f : Feature) (manager : String) : String :=
  match f.form with
  | .plain => ""
  | .switch subject => Template.fillSubject manager subject ++ " == "

theorem expand_eq (f : Feature) (manager : String) (a : Arguments) :
    f.expand manager a = f.leading manager ++ Template.fill manager a f.template := by
  unfold expand leading
  cases f.form <;> simp

/-- Where no dollar signs stand side by side in the template, the manager reference has none, and
no value brings one in that comes before a later placeholder, the template is filled in at once:
`$.` by the manager reference, and every placeholder by its value. A single placeholder takes any
value as it is. -/
theorem expand_at_once (f : Feature) (manager : String) (hmanager : '$' ∉ manager.toList)
    (hspaced : Template.Spaced f.template.toList) :
    (∀ a : Arguments, Template.Settled a f.template.toList →
      f.expand manager a = f.leading manager ++
        .ofList (Template.substitute (Template.environment manager.toList a) f.template.toList)) ∧
    ∀ parts : List (List Char), f.template.toList = ['$', 'x'].intercalate parts →
      (∀ part ∈ parts, ¬ Template.Mentions part 'x') →
      ¬ Template.Mentions f.template.toList 'y' → ¬ Template.Mentions f.template.toList 'z' →
      ∀ a : Arguments, f.expand manager a = f.leading manager ++
        .ofList ((a.x.getD "").toList.intercalate
          (parts.map (Template.fillManager manager.toList))) := by
  refine ⟨fun a ha => ?_, fun parts hparts hx hy hz a => ?_⟩
  · rw [expand_eq, Template.fill, Template.fillArguments_eq hmanager hspaced ha]
  · rw [expand_eq, Template.fill, Template.fillArguments_only hmanager hspaced hparts hx hy hz]

end Feature

/-- A switch feature with two arguments, one of them used twice, and a dollar sign at its end. -/
def Sample.bargain : Feature :=
  ⟨"switch_due", "$.pay($y, $x, $y)$", none, .switch "$.due()"⟩

def Sample.gain : Feature := ⟨"gain", "$.gainMeso($x)", none, .plain⟩

namespace Feature

/-- A value that looks like placeholders, behind which only one stands that was filled in before;
and a gift of such an amount. -/
theorem bargain_expand_at_once :
    Template.Settled ⟨some "5", some "$x$.", none⟩ Sample.bargain.template.toList ∧
      Sample.bargain.expand "cm" ⟨some "5", some "$x$.", none⟩ =
        "cm.due() == cm.pay($x$., 5, $x$.)$" ∧
      Sample.gain.expand "cm" (.single "$x$y$z$.") = "cm.gainMeso($x$y$z$.)" := by
  have hsettled : Template.Settled ⟨some "5", some "$x$.", none⟩
      Sample.bargain.template.toList := by
    decide +kernel
  obtain ⟨hfilled, -⟩ := expand_at_once Sample.bargain "cm" (by decide) (by decide +kernel)
  obtain ⟨-, honly⟩ := expand_at_once Sample.gain "cm" (by decide) (by decide +kernel)
  refine ⟨hsettled, (hfilled _ hsettled).trans (by decide +kernel), ?_⟩
  refine (honly ["$.gainMeso(".toList, [')']] rfl (by decide +kernel) (by decide +kernel)
    (by decide +kernel) _).trans (by decide +kernel)

end Feature

end SceneDispatch
