import SceneDispatch.Proofs.Feature.Factorisation
import SceneDispatch.Script.Basic
/-!
Calls that end on the line on which they begin. Main statements: then expanding a text is expanding
its lines, and in the body of a dispatch routine only the lines that hold script text are expanded.
-/
namespace SceneDispatch

/-- What is taken from a text does not reach beyond a character that stops it. -/
theorem Text.takeWhile_append_stop {p : Char → Bool} {c : Char} (hc : p c = false)
    (s t : List Char) : (s ++ c :: t).takeWhile p = s.takeWhile p := by
  induction s with
  | nil => simp [hc]
  | cons x s ih =>
    rw [List.cons_append, List.takeWhile_cons, List.takeWhile_cons, ih]

/-- Where the name of a feature stands between a dollar sign and an opening parenthesis, a closing
one follows on the same line. -/
def Registry.ClosesCalls (r : Registry) (s : List Char) : Prop :=
  ∀ name rest, '$' :: (name ++ '(' :: rest) <:+ s → Call.isIdentifier name = true →
    r.has (.ofList name) = true → ')' ∈ rest.takeWhile (· ≠ '\n')

namespace Registry.ClosesCalls

variable {r : Registry} {s t : List Char}

theorem suffix (h : r.ClosesCalls s) (ht : t <:+ s) : r.ClosesCalls t :=
  fun name rest hname => h name rest (hname.trans ht)

theorem before_newline (h : r.ClosesCalls (s ++ '\n' :: t)) : r.ClosesCalls s := by
  rintro name rest ⟨front, rfl⟩ hidentifier hhas
  have hclosed := h name (rest ++ '\n' :: t) ⟨front, by simp⟩ hidentifier hhas
  rwa [Text.takeWhile_append_stop (by simp)] at hclosed

theorem behind_newline (h : r.ClosesCalls (s ++ '\n' :: t)) : r.ClosesCalls t :=
  h.suffix ⟨s ++ ['\n'], by simp⟩

end Registry.ClosesCalls

/-- A call that is opened behind a dollar sign in front of the text is closed on its line. -/
def Registry.ClosesBehind (r : Registry) (s : List Char) : Prop :=
  let name := s.takeWhile (· ≠ '(')
  name.length < s.length → Call.isIdentifier name = true → r.has (.ofList name) = true →
    ')' ∈ (s.drop (name.length + 1)).takeWhile (· ≠ '\n')

instance (r : Registry) (s : List Char) : Decidable (r.ClosesBehind s) :=
  inferInstanceAs (Decidable (_ → _ → _ → _))

theorem Registry.closesCalls_iff {r : Registry} {s : List Char} :
    r.ClosesCalls s ↔ ∀ t ∈ s.tails, t.head? = some '$' → r.ClosesBehind t.tail := by
  simp only [List.mem_tails]
  constructor
  · intro h t ht hdollar
    obtain ⟨t, rfl⟩ := List.head?_eq_some_iff.mp hdollar
    intro hlength hidentifier hhas
    rw [List.tail_cons] at hlength hidentifier hhas ⊢
    rw [Call.eq_takeWhile_append hlength] at ht
    exact h _ _ ht hidentifier hhas
  · intro h name rest hsuffix hidentifier hhas
    have hname : (name ++ '(' :: rest).takeWhile (· ≠ '(') = name :=
      Call.takeWhile_ne_append (Call.not_mem_of_isIdentifier hidentifier) rest
    have hrest : (name ++ '(' :: rest).drop (name.length + 1) = rest := by
      simp [List.drop_append]
    have hclosed := h _ hsuffix rfl
    simp only [List.tail_cons, ClosesBehind, hname, hrest] at hclosed
    exact hclosed (by simp) hidentifier hhas

instance (r : Registry) (s : List Char) : Decidable (r.ClosesCalls s) :=
  decidable_of_iff _ Registry.closesCalls_iff.symm

namespace Call

variable {r : Registry} {s t rest : List Char} {call : Call} {segments segments' : List Segment}

theorem Begins.append (h : Begins r s call rest) (t : List Char) :
    Begins r (s ++ t) call (rest ++ t) := by
  obtain @⟨name, arguments, rest, f, hidentifier, hf, hclosed⟩ := h
  have hbegins : Begins r ('$' :: (name ++ '(' :: (arguments ++ ')' :: (rest ++ t))))
      ⟨f, argumentsOf arguments⟩ (rest ++ t) := .intro hidentifier hf hclosed
  simpa using hbegins

/-- A call that begins on a line ends there. -/
theorem Begins.of_append_newline (hclosed : r.ClosesCalls s) (hs : s ≠ [])
    (h : Begins r (s ++ '\n' :: t) call rest) : ∃ rest', Begins r s call rest' := by
  generalize htext : s ++ '\n' :: t = text at h
  obtain @⟨name, arguments, rest, f, hidentifier, hf, hargs⟩ := h
  have hhas : r.has (.ofList name) = true := congrArg Option.isSome hf
  have hopened : s ++ '\n' :: t = ('$' :: (name ++ ['('])) ++ (arguments ++ ')' :: rest) := by
    simpa using htext
  obtain ⟨after, hafter, hbreak⟩ | ⟨after, rfl, harguments⟩ := List.append_eq_append_iff.mp hopened
  · -- the line would end before the parenthesis is opened
    cases after with
    | nil =>
      have hclosing := hclosed name [] ⟨[], by simpa using hafter⟩ hidentifier hhas
      cases hclosing
    | cons x after =>
      obtain ⟨rfl, -⟩ := List.cons.inj hbreak
      have hmem : '\n' ∈ '$' :: (name ++ ['(']) := by simp [hafter]
      have hname : '\n' ∉ name := not_mem_of_isIdentifier hidentifier
      simp [hname] at hmem
  · have hclosing : ')' ∈ after :=
      List.takeWhile_subset _ (hclosed name after ⟨[], by simp⟩ hidentifier hhas)
    obtain ⟨more, rfl, hmore⟩ | ⟨more, rfl, -⟩ := List.append_eq_append_iff.mp harguments
    rotate_left
    · exact absurd (List.mem_append_left _ hclosing) hargs
    · cases more with
      | nil => exact absurd (by simpa using hclosing) hargs
      | cons x more =>
        obtain ⟨rfl, -⟩ := List.cons.inj hmore
        refine ⟨more, ?_⟩
        rw [List.cons_append, List.append_assoc, List.singleton_append]
        exact .intro hidentifier hf hargs

/-- A line break parts a text whose calls end on their lines. -/
theorem Parted.append_newline (hs : Parted r s segments) (hclosed : r.ClosesCalls s)
    (ht : Parted r t segments') :
    Parted r (s ++ '\n' :: t) (segments ++ .literal '\n' :: segments') := by
  induction hs with
  | nil => exact .literal (fun call rest hbegins => by cases hbegins) ht
  | call hbegins _ ih =>
    exact .call (hbegins.append _) (ih (hclosed.suffix hbegins.rest_suffix))
  | @literal c s segments hnot _ ih =>
    refine .literal (fun call rest hbegins => ?_) (ih (hclosed.suffix (List.suffix_cons c s)))
    obtain ⟨rest', hbegins⟩ := Begins.of_append_newline hclosed (by simp) hbegins
    exact hnot call rest' hbegins

end Call

namespace Expansion

variable {r : Registry} {manager : String}

theorem of_append_newline (manager : String) {s : String} (h : r.ClosesCalls s.toList)
    (t : String) : (of r manager (s ++ "\n" ++ t)).text =
        (of r manager s).text ++ "\n" ++ (of r manager t).text ∧
      (of r manager (s ++ "\n" ++ t)).dependencies =
        (of r manager s).dependencies ++ (of r manager t).dependencies := by
  have hs := Call.parted_segmentsFrom (r := r) s.toList
  have ht := Call.parted_segmentsFrom (r := r) t.toList
  have hparted := hs.append_newline h ht
  rw [show s.toList ++ '\n' :: t.toList = (s ++ "\n" ++ t).toList by simp] at hparted
  constructor
  · apply String.toList_injective
    rw [text_of_parted hparted]
    simp [text_of_parted hs, text_of_parted ht]
  · rw [dependencies_of_parted hparted]
    simp [dependencies_of_parted hs, dependencies_of_parted ht, List.filterMap_cons]

/-- Without a dollar sign there is nothing to expand. -/
theorem text_of_not_mem {s : String} (h : '$' ∉ s.toList) : (of r manager s).text = s := by
  have hfree : r.NoCallIn s.toList [] := by
    rintro before after hsplit hne ⟨c, rest, -, heq⟩
    rw [List.append_nil] at heq
    exact h (by simp [hsplit, heq, WrittenCall.text])
  have hparted := Factorisation.parted_literal hfree .nil
  rw [List.append_nil] at hparted
  apply String.toList_injective
  rw [text_of_parted hparted]
  simp [List.flatMap_map]

/-- Lines whose calls end on them are expanded one by one. -/
theorem of_intercalate (manager : String) {lines : List String}
    (h : ∀ line ∈ lines, r.ClosesCalls line.toList) :
    (of r manager ("\n".intercalate lines)).text =
        "\n".intercalate (lines.map fun line => (of r manager line).text) ∧
      (of r manager ("\n".intercalate lines)).dependencies =
        lines.flatMap fun line => (of r manager line).dependencies := by
  induction lines with
  | nil => exact ⟨text_of_not_mem (by simp), rfl⟩
  | cons line lines ih =>
    obtain ⟨hline, hlines⟩ := List.forall_mem_cons.mp h
    cases lines with
    | nil => simp
    | cons line' lines =>
      obtain ⟨htext, hdependencies⟩ := ih hlines
      obtain ⟨hjoined, hunited⟩ :=
        of_append_newline manager hline ("\n".intercalate (line' :: lines))
      rw [String.intercalate_cons_cons, hjoined, hunited, htext, hdependencies]
      exact ⟨(String.intercalate_cons_cons ..).symm, rfl⟩

/-- Texts that end in a line break are expanded one by one. -/
theorem text_join {texts : List String} (hbreaks : ∀ text ∈ texts, ∃ line, text = line ++ "\n")
    (h : r.ClosesCalls (String.join texts).toList) :
    (of r manager (String.join texts)).text =
      String.join (texts.map fun text => (of r manager text).text) := by
  induction texts with
  | nil => exact text_of_not_mem (by simp)
  | cons text texts ih =>
    obtain ⟨⟨line, rfl⟩, hlater⟩ := List.forall_mem_cons.mp hbreaks
    have hsplit : (String.join ((line ++ "\n") :: texts)).toList =
        line.toList ++ '\n' :: (String.join texts).toList := by
      simp [String.join_cons]
    rw [hsplit] at h
    have hempty : (of r manager "").text = "" := text_of_not_mem (by simp)
    have hline := (of_append_newline manager h.before_newline "").1
    have hjoined := (of_append_newline manager h.before_newline (String.join texts)).1
    rw [hempty, String.append_empty, String.append_empty] at hline
    rw [String.join_cons, hjoined, ih hlater h.behind_newline, List.map_cons, String.join_cons,
      hline]

end Expansion

/-! ### The body of the dispatch routine -/

theorem Text.not_mem_toDigits {x : Char} (n : Nat) (hx : x.isDigit = false := by decide) :
    x ∉ Nat.toDigits 10 n := by
  intro hmem
  rw [Nat.isDigit_of_mem_toDigits (by decide) (by decide) hmem] at hx
  cases hx

theorem dollar_not_mem_repr (n : Int) : '$' ∉ n.repr.toList := by
  rw [Int.repr_eq_if]
  split <;> simp [Text.not_mem_toDigits]

theorem dollar_not_mem_intercalate {separator : String} {texts : List String}
    (hseparator : '$' ∉ separator.toList) (h : ∀ text ∈ texts, '$' ∉ text.toList) :
    '$' ∉ (separator.intercalate texts).toList := by
  induction texts with
  | nil => simp
  | cons text texts ih =>
    obtain ⟨htext, htexts⟩ := List.forall_mem_cons.mp h
    cases texts with
    | nil => simpa using htext
    | cons text' texts =>
      rw [String.intercalate_cons_cons, String.toList_append, String.toList_append,
        List.mem_append, List.mem_append, not_or, not_or]
      exact ⟨⟨htext, hseparator⟩, ih htexts⟩

/-- A choice among the entries of a prompt. -/
theorem Condition.dollar_not_mem_selected (index : Nat) :
    '$' ∉ (selected index).text.toList := by
  show '$' ∉ ("selection == " ++ toString index).toList
  simp [Text.not_mem_toDigits]

namespace Statement

/-- The statements that hold no text of a template, a scene or a configuration. -/
def isFixed : Statement → Bool
  | line _ => false
  | branch (.test _) => false
  | alternative (.test _) => false
  | _ => true

/-- The lines of statements, the first one at `depth`, with the calls in each line expanded for
itself. Lines that hold no template text stay as they are. -/
def expandedLines (r : Registry) (manager : String) : Nat → List Statement → List String
  | _, [] => []
  | depth, x :: xs =>
    (if x.isFixed then Layout.text depth x.item
      else (Expansion.of r manager (Layout.text depth x.item)).text) ::
      expandedLines r manager (Layout.depthAfter depth x.item) xs

theorem dollar_not_mem_indented {depth : Nat} {text : String} (h : '$' ∉ text.toList) :
    '$' ∉ (Layout.indented depth text).toList := by
  simp [Layout.indented, Layout.indentUnit, h]

theorem dollar_not_mem_text {x : Statement} (h : x.isFixed = true) (depth : Nat) :
    '$' ∉ (Layout.text depth x.item).toList := by
  cases x with
  | line text => cases h
  | setStatus status =>
    refine dollar_not_mem_indented
      (show '$' ∉ ("status = " ++ toString status ++ ";").toList from ?_)
    simp [dollar_not_mem_repr]
  | redispatch => exact dollar_not_mem_indented (by decide)
  | leave => exact dollar_not_mem_indented (by decide)
  | branch condition =>
    refine dollar_not_mem_indented (show '$' ∉ ("if (" ++ condition.text ++ ")").toList from ?_)
    cases condition with
    | test expression => cases h
    | selected index => simp [Condition.dollar_not_mem_selected]
    | refused => decide
  | alternative condition =>
    refine dollar_not_mem_indented
      (show '$' ∉ ("else if (" ++ condition.text ++ ")").toList from ?_)
    cases condition with
    | test expression => cases h
    | selected index => simp [Condition.dollar_not_mem_selected]
    | refused => decide
  | otherwise => exact dollar_not_mem_indented (by decide)
  | opening => exact dollar_not_mem_indented (by decide)
  | closing => exact dollar_not_mem_indented (by decide)

variable {r : Registry} {manager : String}

theorem expandedLines_eq (depth : Nat) (xs : List Statement) :
    expandedLines r manager depth xs =
      (Layout.texts depth (xs.map item)).map fun text => (Expansion.of r manager text).text := by
  induction xs generalizing depth with
  | nil => rfl
  | cons x xs ih =>
    rw [expandedLines, List.map_cons, Layout.texts, List.map_cons, ih]
    congr 1
    split
    · next hfixed => exact (Expansion.text_of_not_mem (dollar_not_mem_text hfixed depth)).symm
    · rfl

theorem exists_line_of_mem_texts {depth : Nat} {items : List LayoutItem} {text : String}
    (h : text ∈ Layout.texts depth items) : ∃ line, text = line ++ "\n" := by
  induction items generalizing depth with
  | nil => cases h
  | cons i items ih =>
    rcases List.mem_cons.mp h with rfl | h
    · cases i <;> exact ⟨_, rfl⟩
    · exact ih h

end Statement

namespace Group

/-- The line that guards the group. -/
def guardLine (g : Group) : String := s!"        if ({g.guard})\n"

/-- The text of the group with the calls in each of its lines expanded for itself. The guard and
the braces around the group stay as they are. -/
def expandedText (r : Registry) (manager : String) (g : Group) : String :=
  g.guardLine ++ "        \x7b\n" ++
    String.join (Statement.expandedLines r manager Layout.baseDepth g.statements) ++
      "        \x7d\n"

/-- The texts that make up the group, each of them ending in a line break. -/
def texts (g : Group) : List String :=
  [g.guardLine, "        \x7b\n"] ++
    Layout.texts Layout.baseDepth (g.statements.map Statement.item) ++ ["        \x7d\n"]

theorem text_eq_join (g : Group) : g.text = String.join g.texts := by
  -- an equation for the text is slow to find, since it compares the bytes of the strings
  delta text
  simp only [texts, guardLine, Layout.render, String.join_append, String.join_cons,
    String.join_nil, String.append_assoc, String.append_empty]

theorem exists_line_of_mem {g : Group} {text : String} (h : text ∈ g.texts) :
    ∃ line, text = line ++ "\n" := by
  simp only [texts, List.cons_append, List.nil_append, List.mem_cons, List.mem_append,
    List.not_mem_nil, or_false] at h
  rcases h with rfl | rfl | h | rfl
  · exact ⟨"        if (" ++ g.guard ++ ")", by simp [guardLine, String.append_assoc]; rfl⟩
  · exact ⟨"        \x7b", rfl⟩
  · exact Statement.exists_line_of_mem_texts h
  · exact ⟨"        \x7d", rfl⟩

theorem dollar_not_mem_guardLine (g : Group) : '$' ∉ g.guardLine.toList := by
  have hguard : '$' ∉ g.guard.toList := by
    refine dollar_not_mem_intercalate (by decide) fun text htext => ?_
    obtain ⟨status, -, rfl⟩ := List.mem_map.mp htext
    show '$' ∉ ("status == " ++ toString status).toList
    simp [dollar_not_mem_repr]
  show '$' ∉ ("        if (" ++ g.guard ++ ")\n").toList
  simp [hguard]

variable {r : Registry} {manager : String}

theorem join_expanded (g : Group) :
    String.join (g.texts.map fun text => (Expansion.of r manager text).text) =
      g.expandedText r manager := by
  have hguard : (Expansion.of r manager g.guardLine).text = g.guardLine :=
    Expansion.text_of_not_mem g.dollar_not_mem_guardLine
  have hopening : (Expansion.of r manager "        \x7b\n").text = "        \x7b\n" :=
    Expansion.text_of_not_mem (by decide)
  have hclosing : (Expansion.of r manager "        \x7d\n").text = "        \x7d\n" :=
    Expansion.text_of_not_mem (by decide)
  simp only [texts, expandedText, Statement.expandedLines_eq, List.map_append, List.map_cons,
    List.map_nil, hguard, hopening, hclosing, String.join_append, String.join_cons,
    String.join_nil, String.append_empty]

end Group

theorem join_flatMap {α : Type} (f : α → List String) (l : List α) :
    String.join (l.flatMap f) = String.join (l.map fun a => String.join (f a)) := by
  induction l with
  | nil => rfl
  | cons a l ih => rw [List.flatMap_cons, String.join_append, ih, List.map_cons, String.join_cons]

theorem Draft.body_eq_join (d : Draft) : d.body = String.join (d.groups.flatMap Group.texts) := by
  rw [join_flatMap, body]
  exact congrArg String.join (List.map_congr_left fun g _ => g.text_eq_join)

/-- A gift whose condition and amount are calls, in the group of two statuses. -/
def Sample.haggling : Draft :=
  ⟨[⟨StatusContext.start.insert 0, [.branch (.test "$tax(1) > 2"), .opening, .line "$give(5);",
    .leave, .closing]⟩], .empty⟩

namespace Expansion

/-- Where calls end on the line on which they begin, joined lines are expanded one by one and bring
what the lines bring. Hence in the body of a dispatch routine the guards, the braces and the lines
that leave the routine stay as they are, each in its place. -/
theorem line_by_line (r : Registry) (manager : String) :
    (∀ lines : List String, (∀ line ∈ lines, r.ClosesCalls line.toList) →
      (of r manager ("\n".intercalate lines)).text =
          "\n".intercalate (lines.map fun line => (of r manager line).text) ∧
        ∀ package, package ∈ (of r manager ("\n".intercalate lines)).dependencies ↔
          ∃ line ∈ lines, package ∈ (of r manager line).dependencies) ∧
    ∀ d : Draft, r.ClosesCalls d.body.toList →
      (of r manager d.body).text = String.join (d.groups.map (Group.expandedText r manager)) := by
  refine ⟨fun lines h => ?_, fun d h => ?_⟩
  · obtain ⟨htext, hdependencies⟩ := of_intercalate manager h
    refine ⟨htext, fun package => ?_⟩
    rw [hdependencies, List.mem_flatMap]
  · rw [d.body_eq_join] at h ⊢
    have hbreaks : ∀ text ∈ d.groups.flatMap Group.texts, ∃ line, text = line ++ "\n" := by
      intro text htext
      obtain ⟨g, -, hg⟩ := List.mem_flatMap.mp htext
      exact Group.exists_line_of_mem hg
    rw [text_join hbreaks h, List.map_flatMap, join_flatMap]
    simp only [Group.join_expanded]

/-- Lines with a call among the arguments of another and with a parenthesis that no call opens; and
a gift whose condition and amount are calls. -/
theorem haggling_line_by_line :
    (of Sample.packaged "cm" "$give($tax(1))\n\x7b\n$gift( $tax(2)").text =
        "cm.gainMeso($tax(1))\n\x7b\n$gift( cm.tax(2)" ∧
      "taxes" ∈ (of Sample.packaged "cm" "$give($tax(1))\n\x7b\n$gift( $tax(2)").dependencies ∧
      Sample.packaged.ClosesCalls Sample.haggling.body.toList ∧
      (of Sample.packaged "cm" Sample.haggling.body).text =
        "        if (status == -1 || status == 0)\n        \x7b\n" ++
        "            if (cm.tax(1) > 2)\n            \x7b\n                cm.gainMeso(5);\n" ++
        "                return;\n            \x7d\n        \x7d\n" := by
  have hlines : ∀ line ∈ ["$give($tax(1))", "\x7b", "$gift( $tax(2)"],
      Sample.packaged.ClosesCalls line.toList := by
    decide +kernel
  have hbody : Sample.packaged.ClosesCalls Sample.haggling.body.toList := by
    decide +kernel
  obtain ⟨hlocal, hdraft⟩ := line_by_line Sample.packaged "cm"
  obtain ⟨htext, hdependencies⟩ := hlocal _ hlines
  refine ⟨htext.trans (by decide +kernel), ?_, hbody, (hdraft _ hbody).trans (by decide +kernel)⟩
  exact (hdependencies "taxes").mpr ⟨"$gift( $tax(2)", by simp, by decide +kernel⟩

end Expansion

end SceneDispatch
