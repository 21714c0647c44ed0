import SceneDispatch.Proofs.Script.Lines
import SceneDispatch.Proofs.Script.Stretch
import SceneDispatch.Proofs.Script.Table
/-!
Shown texts as literals of the script language. Quotes are escaped and backslashes are not, so that
a backslash of the text can take away the one that is put before a quote, or escape the quote that
ends the literal. Main statement: the argument that shows a text is one literal exactly when the
backslashes before each quote of the text, and at its end, come in pairs.
-/
namespace SceneDispatch

namespace Text

/-- What follows the quote that ends a literal, reading on within it. A backslash escapes the
character behind it; `escaped` says that the next character is escaped. -/
def behindQuote? (escaped : Bool) : List Char → Option (List Char)
  | [] => none
  | c :: s =>
    if escaped then behindQuote? false s
    else if c = '\\' then behindQuote? true s
    else if c = '"' then some s
    else behindQuote? false s

/-- The text begins with a quote, and the next quote that is not escaped is its last character. -/
def IsLiteral (s : List Char) : Prop := s.head? = some '"' ∧ behindQuote? false s.tail = some []

instance (s : List Char) : Decidable (IsLiteral s) := inferInstanceAs (Decidable (_ ∧ _))

/-- The number of backslashes at the end of a text. -/
def backslashes (s : List Char) : Nat := (s.reverse.takeWhile (· = '\\')).length

/-- The backslashes at the end of the text escape one another. -/
def Paired (s : List Char) : Prop := backslashes s % 2 = 0

instance (s : List Char) : Decidable (Paired s) := inferInstanceAs (Decidable (_ = _))

/-- The backslashes in front of each quote of the text escape one another. -/
def QuotesPaired (s : List Char) : Prop :=
  ∀ before after, s = before ++ '"' :: after → Paired before

theorem quotesPaired_iff {s : List Char} :
    QuotesPaired s ↔ ∀ i < s.length, s[i]? = some '"' → Paired (s.take i) := by
  constructor
  · intro h i _ hquote
    obtain ⟨hi, hget⟩ := List.getElem?_eq_some_iff.mp hquote
    refine h (s.take i) (s.drop (i + 1)) ?_
    rw [← hget, List.getElem_cons_drop, List.take_append_drop]
  · rintro h before after rfl
    simpa using h before.length (by simp) (by simp)

instance (s : List Char) : Decidable (QuotesPaired s) := decidable_of_iff _ quotesPaired_iff.symm

section Pairs

variable {c : Char} {s t : List Char}

theorem paired_concat_backslash : Paired (s ++ ['\\']) ↔ ¬ Paired s := by
  simp only [Paired, backslashes, List.reverse_append, List.reverse_singleton,
    List.singleton_append, List.takeWhile_cons, decide_true, if_true, List.length_cons]
  omega

/-- Another character leaves only the backslashes behind it to count. -/
theorem paired_append_cons (hc : c ≠ '\\') : Paired (s ++ c :: t) ↔ Paired t := by
  rw [Paired, Paired, backslashes, backslashes, List.reverse_append, List.reverse_cons,
    List.append_assoc, List.singleton_append, takeWhile_append_stop (by simpa using hc)]

theorem paired_concat (hc : c ≠ '\\') : Paired (s ++ [c]) := (paired_append_cons hc).mpr rfl

theorem quotesPaired_of_not_mem (h : '"' ∉ s) : QuotesPaired s := by
  rintro before after rfl
  simp at h

/-- A character that is neither a quote nor a backslash parts the text. -/
theorem quotesPaired_append_cons (hquote : c ≠ '"') (hc : c ≠ '\\') :
    QuotesPaired (s ++ c :: t) ↔ QuotesPaired s ∧ QuotesPaired t := by
  constructor
  · intro h
    refine ⟨?_, ?_⟩
    · rintro before after rfl
      exact h before (after ++ c :: t) (by simp)
    · rintro before after rfl
      exact (paired_append_cons hc).mp (h (s ++ c :: before) after (by simp))
  · rintro ⟨hs, ht⟩ before after hsplit
    obtain ⟨inner, rfl, hinner⟩ | ⟨inner, rfl, hinner⟩ := List.append_eq_append_iff.mp hsplit
    · cases inner with
      | nil => exact absurd (List.cons.inj hinner).1 hquote
      | cons x inner =>
        obtain ⟨rfl, rfl⟩ := List.cons.inj hinner
        exact (paired_append_cons hc).mpr (ht inner after rfl)
    · cases inner with
      | nil => exact absurd (List.cons.inj hinner).1.symm hquote
      | cons x inner =>
        obtain ⟨rfl, -⟩ := List.cons.inj hinner
        exact hs before inner rfl

theorem quotesPaired_cons (hquote : c ≠ '"') (hc : c ≠ '\\') :
    QuotesPaired (c :: t) ↔ QuotesPaired t := by
  rw [← List.nil_append (c :: t), quotesPaired_append_cons hquote hc]
  exact and_iff_right (quotesPaired_of_not_mem (by simp))

end Pairs

section Reading

variable (front : List Char)

/-- The next character is escaped if the backslashes in front of it do not pair up. -/
theorem behindQuote?_cons {c : Char} (hc : c ≠ '"') (t : List Char) :
    behindQuote? (!decide (Paired front)) (c :: t) =
      behindQuote? (!decide (Paired (front ++ [c]))) t := by
  by_cases hbackslash : c = '\\'
  · subst hbackslash
    by_cases hfront : Paired front <;> simp [behindQuote?, paired_concat_backslash, hfront]
  · simp [behindQuote?, hbackslash, hc, paired_concat hbackslash]

/-- Behind an odd number of backslashes, the one before a quote is escaped and the quote is not. -/
theorem behindQuote?_escaped (t : List Char) :
    behindQuote? (!decide (Paired front)) ('\\' :: '"' :: t) =
      if Paired front then behindQuote? (!decide (Paired (front ++ ['"']))) t else some t := by
  have hquote : Paired (front ++ ['"']) := paired_concat (by decide)
  by_cases hfront : Paired front <;> simp [behindQuote?, hquote, hfront]

/-- What stands before the quotes of a text, by its first character. -/
theorem forall_before_cons {p : List Char → Prop} {c : Char} {s : List Char} :
    (∀ before after, c :: s = before ++ '"' :: after → p before) ↔
      (c = '"' → p []) ∧ ∀ before after, s = before ++ '"' :: after → p (c :: before) := by
  constructor
  · intro h
    refine ⟨?_, fun before after hs => h (c :: before) after (by simp [hs])⟩
    rintro rfl
    exact h [] s rfl
  · rintro ⟨hfirst, hrest⟩ before after hs
    cases before with
    | nil => exact hfirst (List.cons.inj hs).1
    | cons x before =>
      obtain ⟨rfl, hinner⟩ := List.cons.inj hs
      exact hrest before after hinner

/-- The escaped text ends at the quote behind it if the backslashes before each of its quotes and
at its end pair up, those at the end of `front` included. -/
theorem behindQuote?_escapeQuotes (s : List Char) :
    behindQuote? (!decide (Paired front)) (escapeQuotes s ++ ['"']) = some [] ↔
      (∀ before after, s = before ++ '"' :: after → Paired (front ++ before)) ∧
        Paired (front ++ s) := by
  induction s generalizing front with
  | nil => by_cases hfront : Paired front <;> simp [escapeQuotes, behindQuote?, hfront]
  | cons c s ih =>
    have hlater := ih (front ++ [c])
    simp only [List.append_assoc, List.singleton_append] at hlater
    rw [forall_before_cons, List.append_nil, and_assoc, ← hlater]
    by_cases hc : c = '"'
    · subst hc
      rw [show escapeQuotes ('"' :: s) = '\\' :: '"' :: escapeQuotes s from rfl, List.cons_append,
        List.cons_append, behindQuote?_escaped]
      split
      · next hfront => simp [hfront]
      · next hfront => simp [hfront]
    · rw [show escapeQuotes (c :: s) = c :: escapeQuotes s by simp [escapeQuotes, hc],
        List.cons_append, behindQuote?_cons _ hc]
      simp [hc]

end Reading

theorem isLiteral_quote (text : String) :
    IsLiteral (quote text).toList ↔ QuotesPaired text.toList ∧ Paired text.toList := by
  have hreads := behindQuote?_escapeQuotes [] text.toList
  rw [decide_eq_true (show Paired [] from rfl)] at hreads
  simpa [IsLiteral, quote, quoteList, QuotesPaired] using hreads

end Text

namespace Drafting

open Text

theorem quotesPaired_entryLines (index : Nat) (ns : List Node) (t : List Char) :
    QuotesPaired ((String.join (entryLines index ns)).toList ++ t) ↔
      (∀ n ∈ ns, ∀ label, n.kind = .option label → QuotesPaired label.toList) ∧
        QuotesPaired t := by
  induction ns generalizing index with
  | nil => simp [entryLines]
  | cons n ns ih =>
    rw [entryLines, List.forall_mem_cons, and_assoc, ← ih (index + 1)]
    cases hkind : n.kind with
    | option label =>
      have hnumber : QuotesPaired ("\\r\\n#L" ++ toString index).toList :=
        quotesPaired_of_not_mem (by simp [not_mem_toDigits])
      -- the number sign on either side of the label parts it from the rest of the line
      have hline : (String.join
          (s!"\\r\\n#L{index}#{label}#l" :: entryLines (index + 1) ns)).toList ++ t =
          ("\\r\\n#L" ++ toString index).toList ++ '#' :: (label.toList ++ '#' ::
            'l' :: ((String.join (entryLines (index + 1) ns)).toList ++ t)) := by
        rw [String.join_cons, show s!"\\r\\n#L{index}#{label}#l" =
          "\\r\\n#L" ++ toString index ++ "#" ++ label ++ "#l" from rfl]
        simp
      rw [hline, quotesPaired_append_cons (by decide) (by decide),
        quotesPaired_append_cons (by decide) (by decide),
        quotesPaired_cons (by decide) (by decide)]
      simp only [and_iff_right hnumber, NodeKind.option.injEq, forall_eq']
    | _ => simp

/-- In a prompt the text and the labels are followed by a number sign, so that backslashes at their
ends do no harm. -/
theorem isLiteral_prompt (text : String) (ns : List Node) :
    IsLiteral (quote (prompt text ns)).toList ↔ QuotesPaired text.toList ∧
      ∀ n ∈ ns, ∀ label, n.kind = .option label → QuotesPaired label.toList := by
  have hprompt : (prompt text ns).toList = text.toList ++ '#' :: 'b' ::
      ((String.join (entryLines 0 ns)).toList ++ ['#', 'k']) := by
    simp [prompt]
  have hend : Paired (prompt text ns).toList := by
    rw [show (prompt text ns).toList =
      (text ++ "#b" ++ String.join (entryLines 0 ns) ++ "#").toList ++ ['k'] by simp [prompt]]
    exact paired_concat (by decide)
  rw [isLiteral_quote, and_iff_left hend, hprompt,
    quotesPaired_append_cons (by decide) (by decide),
    quotesPaired_cons (by decide) (by decide), quotesPaired_entryLines]
  have hmark : QuotesPaired ['#', 'k'] := quotesPaired_of_not_mem (by decide)
  simp [hmark]

end Drafting

/-- In the group of a context the draft hands the quoted words to a feature. -/
def Draft.Shows (d : Draft) (r : Registry) (name : String) (c : StatusContext) (words : String) :
    Prop :=
  ∃ send, r.lookup name = .ok send ∧
    ∃ g ∈ d.groups, g.context = c ∧ r.statement send (.single (Text.quote words)) ∈ g.statements

namespace Registry

variable {r : Registry} {resources : ResourceTable} {content : Element} {root : Node} {count : Nat}
  {d : Draft}

/-- What a node writes stands in the draft, whatever leads back from the node. -/
theorem Drafts.shows (h : r.Drafts resources content root count d) {q : Path} {m : Node}
    (hat : root.assignContexts.1.at? q = some m) {name words : String} {c : StatusContext}
    {send : Feature} (hsend : r.lookup name = .ok send)
    (hwrites : ∀ back, ∃ e ∈ m.emissions r back q,
      e.context = c ∧ r.statement send (.single (Text.quote words)) ∈ e.statements) :
    d.Shows r name c words := by
  have hscene := Vocabulary.scene_prepared h.built
  obtain ⟨back, hsub⟩ :=
    hscene.flows.exists_emissions (r := r) (p := []) (b := none) hscene.wellFormed
      hscene.separate hat
  obtain ⟨e, he, rfl, hstatement⟩ := hwrites back
  rw [Draft.Shows, Drafting.scene_ok hscene.wellFormed h.drafted]
  exact ⟨send, hsend, Emission.exists_group (hsub e he) hstatement⟩

theorem Drafts.drafted_at (h : r.Drafts resources content root count d) {q : Path} {m : Node}
    (hat : root.assignContexts.1.at? q = some m) : Drafting.Drafted r m :=
  Drafting.Drafted.at? ⟨none, .empty, d, h.drafted⟩
    (Vocabulary.scene_prepared h.built).wellFormed hat

end Registry

/-- An assertion and a question with texts in which backslashes stand before quotes and at the end,
and a prompt with such texts. -/
def Sample.drives : Element :=
  element "ifndef" [⟨"name", "shop"⟩]
    [element "assert" [⟨"type", "job"⟩, ⟨"cond", "$x > 100"⟩, ⟨"onFail", "C:\\"⟩] [],
      element "message" [⟨"style", "yn"⟩, ⟨"text", "say \"hi\""⟩, ⟨"no", "D:\\\""⟩] [],
      element "options" [⟨"text", "E:\\"⟩] [element "option" [⟨"text", "F:\\"⟩] []]]

def Sample.drivesGraph : Node :=
  .fresh .block
    [Vocabulary.assertion job "$x > 100" (.leaf (.message 0 .ok "C:\\"))
      [.leaf (.message 1 (.yesNo "D:\\\"") "say \"hi\""),
        .fresh (.options 2 "E:\\") [.fresh (.option "F:\\") []]]]

theorem Sample.drives_builds : fullVocabulary.scene drives 0 = .ok drivesGraph 3 := rfl

namespace Registry

open Text

/-- Every message, every refusal of a question and every prompt hands its quoted text to the
feature that shows it; the message of a failed assertion is one of the messages. The quoted text is
one literal exactly if the backslashes before each quote of the text and at its end escape one
another. In a prompt this is asked of the quotes of the text and of each label. -/
theorem shown_literal_iff {r : Registry} {resources : ResourceTable} {content : Element}
    {root : Node} {count : Nat} {d : Draft} (h : r.Drafts resources content root count d) :
    (∀ (q : Path) (status : Status) (style : MessageStyle) (text : String) (c : StatusContext)
      (ns : List Node),
      root.assignContexts.1.at? q = some (.mk (.message status style text) c ns) →
      d.Shows r style.featureName c text ∧
      (IsLiteral (quote text).toList ↔ QuotesPaired text.toList ∧ Paired text.toList)) ∧
    (∀ (q : Path) (status : Status) (no text : String) (c : StatusContext) (ns : List Node),
      root.assignContexts.1.at? q = some (.mk (.message status (.yesNo no) text) c ns) →
      d.Shows r MessageStyle.ok.featureName (.singleton status) no ∧
      (IsLiteral (quote no).toList ↔ QuotesPaired no.toList ∧ Paired no.toList)) ∧
    ∀ (q : Path) (status : Status) (text : String) (c : StatusContext) (ns : List Node),
      root.assignContexts.1.at? q = some (.mk (.options status text) c ns) →
      d.Shows r Drafting.optionsFeature c (Drafting.prompt text ns) ∧
      (IsLiteral (quote (Drafting.prompt text ns)).toList ↔ QuotesPaired text.toList ∧
        ∀ n ∈ ns, ∀ label, n.kind = .option label → QuotesPaired label.toList) := by
  refine ⟨fun q status style text c ns hat => ⟨?_, isLiteral_quote text⟩,
    fun q status no text c ns hat => ⟨?_, isLiteral_quote no⟩,
    fun q status text c ns hat => ⟨?_, Drafting.isLiteral_prompt text ns⟩⟩
  · obtain ⟨send, hsend⟩ := (h.drafted_at hat).message_feature
    refine h.shows hat hsend fun back =>
      ⟨⟨c, q, .setStatus status :: r.shown style text ++ [.leave]⟩, ?_, rfl, ?_⟩
    · simp [Node.emissions_message]
    · simp [shown, builtIn, hsend]
  · obtain ⟨send, _, hsend, -⟩ := (h.drafted_at hat).refusal_features
    refine h.shows hat hsend fun back =>
      ⟨⟨.singleton status, q, r.refusal back (.yesNo no)⟩, ?_, rfl, ?_⟩
    · simp [Node.emissions_message]
    · simp [refusal, builtIn, hsend]
  · obtain ⟨send, hsend⟩ := (h.drafted_at hat).options_feature
    refine h.shows hat hsend fun back =>
      ⟨⟨c, q, .setStatus status :: r.prompted text ns ++ [.leave]⟩, ?_, rfl, ?_⟩
    · simp [Node.emissions_options]
    · simp [prompted, builtIn, hsend]

/-- The failed assertion shows a text that is no literal, and so does the refusal; the question and
the prompt do not. -/
theorem drives_shown_literal_iff :
    ∃ d, Sample.fullRegistry.Drafts .empty Sample.drives Sample.drivesGraph 3 d ∧
      (∃ c, d.Shows Sample.fullRegistry "dlg_Ok" c "C:\\") ∧ ¬ IsLiteral (quote "C:\\").toList ∧
      (∃ c, d.Shows Sample.fullRegistry "dlg_YesNo" c "say \"hi\"") ∧
      IsLiteral (quote "say \"hi\"").toList ∧
      d.Shows Sample.fullRegistry "dlg_Ok" (.singleton 1) "D:\\\"" ∧
      ¬ IsLiteral (quote "D:\\\"").toList ∧
      (∃ c, d.Shows Sample.fullRegistry "dlg_Options" c "E:\\#b\\r\\n#L0#F:\\#l#k") ∧
      IsLiteral (quote "E:\\#b\\r\\n#L0#F:\\#l#k").toList := by
  obtain ⟨d, hd⟩ : ∃ d, Drafting.scene Sample.fullRegistry
      Sample.drivesGraph.assignContexts.1 .empty = .ok () d := ⟨_, rfl⟩
  have hdrafts : Sample.fullRegistry.Drafts .empty Sample.drives Sample.drivesGraph 3 d :=
    ⟨Sample.drives_builds, hd⟩
  obtain ⟨hmessages, hrefusals, hprompts⟩ := shown_literal_iff hdrafts
  obtain ⟨hfailure, hfailed⟩ := hmessages [0, 1, 0] 0 .ok "C:\\" _ _ rfl
  obtain ⟨hquestion, hasked⟩ := hmessages [0, 0, 0] 1 (.yesNo "D:\\\"") "say \"hi\"" _ _ rfl
  obtain ⟨hrefusal, hrefused⟩ := hrefusals [0, 0, 0] 1 "D:\\\"" "say \"hi\"" _ _ rfl
  obtain ⟨hprompt, hprompted⟩ := hprompts [0, 0, 1] 2 "E:\\" _ _ rfl
  refine ⟨d, hdrafts, ⟨_, hfailure⟩, ?_, ⟨_, hquestion⟩, ?_, hrefusal, ?_, ⟨_, hprompt⟩, ?_⟩
  · exact fun hliteral => absurd (hfailed.mp hliteral).2 (by decide)
  · exact hasked.mpr (by decide)
  · exact fun hliteral => absurd (hrefused.mp hliteral).1 (by decide)
  · refine hprompted.mpr ⟨by decide, fun n hn label hlabel => ?_⟩
    rw [List.mem_singleton.mp hn] at hlabel
    cases hlabel
    decide

end Registry

end SceneDispatch
