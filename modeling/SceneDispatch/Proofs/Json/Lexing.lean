import Mathlib.Data.List.TakeWhile
import SceneDispatch.Json.Token
/-!
Texts that spell given tokens: blanks may stand before and behind each token, a character of a
string literal may be escaped or not, and a number may be written in any way that ends where the
next token begins. Main statement: such a text has exactly the tokens that it spells.
-/
namespace SceneDispatch.Json

section Numbers

/-- No number goes on into the text. -/
def EndsNumber (s : List Char) : Prop :=
  ∀ c ∈ s.head?, c.isDigit = false ∧ c ≠ '.' ∧ c ≠ 'e' ∧ c ≠ 'E'

variable {s r rest : List Char}

theorem endsNumber_nil : EndsNumber [] := by
  intro c hc
  simp at hc

theorem endsNumber_cons {c : Char} (hc : c ∈ [',', ':', ']', '\x7d']) : EndsNumber (c :: s) := by
  intro d hd
  have hcd : c = d := by simpa using hd
  rw [← hcd]
  simp only [List.mem_cons, List.not_mem_nil, or_false] at hc
  rcases hc with rfl | rfl | rfl | rfl <;> decide

theorem EndsNumber.takeWhile_append (h : EndsNumber rest) :
    (s ++ rest).takeWhile Char.isDigit = s.takeWhile Char.isDigit := by
  induction s with
  | nil =>
    cases rest with
    | nil => rfl
    | cons c rest => simp [(h c rfl).1]
  | cons c s ih => simp only [List.cons_append, List.takeWhile_cons, ih]

theorem EndsNumber.dropWhile_append (h : EndsNumber rest) :
    (s ++ rest).dropWhile Char.isDigit = s.dropWhile Char.isDigit ++ rest := by
  induction s with
  | nil =>
    cases rest with
    | nil => rfl
    | cons c rest => simp [(h c rfl).1]
  | cons c s ih =>
    simp only [List.cons_append, List.dropWhile_cons, ih]
    split <;> rfl

theorem fraction?_append (h : EndsNumber rest) (hs : fraction? s = some r) :
    fraction? (s ++ rest) = some (r ++ rest) := by
  unfold fraction? at hs
  split at hs
  · next t =>
    split at hs
    · cases hs
    · next hdigits =>
      cases hs
      show fraction? ('.' :: (t ++ rest)) = _
      simp only [fraction?, h.takeWhile_append, h.dropWhile_append, if_neg hdigits]
  · next hpoint =>
    cases hs
    unfold fraction?
    split
    · next t heq =>
      cases s with
      | nil => exact absurd rfl (h '.' (by simp_all)).2.1
      | cons c s =>
        simp only [List.cons_append, List.cons.injEq] at heq
        exact absurd (by rw [heq.1]) (hpoint s)
    · rfl

/-- What follows the sign of a number or an exponent. -/
def afterSign (signs : List Char) : List Char → List Char
  | [] => []
  | c :: s => if c ∈ signs then s else c :: s

theorem afterSign_append {signs : List Char} (hs : s ≠ []) :
    afterSign signs (s ++ rest) = afterSign signs s ++ rest := by
  cases s with
  | nil => exact absurd rfl hs
  | cons c s =>
    simp only [List.cons_append, afterSign]
    split <;> rfl

theorem exponent?_cons (c : Char) (s : List Char) :
    exponent? (c :: s) =
      if c = 'e' || c = 'E' then
        if ((afterSign ['+', '-'] s).takeWhile Char.isDigit).isEmpty then none
        else some ((afterSign ['+', '-'] s).dropWhile Char.isDigit)
      else some (c :: s) := by
  cases s with
  | nil => rfl
  | cons d s =>
    by_cases hplus : d = '+'
    · subst hplus
      rfl
    · by_cases hminus : d = '-'
      · subst hminus
        rfl
      · simp [exponent?, afterSign, hplus, hminus]

theorem exponent?_append (h : EndsNumber rest) (hs : exponent? s = some r) :
    exponent? (s ++ rest) = some (r ++ rest) := by
  cases s with
  | nil =>
    cases hs
    cases rest with
    | nil => rfl
    | cons c rest =>
      obtain ⟨-, -, he, hE⟩ := h c rfl
      simp [exponent?_cons, he, hE]
  | cons c s =>
    rw [List.cons_append, exponent?_cons]
    rw [exponent?_cons] at hs
    split at hs
    · next he =>
      rw [if_pos he]
      split at hs
      · cases hs
      · next hdigits =>
        cases hs
        have hne : s ≠ [] := by
          intro hnil
          subst hnil
          exact hdigits rfl
        rw [afterSign_append hne, h.takeWhile_append, h.dropWhile_append, if_neg hdigits]
    · next he =>
      cases hs
      rw [if_neg he]
      rfl

/-- The digits before a fraction: there is one, and a zero does not stand in front of others. -/
def isIntegerPart (digits : List Char) : Bool :=
  !(digits.isEmpty || (digits.head? = some '0' && digits ≠ ['0']))

theorem unsigned?_eq (s : List Char) :
    unsigned? s =
      if isIntegerPart (s.takeWhile Char.isDigit) then
        (fraction? (s.dropWhile Char.isDigit) >>= exponent?).map fun rest =>
          (if rest.length = (s.dropWhile Char.isDigit).length
            then some (digitsValue (s.takeWhile Char.isDigit)) else none, rest)
      else none := by
  unfold unsigned? isIntegerPart
  dsimp only
  split
  · next hbad =>
    rw [if_neg (by rw [hbad]; decide)]
    rfl
  · next hgood =>
    rw [if_pos (by rw [Bool.not_eq_true] at hgood; rw [hgood]; rfl)]
    cases fraction? (s.dropWhile Char.isDigit) >>= exponent? <;> rfl

theorem unsigned?_append {value : Option Nat} (h : EndsNumber rest)
    (hs : unsigned? s = some (value, r)) : unsigned? (s ++ rest) = some (value, r ++ rest) := by
  rw [unsigned?_eq] at hs ⊢
  rw [h.takeWhile_append, h.dropWhile_append]
  split at hs
  · next hpart =>
    rw [if_pos hpart]
    obtain ⟨r', hr', heq⟩ := Option.map_eq_some_iff.mp hs
    obtain ⟨m, hm, hr'⟩ := Option.bind_eq_some_iff.mp hr'
    obtain ⟨hvalue, rfl⟩ := Prod.mk.inj heq
    have hafter : (fraction? (s.dropWhile Char.isDigit ++ rest) >>= exponent?) =
        some (r' ++ rest) :=
      Option.bind_eq_some_iff.mpr ⟨m ++ rest, fraction?_append h hm, exponent?_append h hr'⟩
    rw [hafter, Option.map_some]
    simpa only [List.length_append, Nat.add_right_cancel_iff, Option.some.injEq, Prod.mk.injEq,
      and_true] using hvalue
  · cases hs

/-- The value of a number with the given text, of which `value` is the magnitude if it is an
integer. -/
def signed (negative : Bool) (text : List Char) (value : Option Nat) : Json :=
  match negative, value with
  | true, some (n + 1) => integer (.negSucc n)
  | false, some n => integer n
  | _, _ => real (.ofList text)

theorem afterSign_minus (hs : s.head? ≠ some '-') : afterSign ['-'] s = s := by
  cases s with
  | nil => rfl
  | cons c s => simpa [afterSign] using hs

theorem number?_eq (s : List Char) :
    number? s = (unsigned? (afterSign ['-'] s)).map fun p =>
      (signed (s.head? = some '-') (s.take (s.length - p.2.length)) p.1, p.2) := by
  unfold number?
  split
  · next s =>
    show (unsigned? s >>= _) = (unsigned? s).map _
    rcases unsigned? s with _ | ⟨_ | _ | n, rest⟩ <;> rfl
  · next hminus =>
    have hhead : s.head? ≠ some '-' := by
      intro hhead
      obtain ⟨s', rfl⟩ := List.head?_eq_some_iff.mp hhead
      exact hminus s' rfl
    rw [afterSign_minus hhead, decide_eq_false hhead]
    rcases unsigned? s with _ | ⟨_ | n, rest⟩ <;> rfl

theorem take_length_sub_append :
    (s ++ rest).take ((s ++ rest).length - (r ++ rest).length) = s.take (s.length - r.length) := by
  rw [List.length_append, List.length_append, Nat.add_sub_add_right,
    List.take_append_of_le_length (Nat.sub_le _ _)]

/-- Where a number ends, nothing behind it changes how it is read. -/
theorem number?_append {v : Json} (h : EndsNumber rest) (hs : number? s = some (v, r)) :
    number? (s ++ rest) = some (v, r ++ rest) := by
  rw [number?_eq] at hs ⊢
  -- the sign, if there is one, belongs to `s`, which is not empty
  have hne : s ≠ [] := by
    intro hnil
    subst hnil
    cases hs
  obtain ⟨⟨value, r'⟩, hr', heq⟩ := Option.map_eq_some_iff.mp hs
  obtain ⟨hv, rfl⟩ := Prod.mk.inj heq
  have hhead : (s ++ rest).head? = s.head? := by
    cases s with
    | nil => exact absurd rfl hne
    | cons c s => rfl
  rw [afterSign_append hne, unsigned?_append h hr', Option.map_some, hhead]
  dsimp only at hv ⊢
  rw [take_length_sub_append, hv]

theorem digitsValue_toDigits (n : Nat) : digitsValue (Nat.toDigits 10 n) = n := by
  have hvalue : digitsValue (Nat.toDigits 10 n) = Nat.ofDigitChars 10 (Nat.toDigits 10 n) 0 := by
    unfold digitsValue Nat.ofDigitChars
    simp only [Nat.mul_comm]
  rw [hvalue]
  exact Nat.ofDigitChars_toDigits (by decide) (by decide)

theorem eq_zero_of_head?_toDigits {n : Nat} (h : (Nat.toDigits 10 n).head? = some '0') :
    n = 0 := by
  induction n using Nat.strongRecOn with
  | ind n ih =>
    by_cases hn : n < 10
    · rw [Nat.toDigits_of_lt_base hn] at h
      have hdigit : ∀ n < 10, [n.digitChar].head? = some '0' → n = 0 := by decide
      exact hdigit n hn h
    · -- the first digit of `n` is that of `n / 10`
      rw [Nat.toDigits_of_base_le (by decide) (by omega), List.head?_append] at h
      obtain ⟨c, s, hs⟩ := List.exists_cons_of_ne_nil (Nat.toDigits_ne_nil (n := n / 10) (b := 10))
      rw [hs, List.head?_cons, Option.some_or, ← List.head?_cons (l := s), ← hs] at h
      have hdiv := ih (n / 10) (by omega) h
      omega

theorem isIntegerPart_toDigits (n : Nat) : isIntegerPart (Nat.toDigits 10 n) = true := by
  have hzero : (Nat.toDigits 10 n).head? = some '0' → Nat.toDigits 10 n = ['0'] := by
    intro h
    rw [eq_zero_of_head?_toDigits h]
    decide
  have hne : (Nat.toDigits 10 n).isEmpty = false := by simp [Nat.toDigits_ne_nil]
  unfold isIntegerPart
  simpa [hne, Nat.toDigits_ne_nil, Decidable.imp_iff_not_or] using hzero

theorem isDigit_of_mem_decimal {n : Nat} {c : Char} (hc : c ∈ Nat.toDigits 10 n) :
    c.isDigit = true :=
  Nat.isDigit_of_mem_toDigits (by decide) (by decide) hc

theorem unsigned?_toDigits (n : Nat) : unsigned? (Nat.toDigits 10 n) = some (some n, []) := by
  have hdigits : ∀ c ∈ Nat.toDigits 10 n, c.isDigit = true := fun c hc => isDigit_of_mem_decimal hc
  rw [unsigned?_eq, List.takeWhile_eq_self_iff.mpr hdigits, List.dropWhile_eq_nil_iff.mpr hdigits,
    if_pos (isIntegerPart_toDigits n), digitsValue_toDigits]
  rfl

/-- An integer is read back from its decimal text. -/
theorem number?_toString (value : Int) :
    number? (toString value).toList = some (integer value, []) := by
  cases value with
  | ofNat n =>
    have htext : (toString (Int.ofNat n)).toList = Nat.toDigits 10 n := by
      show (toString n).toList = _
      rw [Nat.toString_eq_ofList_toDigits, String.toList_ofList]
    have hhead : (Nat.toDigits 10 n).head? ≠ some '-' := by
      intro hhead
      exact absurd (isDigit_of_mem_decimal (List.mem_of_mem_head? hhead)) (by decide)
    rw [htext, number?_eq, afterSign_minus hhead, unsigned?_toDigits, decide_eq_false hhead]
    rfl
  | negSucc n =>
    have htext : (toString (Int.negSucc n)).toList = '-' :: Nat.toDigits 10 (n + 1) := by
      show ("-" ++ toString (n + 1)).toList = _
      rw [Nat.toString_eq_ofList_toDigits, String.toList_append]
      exact congrArg ('-' :: ·) String.toList_ofList
    rw [htext, number?_eq]
    show (unsigned? (Nat.toDigits 10 (n + 1))).map _ = _
    rw [unsigned?_toDigits]
    rfl

end Numbers

section Strings

/-- The texts of a piece of a string literal. -/
inductive Piece.Written : Piece → List Char → Prop
  | plain {c : Char} (hquote : c ≠ '"') (hbackslash : c ≠ '\\') (hcontrol : 0x20 ≤ c.toNat) :
    Written (.char c) [c]
  | escaped {e c : Char} (h : escaped? e = some c) : Written (.char c) ['\\', e]
  | unit {a b c d : Char} {n : Nat} (h : unit? a b c d = some n) :
    Written (.unit n) ['\\', 'u', a, b, c, d]

/-- The texts of the pieces of a string literal, with the quote that ends it. -/
inductive Closed : List Piece → List Char → Prop
  | quote : Closed [] ['"']
  | piece {p : Piece} {ps : List Piece} {text s : List Char}
    (hp : p.Written text) (hs : Closed ps s) : Closed (p :: ps) (text ++ s)

variable {p : Piece} {ps : List Piece} {text rest : List Char}

theorem Piece.Written.pieces?_append (hp : p.Written text) (s : List Char) :
    pieces? (text ++ s) = (pieces? s).map fun q => (p :: q.1, q.2) := by
  cases hp with
  | @plain c hquote hbackslash hcontrol =>
    have hc : ¬ (c = '\\' || c.toNat < 0x20) = true := by simp [hbackslash]; omega
    show pieces? (c :: s) = _
    rw [pieces?, if_neg hc]
    · cases pieces? s <;> rfl
    · exact hquote
    · intro _ _ _ _ _ hc' _
      exact hbackslash hc'
    · intro _ _ hc' _
      exact hbackslash hc'
  | @escaped e c h =>
    have hu : e ≠ 'u' := by
      intro hu
      subst hu
      cases h
    show pieces? ('\\' :: e :: s) = _
    rw [pieces?, h]
    · cases pieces? s <;> rfl
    · intro _ _ _ _ _ he _
      exact hu he
  | @unit a b c d n h =>
    show pieces? ('\\' :: 'u' :: a :: b :: c :: d :: s) = _
    rw [pieces?, h]
    cases pieces? s <;> rfl

theorem Closed.pieces?_append (h : Closed ps text) (rest : List Char) :
    pieces? (text ++ rest) = some (ps, rest) := by
  induction h with
  | quote => rfl
  | piece hp hs ih => rw [List.append_assoc, hp.pieces?_append, ih, Option.map_some]

end Strings

section Tokens

def marks : List (Char × Token) :=
  [('[', .beginArray), (']', .endArray), ('\x7b', .beginObject), ('\x7d', .endObject),
    (',', .comma), (':', .colon)]

/-- The texts of a token that is not a number. -/
inductive Token.Written : Token → List Char → Prop
  | mark {c : Char} {t : Token} (h : (c, t) ∈ marks) : Written t [c]
  | null : Written (.scalar null) ['n', 'u', 'l', 'l']
  | true : Written (.scalar (bool true)) ['t', 'r', 'u', 'e']
  | false : Written (.scalar (bool false)) ['f', 'a', 'l', 's', 'e']
  | string {ps : List Piece} {text : List Char} (h : Closed ps text) :
    Written (.scalar (string (literal ps))) ('"' :: text)

/-- The text is made of the tokens, with any blanks between them. -/
inductive LaidOut : List Token → List Char → Prop
  | nil : LaidOut [] []
  | space {c : Char} {ts : List Token} {s : List Char} (hc : isSpace c = true) (h : LaidOut ts s) :
    LaidOut ts (c :: s)
  | token {t : Token} {ts : List Token} {text s : List Char} (ht : t.Written text)
    (h : LaidOut ts s) : LaidOut (t :: ts) (text ++ s)
  | number {v : Json} {ts : List Token} {text s : List Char} (hv : number? text = some (v, []))
    (hs : EndsNumber s) (h : LaidOut ts s) : LaidOut (.scalar v :: ts) (text ++ s)

variable {c : Char} {t : Token} {ts : List Token} {text s r : List Char} {v : Json}

theorem Token.Written.token?_append (ht : t.Written text) (s : List Char) :
    token? (text ++ s) = some (t, s) := by
  cases ht with
  | mark h =>
    simp only [marks, List.mem_cons, Prod.mk.injEq, List.not_mem_nil, or_false] at h
    rcases h with ⟨rfl, rfl⟩ | ⟨rfl, rfl⟩ | ⟨rfl, rfl⟩ | ⟨rfl, rfl⟩ | ⟨rfl, rfl⟩ | ⟨rfl, rfl⟩
      <;> rfl
  | null => rfl
  | true => rfl
  | false => rfl
  | @string ps text h =>
    show (pieces? (text ++ s)).map _ = _
    rw [h.pieces?_append]
    rfl

theorem token?_of_number? (hs : number? s = some (v, r)) : token? s = some (.scalar v, r) := by
  unfold token?
  split <;> first | cases hs | rw [hs, Option.map_some]

theorem isSpace_of_token? (hs : token? (c :: s) = some (t, r)) : isSpace c = false := by
  rw [← Bool.not_eq_true]
  intro hc
  simp only [isSpace, Bool.or_eq_true, decide_eq_true_eq] at hc
  rcases hc with ((rfl | rfl) | rfl) | rfl <;> cases hs

theorem tokensFrom_eq_drop (n : Nat) (s : List Char) :
    tokensFrom n s = tokensFrom 0 (s.drop n) := by
  induction s generalizing n with
  | nil => cases n <;> rfl
  | cons c s ih =>
    cases n with
    | zero => rfl
    | succ n => exact ih n

theorem tokensFrom_token (hne : text ≠ []) (ht : token? (text ++ s) = some (t, s)) :
    tokensFrom 0 (text ++ s) = (t :: ·) <$> tokensFrom 0 s := by
  obtain ⟨c, text, rfl⟩ := List.exists_cons_of_ne_nil hne
  have hspace : ¬ isSpace c = true := by simpa using isSpace_of_token? ht
  have hskip : (text ++ s).length - s.length = text.length := by
    rw [List.length_append, Nat.add_sub_cancel]
  rw [List.cons_append] at ht ⊢
  rw [tokensFrom, if_neg hspace, ht]
  show (t :: ·) <$> tokensFrom ((text ++ s).length - s.length) (text ++ s) = _
  rw [hskip, tokensFrom_eq_drop, List.drop_left]

/-- A text has the tokens that it is made of. -/
theorem LaidOut.tokens?_eq (h : LaidOut ts s) : tokens? s = some ts := by
  unfold tokens?
  induction h with
  | nil => rfl
  | space hc h ih => rw [tokensFrom, if_pos hc, ih]
  | @token t ts text s ht h ih =>
    have hne : text ≠ [] := by
      intro hnil
      subst hnil
      cases ht
    rw [tokensFrom_token hne (ht.token?_append s), ih]
    rfl
  | @number v ts text s hv hs h ih =>
    have hne : text ≠ [] := by
      intro hnil
      subst hnil
      cases hv
    -- a number has no end of its own: the text behind it has to end it
    have htoken := token?_of_number? (number?_append hs hv)
    rw [List.nil_append] at htoken
    rw [tokensFrom_token hne htoken, ih]
    rfl

end Tokens

end SceneDispatch.Json
