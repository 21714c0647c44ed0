import SceneDispatch.Json.Printer
import SceneDispatch.Json.Reader
import SceneDispatch.Proofs.Json.Lexing
/-!
Values as texts. Main statements: a text that is laid out from the tokens of a value is read as
that value, whatever its blanks and escapes, and the compact text of a value is laid out from its
tokens.
-/
namespace SceneDispatch.Json

section Escapes

variable {c : Char}

def shortEscapes : List Char := ['"', '\\', '\x08', '\t', '\n', '\x0c', '\r']

/-- How a character is written: a control character that has no short escape by its number. -/
def Piece.of (c : Char) : Piece :=
  if c.toNat < 0x20 && c ∉ shortEscapes then .unit c.toNat else .char c

theorem escape_short (hc : c ∈ shortEscapes) :
    ∃ e, escape c = ['\\', e] ∧ escaped? e = some c := by
  simp only [shortEscapes, List.mem_cons, List.not_mem_nil, or_false] at hc
  rcases hc with rfl | rfl | rfl | rfl | rfl | rfl | rfl <;> exact ⟨_, rfl, rfl⟩

theorem escape_of_not_short (hc : c ∉ shortEscapes) :
    escape c = if c.toNat < 0x20
      then ['\\', 'u', '0', '0', hexDigit (c.toNat / 16), hexDigit (c.toNat % 16)] else [c] := by
  simp only [shortEscapes, List.mem_cons, List.not_mem_nil, or_false, not_or] at hc
  simp [escape, hc]

theorem unit?_hexDigits : ∀ n < 0x20,
    unit? '0' '0' (hexDigit (n / 16)) (hexDigit (n % 16)) = some n := by decide

theorem Piece.written_escape (c : Char) : (Piece.of c).Written (escape c) := by
  unfold Piece.of
  by_cases hshort : c ∈ shortEscapes
  · obtain ⟨e, hescape, he⟩ := escape_short hshort
    rw [if_neg (by simp [hshort]), hescape]
    exact .escaped he
  · rw [escape_of_not_short hshort]
    by_cases hcontrol : c.toNat < 0x20
    · rw [if_pos (by simp [hcontrol, hshort]), if_pos hcontrol]
      exact .unit (unit?_hexDigits c.toNat hcontrol)
    · rw [if_neg (by simp [hcontrol]), if_neg hcontrol]
      have hquote : c ≠ '"' := fun h => hshort (by simp [h, shortEscapes])
      have hbackslash : c ≠ '\\' := fun h => hshort (by simp [h, shortEscapes])
      exact .plain hquote hbackslash (by omega)

theorem spell?_of_cons (c : Char) (ps : List Piece) :
    spell? (.of c :: ps) = (c :: ·) <$> spell? ps := by
  unfold Piece.of
  split
  · next h =>
    have hcontrol : c.toNat < 0x20 := by
      rw [Bool.and_eq_true, decide_eq_true_eq] at h
      exact h.1
    have htrailing : isTrailing c.toNat = false := by
      simp only [isTrailing, Bool.and_eq_false_iff, decide_eq_false_iff_not]
      omega
    have hleading : isLeading c.toNat = false := by
      simp only [isLeading, Bool.and_eq_false_iff, decide_eq_false_iff_not]
      omega
    rw [spell?.eq_def]
    simp only [htrailing, hleading, Bool.false_eq_true, if_false, Char.ofNat_toNat]
  · rfl

theorem closed_escape (s : List Char) : Closed (s.map .of) (s.flatMap escape ++ ['"']) := by
  induction s with
  | nil => exact .quote
  | cons c s ih =>
    rw [List.map_cons, List.flatMap_cons, List.append_assoc]
    exact .piece (Piece.written_escape c) ih

theorem literal_of (s : String) : literal (s.toList.map .of) = some s := by
  have hspell : ∀ l : List Char, spell? (l.map .of) = some l := by
    intro l
    induction l with
    | nil => rfl
    | cons c l ih => rw [List.map_cons, spell?_of_cons, ih]; rfl
  unfold literal
  rw [hspell, Option.map_some, String.ofList_toList]

theorem written_quoted (name : Literal) : (Token.scalar (string name)).Written (quoted name) := by
  cases name with
  | none =>
    have hunit : (Piece.unit 0xd800).Written ['\\', 'u', 'd', '8', '0', '0'] := .unit (by decide)
    exact .string (.piece hunit .quote)
  | some text =>
    have hwritten := Token.Written.string (closed_escape text.toList)
    rw [literal_of] at hwritten
    exact hwritten

end Escapes

section Tokens

/-- Puts commas between parts. -/
def joined : List (List Token) → List Token
  | [] => []
  | part :: parts => part ++ parts.flatMap (Token.comma :: ·)

mutual

def tokens : Json → List Token
  | array items => .beginArray :: (joined (itemTokens items) ++ [.endArray])
  | object fields => .beginObject :: (joined (fieldTokens fields) ++ [.endObject])
  | v => [.scalar v]

def itemTokens : List Json → List (List Token)
  | [] => []
  | v :: vs => tokens v :: itemTokens vs

def fieldTokens : List (Literal × Json) → List (List Token)
  | [] => []
  | (name, v) :: fs => (.scalar (string name) :: .colon :: tokens v) :: fieldTokens fs

end

theorem itemTokens_eq_map (items : List Json) : itemTokens items = items.map tokens := by
  induction items with
  | nil => rfl
  | cons v vs ih => rw [itemTokens, ih, List.map_cons]

def fieldPart (f : Literal × Json) : List Token := .scalar (string f.1) :: .colon :: tokens f.2

theorem fieldTokens_eq_map (fields : List (Literal × Json)) :
    fieldTokens fields = fields.map fieldPart := by
  induction fields with
  | nil => rfl
  | cons f fs ih => rw [fieldTokens, ih, List.map_cons, fieldPart]

variable {stack : List Frame} {ts : List Token} {v : Json}

theorem value?_beginArray (h : ts.head? ≠ some .endArray) :
    value? stack (.beginArray :: ts) = value? (.array [] :: stack) ts := by
  rw [value?]
  intro ts' hts
  rw [hts] at h
  exact h rfl

theorem head?_tokens_append (v : Json) (ts : List Token) :
    (tokens v ++ ts).head? ≠ some .endArray := by
  cases v <;> simp [tokens]

/-- The tokens of the value are read as that value, whatever is open around them and follows
them. -/
def ReadBack (v : Json) : Prop :=
  ∀ stack ts, value? stack (tokens v ++ ts) = complete? stack v ts

theorem complete?_items {items : List Json} (hitems : ∀ w ∈ items, ReadBack w)
    (done : List Json) (v : Json) (stack : List Frame) (ts : List Token) :
    complete? (.array done :: stack) v
        ((items.map tokens).flatMap (Token.comma :: ·) ++ .endArray :: ts) =
      complete? stack (array (done.reverse ++ v :: items)) ts := by
  induction items generalizing done v with
  | nil =>
    show complete? stack (array (v :: done).reverse) ts = _
    rw [List.reverse_cons]
  | cons w items ih =>
    rw [List.map_cons, List.flatMap_cons, List.cons_append, List.cons_append, List.append_assoc]
    show value? (.array (v :: done) :: stack) _ = _
    rw [hitems w (by simp), ih (fun u hu => hitems u (by simp [hu])), List.reverse_cons,
      List.append_assoc]
    rfl

theorem complete?_fields {fields : List (Literal × Json)} (hfields : ∀ f ∈ fields, ReadBack f.2)
    (done : List (Literal × Json)) (name : Literal) (v : Json) (stack : List Frame)
    (ts : List Token) :
    complete? (.object done name :: stack) v
        ((fields.map fieldPart).flatMap (Token.comma :: ·) ++ .endObject :: ts) =
      complete? stack (object (done.reverse ++ (name, v) :: fields)) ts := by
  induction fields generalizing done name v with
  | nil =>
    show complete? stack (object ((name, v) :: done).reverse) ts = _
    rw [List.reverse_cons]
  | cons f fields ih =>
    rw [List.map_cons, List.flatMap_cons, List.cons_append, List.cons_append, List.append_assoc]
    show value? (.object ((name, v) :: done) f.1 :: stack)
      (tokens f.2 ++ ((fields.map fieldPart).flatMap (Token.comma :: ·) ++ .endObject :: ts)) = _
    rw [hfields f (by simp), ih (fun g hg => hfields g (by simp [hg])), List.reverse_cons,
      List.append_assoc]
    rfl

theorem sizeOf_field_lt {f : Literal × Json} {fields : List (Literal × Json)} (hf : f ∈ fields) :
    sizeOf f.2 < sizeOf fields := by
  have hfields := List.sizeOf_lt_of_mem hf
  have hpair : sizeOf f = 1 + sizeOf f.1 + sizeOf f.2 := by cases f; rfl
  omega

theorem readBack (v : Json) : ReadBack v := by
  intro stack ts
  match v with
  | null => rfl
  | bool _ => rfl
  | integer _ => rfl
  | real _ => rfl
  | string _ => rfl
  | array [] => rfl
  | object [] => rfl
  | array (w :: ws) =>
    -- the first item is read in a new frame, which then takes the others
    have hws : ∀ u ∈ ws, ReadBack u := fun u hu => readBack u
    calc value? stack (tokens (array (w :: ws)) ++ ts)
        = value? stack (.beginArray :: (tokens w ++
            ((ws.map tokens).flatMap (Token.comma :: ·) ++ .endArray :: ts))) := by
          simp [tokens, joined, itemTokens, itemTokens_eq_map]
      _ = value? (.array [] :: stack) (tokens w ++
            ((ws.map tokens).flatMap (Token.comma :: ·) ++ .endArray :: ts)) :=
          value?_beginArray (head?_tokens_append w _)
      _ = complete? stack (array (w :: ws)) ts := by
          rw [readBack w, complete?_items hws]
          rfl
  | object ((name, w) :: fs) =>
    have hfs : ∀ f ∈ fs, ReadBack f.2 := fun f hf => readBack f.2
    calc value? stack (tokens (object ((name, w) :: fs)) ++ ts)
        = value? stack (.beginObject :: .scalar (string name) :: .colon :: (tokens w ++
            ((fs.map fieldPart).flatMap (Token.comma :: ·) ++ .endObject :: ts))) := by
          simp [tokens, joined, fieldTokens, fieldTokens_eq_map]
      _ = value? (.object [] name :: stack) (tokens w ++
            ((fs.map fieldPart).flatMap (Token.comma :: ·) ++ .endObject :: ts)) := rfl
      _ = complete? stack (object ((name, w) :: fs)) ts := by
          rw [readBack w, complete?_fields hfs]
          rfl
termination_by sizeOf v
decreasing_by
  · have := List.sizeOf_lt_of_mem hu
    simp only [array.sizeOf_spec, List.cons.sizeOf_spec]
    omega
  · simp only [array.sizeOf_spec, List.cons.sizeOf_spec]
    omega
  · have := sizeOf_field_lt hf
    simp only [object.sizeOf_spec, List.cons.sizeOf_spec]
    omega
  · simp only [object.sizeOf_spec, List.cons.sizeOf_spec, Prod.mk.sizeOf_spec]
    omega

/-- A text that is laid out from the tokens of a value is read as that value. -/
theorem parse?_of_laidOut {v : Json} {text : String} (h : LaidOut (tokens v) text.toList) :
    parse? text = some v := by
  have hvalue := readBack v [] []
  rw [List.append_nil] at hvalue
  unfold parse?
  rw [h.tokens?_eq]
  exact hvalue

end Tokens

section Compact

/-- The numbers in a value are written as numbers. -/
inductive Proper : Json → Prop
  | null : Proper null
  | bool (value : Bool) : Proper (bool value)
  | integer (value : Int) : Proper (integer value)
  | real {text : String} (h : number? text.toList = some (real text, [])) : Proper (real text)
  | string (name : Literal) : Proper (string name)
  | array {items : List Json} (h : ∀ v ∈ items, Proper v) : Proper (array items)
  | object {fields : List (Literal × Json)} (h : ∀ f ∈ fields, Proper f.2) : Proper (object fields)

/-- Before a text in which no number goes on, the text is a layout of the part. -/
def Prints (part : List Token) (text : List Char) : Prop :=
  ∀ ts s, EndsNumber s → LaidOut ts s → LaidOut (part ++ ts) (text ++ s)

variable {v : Json} {part : List Token} {text : List Char}

theorem prints_enclosed {opening closing : Token} {c d : Char} (hc : (c, opening) ∈ marks)
    (hd : (d, closing) ∈ marks) (hends : d ∈ [',', ':', ']', '\x7d']) (h : Prints part text) :
    Prints (opening :: (part ++ [closing])) (c :: text ++ [d]) := by
  intro ts s _ hrest
  have hclosing : LaidOut (closing :: ts) (d :: s) := .token (.mark hd) hrest
  have hinner := h _ _ (endsNumber_cons hends) hclosing
  simpa using LaidOut.token (.mark hc) hinner

theorem separated_cons (text : List Char) (texts : List (List Char)) :
    separated (text :: texts) = text ++ texts.flatMap (',' :: ·) := by
  induction texts generalizing text with
  | nil => simp [separated]
  | cons next texts ih => rw [separated, ih, List.flatMap_cons, List.cons_append]; simp

section Lists

variable {α : Type} {part : α → List Token} {text : α → List Char} {items : List α}

theorem prints_following (h : ∀ a ∈ items, Prints (part a) (text a)) :
    ∀ ts s, EndsNumber s → LaidOut ts s →
      LaidOut ((items.map part).flatMap (Token.comma :: ·) ++ ts)
        ((items.map text).flatMap (',' :: ·) ++ s) ∧
      EndsNumber ((items.map text).flatMap (',' :: ·) ++ s) := by
  intro ts s hs hrest
  induction items with
  | nil => exact ⟨hrest, hs⟩
  | cons a items ih =>
    obtain ⟨hlaid, hends⟩ := ih (fun b hb => h b (by simp [hb]))
    simp only [List.map_cons, List.flatMap_cons, List.cons_append, List.append_assoc]
    refine ⟨.token (.mark (by simp [marks])) (h a (by simp) _ _ hends hlaid), ?_⟩
    exact endsNumber_cons (by simp)

theorem prints_separated (h : ∀ a ∈ items, Prints (part a) (text a)) :
    Prints (joined (items.map part)) (separated (items.map text)) := by
  intro ts s hs hrest
  cases items with
  | nil => exact hrest
  | cons a items =>
    have hitems : ∀ b ∈ items, Prints (part b) (text b) := fun b hb => h b (by simp [hb])
    obtain ⟨hlaid, hends⟩ := prints_following hitems ts s hs hrest
    rw [List.map_cons, List.map_cons, joined, separated_cons, List.append_assoc, List.append_assoc]
    exact h a (by simp) _ _ hends hlaid

end Lists

theorem renderItems_eq_map (items : List Json) : renderItems items = items.map renderList := by
  induction items with
  | nil => rfl
  | cons v vs ih => rw [renderItems, ih, List.map_cons]

theorem renderFields_eq_map (fields : List (Literal × Json)) :
    renderFields fields = fields.map renderField := by
  induction fields with
  | nil => rfl
  | cons f fs ih => rw [renderFields, ih, List.map_cons]

theorem prints_field {f : Literal × Json} (h : Prints (tokens f.2) (renderList f.2)) :
    Prints (fieldPart f) (renderField f) := by
  intro ts s hs hrest
  have hvalue : LaidOut (.colon :: (tokens f.2 ++ ts)) (':' :: (renderList f.2 ++ s)) :=
    .token (.mark (by simp [marks])) (h ts s hs hrest)
  have hfield := LaidOut.token (written_quoted f.1) hvalue
  rw [fieldPart, renderField, List.append_assoc]
  exact hfield

/-- The compact text of a value is a layout of its tokens. -/
theorem Proper.prints (hv : Proper v) : Prints (tokens v) (renderList v) := by
  induction hv with
  | null => exact fun ts s _ hrest => .token .null hrest
  | bool value =>
    intro ts s _ hrest
    cases value with
    | true => exact .token .true hrest
    | false => exact .token .false hrest
  | integer value => exact fun ts s hs hrest => .number (number?_toString value) hs hrest
  | real h => exact fun ts s hs hrest => .number h hs hrest
  | string name => exact fun ts s _ hrest => .token (written_quoted name) hrest
  | array _ ih =>
    rw [tokens, renderList, itemTokens_eq_map, renderItems_eq_map]
    exact prints_enclosed (by simp [marks]) (by simp [marks]) (by simp) (prints_separated ih)
  | object _ ih =>
    rw [tokens, renderList, fieldTokens_eq_map, renderFields_eq_map]
    exact prints_enclosed (by simp [marks]) (by simp [marks]) (by simp)
      (prints_separated fun f hf => prints_field (ih f hf))

theorem Proper.laidOut_render (hv : Proper v) : LaidOut (tokens v) v.render.toList := by
  have hlaid := hv.prints [] [] endsNumber_nil .nil
  rw [List.append_nil, List.append_nil] at hlaid
  rw [render, String.toList_ofList]
  exact hlaid

/-- A value is read back from its compact text. -/
theorem parse?_render (hv : Proper v) : parse? v.render = some v :=
  parse?_of_laidOut hv.laidOut_render

end Compact

end SceneDispatch.Json
