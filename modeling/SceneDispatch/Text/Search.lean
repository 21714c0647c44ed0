/-!
Searching and replacing in character lists. Replacement goes once from left to right: inserted
text is not searched again, and occurrences do not overlap.
-/
namespace SceneDispatch.Text

/-- What follows the first occurrence of `p`, if there is one. -/
def afterFirst? (p : List Char) : List Char → Option (List Char)
  | [] => if p.isEmpty then some [] else none
  | c :: s => if p.isPrefixOf (c :: s) then some ((c :: s).drop p.length) else afterFirst? p s

/-- Whether `p` stands somewhere in the text. -/
def occurs (p s : List Char) : Bool := (afterFirst? p s).isSome

/-- Replaces the occurrences of `p`, after passing over `skip` characters without copying them. -/
def replaceFrom (p value : List Char) : Nat → List Char → List Char
  | _, [] => []
  | skip + 1, _ :: s => replaceFrom p value skip s
  | 0, c :: s =>
    if p.isPrefixOf (c :: s) then value ++ replaceFrom p value (p.length - 1) s
    else c :: replaceFrom p value 0 s

/-- Replaces every occurrence of the non-empty text `p`. -/
def replaceAll (p value s : List Char) : List Char := replaceFrom p value 0 s

/-- The texts between the commas of `s`; without a comma, `s` alone. -/
def commaFields (s : String) : List String := (s.toList.splitOn ',').map .ofList

end SceneDispatch.Text
