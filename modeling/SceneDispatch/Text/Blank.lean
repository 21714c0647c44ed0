/-!
Characters with the Unicode property White_Space, and trimming by them.
-/
namespace SceneDispatch.Text

/-- The ranges of code points that are white space; a zero-width space is not among them. -/
def blankRanges : List (Nat × Nat) :=
  [(0x09, 0x0D), (0x20, 0x20), (0x85, 0x85), (0xA0, 0xA0), (0x1680, 0x1680), (0x2000, 0x200A),
    (0x2028, 0x2029), (0x202F, 0x202F), (0x205F, 0x205F), (0x3000, 0x3000)]

def isBlank (c : Char) : Bool :=
  blankRanges.any fun (lo, hi) => lo ≤ c.toNat && c.toNat ≤ hi

def trimEndList (s : List Char) : List Char := (s.reverse.dropWhile isBlank).reverse

def trimList (s : List Char) : List Char := trimEndList (s.dropWhile isBlank)

def trim (s : String) : String := .ofList (trimList s.toList)

end SceneDispatch.Text
