import SceneDispatch.Text.Unprintable
/-!
Texts as they are displayed in messages: in quotes, on one line, with every character visible.
-/
namespace SceneDispatch.Text

def inRanges (ranges : List (Nat × Nat)) (c : Char) : Bool :=
  ranges.any fun (lo, hi) => lo ≤ c.toNat && c.toNat ≤ hi

/-- Characters that are displayed by their number: an extending one would merge with its
neighbour, and the others cannot be seen. -/
def isHidden (c : Char) : Bool := inRanges extendingRanges c || inRanges unprintableRanges c

def displayChar (c : Char) : List Char :=
  if c = '\x00' then ['\\', '0']
  else if c = '\t' then ['\\', 't']
  else if c = '\n' then ['\\', 'n']
  else if c = '\r' then ['\\', 'r']
  else if c = '\\' || c = '"' then ['\\', c]
  else if isHidden c then ['\\', 'u', '\x7b'] ++ Nat.toDigits 16 c.toNat ++ ['\x7d']
  else [c]

def display (s : String) : String := .ofList ('"' :: s.toList.flatMap displayChar ++ ['"'])

def displayAll (l : List String) : String := "[" ++ ", ".intercalate (l.map display) ++ "]"

end SceneDispatch.Text
