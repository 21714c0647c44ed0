/-!
Positions in a source text. Lines and columns start at 1; a line ends after its line feed, and
every other character takes one column.
-/
namespace SceneDispatch

structure Location where
  line : Nat
  column : Nat
  deriving DecidableEq, Repr

namespace Location

def first : Location := ⟨1, 1⟩

def next (p : Location) (c : Char) : Location :=
  if c = '\n' then ⟨p.line + 1, 1⟩ else ⟨p.line, p.column + 1⟩

/-- The position behind `text` when it starts at `p`. -/
def past (p : Location) (text : List Char) : Location := text.foldl next p

end Location

/-- From the first character to just behind the last. -/
structure Span where
  start : Location
  stop : Location
  deriving DecidableEq, Repr

/-- The span of what has no place in a source. -/
def Span.synthetic : Span := ⟨.first, .first⟩

end SceneDispatch
