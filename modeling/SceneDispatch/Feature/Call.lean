import SceneDispatch.Feature.Registry
/-!
Calls of features in script text, written `$name(a,b,c)`. A text is parted into the calls of
registered features and the characters between them; a call ends at the first closing parenthesis,
and what a call expands to is not searched for calls again.
-/
namespace SceneDispatch

structure Call where
  feature : Feature
  arguments : Arguments
  deriving DecidableEq, Repr

inductive Segment where
  | literal (c : Char)
  | call (c : Call)
  deriving DecidableEq, Repr

namespace Call

def beginsIdentifier (c : Char) : Bool := c.isAlpha || c = '_'

def isIdentifier : List Char → Bool
  | [] => false
  | c :: s => beginsIdentifier c && s.all fun c => c.isAlphanum || c = '_'

/-- Reads a call behind its dollar sign: the call, and how many characters it takes there. -/
def read? (r : Registry) (s : List Char) : Option (Call × Nat) :=
  let name := s.takeWhile (· ≠ '(')
  let rest := s.drop (name.length + 1)
  let arguments := rest.takeWhile (· ≠ ')')
  if name.length < s.length && arguments.length < rest.length && isIdentifier name then
    (r.find? (.ofList name)).map fun f =>
      let fields := (arguments.splitOn ',').filter (!·.isEmpty)
      (⟨f, .ofList (fields.map .ofList)⟩, name.length + arguments.length + 2)
  else none

/-- The segments of `s`, after passing over `skip` characters of it. -/
def segmentsFrom (r : Registry) : Nat → List Char → List Segment
  | _, [] => []
  | skip + 1, _ :: s => segmentsFrom r skip s
  | 0, c :: s =>
    match if c = '$' then read? r s else none with
    | some (call, n) => .call call :: segmentsFrom r n s
    | none => .literal c :: segmentsFrom r 0 s

def segments (r : Registry) (text : String) : List Segment := segmentsFrom r 0 text.toList

end Call

namespace Segment

def text (manager : String) : Segment → List Char
  | literal c => [c]
  | call c => (c.feature.expand manager c.arguments).toList

def dependency? : Segment → Option String
  | literal _ => none
  | call c => c.feature.dependency

end Segment

/-- A text with its calls expanded, and the dependencies that the called features bring. -/
structure Expansion where
  text : String
  dependencies : List String

namespace Expansion

def of (r : Registry) (manager text : String) : Expansion :=
  let segments := Call.segments r text
  ⟨.ofList (segments.flatMap (·.text manager)), segments.filterMap Segment.dependency?⟩

end Expansion

end SceneDispatch
