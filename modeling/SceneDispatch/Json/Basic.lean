/-!
JSON values, and the views of them that reading a record needs. A record is written as an object,
or as the array of its fields in order; fields of other names are passed over.
-/
namespace SceneDispatch

/-- What a string literal spells; nothing when its escapes spell no text. -/
abbrev Literal := Option String

inductive Json where
  | null
  | bool (value : Bool)
  | integer (value : Int)
  /-- A number that is not written as an integer. -/
  | real (text : String)
  | string (literal : Literal)
  | array (items : List Json)
  | object (fields : List (Literal × Json))

namespace Json

def ofText (text : String) : Json := string (some text)

def text? : Json → Option String
  | string literal => literal
  | _ => none

/-- An integer from `lo` to `hi`. -/
def integer? (lo hi : Int) : Json → Option Int
  | integer value => if lo ≤ value && value ≤ hi then some value else none
  | _ => none

def list? {α : Type} (item? : Json → Option α) : Json → Option (List α)
  | array items => items.mapM item?
  | _ => none

/-- A value that may be missing or null. -/
def optional? {α : Type} (value? : Json → Option α) : Option Json → Option (Option α)
  | none => some none
  | some null => some none
  | some v => (value? v).map some

/-- The named fields of a record, in the order of `names`. Every field has a name that is a text,
no field of `names` is given twice, and an array has no items beyond them. -/
def record? (names : List String) : Json → Option (List (Option Json))
  | object fields => do
    let given ← fields.mapM Prod.fst
    if (given.filter (· ∈ names)).Nodup then
      some (names.map fun name => fields.lookup (some name))
    else none
  | array items =>
    if items.length ≤ names.length then
      some (items.map some ++ List.replicate (names.length - items.length) none)
    else none
  | _ => none

end Json

end SceneDispatch
