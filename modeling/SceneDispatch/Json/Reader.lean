import SceneDispatch.Json.Token
/-!
Reading JSON text. The arrays and objects that are still open stand on a stack; when a value is
complete, the innermost of them takes it.
-/
namespace SceneDispatch.Json

/-- An open array, or an open object with the name of the field being read; what they hold so far
stands in reverse. -/
inductive Frame where
  | array (items : List Json)
  | object (fields : List (Literal × Json)) (name : Literal)

mutual

/-- Reads a value inside the given frames. -/
def value? (stack : List Frame) : List Token → Option Json
  | .scalar v :: ts => complete? stack v ts
  | .beginArray :: .endArray :: ts => complete? stack (array []) ts
  | .beginArray :: ts => value? (.array [] :: stack) ts
  | .beginObject :: .endObject :: ts => complete? stack (object []) ts
  | .beginObject :: .scalar (string name) :: .colon :: ts => value? (.object [] name :: stack) ts
  | _ => none

/-- Goes on behind a complete value. -/
def complete? (stack : List Frame) (v : Json) : List Token → Option Json
  | [] => if stack.isEmpty then some v else none
  | t :: ts =>
    match stack, t with
    | .array items :: stack, .comma => value? (.array (v :: items) :: stack) ts
    | .array items :: stack, .endArray => complete? stack (array (v :: items).reverse) ts
    | .object fields name :: stack, .comma =>
      match ts with
      | .scalar (string next) :: .colon :: ts =>
        value? (.object ((name, v) :: fields) next :: stack) ts
      | _ => none
    | .object fields name :: stack, .endObject =>
      complete? stack (object ((name, v) :: fields).reverse) ts
    | _, _ => none

end

def parse? (source : String) : Option Json := tokens? source.toList >>= value? []

end SceneDispatch.Json
