/-!
Command lines. Options are written `--name value` or `--name=value`, in any order behind the
command; each may be given once, and a separate value does not begin with a hyphen unless it is
one.
-/
namespace SceneDispatch

inductive Request where
  | compile (config input : String) (output date : Option String)
  | batch (config directory : String) (date : Option String)
  deriving DecidableEq, Repr

/-- Why a command line asks for no work. -/
inductive Refusal where
  | help
  | usage
  deriving DecidableEq, Repr

namespace Request

/-- The options given so far, with their values. -/
abbrev Options := List (String × String)

def isHyphenated (argument : String) : Bool :=
  ['-'].isPrefixOf argument.toList && argument ≠ "-"

/-- Adds an option that is known and has not been given yet. -/
def give (names : List String) (given : Options) (name value : String) : Except Refusal Options :=
  if name ∈ names && (given.lookup name).isNone then .ok (given ++ [(name, value)])
  else .error .usage

/-- The name of a long option, and the value attached to it. -/
def long (argument : List Char) : String × Option String :=
  let name := argument.takeWhile (· ≠ '=')
  let value := if name.length < argument.length then
      some (String.ofList (argument.drop (name.length + 1)))
    else none
  (.ofList name, value)

/-- Reads options from left to right; the first mistake or request for help decides. -/
def options (names : List String) (given : Options) : List String → Except Refusal Options
  | [] => .ok given
  | argument :: rest =>
    match argument.toList with
    | ['-', '-'] => if rest.isEmpty then .ok given else .error .usage
    | '-' :: '-' :: text =>
      match long text with
      | ("help", none) => .error .help
      | (name, some value) => do options names (← give names given name value) rest
      | (name, none) =>
        match rest with
        | [] => .error .usage
        | value :: rest =>
          if isHyphenated value then .error .usage
          else do options names (← give names given name value) rest
    | '-' :: 'h' :: _ => .error .help
    | _ => .error .usage

def required (given : Options) (name : String) : Except Refusal String :=
  match given.lookup name with
  | some value => .ok value
  | none => .error .usage

/-- The names that help can be asked for. -/
def commands : List String := ["compile", "batch", "help"]

/-- The request that the arguments behind the program's name make. -/
def parse : List String → Except Refusal Request
  | "compile" :: rest => do
    let given ← options ["config", "input", "output", "header-date"] [] rest
    return .compile (← required given "config") (← required given "input")
      (given.lookup "output") (given.lookup "header-date")
  | "batch" :: rest => do
    let given ← options ["config", "dir", "header-date"] [] rest
    return .batch (← required given "config") (← required given "dir") (given.lookup "header-date")
  | ["help"] => .error .help
  | ["help", name] => if name ∈ commands then .error .help else .error .usage
  | arguments => do
    discard <| options [] [] arguments
    .error .usage

end Request

end SceneDispatch
