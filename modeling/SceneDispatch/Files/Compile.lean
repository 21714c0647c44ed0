import SceneDispatch.Compiler
import SceneDispatch.Files.Path
import SceneDispatch.Files.Storage
/-!
Compiling scene files. A script is written only when its scene compiles, and a batch stops at the
first scene that fails.
-/
namespace SceneDispatch

structure CompiledFile where
  input : String
  output : String
  script : Script

/-- Steps with access to files, which may fail. -/
abbrev Filing (m : Type → Type) := ExceptT Diagnostic m

namespace Filing

variable {m : Type → Type} [Monad m]

def ofFault {α : Type} : Except Fault α → Filing m α
  | .ok a => pure a
  | .error fault => throw fault.diagnostic

/-- Performs an access; a failure names the path. -/
def access {α : Type} (code path : String) (action : m (Except FileFault α)) : Filing m α := do
  match ← ExceptT.lift action with
  | .ok a => return a
  | .error fault => throw ((Diagnostic.plain code fault.text).within path)

def loadConfiguration (store : Storage m) (path : String) : Filing m Registry := do
  let source ← access "API_CONFIG_READ" path (store.read path)
  ofFault (Registry.ofSource source)

def compileFile (store : Storage m) (r : Registry) (input : String) (output : Option String)
    (date : String) : Filing m CompiledFile := do
  let source ← access "API_SOURCE_READ" input (store.read input)
  let script ← ofFault (r.compile source date)
  let output := output.getD (Path.scriptFor input)
  access "API_OUTPUT_WRITE" output (store.write output script.source)
  return ⟨input, output, script⟩

def isScene (l : Listed) : Bool := l.kind = .file && Path.hasExtension "xml" l.name

/-- The names of the scenes that a directory holds, in increasing order. -/
def sceneNames (listing : List Listed) : List String :=
  ((listing.filter isScene).map Listed.name).mergeSort

/-- The scenes directly inside a directory, in increasing order. -/
def sceneFiles (store : Storage m) (directory : String) : Filing m (List String) := do
  match ← ExceptT.lift (store.list directory) with
  | .ok listing => return (sceneNames listing).map (Path.join directory)
  | .error fault =>
    let text := s!"IO error for operation on {directory}: {fault.text}"
    throw ((Diagnostic.plain "API_SOURCE_SCAN" text).within directory)

/-- A failure to access a file already names its path; any other failure is put down to the
scene. -/
def inBatch (input : String) (d : Diagnostic) : Diagnostic :=
  if "API_".toList.isPrefixOf d.code.toList then d else d.within input

def compileAll (store : Storage m) (r : Registry) (date : String) :
    List String → Filing m (List CompiledFile)
  | [] => return []
  | input :: rest => do
    let first ← tryCatch (compileFile store r input none date) fun d => throw (inBatch input d)
    return first :: (← compileAll store r date rest)

def compileDirectory (store : Storage m) (r : Registry) (directory date : String) :
    Filing m (List CompiledFile) := do
  compileAll store r date (← sceneFiles store directory)

end Filing

end SceneDispatch
