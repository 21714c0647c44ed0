import SceneDispatch.Command.Request
import SceneDispatch.Files.Compile
import SceneDispatch.Script.Json
/-!
Running the command line. A run prints its result line by line and ends with an exit code: 0 when
the work was done, 1 when it failed, 2 when the command line was not understood.
-/
namespace SceneDispatch

structure Report where
  exitCode : Nat
  lines : List String
  deriving DecidableEq, Repr

namespace Report

def ofDiagnostic (d : Diagnostic) : Report :=
  ⟨1, ["RESULT:ERROR", "ERROR_CODE:" ++ d.code,
    "ERROR_MSG_JSON:" ++ (Json.ofText d.message).render]⟩

def ofRefusal : Refusal → Report
  | .help => ⟨0, []⟩
  | .usage => ⟨2, []⟩

def ofCompiled (f : CompiledFile) : Report :=
  ⟨0, ["RESULT:OK", "OUTPUT:" ++ f.output, s!"STATUS_GROUPS:{f.script.statusGroups.length}",
    "DEPENDENCIES_JSON:" ++ (Json.array (f.script.dependencies.map .ofText)).render]⟩

def ofBatch (files : List CompiledFile) : Report :=
  ⟨0, "RESULT:OK" :: files.map (fun f => "OUTPUT:" ++ f.output) ++ [s!"COMPILED:{files.length}"]⟩

end Report

/-- The surroundings of a run: the current directory and today's date. -/
structure Setting where
  directory : String
  today : String

namespace Request

variable {m : Type → Type} [Monad m]

def refuse {α : Type} (code message : String) : Filing m α := throw (.plain code message)

/-- The path of an existing file; `label` names it in the complaint. -/
def requireFile (store : Storage m) (s : Setting) (raw label : String) : Filing m String := do
  let path := Path.join s.directory raw
  match ← ExceptT.lift (store.kind path) with
  | .ok .file => return path
  | _ => refuse "CLI_SOURCE_NOT_FOUND" s!"{label} does not exist: {path}"

/-- The path of an existing directory. -/
def requireDirectory (store : Storage m) (s : Setting) (raw : String) : Filing m String := do
  let path := Path.join s.directory raw
  match ← ExceptT.lift (store.kind path) with
  | .ok .directory => return path
  | .ok _ => refuse "CLI_SOURCE_NOT_DIR" s!"dir is not a directory: {path}"
  | .error _ => refuse "CLI_SOURCE_NOT_FOUND" s!"dir does not exist: {path}"

def runCompile (store : Storage m) (s : Setting) (config input : String)
    (output date : Option String) : Filing m Report := do
  let config ← requireFile store s config "config"
  let input ← requireFile store s input "input"
  let output := output.map (Path.join s.directory)
  let r ← Filing.loadConfiguration store config
  return .ofCompiled (← Filing.compileFile store r input output (date.getD s.today))

def runBatch (store : Storage m) (s : Setting) (config directory : String) (date : Option String) :
    Filing m Report := do
  let config ← requireFile store s config "config"
  let directory ← requireDirectory store s directory
  if (← Filing.sceneFiles store directory).isEmpty then
    refuse "CLI_SOURCE_EMPTY" s!"No .xml scene files under {directory}"
  let r ← Filing.loadConfiguration store config
  return .ofBatch (← Filing.compileDirectory store r directory (date.getD s.today))

def perform (store : Storage m) (s : Setting) : Request → Filing m Report
  | .compile config input output date => runCompile store s config input output date
  | .batch config directory date => runBatch store s config directory date

/-- Runs the program with the arguments behind its name. -/
def run (store : Storage m) (s : Setting) (arguments : List String) : m Report := do
  match parse arguments with
  | .error refusal => return .ofRefusal refusal
  | .ok request =>
    match ← (request.perform store s).run with
    | .ok report => return report
    | .error d => return .ofDiagnostic d

end Request

end SceneDispatch
