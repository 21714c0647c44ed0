import SceneDispatch.Files.Compile
import SceneDispatch.Fixture.Case
import SceneDispatch.Text.Display
/-!
Checking a fixture: a directory with a configuration and a scene, against a recorded case.
-/
namespace SceneDispatch

inductive FixtureFault where
  | unreadable (path : String) (cause : FileFault)
  | caseMalformed (path : String)
  | schemaUnknown (found : String)
  | refused (fault : Fault)
  | accepted (expected : String)
  | refusedOtherwise (expected : String) (fault : Fault)
  | fragmentMissing (index : Nat) (fragment source : String)
  | groupsDiffer (expected actual : List StatusContext)
  | dependenciesDiffer (expected actual : List String)

namespace FixtureFault

def groupsText (groups : List StatusContext) : String :=
  " ".intercalate (groups.map StatusContext.render)

def message : FixtureFault → String
  | unreadable path cause => s!"Failed to read file {path}: {cause.text}"
  | caseMalformed path => s!"Failed to parse testcase {path}: <json>"
  | schemaUnknown found =>
    s!"Invalid testcase schema version \"{found}\", expected \"{FixtureCase.currentSchema}\"."
  | refused fault => s!"Compile error: {fault.diagnostic.render}"
  | accepted expected => s!"Expected error code {expected}, but the scene compiled."
  | refusedOtherwise expected fault =>
    s!"Expected error code {expected}, got {fault.code}: {fault.message}"
  | fragmentMissing index fragment source =>
    s!"Fragment {index} not found in order: {Text.display fragment}\n--- output ---\n{source}"
  | groupsDiffer expected actual =>
    s!"Status groups mismatch. expected={groupsText expected} actual={groupsText actual}"
  | dependenciesDiffer expected actual =>
    s!"Dependencies mismatch. expected={Text.displayAll expected} actual={Text.displayAll actual}"

end FixtureFault

namespace FixtureCase

/-- Looks for the fragments one behind the other, each at its first place; the index of the first
that is not found. -/
def missingFragment? (index : Nat) (text : List Char) : List String → Option (Nat × String)
  | [] => none
  | f :: fs =>
    match Text.afterFirst? f.toList text with
    | some rest => missingFragment? (index + 1) rest fs
    | none => some (index, f)

/-- What an expectation leaves open is not checked. -/
def agrees {α : Type} [DecidableEq α] (expected : Option α) (actual : α) : Bool :=
  match expected with
  | none => true
  | some e => e = actual

def checkScript (c : FixtureCase) (s : Script) : Except FixtureFault Unit :=
  match missingFragment? 0 s.source.toList c.fragments with
  | some (index, fragment) => .error (.fragmentMissing index fragment s.source)
  | none =>
    if !agrees c.statusGroups s.statusGroups then
      .error (.groupsDiffer (c.statusGroups.getD []) s.statusGroups)
    else if !agrees c.dependencies s.dependencies then
      .error (.dependenciesDiffer (c.dependencies.getD []) s.dependencies)
    else .ok ()

end FixtureCase

/-- The sources of a fixture. -/
structure FixtureSources where
  config : String
  scene : String

namespace Fixture

variable {m : Type → Type} [Monad m]

/-- Steps with access to files, which may fail as fixtures do. -/
abbrev Checking (m : Type → Type) := ExceptT FixtureFault m

/-- The date in the first line of every fixture's script. -/
def date : String := "2000-01-01"

def readFile (store : Storage m) (path : String) : Checking m String := do
  match ← ExceptT.lift (store.read path) with
  | .ok text => return text
  | .error cause => throw (.unreadable path cause)

def readSources (store : Storage m) (directory : String) : Checking m FixtureSources := do
  let config ← readFile store (Path.join directory "config.xml")
  let scene ← readFile store (Path.join directory "scene.xml")
  return ⟨config, scene⟩

def readCase (store : Storage m) (path : String) : Checking m FixtureCase := do
  let text ← readFile store path
  match Json.parse? text >>= FixtureCase.ofJson? with
  | none => throw (.caseMalformed path)
  | some c =>
    if c.schemaVersion = FixtureCase.currentSchema then return c
    else throw (.schemaUnknown c.schemaVersion)

def compileSources (s : FixtureSources) : Except Fault Script := do
  (← Registry.ofSource s.config).compile s.scene date

def compile (store : Storage m) (directory : String) : Checking m Script := do
  match compileSources (← readSources store directory) with
  | .ok script => return script
  | .error fault => throw (.refused fault)

/-- The verdict on a compilation when the scene should be refused with a code. -/
def checkRefusal (expected : String) : Except FixtureFault Script → Except FixtureFault Unit
  | .ok _ => .error (.accepted expected)
  | .error (.refused fault) =>
    if fault.code = expected then .ok () else .error (.refusedOtherwise expected fault)
  | .error other => .error other

/-- The case is read before anything else. -/
def check (store : Storage m) (directory casePath : String) : Checking m Unit := do
  let c ← readCase store casePath
  let result ← ExceptT.lift (compile store directory).run
  match c.refusal, result with
  | some expected, result => ofExcept (checkRefusal expected result)
  | none, .ok script => ofExcept (c.checkScript script)
  | none, .error fault => throw fault

end Fixture

end SceneDispatch
