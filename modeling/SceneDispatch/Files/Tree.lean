import SceneDispatch.Files.Path
import SceneDispatch.Files.Storage
import SceneDispatch.Ordered.Table
/-!
File trees: a finite map from absolute paths to files and directories, without links. The root
directory always exists.
-/
namespace SceneDispatch

inductive FileContent where
  | file (bytes : ByteArray)
  | directory

instance : DecidableEq FileContent
  | .file a, .file b =>
    if h : a.data = b.data then .isTrue (congrArg FileContent.file (ByteArray.ext h))
    else .isFalse fun e => h (congrArg ByteArray.data (FileContent.file.inj e))
  | .file _, .directory => .isFalse nofun
  | .directory, .file _ => .isFalse nofun
  | .directory, .directory => .isTrue rfl

def FileContent.kind : FileContent → FileKind
  | .file _ => .file
  | .directory => .directory

/-- A file or a directory with the names that lead to it from the root. -/
structure FileEntry where
  path : List String
  content : FileContent
  deriving DecidableEq

abbrev FileTree := OrderedTable FileEntry.path

namespace FileTree

-- paths are compared name by name, whatever other orders of lists are in scope
local instance : LE (List String) := List.instLE

/-- Adds an entry, in place of the one that has its path. -/
def enter (t : FileTree) (e : FileEntry) : FileTree := t.insert e

theorem find?_enter (t : FileTree) (e : FileEntry) (path : List String) :
    (t.enter e).find? path = if e.path = path then some e else t.find? path :=
  OrderedTable.find?_insert t e path

def content? (t : FileTree) (path : List String) : Option FileContent :=
  if path.isEmpty then some .directory else (t.find? path).map FileEntry.content

/-- The steps that a path takes from the root. Empty parts count for nothing, except that a slash
at the end asks for a directory, as a single dot does. -/
def steps (path : String) : List String :=
  let parts := (Path.parts path.toList).map String.ofList
  parts.dropLast.filter (· ≠ "") ++ parts.getLast?.toList.map fun p => if p = "" then "." else p

def isSlashed (path : String) : Bool := path.toList.getLast? = some '/'

/-- The steps up to the last part that is not empty. -/
def nameSteps (path : String) : List String :=
  if isSlashed path then (steps path).dropLast else steps path

/-- A dot or two dots, which lead to a directory but name nothing in it. -/
def isDots (step : String) : Bool := step = "." || step = ".."

/-- Refuses a path that no file can have. -/
def checkPath (path : String) : Except FileFault Unit :=
  if '\x00' ∈ path.toList then .error .nameBroken
  else if Path.pathLimit < path.utf8ByteSize then .error .nameTooLong
  else .ok ()

/-- What a directory holds under a name. -/
def lookup (t : FileTree) (directory : List String) (name : String) :
    Except FileFault (Option FileContent) :=
  if Path.nameLimit < name.utf8ByteSize then .error .nameTooLong
  else .ok (t.content? (directory ++ [name]))

/-- Follows steps from a directory; every step but the last has to lead to a directory. -/
def walk (t : FileTree) (here : List String) : List String → Except FileFault (List String)
  | [] => .ok here
  | "." :: rest => walk t here rest
  | ".." :: rest => walk t here.dropLast rest
  | name :: rest =>
    match t.lookup here name with
    | .error fault => .error fault
    | .ok none => .error .missing
    | .ok (some (.file _)) => if rest.isEmpty then .ok (here ++ [name]) else .error .notDirectory
    | .ok (some .directory) => walk t (here ++ [name]) rest

def locate (t : FileTree) (path : String) : Except FileFault (List String) := do
  checkPath path
  walk t [] (steps path)

def find (t : FileTree) (path : String) : Except FileFault FileContent := do
  match t.content? (← t.locate path) with
  | some content => .ok content
  | none => .error .missing

def kind (t : FileTree) (path : String) : Except FileFault FileKind := do
  return (← t.find path).kind

def read (t : FileTree) (path : String) : Except FileFault String := do
  match ← t.find path with
  | .directory => .error .isDirectory
  | .file bytes =>
    match String.fromUTF8? bytes with
    | some text => .ok text
    | none => .error .notText

/-- Where a file to be written goes: an existing directory is refused, and so is a path that can
only name one. -/
def target (t : FileTree) (path : String) : Except FileFault (List String) := do
  checkPath path
  let names := nameSteps path
  match names.getLast? with
  | none => .error .isDirectory
  | some name =>
    if isDots name then do
      discard <| t.walk [] (names ++ ["."])
      .error .isDirectory
    else do
      let directory ← t.walk [] (names.dropLast ++ ["."])
      if isSlashed path then .error .isDirectory
      else if (← t.lookup directory name) = some .directory then .error .isDirectory
      else .ok (directory ++ [name])

def write (t : FileTree) (path text : String) : Except FileFault FileTree := do
  return t.enter ⟨← t.target path, .file text.toUTF8⟩

/-- What is directly inside a directory. -/
def listing (t : FileTree) (directory : List String) : List Listed :=
  t.entries.filterMap fun e =>
    if e.path.dropLast = directory then e.path.getLast?.map (⟨·, e.content.kind⟩) else none

def list (t : FileTree) (path : String) : Except FileFault (List Listed) := do
  let place ← t.locate path
  match t.content? place with
  | some .directory => .ok (t.listing place)
  | _ => .ok []

/-- Access to a file tree that is the state of a computation. A failed access changes nothing. -/
def storage : Storage (StateM FileTree) where
  kind path := return (← get).kind path
  read path := return (← get).read path
  write path text := do
    match (← get).write path text with
    | .ok t => do
      set t
      return .ok ()
    | .error fault => return .error fault
  list path := return (← get).list path

end FileTree

end SceneDispatch
