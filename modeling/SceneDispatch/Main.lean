import SceneDispatch.Command.Run
import Std.Time
/-!
The program: the command line on the disk of the machine it runs on.
-/
namespace SceneDispatch

namespace Disk

/-- Some accesses report an error by its number and some by the negated number. -/
def hasNumber (code n : UInt32) : Bool := code = n || code = -n

def fault : IO.Error → FileFault
  | .noFileOrDirectory .. => .missing
  | .inappropriateType _ code details =>
    if hasNumber code 20 then .notDirectory
    else if hasNumber code 21 then .isDirectory
    else .other details
  | .invalidArgument _ code details => if hasNumber code 36 then .nameTooLong else .other details
  | e => .other e.toString

/-- An access to `path`. -/
def attempt {α : Type} (path : String) (action : IO α) : IO (Except FileFault α) := do
  if '\x00' ∈ path.toList then return .error .nameBroken
  try
    return .ok (← action)
  catch e =>
    return .error (fault e)

def fileKind : IO.FS.FileType → FileKind
  | .file => .file
  | .dir => .directory
  | _ => .other

def kind (path : String) : IO (Except FileFault FileKind) :=
  attempt path do
    return fileKind (← ((← IO.currentDir) / path).metadata).type

def read (path : String) : IO (Except FileFault String) := do
  match ← attempt path (IO.FS.readBinFile path) with
  | .error fault => return .error fault
  | .ok bytes =>
    match String.fromUTF8? bytes with
    | some text => return .ok text
    | none => return .error .notText

/-- A name that a directory holds. The name is known before it is looked up, so one that cannot be
looked up is listed all the same, as that of a file. -/
def listed (entry : IO.FS.DirEntry) : IO Listed :=
  try
    return ⟨entry.fileName, fileKind (← entry.path.symlinkMetadata).type⟩
  catch _ =>
    return ⟨entry.fileName, .file⟩

def list (path : String) : IO (Except FileFault (List Listed)) :=
  attempt path do
    let place := (← IO.currentDir) / path
    match (← place.metadata).type with
    | .dir => do
      -- below the shortest path to the directory, which leaves the most room for a name
      let entries ← (← IO.FS.realPath place).readDir
      entries.toList.mapM listed
    | _ => return []

def storage : Storage IO where
  kind := kind
  read := read
  write path text := attempt path (IO.FS.writeFile path text)
  list := list

end Disk

end SceneDispatch

def main (arguments : List String) : IO UInt32 := do
  let today ← Std.Time.PlainDate.now
  let setting := SceneDispatch.Setting.mk (← IO.currentDir).toString (toString today)
  let report ← SceneDispatch.Request.run SceneDispatch.Disk.storage setting arguments
  for line in report.lines do
    IO.println line
  return report.exitCode.toUInt32
