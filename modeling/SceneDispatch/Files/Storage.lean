/-!
Access to files. What a failed access reports is its cause; the operations are given for any kind
of store, so that the same program runs on a disk and on a file tree held as a value.
-/
namespace SceneDispatch

inductive FileFault where
  | missing
  | notDirectory
  | isDirectory
  | notText
  | nameTooLong
  | nameBroken
  | other (text : String)
  deriving DecidableEq, Repr

namespace FileFault

def text : FileFault → String
  | missing => "No such file or directory (os error 2)"
  | notDirectory => "Not a directory (os error 20)"
  | isDirectory => "Is a directory (os error 21)"
  | notText => "stream did not contain valid UTF-8"
  | nameTooLong => "File name too long (os error 36)"
  | nameBroken => "file name contained an unexpected NUL byte"
  | other text => text

end FileFault

/-- What a path leads to; a link that is not followed and a device are something else. -/
inductive FileKind where
  | file
  | directory
  | other
  deriving DecidableEq, Repr

/-- A name in a directory, and what it is the name of. -/
structure Listed where
  name : String
  kind : FileKind
  deriving DecidableEq, Repr

structure Storage (m : Type → Type) where
  kind : String → m (Except FileFault FileKind)
  read : String → m (Except FileFault String)
  write : String → String → m (Except FileFault Unit)
  /-- What is directly inside a directory, in any order and with links not followed; a file holds
  nothing. -/
  list : String → m (Except FileFault (List Listed))

end SceneDispatch
