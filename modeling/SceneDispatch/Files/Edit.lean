import SceneDispatch.Files.Tree
/-!
Changing a file tree by paths. Directories are made together with those above them, and what a path
leads to is removed together with what it holds. What cannot be changed stays as it is.
-/
namespace SceneDispatch.FileTree

/-- Makes a directory, if nothing has its name yet. -/
def makeDirectory? (t : FileTree) (names : List String) : Option FileTree := do
  let name ← names.getLast?
  let directory ← (t.walk [] (names.dropLast ++ ["."])).toOption
  if isDots name then none
  match t.lookup directory name with
  | .ok none => some (t.enter ⟨directory ++ [name], .directory⟩)
  | _ => none

/-- The names on the way to each directory above what a path names, outermost first. -/
def above (path : String) : List (List String) :=
  let names := ((Path.trimmed path.toList).filter fun part => !Path.isIdle part).map String.ofList
  (List.range names.length).map fun n => names.take n

/-- Makes the directory that a path names and those above it, as far as they can be made. -/
def makeDirectories (t : FileTree) (path : String) : FileTree :=
  match checkPath path with
  | .error _ => t
  | .ok _ =>
    (above path ++ [nameSteps path]).foldl (fun t names => (t.makeDirectory? names).getD t) t

/-- Puts a file or a directory where a path says, and makes the directories above it. -/
def put (t : FileTree) (path : String) (content : FileContent) : FileTree :=
  let t := t.makeDirectories (Path.parent path)
  match content with
  | .directory => t.makeDirectories path
  | .file bytes =>
    match t.target path with
    | .ok place => t.enter ⟨place, .file bytes⟩
    | .error _ => t

/-- The tree without the entries that have a property. -/
def without (t : FileTree) (p : FileEntry → Bool) : FileTree :=
  ⟨t.entries.filter fun e => !p e, t.sorted.filter _⟩

/-- Removes what a path leads to and everything in it. A directory that the path only leads to by
dots is emptied and stays. -/
def remove (t : FileTree) (path : String) : FileTree :=
  match t.locate path with
  | .error _ => t
  | .ok place =>
    if (nameSteps path).getLast?.all isDots then
      t.without fun e => place.isPrefixOf e.path && e.path ≠ place
    else t.without fun e => place.isPrefixOf e.path

end SceneDispatch.FileTree
