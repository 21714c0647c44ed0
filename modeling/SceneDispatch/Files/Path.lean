/-!
Paths as texts. Names are parted by slashes; an empty part or a single dot names nothing, and two
dots name the directory above. The last name has an extension when a dot stands behind at least
one character of it; the part before its last dot is its stem.
-/
namespace SceneDispatch.Path

def parts (path : List Char) : List (List Char) := path.splitOn '/'

def ofParts (parts : List (List Char)) : List Char := ['/'].intercalate parts

def isIdle (part : List Char) : Bool := part.isEmpty || part = ['.']

/-- The path without the idle parts at its end. -/
def trimmed (path : List Char) : List (List Char) :=
  ((parts path).reverse.dropWhile isIdle).reverse

/-- The last name of a path; a path that ends in the directory above has none. -/
def fileName? (path : List Char) : Option (List Char) :=
  match (trimmed path).getLast? with
  | none => none
  | some name => if name = ['.', '.'] then none else some name

/-- The text behind the last dot of a name. -/
def extensionOf? (name : List Char) : Option (List Char) :=
  let tail := (name.reverse.takeWhile (· ≠ '.')).reverse
  if tail.length + 1 < name.length then some tail else none

def stemOf (name : List Char) : List Char :=
  match extensionOf? name with
  | none => name
  | some extension => name.take (name.length - extension.length - 1)

def extension? (path : List Char) : Option (List Char) := fileName? path >>= extensionOf?

/-- Cuts the path behind the stem of its last name and adds an extension. -/
def setExtension (extension path : List Char) : List Char :=
  match fileName? path with
  | none => path
  | some name => ofParts ((trimmed path).dropLast ++ [stemOf name ++ '.' :: extension])

/-- Drops as many characters from the end as the old extension has, then sets the new one. When
that leaves a path that ends in the directory above, it is the result. -/
def withExtension (extension path : List Char) : List Char :=
  match extension? path with
  | none => setExtension extension path
  | some old => setExtension extension (path.take (path.length - old.length))

def hasExtension (extension : String) (path : String) : Bool :=
  extension? path.toList = some extension.toList

/-- The path of what holds the last name. -/
def parent (path : String) : String :=
  .ofList (ofParts (trimmed (ofParts (trimmed path.toList).dropLast)))

/-- A path seen from a directory; an absolute path stays. -/
def join (directory path : String) : String :=
  if ['/'].isPrefixOf path.toList then path
  else if directory.toList.getLast? = some '/' then directory ++ path
  else directory ++ "/" ++ path

/-- The most bytes that a name may have. -/
def nameLimit : Nat := 255

/-- The most bytes that a path may have. -/
def pathLimit : Nat := 4095

/-- Where a script goes by default: beside its scene. -/
def scriptFor (scene : String) : String := .ofList (withExtension ['j', 's'] scene.toList)

end SceneDispatch.Path
