/-!
# File paths

A path is its components between slashes.  A trailing slash and a trailing `.` component name the same
file as the path without them.  The extension of a file is what follows the last dot of its name; a
dot that opens the name starts no extension.
-/

namespace AppleII.FilePath

/-- A reversed path without the slashes and the `.` components at its end. -/
def dropTrailing : List Char → List Char
  | '/' :: r => dropTrailing r
  | '.' :: '/' :: r => dropTrailing r
  | r => r

/-- The last component of a path, and what stands before it. -/
def splitLast (path : String) : List Char × List Char :=
  let r := dropTrailing path.toList.reverse
  ((r.dropWhile (· != '/')).reverse, (r.takeWhile (· != '/')).reverse)

/-- Whether a component names a file, and not the directory itself or its parent. -/
def isName (component : List Char) : Bool :=
  component != [] && component != ['.'] && component != ['.', '.']

/-- The name of the file that a path leads to. -/
def fileName? (path : String) : Option String :=
  let (_, name) := splitLast path
  if isName name then some (.ofList name) else none

/-- The parts of a name before and after its last dot, if that dot does not open it. -/
def splitExtension (name : List Char) : List Char × Option (List Char) :=
  let after := (name.reverse.takeWhile (· != '.')).reverse
  let before := (name.reverse.dropWhile (· != '.')).tail.reverse
  if before.isEmpty then (name, none) else (before, some after)

/-- The extension of the file that a path leads to. -/
def extension? (path : String) : Option String :=
  let (_, name) := splitLast path
  if isName name then (splitExtension name).2.map .ofList else none

/-- A path without as many characters at its end as the extension of its file has. -/
def cutExtension (path : String) : String :=
  .ofList (path.toList.take (path.length - ((extension? path).getD "").length))

/-- A path with the extension of its file replaced, or one added.  A path that leads to no file without
its old extension, as `..dsk` does, only loses that. -/
def withExtension (path ext : String) : String :=
  let cut := cutExtension path
  let (dir, name) := splitLast cut
  if isName name then
    .ofList (dir ++ (splitExtension name).1) ++ (if ext.isEmpty then "" else "." ++ ext)
  else cut

/-- Whether a path holds a NUL. -/
def hasNul (path : String) : Bool := path.toList.contains '\x00'

/-- Whether a path starts at the root. -/
def isAbsolute (path : String) : Bool := path.toList.head? == some '/'

/-- A path that is meant from a directory, unless it starts at the root. -/
def join (dir path : String) : String :=
  if isAbsolute path || dir.isEmpty then path
  else if dir.toList.getLast? == some '/' then dir ++ path
  else dir ++ "/" ++ path

/-- The directory of the file that a path leads to. -/
def parent (path : String) : String :=
  let (dir, _) := splitLast path
  let trimmed := (dropTrailing dir.reverse).reverse
  if trimmed.isEmpty && isAbsolute path then "/" else .ofList trimmed

/-- A path with the name of its file replaced. -/
def withFileName (path name : String) : String :=
  match fileName? path with
  | some _ => join (parent path) name
  | none => join path name

end AppleII.FilePath
