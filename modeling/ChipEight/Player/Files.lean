import ChipEight.Word

/-!
# Files

A small tree of files under the directory in which the player starts, and what
comes of reading a path in it.
-/

namespace ChipEight.Player

/-- Why a file could not be read. -/
inductive FileRefusal
  | missing
  | isDirectory
  | notDirectory
  | nameTooLong
  | holdsNul
deriving DecidableEq, Repr

/-- The report of a refusal. -/
def FileRefusal.text : FileRefusal → String
  | missing => "No such file or directory (os error 2)"
  | isDirectory => "Is a directory (os error 21)"
  | notDirectory => "Not a directory (os error 20)"
  | nameTooLong => "File name too long (os error 36)"
  | holdsNul => "file name contained an unexpected NUL byte"

/-- Files by their paths, each path the names from the starting directory on. -/
abbrev Files := List (List String × List Byte)

namespace Files

/-- Where a walk along a path stands: in a directory of the tree, at a file of
it, or in a directory outside the tree. -/
inductive Place
  | directory (names : List String)
  | file (content : List Byte)
  | outside
deriving DecidableEq, Repr

/-- The most bytes that a name in a directory can have. -/
def nameLimit : Nat := 255

/-- The most bytes that a whole path can have. -/
def pathLimit : Nat := 4095

/-- What comes of a name that a directory does not hold. -/
def refusalOf (name : String) : FileRefusal :=
  if name.utf8ByteSize > nameLimit then .nameTooLong else .missing

/-- Whether a path runs through a directory. -/
def hasDirectory (files : Files) (names : List String) : Bool :=
  files.any fun (path, _) => path.length > names.length &&
    path.take names.length == names

/-- Go on from a place to a name. -/
def enter (files : Files) (place : Place) (name : String) :
    Except FileRefusal Place :=
  match place with
  | .file _ => .error .notDirectory
  | .outside =>
    if name = "" ∨ name = "." ∨ name = ".." then .ok .outside
    else .error (refusalOf name)
  | .directory names =>
    if name = "" ∨ name = "." then .ok place
    else if name = ".." then
      .ok (if names.isEmpty then .outside else .directory names.dropLast)
    else
      let path := names ++ [name]
      match files.lookup path with
      | some content => .ok (.file content)
      | none =>
        if files.hasDirectory path then .ok (.directory path)
        else .error (refusalOf name)

/-- Walk along a path, from the starting directory or from the root. -/
def walk (files : Files) (path : String) : Except FileRefusal Place :=
  let start := if path.startsWith "/" then Place.outside else .directory []
  (path.splitOn "/").foldlM files.enter start

/-- Read the file at a path, which is looked for only if it holds no zero
character and is not too long. -/
def read (files : Files) (path : String) : Except FileRefusal (List Byte) := do
  if path.contains '\x00' then throw .holdsNul
  if path.utf8ByteSize > pathLimit then throw .nameTooLong
  match ← files.walk path with
  | .file content => return content
  | _ => throw .isDirectory

end Files

end ChipEight.Player
