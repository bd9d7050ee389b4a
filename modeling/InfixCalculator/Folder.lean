import InfixCalculator.Text.Quoted

/-!
# Files and folders

* `Files` is what a run may ask of the files around it: their bytes, and whether a path can be written.
* `Folder` holds files by their names, each with its bytes; `Folder.files` is what it answers. It has no folders in
  it, and nothing is known of what lies in the folders above it.
-/

namespace InfixCalculator

/-- What can go wrong with a path. -/
inductive PathFault where
  /-- There is nothing at the path. -/
  | missing (path : String)
  /-- The path goes on after a file. -/
  | notFolder (path : String)
  /-- There is a folder at the path. -/
  | isFolder (path : String)
  /-- The path or a name in it is too long. -/
  | tooLong (path : String)
  /-- The folder that the path leads into is not there. -/
  | missingFolder (parent : String)
  /-- A null character cannot stand in a path. -/
  | nullCharacter
  /-- The system gives another reason. -/
  | refused (reason : String)
  deriving DecidableEq

/-- The message of a fault. -/
def PathFault.message : PathFault → String
  | missing path => "[Errno 2] No such file or directory: " ++ Text.quoted path
  | notFolder path => "[Errno 20] Not a directory: " ++ Text.quoted path
  | isFolder path => "[Errno 21] Is a directory: " ++ Text.quoted path
  | tooLong path => "[Errno 36] File name too long: " ++ Text.quoted path
  | missingFolder parent => "Cannot save file into a non-existent directory: '" ++ parent ++ "'"
  | nullCharacter => "embedded null byte"
  | refused reason => reason

/-- What may be asked of files: the bytes at a path, and why a path cannot be written. -/
structure Files where
  read : String → Except PathFault (List UInt8)
  refusal : String → Option PathFault

/-! ## Paths -/

/-- The steps of a path: what stands between its slashes, nothing and the point apart. -/
def pathSteps (path : String) : List String :=
  (path.splitOn "/").filter fun step => step != "" && step != "."

/-- The slashes that a path from the root begins with: two if there are exactly two, and else one. -/
def pathRoot (path : String) : String :=
  if !path.startsWith "/" then ""
  else if path.startsWith "//" && !path.startsWith "///" then "//"
  else "/"

/-- The path of the folder that a path leads into. -/
def parentPath (path : String) : String :=
  let parent := pathRoot path ++ "/".intercalate (pathSteps path).dropLast
  if parent = "" then "." else parent

/-- The path holds a null character. -/
def hasNull (path : String) : Bool :=
  path.toList.contains '\x00'

/-- The greatest number of bytes in a name. -/
def longestName : Nat := 255

/-- The greatest number of bytes in a path. -/
def longestPath : Nat := 4095

/-- Files with their bytes. -/
structure Folder where
  entries : List (String × List UInt8) := []

namespace Folder

/-- The bytes of the file with a name. -/
def get? (folder : Folder) (name : String) : Option (List UInt8) :=
  folder.entries.lookup name

/-- Where steps through folders lead. -/
inductive Place where
  /-- To the folder itself. -/
  | here
  /-- To a folder above it. -/
  | above
  /-- To the file with a name. -/
  | file (name : String) (bytes : List UInt8)

/-- Why a step leads nowhere. -/
inductive Obstacle where
  | missing
  | notFolder
  | tooLong

/-- The place after one step, which may also be a point or nothing. -/
def step (folder : Folder) (place : Place) (name : String) : Except Obstacle Place :=
  match place with
  | .file _ _ => .error .notFolder
  | place =>
    if name = "" ∨ name = "." then .ok place
    else if name = ".." then .ok .above
    else if longestName < name.utf8ByteSize then .error .tooLong
    else
      match place, folder.get? name with
      | .here, some bytes => .ok (.file name bytes)
      | _, _ => .error .missing

/-- The place after some steps. -/
def walk (folder : Folder) (place : Place) : List String → Except Obstacle Place
  | [] => .ok place
  | name :: names =>
    match folder.step place name with
    | .error e => .error e
    | .ok place => folder.walk place names

/-- The place from which a path leads on. -/
def start (path : String) : Place :=
  if path.startsWith "/" then .above else .here

/-- The place that a path leads to. -/
def find (folder : Folder) (path : String) : Except Obstacle Place :=
  if path = "" then .error .missing
  else if longestPath < path.utf8ByteSize then .error .tooLong
  else folder.walk (start path) (path.splitOn "/")

/-- The fault of a path that leads nowhere. -/
def Obstacle.fault (path : String) : Obstacle → PathFault
  | missing => .missing path
  | notFolder => .notFolder path
  | tooLong => .tooLong path

/-- The bytes at a path. -/
def read (folder : Folder) (path : String) : Except PathFault (List UInt8) :=
  if hasNull path then .error .nullCharacter
  else
    match folder.find path with
    | .error e => .error (e.fault path)
    | .ok (.file _ bytes) => .ok bytes
    | .ok _ => .error (.isFolder path)

/-- Why there is no folder at a path. -/
def folderRefusal (folder : Folder) (path : String) : Option PathFault :=
  if hasNull path then some (.missingFolder path)
  else
    match folder.find path with
    | .ok .here | .ok .above => none
    | .error .tooLong => some (.tooLong path)
    | _ => some (.missingFolder path)

/-- Why no file of this name, the last step of a path, can be made or replaced in a folder. -/
def nameRefusal (path name : String) : Option PathFault :=
  if name = "." ∨ name = ".." ∨ path.endsWith "/" then some (.isFolder path)
  else if longestName < name.utf8ByteSize then some (.tooLong path)
  else none

/-- Why no file can be made or replaced at a path. -/
def fileRefusal (folder : Folder) (path : String) : Option PathFault :=
  if hasNull path then some .nullCharacter
  else if longestPath < path.utf8ByteSize then some (.tooLong path)
  else
    match (path.splitOn "/").reverse.dropWhile (· = "") with
    | [] => some (.isFolder path)
    | last :: before =>
      match folder.walk (start path) before.reverse with
      | .error e => some (e.fault path)
      | .ok (.file _ _) => some (.notFolder path)
      | .ok _ => nameRefusal path last

/-- Why a path cannot be written. -/
def refusal (folder : Folder) (path : String) : Option PathFault :=
  folder.folderRefusal (parentPath path) <|> folder.fileRefusal path

/-- The answers of the folder. -/
def files (folder : Folder) : Files :=
  ⟨folder.read, folder.refusal⟩

/-- The entries with the bytes of one replaced, or with a new one at the end. -/
def putEntry (name : String) (bytes : List UInt8) : List (String × List UInt8) → List (String × List UInt8)
  | [] => [(name, bytes)]
  | (n, b) :: rest => if n = name then (n, bytes) :: rest else (n, b) :: putEntry name bytes rest

/-- The folder after a file is written to a path that is not refused. A path with several steps leads out of it. -/
def save (folder : Folder) (path : String) (bytes : List UInt8) : Folder :=
  match path.startsWith "/", pathSteps path with
  | false, [name] => ⟨putEntry name bytes folder.entries⟩
  | _, _ => folder

end Folder

end InfixCalculator
