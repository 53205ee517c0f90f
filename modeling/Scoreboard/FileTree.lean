import Scoreboard.Path

/-!
# Files and folders

A tree of files as a list of entries under their full names, as the disk gives them back,
together with the folder that relative paths start from. A path is followed name by name,
double dots going to the folder above; every folder on the way has to exist. The length of a
path and of each name looked up in a folder is limited. An operation that fails leaves the
tree as it was.

Links, permissions, and a disk that is full or fails are left out: an entry is a file or a
folder, and an operation fails only for the reasons in `FileProblem`.
-/

namespace Scoreboard

/-- A file with its contents, or a folder. -/
inductive Entry where
  | folder
  | file (contents : ByteArray)
  deriving Inhabited

instance : DecidableEq Entry
  | .folder, .folder => isTrue rfl
  | .folder, .file _ => isFalse nofun
  | .file _, .folder => isFalse nofun
  | .file a, .file b =>
    match ByteArray.instDecidableEq a b with
    | isTrue h => isTrue (congrArg Entry.file h)
    | isFalse h => isFalse fun heq => h (Entry.file.inj heq)

/-- Why an operation on a path fails. -/
inductive FileProblem where
  | notFound
  | alreadyExists
  | notFolder
  | isFolder
  | nameTooLong
  deriving DecidableEq, Repr, Inhabited

/-- A problem with the path it was found at. -/
structure FileError where
  problem : FileProblem
  path : Text
  deriving DecidableEq, Repr, Inhabited

/-- Files and folders under their full names, and the current folder. -/
structure FileTree where
  current : List Text := []
  entries : List (List Text × Entry) := []
  deriving DecidableEq, Inhabited

/-- Where a path leads. -/
inductive Place where
  /-- To an entry. -/
  | found (name : List Text) (entry : Entry)
  /-- To a free name in a folder. -/
  | vacant (name : List Text)
  /-- Nowhere. -/
  | failed (problem : FileProblem)
  deriving DecidableEq, Inhabited

namespace FileTree

/-- The entry of a full name; the root is a folder. -/
def get? (tree : FileTree) (name : List Text) : Option Entry :=
  if name = [] then some .folder
  else (tree.entries.find? (·.1 == name)).map (·.2)

/-- The entries with one put in, in the place of an earlier one of its name. -/
def putEntry (name : List Text) (entry : Entry) :
    List (List Text × Entry) → List (List Text × Entry)
  | [] => [(name, entry)]
  | old :: rest =>
    if old.1 = name then (name, entry) :: rest else old :: putEntry name entry rest

/-- The tree with an entry put in. -/
def put (tree : FileTree) (name : List Text) (entry : Entry) : FileTree :=
  { tree with entries := putEntry name entry tree.entries }

/-- The largest number of bytes in a name. -/
def nameLimit : Nat := 255

/-- The largest number of bytes in a path. -/
def pathLimit : Nat := 4095

/-- Follow names from a folder. -/
def follow (tree : FileTree) : List Text → List (List CodePoint) → Place
  | folder, [] => .found folder .folder
  | folder, part :: rest =>
    if part = [] ∨ part = [Path.dot] then tree.follow folder rest
    else if part = [Path.dot, Path.dot] then tree.follow folder.dropLast rest
    else if nameLimit < (Text.mk part).byteLength then .failed .nameTooLong
    else
      let name := folder ++ [(Text.mk part).diskName]
      match tree.get? name, rest with
      | some .folder, rest => tree.follow name rest
      | some (.file contents), [] => .found name (.file contents)
      | some (.file _), _ :: _ => .failed .notFolder
      | none, [] => .vacant name
      | none, _ :: _ => .failed .notFound

/-- Follow a path as it is written. -/
def place (tree : FileTree) (path : Text) : Place :=
  if pathLimit < path.byteLength then .failed .nameTooLong
  else
    match path.points with
    | [] => .failed .notFound
    | .char '/' :: rest => tree.follow [] (Text.split Path.slash rest)
    | points => tree.follow tree.current (Text.split Path.slash points)

/-- The contents of a file. -/
def read (tree : FileTree) (path : Text) : Except FileError ByteArray :=
  match tree.place path with
  | .found _ (.file contents) => .ok contents
  | .found _ .folder => .error ⟨.isFolder, path⟩
  | .vacant _ => .error ⟨.notFound, path⟩
  | .failed problem => .error ⟨problem, path⟩

/-- The tree with new contents of a file, which is created in its folder if need be. -/
def write (tree : FileTree) (path : Text) (contents : ByteArray) :
    Except FileError FileTree :=
  match tree.place path with
  | .found name (.file _) => .ok (tree.put name (.file contents))
  | .found _ .folder => .error ⟨.isFolder, path⟩
  | .vacant name => .ok (tree.put name (.file contents))
  | .failed problem => .error ⟨problem, path⟩

/-- The tree with a new folder, whose name must be free. -/
def makeFolder (tree : FileTree) (path : Text) : Except FileError FileTree :=
  match tree.place path with
  | .found _ _ => .error ⟨.alreadyExists, path⟩
  | .vacant name => .ok (tree.put name .folder)
  | .failed problem => .error ⟨problem, path⟩

/-- Whether a path leads to an entry. -/
def pathExists (tree : FileTree) (path : Text) : Bool :=
  match tree.place path with
  | .found _ _ => true
  | _ => false

/-- Whether a path leads to a folder. -/
def isFolder (tree : FileTree) (path : Text) : Bool :=
  match tree.place path with
  | .found _ .folder => true
  | _ => false

/-- The names below a folder, relative to it, with their entries. -/
def below (tree : FileTree) (folder : List Text) : List (List Text × Entry) :=
  tree.entries.filterMap fun (name, entry) =>
    if folder.isPrefixOf name ∧ folder ≠ name then some (name.drop folder.length, entry)
    else none

/-- The names below the folder of a path, relative to it; none if there is no folder. Only
a path that is too long is refused. -/
def list (tree : FileTree) (path : Text) :
    Except FileError (List (List Text × Entry)) :=
  match tree.place path with
  | .found name .folder => .ok (tree.below name)
  | .failed .nameTooLong => .error ⟨.nameTooLong, path⟩
  | _ => .ok []

end FileTree

/-- The words for a problem. -/
def FileProblem.text : FileProblem → String
  | notFound => "[Errno 2] No such file or directory"
  | alreadyExists => "[Errno 17] File exists"
  | notFolder => "[Errno 20] Not a directory"
  | isFolder => "[Errno 21] Is a directory"
  | nameTooLong => "[Errno 36] File name too long"

end Scoreboard
