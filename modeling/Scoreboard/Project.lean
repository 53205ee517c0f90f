import Scoreboard.Datapack
import Scoreboard.Json.Reader

/-!
# Projects

The settings of a project: its name, its namespace, and the folders of its sources and its
output, relative to the folder of the project. They are kept in a JSON file, and reading does
not check the types of their values; a setting that is no text is refused when it is used as
part of a path.
-/

namespace Scoreboard

/-- The name of the settings file. -/
def configName : String := "esconfig.json"

/-- The suffix of sources. -/
def sourceSuffix : String := ".es"

/-- The settings of a project. -/
structure Project where
  name : Json
  space : Json := .string defaultSpace
  source : Json := .string "./src"
  output : Json := .string "./out"
  deriving Inhabited

namespace Project

/-- Settings from the members of an object; unknown members do not count. -/
def ofMembers? (members : List (Text × Json)) : Option Project := do
  let name ← Json.get? "name" members
  let blank : Project := { name }
  return { name
           space := (Json.get? "namespace" members).getD blank.space
           source := (Json.get? "source" members).getD blank.source
           output := (Json.get? "output" members).getD blank.output }

/-- Settings as a JSON value. -/
def toJson (project : Project) : Json :=
  .object [("name", project.name), ("namespace", project.space),
    ("source", project.source), ("output", project.output)]

/-- The settings that a text holds. -/
def parse (path : Text) (text : List Char) : Except Fault Project :=
  match Json.read text with
  | .error .malformed => .error .notJson
  | .error (.tooLong digits) => .error (.longInteger digits)
  | .ok (.object members) =>
    match ofMembers? members with
    | some project => .ok project
    | none => .error (.noSettings path)
  | .ok _ => .error (.noSettings path)

/-- Read the settings of the project in a folder. -/
def load (root : Path) : Files Project := do
  let path := (root.join configName).text
  match parse path (← Files.readText path) with
  | .ok project => return project
  | .error fault => throw fault

/-- Write the settings into the folder of the project, and give the path. -/
def save (project : Project) (root : Path) : Files Path := do
  let path := root.join configName
  Files.writeText path project.toJson.write
  return path

/-- The folder of the sources. -/
def sourceFolder (project : Project) (root : Path) : Except Fault Path :=
  joinSetting root project.source

/-- The folder of the output. -/
def outputFolder (project : Project) (root : Path) : Except Fault Path :=
  joinSetting root project.output

/-- Make the folder of the sources, with a folder for the namespace in it, and the folder of
the output. -/
def scaffold (project : Project) (root : Path) : Files Unit := do
  let inner ← match project.sourceFolder root >>= (joinSetting · project.space) with
    | .ok path => pure path
    | .error fault => throw fault
  Files.makeFolders inner
  match project.outputFolder root with
  | .ok path => Files.makeFolders path
  | .error fault => throw fault

/-- Whether a name is that of a source. -/
def isSourceName (name : Text) : Bool :=
  (Text.ofString sourceSuffix).points.isSuffixOf name.points

/-- The sources among names below a folder, ordered name by name. -/
def sourcesAmong (folder : Path) (names : List (List Text)) : List Path :=
  let sources := names.filter fun name => isSourceName (name.getLastD {})
  let ordered := sources.mergeSort fun a b => !decide (b.map Text.codes < a.map Text.codes)
  ordered.map fun name => ⟨folder.anchor, folder.parts ++ name⟩

/-- The sources at any depth of a folder. There are none in a folder that no disk can
hold. -/
def sourcesIn (tree : FileTree) (folder : Path) : Except FileError (List Path) :=
  if (pathFlaw? folder.text).isSome then .ok []
  else (tree.list folder.text).map fun entries => sourcesAmong folder (entries.map (·.1))

/-- The sources of the project. -/
def sources (project : Project) (root : Path) : Files (List Path) := do
  match project.sourceFolder root with
  | .ok folder =>
    match sourcesIn (← get) folder with
    | .ok paths => return paths
    | .error error => throw (.file error)
  | .error fault => throw fault

end Project

end Scoreboard
