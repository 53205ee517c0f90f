import Scoreboard.Files
import Scoreboard.Json.Writer

/-!
# Datapacks

A program is written as a datapack: a file with its metadata, and one file of commands for
each block. The namespace comes from settings and may be any JSON value; only a text can name
a folder, so another value is refused when the first block is written.
-/

namespace Scoreboard

/-- The version of the format. -/
def packFormat : Int := 10

/-- The suffix of files of commands. -/
def functionSuffix : String := ".mcfunction"

/-- A path behind another one, which has to be a text. -/
def joinSetting (path : Path) : Json → Except Fault Path
  | .string text => .ok (path.join text)
  | _ => .error .notText

/-- A compiled program with the namespace as it was given. -/
structure Datapack where
  space : Json
  program : Program
  deriving Inhabited

namespace Datapack

/-- The file of a block. -/
def functionPath (pack : Datapack) (output : Path) (block : Text) : Except Fault Path := do
  let folder ← joinSetting (output.join "data") pack.space
  return (folder.join "functions").join (block ++ functionSuffix)

/-- The metadata; without a description, the namespace describes the datapack. -/
def metadata (pack : Datapack) (description : Option String) : Json :=
  let shown := match description with
    | some text => if text = "" then pack.space else .string text
    | none => pack.space
  .object [("pack", .object [("pack_format", .integer packFormat), ("description", shown)])]

/-- Write the files of blocks, and give their paths. -/
def writeBlocks (pack : Datapack) (output : Path) : List Block → Files (List Path)
  | [] => return []
  | block :: rest => do
    let path ← match pack.functionPath output block.name with
      | .ok path => pure path
      | .error fault => throw fault
    Files.makeFolders path.parent
    Files.writeText path block.text
    return path :: (← pack.writeBlocks output rest)

/-- Write a datapack into a folder, and give the paths of its files, the metadata first. -/
def write (pack : Datapack) (output : Path) (description : Option String) :
    Files (List Path) := do
  Files.makeFolders output
  let path := output.join "pack.mcmeta"
  Files.writeText path (pack.metadata description).write
  return path :: (← pack.writeBlocks output pack.program.blocks)

end Datapack

end Scoreboard
