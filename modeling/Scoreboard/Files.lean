import Scoreboard.Compilation
import Scoreboard.FileTree
import Scoreboard.Text.Quoted

/-!
# Working with files

Steps on a tree of files that may fail. What a step did before it failed stays done. Texts
are read as UTF-8, with every line ending turned into a newline, and are written as they are.
-/

namespace Scoreboard

/-- Why work with files ends. -/
inductive Fault where
  /-- A path does not lead where it should. -/
  | file (error : FileError)
  /-- A text cannot be a path. -/
  | flawedPath (flaw : PathFlaw)
  /-- A file is not UTF-8. -/
  | encoding
  /-- A text to be written cannot be encoded. -/
  | notEncodable
  /-- A settings file is not JSON. -/
  | notJson
  /-- A settings file holds an integer of too many digits. -/
  | longInteger (digits : Nat)
  /-- A settings file has no name in it. -/
  | noSettings (path : Text)
  /-- A setting that has to be a text is none. -/
  | notText
  /-- There is no answer to a question. -/
  | endOfInput
  /-- A source does not compile. -/
  | compile (error : CompileError)
  deriving DecidableEq, Repr, Inhabited

/-- A problem with its path, in words. -/
def FileError.message (error : FileError) : String :=
  error.problem.text ++ ": " ++ Text.quoted error.path

namespace Fault

/-- A fault in words. -/
def message : Fault → Text
  | file error => error.message
  | flawedPath .nullCharacter => "a path cannot hold a null character"
  | flawedPath .loneHalf => "a path cannot hold a lone half of a pair"
  | notEncodable => "a lone half of a pair cannot be encoded"
  | encoding => "the text is not UTF-8"
  | notJson => "the settings are not JSON"
  | longInteger digits =>
    s!"Exceeds the limit ({Text.digitLimit} digits) for integer string conversion: "
      ++ s!"value has {digits} digits; "
      ++ "use sys.set_int_max_str_digits() to increase the limit"
  | noSettings path => path ++ ": expected an object with a 'name' field"
  | notText => "a text is needed here"
  | endOfInput => "the input has ended"
  | compile (.scan .endOfText) => "the text has ended"
  | compile (.scan .numeral) => "an integer has too many digits"
  | compile (.parse (.diagnosed diagnostic)) => diagnostic.shown.message
  | compile (.parse .notOperator) => "there is no operator"
  | compile (.parse .exhausted) => "the script is nested too deeply"
  | compile (.generate diagnostic) => diagnostic.shown.message

end Fault

/-- Steps on a tree of files. -/
abbrev Files := EStateM Fault FileTree

namespace Files

/-- Refuse a text that cannot be a path. -/
def checkPath (path : Text) : Files Unit :=
  match pathFlaw? path with
  | some flaw => throw (.flawedPath flaw)
  | none => return

/-- The bytes of a file. -/
def readBytes (path : Text) : Files ByteArray := do
  checkPath path
  match (← get).read path with
  | .ok contents => return contents
  | .error error => throw (.file error)

/-- Write bytes into a file. -/
def writeBytes (path : Text) (contents : ByteArray) : Files Unit := do
  checkPath path
  match (← get).write path contents with
  | .ok tree => set tree
  | .error error => throw (.file error)

/-- The text of a file, named as it is written. -/
def readText (path : Text) : Files (List Char) := do
  match String.fromUTF8? (← readBytes path) with
  | some text => return Text.normalizeNewlines text.toList
  | none => throw .encoding

/-- Write a text into a file. The file is emptied before a text that cannot be encoded is
refused. -/
def writeText (path : Path) (text : Text) : Files Unit := do
  match text.string? with
  | some text => writeBytes path.text text.toUTF8
  | none =>
    writeBytes path.text .empty
    throw .notEncodable

/-- Make a folder; if there is one already, nothing is to be done. -/
def makeLastFolder (path : Path) : Files Unit := do
  checkPath path.text
  let tree ← get
  match tree.makeFolder path.text with
  | .ok tree => set tree
  | .error error => if tree.isFolder path.text then return else throw (.file error)

/-- Make a folder and the folders it lies in, the names of the path given from the last to
the first. -/
def makeFoldersTo (anchor : Anchor) : List Text → Files Unit
  | [] => makeLastFolder ⟨anchor, []⟩
  | name :: rest => do
    let path : Path := ⟨anchor, (name :: rest).reverse⟩
    checkPath path.text
    match (← get).makeFolder path.text with
    | .ok tree => set tree
    | .error error =>
      if error.problem = .notFound then
        makeFoldersTo anchor rest
        makeLastFolder path
      else if (← get).isFolder path.text then return
      else throw (.file error)

/-- Make a folder and the folders it lies in, as far as they are missing. -/
def makeFolders (path : Path) : Files Unit :=
  makeFoldersTo path.anchor path.parts.reverse

/-- Compile a file: read it under one path and name it by a text in diagnostics. -/
def compile (space name path shown : Text) : Files Compilation := do
  return Source.compile space name ⟨shown, ← readText path⟩

end Files

end Scoreboard
