import Scoreboard.Arguments
import Scoreboard.Project

/-!
# The command line

Two commands: one sets up a project, asking for what its arguments do not say, and one builds
the datapack of a project or of given files. A command ends with an exit code, or with a
fault that nobody handles; what it printed and wrote until then stays.

Printing always succeeds. An output that cannot encode a text, because the text holds a lone
half or the output is no UTF-8, is left out, and so is one that is closed.
-/

namespace Scoreboard

/-- What a command works with: files, the lines typed at it, and what it prints. -/
structure Console where
  tree : FileTree := {}
  input : List Char := []
  output : Text := {}
  errors : Text := {}
  deriving DecidableEq, Inhabited

/-- A command at work. -/
abbrev Session := EStateM Fault Console

/-- The version of the program. -/
def version : String := "0.1.0"

/-- How the program is called. -/
def usage : String :=
  "usage: enderscript [-h] [--version] \x7binit,build\x7d ...\n"

namespace Session

/-! ## Input and output -/

/-- Print a text, whether it can be encoded or not. -/
def printText (text : Text) : Session Unit :=
  modify fun c => { c with output := c.output ++ text }

/-- Print a line. -/
def print (line : Text) : Session Unit := printText (line ++ "\n")

/-- Print several lines. -/
def printAll (lines : List Text) : Session Unit := printText (Text.unlines lines)

/-- Print a text for errors. -/
def complain (text : Text) : Session Unit :=
  modify fun c => { c with errors := c.errors ++ text }

/-- Take a step on the files. -/
def onFiles {α : Type} (step : Files α) : Session α := fun c =>
  match step c.tree with
  | .ok value tree => .ok value { c with tree }
  | .error fault tree => .error fault { c with tree }

/-- The result of a step that needs no files. -/
def ofExcept {α : Type} : Except Fault α → Session α
  | .ok value => return value
  | .error fault => throw fault

/-- Print a question and read the line typed after it. The last line may do without its
newline. -/
def readLine (prompt : Text) : Session (List Char) := do
  printText prompt
  let input := (← get).input
  if input.isEmpty then throw .endOfInput
  modify fun c => { c with input := (input.dropWhile (· != '\n')).drop 1 }
  return input.takeWhile (· != '\n')

/-- Ask for a text; an empty answer stands for the default. -/
def ask (question : String) (default : Text) : Session Text := do
  let answer := Text.trim (← readLine (question ++ " (" ++ default ++ "): "))
  return if answer.isEmpty then default else Text.ofChars answer

/-- Ask for a yes; an empty answer is one. -/
def confirm (question : String) : Session Bool := do
  let answer := Text.trim (← readLine s!"{question} [Y/n]: ")
  let word := String.ofList (answer.map Char.toLower)
  return answer.isEmpty || word == "y" || word == "yes"

/-- The current folder. -/
def root : Session Path := do
  return ⟨.root, (← get).tree.current⟩

/-! ## Setting up a project -/

/-- What is printed before the questions. -/
def intro : String :=
  "This utility will walk you through creating an EnderScript project.\n"
    ++ "It only covers the most common items, and tries to guess sensible defaults.\n"
    ++ "\n"
    ++ "Press ^C at any time to quit.\n"

/-- A given text that is not empty. -/
def given (text : Option Text) : Option Text :=
  text.filter fun text => !text.isEmpty

/-- A given string that is not empty. -/
def givenString (text : Option String) : Option Text := given (text.map Text.ofString)

/-- A given string, or the answer to a question. -/
def givenOrAsk (text : Option String) (question : String) (default : Text) : Session Text :=
  match givenString text with
  | some text => return text
  | none => ask question default

/-- The settings of a new project without questions. -/
def defaults (choices : Arguments.Init) (folderName : Text) : Project :=
  let name := (givenString choices.name).getD folderName
  { name := .string name
    space := .string ((givenString choices.space).getD name)
    source := .string ((givenString choices.source).getD "./src")
    output := .string ((givenString choices.output).getD "./out") }

/-- The settings of a new project, with questions for those that are not given. -/
def askSettings (choices : Arguments.Init) (folderName : Text) : Session Project := do
  let name ← givenOrAsk choices.name "Name" folderName
  let space ← givenOrAsk choices.space "Namespace" name
  let source ← givenOrAsk choices.source "Source folder" "./src"
  let output ← givenOrAsk choices.output "Output folder" "./out"
  return ⟨.string name, .string space, .string source, .string output⟩

/-- Write the settings of a project, and make its folders if that is wanted. -/
def setUp (project : Project) (structured : Bool) : Session Nat := do
  let root ← root
  let path ← onFiles (project.save root)
  if structured then onFiles (project.scaffold root)
  print ("Wrote " ++ path.text)
  return 0

/-- Set up a project in the current folder. -/
def init (choices : Arguments.Init) : Session Nat := do
  let name := (← root).name
  let folderName : Text := if name.isEmpty then defaultSpace else name
  if choices.yes then setUp (defaults choices folderName) (!choices.noStructure)
  else
    print intro
    let project ← askSettings choices folderName
    let structured ←
      if choices.noStructure then pure false
      else confirm "Generate corresponding file structure?"
    print ""
    if ← confirm "Proceed with the setup?" then setUp project structured
    else
      print "Setup wizard aborted."
      return 1

/-! ## Building a datapack -/

/-- The settings of the project in the current folder, none if it has no settings file. -/
def project? (root : Path) : Files (Option Project) := do
  if (← get).pathExists (root.join configName).text then return some (← Project.load root)
  return none

/-- Whether a fault lies in the contents of a settings file. -/
def inSettings : Fault → Bool
  | .encoding => true
  | .notJson => true
  | .longInteger _ => true
  | .noSettings _ => true
  | _ => false

/-- Take a step on the files. Problems with a path are handled; other faults are not. -/
def attempt {α : Type} (step : Files α) : Session (Except FileError α) := fun c =>
  match step c.tree with
  | .ok value tree => .ok (.ok value) { c with tree }
  | .error (.file error) tree => .ok (.error error) { c with tree }
  | .error fault tree => .error fault { c with tree }

/-- Compile files in order. The first that cannot be compiled ends the work with an exit
code. -/
def compileAll (space : Text) (debug : Bool) : List Path → Session (Except Nat (List Build))
  | [] => return .ok []
  | path :: rest => do
    match ← attempt (Files.compile space path.stem path.text path.text) with
    | .error error =>
      complain s!"error: {error.message}\n"
      return .error 1
    | .ok compilation =>
      if debug then printAll compilation.progress
      match compilation.result with
      | .error error =>
        match error.diagnostic? with
        | some diagnostic =>
          complain (diagnostic.shown.report ++ "\n")
          return .error 1
        | none => throw (.compile error)
      | .ok build =>
        match ← compileAll space debug rest with
        | .ok builds => return .ok (build :: builds)
        | .error code => return .error code

/-- The first block name that occurs twice, with the files of both blocks. -/
def clash? (owners : List (Text × Path)) :
    List (Text × Path) → Option (Text × Path × Path)
  | [] => none
  | (name, path) :: rest =>
    match owners.find? (·.1 == name) with
    | some owner => some (name, owner.2, path)
    | none => clash? ((name, path) :: owners) rest

/-- The blocks of compiled files with the file each is from. -/
def blockOwners (files : List Path) (builds : List Build) : List (Text × Path) :=
  (files.zip builds).flatMap fun (path, build) =>
    build.program.blocks.map fun block => (block.name, path)

/-- Print or write compiled files. -/
def deliver (choices : Arguments.Build) (space : Json) (output : Path) :
    List Build → Session Unit
  | [] => return
  | build :: rest => do
    if choices.ast then print build.script.outline
    if choices.print then print build.program.listing
    else
      let written ← onFiles (Datapack.write ⟨space, build.program⟩ output none)
      if choices.debug then printAll (written.map fun path => "  " ++ path.text)
    deliver choices space output rest

/-- The files to build: the given ones, or the sources of the project. -/
def inputFiles (choices : Arguments.Build) (project : Option Project) (root : Path) :
    Session (Except Text (List Path)) := do
  if !choices.files.isEmpty then
    return .ok (choices.files.map Path.ofText)
  match project with
  | some project =>
    let files ← onFiles (project.sources root)
    if files.isEmpty then return .error "no .es files to build"
    return .ok files
  | none => return .error ("no input files and no " ++ configName ++ " in " ++ root.text)

/-- The namespace: the given one, that of the project, or the default. -/
def chosenSpace (choices : Arguments.Build) (project : Option Project) : Json :=
  match given choices.space with
  | some space => .string space
  | none =>
    match project.map (·.space) with
    | some space => if space.isGiven then space else .string defaultSpace
    | none => .string defaultSpace

/-- The folder of the output: the given one, that of the project, or the default. -/
def chosenOutput (choices : Arguments.Build) (project : Option Project) (root : Path) :
    Except Fault Path :=
  match given choices.output, project with
  | some output, _ => .ok (Path.ofText output)
  | none, some project => project.outputFolder root
  | none, none => .ok (root.join "out")

/-- Compile files and deliver them, if all of them compile and no two blocks share a
name. -/
def buildFiles (choices : Arguments.Build) (files : List Path) (space : Json)
    (output : Path) : Session Nat := do
  match ← compileAll space.plainText choices.debug files with
  | .error code => return code
  | .ok builds =>
    match clash? [] (blockOwners files builds) with
    | some (name, first, second) =>
      complain ("error: function '" ++ name ++ "' is defined by both " ++ first.text
        ++ " and " ++ second.text ++ "\n")
      return 1
    | none =>
      deliver choices space output builds
      if !choices.print then
        print (s!"Built {builds.length} file(s) into " ++ output.text)
      return 0

/-- The settings of the project in the current folder. A fault in the contents of the
settings file is handled; other faults are not. -/
def settingsOrFault (root : Path) : Session (Except Fault (Option Project)) := fun c =>
  match project? root c.tree with
  | .ok project tree => .ok (.ok project) { c with tree }
  | .error fault tree =>
    if inSettings fault then .ok (.error fault) { c with tree }
    else .error fault { c with tree }

/-- Build a datapack. -/
def build (choices : Arguments.Build) : Session Nat := do
  let root ← root
  match ← settingsOrFault root with
  | .error fault =>
    complain ("error: " ++ fault.message ++ "\n")
    return 1
  | .ok project =>
    match ← inputFiles choices project root with
    | .error complaint =>
      complain ("error: " ++ complaint ++ "\n")
      return 1
    | .ok files =>
      let space := chosenSpace choices project
      let output ← ofExcept (chosenOutput choices project root)
      buildFiles choices files space output

/-! ## Commands -/

/-- Run the command that arguments ask for. -/
def run (arguments : List String) : Session Nat := do
  match Arguments.parse arguments with
  | .ok (.init choices) => init choices
  | .ok (.build choices) => build choices
  | .error .help =>
    printText usage
    return 0
  | .error .version =>
    print s!"enderscript {version}"
    return 0
  | .error .usage =>
    complain usage
    return 2

end Session

end Scoreboard
