import Scoreboard.Text
import Scoreboard.Text.Characters

/-!
# Command-line arguments

Arguments are sorted before any of them takes effect: an option by its name or by a part of
it that fits no other option, a group of one-letter flags behind one dash, a value, or `--`,
behind which everything is a value. A text with a dash in front counts as a value if it looks
like a negative number, or if it names no option and holds a space.

Then they take effect from left to right. Asking for help ends the work at once, also when a
later argument is wrong; but a group of flags is read whole before its first flag takes
effect. Files have to stand together.
-/

namespace Scoreboard.Arguments

/-! ## Options -/

/-- The switches of all commands. -/
inductive Switch where
  | help
  | version
  | yes
  | name
  | space
  | source
  | output
  | noStructure
  | ast
  | print
  | debug
  deriving DecidableEq, Repr, Inhabited

/-- A way to write a switch. -/
structure Spelling where
  text : String
  switch : Switch
  takesValue : Bool := false
  deriving DecidableEq, Repr, Inhabited

/-- The spellings before a command. -/
def commonSpellings : List Spelling :=
  [⟨"-h", .help, false⟩, ⟨"--help", .help, false⟩, ⟨"--version", .version, false⟩]

/-- The spellings of the command that sets up a project. -/
def initSpellings : List Spelling :=
  [⟨"-h", .help, false⟩, ⟨"--help", .help, false⟩, ⟨"--yes", .yes, false⟩,
   ⟨"-y", .yes, false⟩, ⟨"--name", .name, true⟩, ⟨"--namespace", .space, true⟩,
   ⟨"--source", .source, true⟩, ⟨"--output", .output, true⟩,
   ⟨"--no-structure", .noStructure, false⟩]

/-- The spellings of the command that builds a datapack. -/
def buildSpellings : List Spelling :=
  [⟨"-h", .help, false⟩, ⟨"--help", .help, false⟩, ⟨"--namespace", .space, true⟩,
   ⟨"--output", .output, true⟩, ⟨"--ast", .ast, false⟩, ⟨"--print", .print, false⟩,
   ⟨"--debug", .debug, false⟩]

/-! ## Sorting -/

/-- An argument after sorting. -/
inductive Item where
  | value (text : String)
  | separator
  | switch (spelling : Spelling) (explicit : Option String)
  | flags (letters : List Char)
  | unknown
  deriving DecidableEq, Repr, Inhabited

/-- The parts of a text around its first equals sign, if it has one. -/
def splitEquals : List Char → List Char × Option (List Char)
  | [] => ([], none)
  | '=' :: rest => ([], some rest)
  | c :: rest => ((c :: (splitEquals rest).1), (splitEquals rest).2)

/-- The spelling of a text. -/
def spelling? (spellings : List Spelling) (text : List Char) : Option Spelling :=
  spellings.find? fun spelling => spelling.text.toList = text

/-- Whether a text is a negative number; a newline at its end does not count. -/
def isNegativeNumber (text : List Char) : Bool :=
  let isDigit (c : Char) := (Text.digitValue? c).isSome
  let text := if text.getLast? = some '\n' then text.dropLast else text
  match text with
  | '-' :: rest =>
    let fraction := rest.dropWhile isDigit
    match fraction with
    | [] => !rest.isEmpty
    | '.' :: digits => !digits.isEmpty && digits.all isDigit
    | _ => false
  | _ => false

/-- An option with what stands behind its equals sign: behind a one-letter flag that takes
no value these are further flags, if there are any. -/
def sortExplicit (spelling : Spelling) (explicit : List Char) : Item :=
  match spelling.text.toList, explicit with
  | ['-', letter], other :: rest =>
    if spelling.takesValue then .switch spelling (some (String.ofList explicit))
    else .flags (letter :: other :: rest)
  | _, _ => .switch spelling (some (String.ofList explicit))

/-- A text with a dash that names no option. -/
def sortUnnamed (text : List Char) : Item :=
  if isNegativeNumber text || text.contains ' ' then .value (String.ofList text)
  else .unknown

/-- Sort an argument, none if it fits several options. -/
def sort? (spellings : List Spelling) (text : List Char) : Option Item :=
  match text with
  | '-' :: second :: rest =>
    let (word, explicit) := splitEquals text
    match spelling? spellings text, spelling? spellings word, explicit with
    | some spelling, _, _ => some (.switch spelling none)
    | none, some spelling, some explicit => some (sortExplicit spelling explicit)
    | none, _, _ =>
      if second = '-' then
        match spellings.filter fun spelling => word.isPrefixOf spelling.text.toList with
        | [] => some (sortUnnamed text)
        | [spelling] => some (.switch spelling (explicit.map String.ofList))
        | _ => none
      else if (spelling? spellings ['-', second]).isSome then some (.flags (second :: rest))
      else some (sortUnnamed text)
  | _ => some (.value (String.ofList text))

/-- Sort all arguments, none if one of them fits several options. -/
def sortAll? (spellings : List Spelling) : List String → Option (List Item)
  | [] => some []
  | argument :: rest =>
    if argument = "--" then some (.separator :: rest.map .value)
    else do
      let item ← sort? spellings argument.toList
      return item :: (← sortAll? spellings rest)

/-! ## Taking effect -/

/-- Why no command is run. -/
inductive Stop where
  | help
  | version
  | usage
  deriving DecidableEq, Repr, Inhabited

/-- Whether files can be taken still. -/
inductive FileRun where
  | awaited
  | taking
  | closed
  deriving DecidableEq, Repr, Inhabited

/-- What arguments have set so far: the values of switches, the latest first, the files, and
whether something was left over. -/
structure Settings where
  values : List (Switch × String) := []
  files : List String := []
  run : FileRun := .closed
  leftOver : Bool := false
  deriving DecidableEq, Repr, Inhabited

namespace Settings

/-- A switch takes effect. -/
def set (switch : Switch) (value : String) (settings : Settings) : Except Stop Settings :=
  match switch with
  | .help => .error .help
  | .version => .error .version
  | other => .ok { settings with values := (other, value) :: settings.values }

/-- The run of files before a switch ends. -/
def endRun (settings : Settings) : Settings :=
  { settings with run := if settings.run = .taking then .closed else settings.run }

/-- A value that belongs to no switch: a file, if files can be taken. -/
def addFile (text : Option String) (settings : Settings) : Settings :=
  if settings.run = .closed then { settings with leftOver := true }
  else { settings with run := .taking, files := settings.files ++ text.toList }

/-- Flags take effect one after the other. -/
def setFlags (settings : Settings) : List Spelling → Except Stop Settings
  | [] => .ok settings
  | spelling :: rest => do (← settings.set spelling.switch "").setFlags rest

/-- The latest value of a switch. -/
def value? (switch : Switch) (settings : Settings) : Option String :=
  (settings.values.find? (·.1 == switch)).map (·.2)

/-- Whether a switch is set. -/
def isSet (switch : Switch) (settings : Settings) : Bool :=
  (settings.value? switch).isSome

end Settings

/-- The flags behind one dash, none if one of the letters is no flag. -/
def flags? (spellings : List Spelling) (letters : List Char) : Option (List Spelling) :=
  letters.mapM fun letter => spelling? spellings ['-', letter]

/-- What counts as the value behind an equals sign: the separator is no value, and leaves the
switch empty. -/
def explicitValue (text : String) : String := if text = "--" then "" else text

/-- Sorted arguments take effect. -/
def apply (spellings : List Spelling) : Settings → List Item → Except Stop Settings
  | settings, [] => .ok settings
  | settings, .value text :: rest => apply spellings (settings.addFile (some text)) rest
  | settings, .separator :: rest => apply spellings (settings.addFile none) rest
  | settings, .unknown :: rest =>
    apply spellings { settings.endRun with leftOver := true } rest
  | settings, .flags letters :: rest =>
    match flags? spellings letters with
    | some flags => do apply spellings (← settings.endRun.setFlags flags) rest
    | none => .error .usage
  | settings, .switch spelling explicit :: rest =>
    match spelling.takesValue, explicit, rest with
    | false, none, rest => do
      apply spellings (← settings.endRun.set spelling.switch "") rest
    | false, some _, _ => .error .usage
    | true, some value, rest => do
      apply spellings (← settings.endRun.set spelling.switch (explicitValue value)) rest
    | true, none, .value value :: rest => do
      apply spellings (← settings.endRun.set spelling.switch value) rest
    | true, none, _ => .error .usage

/-! ## Commands -/

/-- The choices for setting up a project. -/
structure Init where
  yes : Bool := false
  name : Option String := none
  space : Option String := none
  source : Option String := none
  output : Option String := none
  noStructure : Bool := false
  deriving DecidableEq, Repr, Inhabited

/-- The choices for building a datapack. The files, the namespace and the folder may be any
texts, also those that no string spells. -/
structure Build where
  files : List Text := []
  space : Option Text := none
  output : Option Text := none
  ast : Bool := false
  print : Bool := false
  debug : Bool := false
  deriving DecidableEq, Repr, Inhabited

/-- A command with its choices. -/
inductive Command where
  | init (choices : Init)
  | build (choices : Build)
  deriving DecidableEq, Repr, Inhabited

/-- The settings that arguments of a command lead to. -/
def settings (spellings : List Spelling) (run : FileRun) (arguments : List String) :
    Except Stop Settings :=
  match sortAll? spellings arguments with
  | none => .error .usage
  | some items => apply spellings { run } items

/-- The command of a name with its arguments, and whether something was left over. -/
def command (name : String) (arguments : List String) : Except Stop (Command × Bool) :=
  if name = "init" then do
    let s ← settings initSpellings .closed arguments
    return (.init ⟨s.isSet .yes, s.value? .name, s.value? .space, s.value? .source,
      s.value? .output, s.isSet .noStructure⟩, s.leftOver)
  else if name = "build" then do
    let s ← settings buildSpellings .awaited arguments
    return (.build ⟨s.files.map Text.ofString, (s.value? .space).map Text.ofString,
      (s.value? .output).map Text.ofString, s.isSet .ast, s.isSet .print, s.isSet .debug⟩,
      s.leftOver)
  else .error .usage

/-- What stands before the name of a command takes effect, then the command is read. -/
def applyCommon : Settings → List (Item × List String) → Except Stop Command
  | _, [] => .error .usage
  | settings, (.value name, arguments) :: _ => do
    let (command, leftOver) ← command name arguments
    if leftOver || settings.leftOver then throw .usage
    return command
  | settings, (item, _) :: rest => do
    if item = .separator then throw .usage
    applyCommon (← apply commonSpellings settings [item]) rest

/-- Each argument with those behind it. -/
def withRest : List Item → List String → List (Item × List String)
  | item :: items, _ :: arguments => (item, arguments) :: withRest items arguments
  | _, _ => []

/-- The command that arguments ask for. -/
def parse (arguments : List String) : Except Stop Command :=
  match sortAll? commonSpellings arguments with
  | none => .error .usage
  | some items => applyCommon {} (withRest items arguments)

end Scoreboard.Arguments
