import Scoreboard.Command

/-!
# Programs

A compiled program: blocks of commands, one for each function, in the order in which they
were finished. The block of the main function comes last.
-/

namespace Scoreboard

/-- The commands of a function. -/
structure Block where
  name : Text
  commands : List Command := []
  deriving DecidableEq, Repr, Inhabited

namespace Block

/-- The block with one more command. -/
def push (command : Command) (block : Block) : Block :=
  { block with commands := block.commands ++ [command] }

/-- The commands, each on a line of its own. -/
def text (block : Block) : Text :=
  Text.unlines (block.commands.map Command.text)

/-- The line that tells of a finished block. -/
def progress (block : Block) : Text :=
  "Compiled block '" ++ block.name ++ s!"': {block.commands.length} commands"

end Block

/-- The finished blocks under their namespace. -/
structure Program where
  space : Text
  blocks : List Block := []
  deriving DecidableEq, Repr, Inhabited

namespace Program

/-- The program with one more block. -/
def add (block : Block) (program : Program) : Program :=
  { program with blocks := program.blocks ++ [block] }

/-- The program with one more command in the block of an index. -/
def push (index : Nat) (command : Command) (program : Program) : Program :=
  { program with blocks := program.blocks.modify index (Block.push command) }

/-- The first block of a name. -/
def get? (name : Text) (program : Program) : Option Block :=
  program.blocks.find? (·.name == name)

/-- Whether there is a block of a name. -/
def has (name : Text) (program : Program) : Bool :=
  (program.get? name).isSome

/-- The block of the main function, the last one. -/
def main? (program : Program) : Option Block :=
  program.blocks.getLast?

/-- A list of pairs with a value for a key: a key keeps its first place and takes the new
value. -/
def put (key value : Text) : List (Text × Text) → List (Text × Text)
  | [] => [(key, value)]
  | entry :: rest =>
    if entry.1 = key then (key, value) :: rest else entry :: put key value rest

/-- The text of each block under its name. -/
def texts (program : Program) : List (Text × Text) :=
  program.blocks.foldl (fun entries block => put block.name block.text entries) []

/-- A number in at least four digits. -/
def fourDigits (n : Nat) : String :=
  let digits := toString n
  String.ofList (List.replicate (4 - digits.length) '0') ++ digits

/-- The lines of commands, numbered from `n`. -/
def numbered : Nat → List Command → List Text
  | _, [] => []
  | n, command :: rest => (fourDigits n ++ "  " ++ command.text) :: numbered (n + 1) rest

/-- The lines of a block in the listing, an empty one at the end. -/
def listingLines (space : Text) (block : Block) : List Text :=
  ("== " ++ space ++ ":" ++ block.name ++ " ==") :: (numbered 0 block.commands ++ [{}])

/-- All blocks with their commands numbered. -/
def listing (program : Program) : Text :=
  Text.join "\n" (program.blocks.flatMap (listingLines program.space))

end Program

end Scoreboard
