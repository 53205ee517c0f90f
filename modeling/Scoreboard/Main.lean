import Scoreboard.Console

/-!
# The program

The outer layer: it takes in the files of the current folder and of the paths that arguments
name, runs a session on them, and carries out what the session printed and changed. A session
has no effects of its own, so one that runs out of input is run again from the start with one
more line; only what it prints beyond the last time is shown.
-/

namespace Scoreboard.Main

/-- The text of a place on disk as the names on the way to it. -/
def namesOf (place : String) : List Text := (Path.ofText place).parts

/-- The place on disk of a full name. -/
def placeOf (name : List Text) : String := "/" ++ "/".intercalate (name.map Text.plain)

/-- The tree with the folders on the way to a name. -/
def withFoldersTo (tree : FileTree) (name : List Text) : FileTree :=
  (List.range name.length).foldl
    (fun tree n => if n = 0 then tree else tree.put (name.take n) .folder) tree

/-- Take in a file or folder with all that is in it. What cannot be read is left out, and so
is a link back to a folder on the way to it. -/
partial def takeIn (tree : FileTree) (name : List Text) : IO FileTree := do
  let .ok place ← (IO.FS.realPath (placeOf name)).toBaseIO | return tree
  let target := namesOf place.toString
  if target ≠ name && target.isPrefixOf name then return tree
  if ← place.isDir then
    let children ← try place.readDir catch _ => pure #[]
    children.foldlM (fun tree child => takeIn tree (name ++ [Text.ofString child.fileName]))
      (if name = [] then tree else tree.put name .folder)
  else
    let .ok contents ← (IO.FS.readBinFile place).toBaseIO | return tree
    return tree.put name (.file contents)

/-- Take in the current folder. -/
def takeInCurrent : IO FileTree := do
  let name := namesOf (← IO.currentDir).toString
  takeIn (withFoldersTo { current := name } name) name

/-- Take in a path that an argument names, if it lies outside the current folder. -/
def takeInNamed (tree : FileTree) (argument : String) : IO FileTree := do
  match (← (IO.FS.realPath argument).toBaseIO) with
  | .error _ => return tree
  | .ok place =>
    let name := namesOf place.toString
    if tree.current.isPrefixOf name || name.isPrefixOf tree.current then return tree
    takeIn (withFoldersTo tree name) name

/-- Write to disk what has changed between two trees. -/
def carryOut (before after : FileTree) : IO Unit :=
  after.entries.forM fun (name, entry) => do
    if before.get? name = some entry then return
    match entry with
    | .folder => IO.FS.createDirAll (placeOf name)
    | .file contents => IO.FS.writeBinFile (placeOf name) contents

/-- Print the part of a text that is not shown yet. -/
def printBeyond (shown text : Text) : IO Unit := do
  IO.print (Text.mk (text.points.drop shown.points.length)).plain
  (← IO.getStdout).flush

/-- Run a session of which some output is shown already, with a line of input read whenever
it needs one. -/
partial def converse (arguments : List String) (console : Console) (shown : Text) :
    IO (Except Fault Nat × Console) := do
  match Session.run arguments console with
  | .ok code after =>
    printBeyond shown after.output
    return (.ok code, after)
  | .error fault after =>
    printBeyond shown after.output
    let line ← if fault = .endOfInput then (← IO.getStdin).getLine else pure ""
    if line = "" then return (.error fault, after)
    converse arguments { console with input := console.input ++ line.toList } after.output

end Scoreboard.Main

open Scoreboard in
/-- Run the command that the arguments ask for; the exit code is that of the command, or one
if a fault ends it. -/
def main (arguments : List String) : IO UInt32 := do
  let tree ← arguments.foldlM Main.takeInNamed (← Main.takeInCurrent)
  let (result, after) ← Main.converse arguments { tree } {}
  IO.eprint after.errors.plain
  Main.carryOut tree after.tree
  match result with
  | .ok code => return code.toUInt32
  | .error fault =>
    IO.eprintln fault.message.plain
    return 1
