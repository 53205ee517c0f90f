import Mathlib
import Scoreboard.Console
import Scoreboard.Proofs.Steps

/-!
# Builds that fail

A build has two phases. It first reads the settings and the files, compiles all of them and
compares the names of their blocks (`Session.prepare`); only then does it print or write
anything that was compiled (`Session.finish`). The first phase never changes the files, and a
build that ends with exit code 1 ends in it.

If the settings can be used and the files can be read, what the first phase comes to depends
on the texts of the files alone: it fails with the first file that does not compile, else with
the first block name that occurs for the second time, and else it is passed.
-/

namespace Scoreboard

variable {α β : Type}

/-! ## Looking at files -/

namespace Files

end Files

/-! ## The two phases -/

namespace Session

/-- Compiled files that may be printed or written. -/
structure Ready where
  space : Json
  output : Path
  builds : List Build

/-- The second phase of a build: the output, if the first one was passed. -/
def finish (choices : Arguments.Build) : Except Nat Ready → Session Nat
  | .error code => return code
  | .ok ready => do
    deliver choices ready.space ready.output ready.builds
    if !choices.print then
      print (s!"Built {ready.builds.length} file(s) into " ++ ready.output.text)
    return 0

/-- A step that leaves the files as they are, whether it succeeds or fails. -/
def KeepsTree (step : Session α) : Prop :=
  ∀ c, Ensures step c (fun _ c' => c'.tree = c.tree) fun _ c' => c'.tree = c.tree

theorem keepsTree_pure {x : α} : KeepsTree (pure x) := fun _ => rfl

theorem keepsTree_bind {x : Session α} {f : α → Session β} (hx : KeepsTree x)
    (hf : ∀ a, KeepsTree (f a)) : KeepsTree (x >>= f) := by
  intro c
  refine (hx c).bind fun a c' hc => ?_
  refine (hf a c').mono (fun b c'' h => ?_) fun fault c'' h => ?_
  · exact h.trans hc
  · exact h.trans hc

end Session

/-! ## Files that are compiled -/

theorem fromUTF8?_toUTF8 (s : String) : String.fromUTF8? s.toUTF8 = some s := by
  unfold String.fromUTF8?
  exact dif_pos s.isValidUTF8

theorem Files.checkPath_of_none {tree : FileTree} {path : Text} (h : pathFlaw? path = none) :
    checkPath path tree = .ok () tree := by
  unfold checkPath
  rw [h]
  rfl

/-- What reading a file needs. -/
theorem Files.readText_of_read {tree : FileTree} {path : Text} {bytes : ByteArray} {text : String}
    (hflaw : pathFlaw? path = none) (hread : tree.read path = .ok bytes)
    (htext : String.fromUTF8? bytes = some text) :
    readText path tree = .ok (Text.normalizeNewlines text.toList) tree := by
  have hbytes : readBytes path tree = .ok bytes tree := by
    unfold readBytes
    rw [bind_of_ok (checkPath_of_none hflaw), get_bind]
    simp only [hread]
    rfl
  unfold readText
  rw [bind_of_ok hbytes]
  simp only [htext]
  rfl

namespace Path

/-- The text of a file that can be read. -/
def Reads (tree : FileTree) (path : Path) (text : List Char) : Prop :=
  Files.readText path.text tree = .ok text tree

theorem Reads.intro {tree : FileTree} {path : Path} {bytes : ByteArray} {text : String}
    (hflaw : pathFlaw? path.text = none) (hread : tree.read path.text = .ok bytes)
    (htext : String.fromUTF8? bytes = some text) :
    path.Reads tree (Text.normalizeNewlines text.toList) :=
  Files.readText_of_read hflaw hread htext

/-- A file compiles, with its stem as the name of its main function. -/
def Builds (space : Text) (tree : FileTree) (path : Path) (build : Build) : Prop :=
  ∃ text, path.Reads tree text
    ∧ (Source.compile space path.stem ⟨path.text, text⟩).result = .ok build

/-- All files compile. -/
def AllBuild (space : Text) (tree : FileTree) : List Path → List Build → Prop :=
  List.Forall₂ (Builds space tree)

end Path

/-- A console that differs at most in what was printed. -/
structure Console.Told (c c' : Console) : Prop where
  tree : c'.tree = c.tree
  input : c'.input = c.input
  errors : c'.errors = c.errors

theorem Console.Told.refl (c : Console) : c.Told c := ⟨rfl, rfl, rfl⟩

theorem Console.Told.trans {c c₁ c₂ : Console} (h₁ : c.Told c₁) (h₂ : c₁.Told c₂) : c.Told c₂ :=
  ⟨h₂.tree.trans h₁.tree, h₂.input.trans h₁.input, h₂.errors.trans h₁.errors⟩

/-- The console with one more text for errors. -/
def Console.complain (text : Text) (c : Console) : Console := { c with errors := c.errors ++ text }

namespace Session

variable {space : Text} {debug : Bool} {path : Path} {files : List Path} {c : Console}

/-- What a file that does not compile comes to: its diagnostic is shown, or it has none and
the error is not handled. -/
def failed (error : CompileError) (code : α) (c : Console) : EStateM.Result Fault Console α :=
  match error.diagnostic? with
  | some diagnostic => .ok code (c.complain (diagnostic.shown.report ++ "\n"))
  | none => .error (.compile error) c

section
variable {owners seen before after : List (Text × Path)}

end

/-- The names of the blocks of compiled files, in the order of files and blocks. -/
def blockNames (builds : List Build) : List Text :=
  builds.flatMap fun build => build.program.blocks.map (·.name)

variable {choices : Arguments.Build} {project : Option Project}

section
variable {space : Json} {output : Path} {builds : List Build}

end

end Session

end Scoreboard
