import Scoreboard.Diagnostic.Report
import Scoreboard.Generator
import Scoreboard.Script.Outline
import Scoreboard.Script.Parser
import Scoreboard.Token.Scanner

/-!
# Compiling a source

From a text to a program: its tokens, the script they spell, and the commands of the script.
The first fault ends the way. Blocks finished before a fault are kept, because the progress
of a compilation is told block by block.
-/

namespace Scoreboard

/-- The namespace of programs that are given none. -/
def defaultSpace : String := "enderscript"

/-- The name of the block of top-level statements, if no other is given. -/
def mainName : String := "main"

/-- Why a source cannot be compiled, by the step that found it. -/
inductive CompileError where
  | scan (error : ScanError)
  | parse (error : ParseError)
  | generate (diagnostic : Diagnostic Span)
  deriving DecidableEq, Repr, Inhabited

/-- The diagnostic of a failed compilation, if it has one. -/
def CompileError.diagnostic? : CompileError → Option (Diagnostic Span)
  | scan _ => none
  | parse (.diagnosed diagnostic) => some diagnostic
  | parse .notOperator => none
  | parse .exhausted => none
  | generate diagnostic => some diagnostic

/-- The script of a source. -/
def Source.parse (source : Source) : Except CompileError (Script Span) :=
  match tokenize source with
  | .error e => .error (.scan e)
  | .ok tokens =>
    match Scoreboard.parse tokens with
    | .error e => .error (.parse e)
    | .ok script => .ok script

/-- A compiled source. -/
structure Build where
  source : Source
  script : Script Span
  program : Program
  deriving Repr, Inhabited

/-- The blocks that a compilation finished, and what became of it. -/
structure Compilation where
  finished : List Block
  result : Except CompileError Build

namespace Compilation

/-- The lines that tell of the finished blocks. -/
def blockProgress (c : Compilation) : List Text :=
  c.finished.map Block.progress

/-- The lines that tell of the finished blocks, and of the whole source if it was
compiled. -/
def progress (c : Compilation) : List Text :=
  c.blockProgress ++ match c.result with
    | .ok build =>
      ["Compiled " ++ build.source.name ++ s!": {build.program.blocks.length} blocks"]
    | .error _ => []

end Compilation

/-- Compile a source under a namespace, its top-level statements into a block of the given
name. -/
def Source.compile (space name : Text) (source : Source) : Compilation :=
  match source.parse with
  | .error e => ⟨[], .error e⟩
  | .ok script =>
    let generation := Scoreboard.generate space name (Span.whole source) script
    ⟨generation.finished, match generation.fault with
      | some fault => .error (.generate fault)
      | none => .ok ⟨source, script, ⟨space, generation.finished⟩⟩⟩

end Scoreboard
