import Scoreboard.Text.Characters
import Scoreboard.Text.DiskName
import Scoreboard.Token.Scanner
import Scoreboard.Diagnostic.Report
import Scoreboard.Script.Outline
import Scoreboard.Script.Parser
import Scoreboard.Compilation
import Scoreboard.Json.Reader
import Scoreboard.Floating
import Scoreboard.Json.Writer
import Scoreboard.Main
import Scoreboard.Proofs.Steps
import Scoreboard.Proofs.Trees
import Scoreboard.Proofs.Lines
import Scoreboard.Proofs.Generated
import Scoreboard.Proofs.Declarations
import Scoreboard.Proofs.Machine
import Scoreboard.Proofs.Interpreter
import Scoreboard.Proofs.Lowering
import Scoreboard.Proofs.Expressions
import Scoreboard.Proofs.Blocks
import Scoreboard.Proofs.Bodies
import Scoreboard.Proofs.Grammar
import Scoreboard.Proofs.Reading
import Scoreboard.Proofs.Lexing
import Scoreboard.Proofs.Tokens
import Scoreboard.Proofs.Outcome
import Scoreboard.Proofs.Holders
import Scoreboard.Proofs.Preservation
import Scoreboard.Proofs.Printer
import Scoreboard.Proofs.RoundTrip
import Scoreboard.Proofs.Completeness
import Scoreboard.Proofs.Spelling
import Scoreboard.Proofs.Layout
import Scoreboard.Proofs.Lifetimes
import Scoreboard.Proofs.Programs
import Scoreboard.Proofs.Relocation
import Scoreboard.Proofs.Marks
import Scoreboard.Proofs.Independence
import Scoreboard.Proofs.Renaming
import Scoreboard.Proofs.Discipline
import Scoreboard.Proofs.Building
import Scoreboard.Proofs.Joining
import Scoreboard.Proofs.Contexts
import Scoreboard.Proofs.Footprint
import Scoreboard.Proofs.Folding
import Scoreboard.Proofs.Placement
import Scoreboard.Proofs.Delivery
import Scoreboard.Proofs.Numbers
import Scoreboard.Proofs.Effects
import Scoreboard.Proofs.Predictive
import Scoreboard.Proofs.Illegal
import Scoreboard.Proofs.Quotes
import Scoreboard.Proofs.Tiling
import Scoreboard.Proofs.Lexemes
import Scoreboard.Proofs.Nesting
import Scoreboard.Proofs.Reports
import Scoreboard.Proofs.Coordinates
import Scoreboard.Proofs.LineEndings
import Scoreboard.Proofs.Literals
import Scoreboard.Proofs.Escapes
import Scoreboard.Proofs.Progress
import Scoreboard.Proofs.Settings
import Scoreboard.Proofs.Setup
import Scoreboard.Proofs.Outlines
