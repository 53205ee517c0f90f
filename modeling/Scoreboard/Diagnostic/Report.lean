import Scoreboard.Diagnostic
import Scoreboard.Text.Characters

/-!
# The report of a diagnostic

A diagnostic is shown as a box of seven lines around the source line it points at. The part
of the region on that line is underlined, the underline has a tee in its middle, and below the
tee a corner leads to the details. A region that goes on to another line is underlined to the
end of its first line; an underline is at least one column wide.
-/

namespace Scoreboard

namespace Report

/-- A run of one character, empty for a negative length. -/
def run (c : Char) (length : Int) : String :=
  String.ofList (List.replicate length.toNat c)

/-- The line of a number, counted from 1. A number beyond the text gives an empty line; 0 and
the numbers below count from the last line back, and there is none before the first line. -/
def lineAt? (lines : List (List Char)) (number : Int) : Option (List Char) :=
  if 0 < number then some (lines.getD (number - 1).toNat [])
  else lines.reverse[(-number).toNat]?

/-- The source line a region starts on. -/
def sourceLine? (region : Region) : Option (List Char) :=
  lineAt? (Text.lines region.source.text) region.start.line

/-- The source line a region starts on, empty if there is none. -/
def sourceLine (region : Region) : List Char := (sourceLine? region).getD []

/-- The columns before the underline. -/
def indent (region : Region) : Int :=
  region.start.column - 1

/-- The width of the underline. -/
def width (region : Region) : Int :=
  if region.stop.line = region.start.line then
    max (region.stop.column - region.start.column) 1
  else
    max ((sourceLine region).length - indent region) 1

/-- The offset of the tee in the underline. -/
def middle (region : Region) : Int := width region / 2

/-- The underline with its tee. -/
def underline (region : Region) : String :=
  run ' ' (indent region) ++ run '─' (middle region) ++ "┬"
    ++ run '─' (width region - middle region - 1)

/-- The corner below the tee, leading to the details. -/
def pointer (region : Region) (details : String) : String :=
  run ' ' (indent region + middle region) ++ "╰─" ++ run '─' (width region - middle region)
    ++ " " ++ details

end Report

namespace Diagnostic

open Report in
/-- The seven lines of the report. -/
def reportLines (d : Diagnostic Region) : List Text :=
  let number := toString d.place.start.line
  let margin := run ' ' (number.length + 2)
  [d.header,
   margin ++ "╭─[" ++ d.place.location ++ "]",
   margin ++ "│",
   " " ++ number ++ " │ " ++ String.ofList (sourceLine d.place),
   margin ++ "· " ++ underline d.place,
   margin ++ "· " ++ pointer d.place d.details,
   run '─' margin.length ++ "╯"]

/-- The report, without a final newline. -/
def report (d : Diagnostic Region) : Text :=
  Text.join "\n" d.reportLines

end Diagnostic

end Scoreboard
