import Scoreboard.Text

/-!
# Source text, positions and spans

A position is a character offset with its line and column, both counted from 1. A span is a
range of a named text between two positions, its end exclusive. Spans are what diagnostics
point at; they take no part in what a script means.

A region is given by bare numbers, which need not fit the text. It is what diagnostics are
shown at, so that a caller can show one anywhere; every span is a region.
-/

namespace Scoreboard

/-- A text under the name that diagnostics give it. -/
structure Source where
  name : Text
  text : List Char
  deriving DecidableEq, Repr, Inhabited

/-- A character offset with its line and column. -/
structure Position where
  index : Nat
  line : Nat
  column : Nat
  deriving DecidableEq, Repr, Inhabited

namespace Position

/-- The position of the first character. -/
def origin : Position := ⟨0, 1, 1⟩

/-- The position after one more character: a newline starts a line, any other character
takes one column. -/
def next (p : Position) (c : Char) : Position :=
  if c = '\n' then ⟨p.index + 1, p.line + 1, 1⟩
  else ⟨p.index + 1, p.line, p.column + 1⟩

/-- The position after at most `n` characters of a text. -/
def advance : Position → List Char → Nat → Position
  | p, _, 0 => p
  | p, [], _ + 1 => p
  | p, c :: rest, n + 1 => advance (p.next c) rest n

/-- The position of a character offset; an offset outside the text counts as its nearest
end. -/
def ofIndex (text : List Char) (index : Int) : Position :=
  origin.advance text index.toNat

end Position

/-- A range of a source, its end exclusive. -/
structure Span where
  start : Position
  stop : Position
  source : Source
  deriving DecidableEq, Repr, Inhabited

namespace Span

/-- The span between two character offsets. -/
def ofRange (source : Source) (start stop : Int) : Span :=
  ⟨Position.ofIndex source.text start, Position.ofIndex source.text stop, source⟩

/-- The span of a whole source. -/
def whole (source : Source) : Span :=
  ofRange source 0 source.text.length

/-- From the start of the first span to the end of the second. -/
def merge (first second : Span) : Span :=
  ⟨first.start, second.stop, first.source⟩

/-- The text a span covers, empty when its end lies before its start. -/
def covered (span : Span) : List Char :=
  (span.source.text.drop span.start.index).take (span.stop.index - span.start.index)

end Span

/-- Numbers for a position, which need not belong to any text. -/
structure Coordinates where
  index : Int
  line : Int
  column : Int
  deriving DecidableEq, Repr, Inhabited

/-- The numbers of a position. -/
def Position.coordinates (p : Position) : Coordinates := ⟨p.index, p.line, p.column⟩

/-- A part of a source, given by numbers. -/
structure Region where
  start : Coordinates
  stop : Coordinates
  source : Source
  deriving DecidableEq, Repr, Inhabited

/-- The region of a span. -/
def Span.region (span : Span) : Region :=
  ⟨span.start.coordinates, span.stop.coordinates, span.source⟩

namespace Region

/-- The offset of an index in a text of a length: a negative index counts from the end, and
one outside the text counts as its nearest end. -/
def offset (length : Nat) (index : Int) : Nat :=
  if index < 0 then (length + index).toNat else min index.toNat length

/-- The text a region covers, empty when its end lies before its start. -/
def covered (region : Region) : List Char :=
  let text := region.source.text
  let start := offset text.length region.start.index
  let stop := offset text.length region.stop.index
  (text.drop start).take (stop - start)

/-- The name of the source with line and column of the start. -/
def location (region : Region) : Text :=
  region.source.name ++ s!":{region.start.line}:{region.start.column}"

/-- Both ends of a region, for inspection. -/
def describe (region : Region) : Text :=
  "Span(" ++ region.location ++ s!"-{region.stop.line}:{region.stop.column})"

end Region

end Scoreboard
