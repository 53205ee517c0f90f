import Mathlib
import Scoreboard.Diagnostic.Report
import Scoreboard.Proofs.Lines

/-!
# Reports point at their span

The report of a diagnostic shows the line of the source that its span starts on, and below it an
underline with a tee and a corner that leads to the details. All of it is computed from lines and
columns: how far the underline is moved to the right, how wide it is, and how wide the margin is
that makes room for the number of the line. Put together, the underline stands below exactly the
characters of the span that are on the line, and the corner below the tee (`PointsAt`). This holds
for every range of every text: also for one that starts at a newline, goes on over several lines, or
covers nothing (`Diagnostic.report_points`).
-/

namespace Scoreboard

/-! ## Texts on one line -/

namespace Text

/-- A text without a newline. -/
def OnOneLine (text : Text) : Prop := CodePoint.char '\n' ∉ text.points

/-- Two texts on one line are on one line together. -/
theorem OnOneLine.append {first second : Text} (h : first.OnOneLine) (h' : second.OnOneLine) :
    (first ++ second).OnOneLine := by
  show _ ∉ first.points ++ second.points
  rw [List.mem_append, not_or]
  exact ⟨h, h'⟩

theorem onOneLine_ofString {s : String} (h : '\n' ∉ s.toList) : (ofString s).OnOneLine := by
  intro hmem
  obtain ⟨c, hc, hchar⟩ := List.mem_map.1 hmem
  rw [CodePoint.char.inj hchar] at hc
  exact h hc

/-- Texts on one line each are cut apart again at the newlines between them. -/
theorem split_join {first : Text} {rest : List Text}
    (h : ∀ text ∈ first :: rest, text.OnOneLine) :
    split (.char '\n') (join "\n" (first :: rest)).points = (first :: rest).map Text.points := by
  induction rest generalizing first with
  | nil => exact split_of_notMem (h first List.mem_cons_self)
  | cons second rest ih =>
    obtain ⟨hfirst, hrest⟩ := List.forall_mem_cons.1 h
    have hpoints : (join "\n" (first :: second :: rest)).points
        = first.points ++ .char '\n' :: (join "\n" (second :: rest)).points := rfl
    rw [hpoints, split_append, split_of_notMem hfirst, ih hrest]
    rfl

end Text

/-! ## Underlines -/

namespace Report

/-- An underline of a width behind some blanks, with a tee in its middle. -/
def bar (indent width : Nat) : List Char :=
  List.replicate indent ' ' ++ (List.replicate (width / 2) '─'
    ++ '┬' :: List.replicate (width - width / 2 - 1) '─')

/-- Whether a row of characters has a stroke in a column. -/
def IsMarked (row : List Char) (k : Nat) : Prop := ∃ c ∈ row[k]?, c ≠ ' '

section
variable {indent width k : Nat}

/-- What stands in each column of an underline. -/
theorem getElem?_bar (hwidth : 0 < width) :
    (bar indent width)[k]? = if k < indent then some ' '
      else if k = indent + width / 2 then some '┬'
      else if k < indent + width then some '─' else none := by
  unfold bar
  grind

/-- The marked columns of an underline are those behind its indentation, as many as it is wide.
-/
theorem isMarked_bar (hwidth : 0 < width) :
    IsMarked (bar indent width) k ↔ indent ≤ k ∧ k < indent + width := by
  unfold IsMarked
  rw [getElem?_bar hwidth]
  split_ifs <;> simp <;> omega

theorem mem_bar {c : Char} (hc : c ∈ bar indent width) : c = ' ' ∨ c = '─' ∨ c = '┬' := by
  simp only [bar, List.mem_append, List.mem_cons, List.mem_replicate] at hc
  tauto

theorem count_tee_bar : (bar indent width).count '┬' = 1 := by
  simp [bar, List.count_replicate]

/-- An underline has as many strokes as it is wide. -/
theorem countP_bar (hwidth : 0 < width) : (bar indent width).countP (· != ' ') = width := by
  simp [bar, List.countP_replicate]
  omega

end

/-! ## Where a report points -/

/-- The number of a line with the blanks and the bar that divide it from the line. -/
def gutter (number : Nat) : List Char := " ".toList ++ (toString number).toList ++ " │ ".toList

/-- The margin of the rows below a numbered line. -/
def margin (number : Nat) : List Char :=
  List.replicate ((toString number).length + 2) ' ' ++ "· ".toList

/-- The rows without a number are indented as far as the row with one. -/
theorem length_margin (number : Nat) : (margin number).length = (gutter number).length := by
  unfold margin gutter
  simp only [List.length_append, List.length_replicate, String.length_toList]
  show (toString number).length + 2 + 2 = 1 + (toString number).length + 3
  omega

/-- Whether a column of a line shows a character between two offsets of the text. The line stands
behind some text, and the newline at its end does not belong to it. -/
def Covers (before line : List Char) (a b k : Nat) : Prop :=
  k < line.length ∧ a ≤ before.length + k ∧ before.length + k < b

/-- A row below a line, and the row below that one, that point at the characters between two
offsets. -/
structure PointsAt (before line : List Char) (a b : Nat) (underline pointer : List Char) :
    Prop where
  /-- Underlined are the columns of the covered characters, or the column of the first offset if
  there is none. -/
  columns : ∀ k, IsMarked underline k ↔ Covers before line a b k
    ∨ (∀ j, ¬ Covers before line a b j) ∧ before.length + k = a
  strokes : ∀ c ∈ underline, c = ' ' ∨ c = '─' ∨ c = '┬'
  /-- There is one tee, behind half of the strokes. -/
  tee : underline.count '┬' = 1
  middle : underline[a - before.length + underline.countP (· != ' ') / 2]? = some '┬'
  /-- The first character of the second row is the corner, below the tee. -/
  corner : ∃ k tail, underline[k]? = some '┬' ∧ pointer = List.replicate k ' ' ++ '╰' :: tail

/-- The width of an underline: the covered characters of the line, or one column if there are
none. -/
def columnCount (before line : List Char) (a b : Nat) : Nat :=
  max (min b (before.length + line.length) - a) 1

section
variable {before line : List Char} {a b : Nat}

theorem columnCount_pos : 0 < columnCount before line a b := Nat.le_max_right _ _

/-- The columns of an underline of this width are those of the covered characters. -/
theorem covers_iff (hle : before.length ≤ a) (k : Nat) :
    a - before.length ≤ k ∧ k < a - before.length + columnCount before line a b
      ↔ Covers before line a b k
        ∨ (∀ j, ¬ Covers before line a b j) ∧ before.length + k = a := by
  unfold columnCount Covers
  by_cases hsome : a < min b (before.length + line.length)
  · -- the first offset is covered, so the second case does not arise
    have hfirst : ¬ ∀ j, ¬ (j < line.length ∧ a ≤ before.length + j ∧ before.length + j < b) :=
      fun hnone => hnone (a - before.length) (by omega)
    constructor
    · intro hk
      exact .inl (by omega)
    · rintro (hk | ⟨hnone, -⟩)
      · omega
      · exact (hfirst hnone).elim
  · constructor
    · intro hk
      exact .inr ⟨fun j hj => by omega, by omega⟩
    · rintro (hk | ⟨-, hk⟩)
      · omega
      · omega

/-- An underline of the right indentation and width, with a corner below its middle, points at
the range. -/
theorem pointsAt_bar (hle : before.length ≤ a) (tail : List Char) :
    PointsAt before line a b (bar (a - before.length) (columnCount before line a b))
      (List.replicate (a - before.length + columnCount before line a b / 2) ' '
        ++ '╰' :: tail) := by
  have hpos : 0 < columnCount before line a b := columnCount_pos
  have hmiddle : (bar (a - before.length) (columnCount before line a b))[
      a - before.length + columnCount before line a b / 2]? = some '┬' := by
    rw [getElem?_bar hpos, if_neg (by omega), if_pos rfl]
  constructor
  · intro k
    rw [isMarked_bar hpos, covers_iff hle]
  · exact fun c hc => mem_bar hc
  · exact count_tee_bar
  · rw [countP_bar hpos]
    exact hmiddle
  · exact ⟨_, tail, hmiddle, rfl⟩

end

/-! ## The rows of a report -/

theorem toList_run (c : Char) (n : Nat) : (run c n).toList = List.replicate n c := by
  unfold run
  rw [Int.toNat_natCast, String.toList_ofList]

section
variable {source : Source} {a b : Nat} {before line after : List Char}

/-- The numbers of the place where a span starts. -/
theorem start_region (h : LineAt source.text a before line after) (b : Nat) :
    (Span.ofRange source a b).region.start
      = ⟨a, (before.count '\n' + 1 : Nat), (a - before.length + 1 : Nat)⟩ := by
  show (Position.ofIndex source.text a).coordinates = _
  rw [h.ofIndex_eq]
  rfl

/-- A report shows the line that its range starts on. -/
theorem sourceLine_region (h : LineAt source.text a before line after) (b : Nat) :
    sourceLine (Span.ofRange source a b).region = line := by
  have hpos : 0 < ((before.count '\n' + 1 : Nat) : Int) := by omega
  have hindex : (((before.count '\n' + 1 : Nat) : Int) - 1).toNat = before.count '\n' := by omega
  unfold sourceLine sourceLine?
  rw [start_region h b]
  show (lineAt? (Text.lines source.text) (before.count '\n' + 1 : Nat)).getD [] = line
  unfold lineAt?
  rw [if_pos hpos, hindex, List.getD_eq_getElem?_getD, h.getElem?_lines]
  rfl

/-- The underline is indented by the characters between the start of the line and the range. -/
theorem indent_region (h : LineAt source.text a before line after) (b : Nat) :
    indent (Span.ofRange source a b).region = (a - before.length : Nat) := by
  unfold indent
  rw [start_region h b]
  show ((a - before.length + 1 : Nat) : Int) - 1 = _
  omega

/-- The underline is as wide as the part of the range that is on the line. -/
theorem width_region (h : LineAt source.text a before line after) (hab : a ≤ b)
    (hb : b ≤ source.text.length) :
    width (Span.ofRange source a b).region = columnCount before line a b := by
  have hle := h.le
  have hle_end := h.le_end
  unfold width columnCount
  rw [sourceLine_region h b, indent_region h b, start_region h b]
  show (if ((Position.ofIndex source.text b).line : Int) = ((before.count '\n' + 1 : Nat) : Int)
    then max (((Position.ofIndex source.text b).column : Int)
      - ((a - before.length + 1 : Nat) : Int)) 1
    else _) = _
  by_cases hsame : b ≤ before.length + line.length
  · -- both ends are on one line, and their columns differ by the number of characters
    have hstop := (h.move (Nat.le_trans hle hab) hsame).ofIndex_eq
    rw [hstop, if_pos rfl]
    show max (((b - before.length + 1 : Nat) : Int) - _) 1 = _
    omega
  · have hline := h.line_lt (Nat.lt_of_not_le hsame) hb
    rw [if_neg (by omega)]
    omega

/-- The underline of a range, drawn. -/
theorem toList_underline (h : LineAt source.text a before line after) (hab : a ≤ b)
    (hb : b ≤ source.text.length) :
    (underline (Span.ofRange source a b).region).toList
      = bar (a - before.length) (columnCount before line a b) := by
  have hpos : 0 < columnCount before line a b := columnCount_pos
  unfold underline middle bar
  rw [indent_region h b, width_region h hab hb]
  generalize columnCount before line a b = width at hpos ⊢
  have hhalf : (width : Int) / 2 = (width / 2 : Nat) := rfl
  have hrest : (width : Int) - (width / 2 : Nat) - 1 = (width - width / 2 - 1 : Nat) := by omega
  rw [hhalf, hrest]
  simp only [String.toList_append, toList_run, List.append_assoc]
  rfl

/-- The corner below an underline stands below its tee. -/
theorem toList_pointer (h : LineAt source.text a before line after) (hab : a ≤ b)
    (hb : b ≤ source.text.length) (details : String) :
    ∃ tail, (pointer (Span.ofRange source a b).region details).toList
      = List.replicate (a - before.length + columnCount before line a b / 2) ' '
        ++ '╰' :: tail := by
  unfold pointer middle
  rw [indent_region h b, width_region h hab hb]
  generalize columnCount before line a b = width
  have hhalf : ((a - before.length : Nat) : Int) + (width : Int) / 2
      = (a - before.length + width / 2 : Nat) := rfl
  rw [hhalf]
  simp only [String.toList_append, toList_run, List.append_assoc]
  exact ⟨_, rfl⟩

/-- The numbered line of a report. -/
theorem ofString_numbered (number : Nat) (line : List Char) :
    Text.ofString " " ++ Text.ofString (toString number) ++ Text.ofString " │ "
        ++ Text.ofString (String.ofList line)
      = Text.ofChars (gutter number ++ line) := by
  rw [← Text.ofString_append, ← Text.ofString_append, ← Text.ofString_append]
  show Text.ofChars _ = _
  simp only [String.toList_append, String.toList_ofList]
  rfl

/-- A row below the numbered line. -/
theorem ofString_margin (number : Nat) (row : String) :
    Text.ofString (run ' ' ((toString number).length + 2)) ++ Text.ofString "· "
        ++ Text.ofString row
      = Text.ofChars (margin number ++ row.toList) := by
  have hblanks : (run ' ' ((toString number).length + 2)).toList
      = List.replicate ((toString number).length + 2) ' ' := toList_run ' ' _
  rw [← Text.ofString_append, ← Text.ofString_append]
  show Text.ofChars _ = _
  rw [String.toList_append, String.toList_append, hblanks]
  rfl

/-- The rows of a report: the line behind its number is the fourth, and the underline and the
pointer come after it. -/
theorem exists_reportLines (h : LineAt source.text a before line after) (b : Nat) (cause : Cause) :
    ∃ header frame side foot,
      (Diagnostic.shown ⟨cause, Span.ofRange source a b⟩).reportLines
        = [header, frame, side, Text.ofChars (gutter (before.count '\n' + 1) ++ line),
          Text.ofChars (margin (before.count '\n' + 1)
            ++ (underline (Span.ofRange source a b).region).toList),
          Text.ofChars (margin (before.count '\n' + 1)
            ++ (pointer (Span.ofRange source a b).region cause.details).toList), foot] := by
  have hnumber : toString (Span.ofRange source a b).region.start.line
      = toString (before.count '\n' + 1) := by
    rw [start_region h b]
    rfl
  rw [← ofString_numbered, ← ofString_margin, ← ofString_margin, ← hnumber, ← sourceLine_region h b]
  exact ⟨_, _, _, _, rfl⟩

end

/-! ## Newlines of a report -/

/-- A number is written on one line. -/
theorem notMem_toString (n : Int) : '\n' ∉ (toString n).toList := by
  have hnatural : ∀ m : Nat, '\n' ∉ m.repr.toList := by
    intro m hmem
    rw [Nat.toList_repr] at hmem
    cases Nat.isDigit_of_mem_toDigits (by omega) (by omega) hmem
  rw [Int.toString_eq_repr, Int.repr_eq_if]
  split
  · exact hnatural _
  · rw [String.toList_append, List.mem_append, not_or]
    exact ⟨by decide, hnatural _⟩

theorem onOneLine_run {c : Char} (hc : c ≠ '\n') (length : Int) :
    (Text.ofString (run c length)).OnOneLine := by
  apply Text.onOneLine_ofString
  unfold run
  rw [String.toList_ofList]
  exact fun hmem => hc (List.eq_of_mem_replicate hmem).symm

theorem onOneLine_underline (region : Region) : (Text.ofString (underline region)).OnOneLine := by
  unfold underline
  simp only [Text.ofString_append]
  exact (((onOneLine_run (by decide) _).append (onOneLine_run (by decide) _)).append
    (Text.onOneLine_ofString (by decide))).append (onOneLine_run (by decide) _)

theorem onOneLine_pointer (region : Region) {details : String} (h : '\n' ∉ details.toList) :
    (Text.ofString (pointer region details)).OnOneLine := by
  unfold pointer
  simp only [Text.ofString_append]
  exact ((((onOneLine_run (by decide) _).append (Text.onOneLine_ofString (by decide))).append
    (onOneLine_run (by decide) _)).append (Text.onOneLine_ofString (by decide))).append
    (Text.onOneLine_ofString h)

/-- A location is on one line if the name of its source is. -/
theorem onOneLine_location {region : Region} (h : region.source.name.OnOneLine) :
    region.location.OnOneLine := by
  have hline := Text.onOneLine_ofString (notMem_toString region.start.line)
  have hcolumn := Text.onOneLine_ofString (notMem_toString region.start.column)
  have hcolon : (Text.ofString ":").OnOneLine := Text.onOneLine_ofString (by decide)
  unfold Region.location
  simp only [Text.ofString_append]
  exact h.append (((hcolon.append hline).append hcolon).append hcolumn)

end Report

namespace Diagnostic

/-- The header of a report is on one line. -/
theorem onOneLine_header (d : Diagnostic Region) : (Text.ofString d.header).OnOneLine := by
  apply Text.onOneLine_ofString
  unfold header
  cases d.kind <;> decide +kernel

open Report in
/-- Every row of a report is one line. -/
theorem onOneLine_of_mem_reportLines {d : Diagnostic Region}
    (hname : d.place.source.name.OnOneLine) (hline : '\n' ∉ sourceLine d.place)
    (hdetails : '\n' ∉ d.details.toList) : ∀ text ∈ d.reportLines, text.OnOneLine := by
  have hblanks := fun n => onOneLine_run (c := ' ') (by decide) n
  have hdot : (Text.ofString "· ").OnOneLine := Text.onOneLine_ofString (by decide)
  have hsource : (Text.ofString (String.ofList (sourceLine d.place))).OnOneLine := by
    apply Text.onOneLine_ofString
    rwa [String.toList_ofList]
  unfold reportLines
  simp only [List.forall_mem_cons]
  refine ⟨d.onOneLine_header, ?_, ?_, ?_, ?_, ?_, ?_, ?_⟩
  · exact (((hblanks _).append (Text.onOneLine_ofString (by decide))).append
      (onOneLine_location hname)).append (Text.onOneLine_ofString (by decide))
  · exact (hblanks _).append (Text.onOneLine_ofString (by decide))
  · exact (((Text.onOneLine_ofString (by decide)).append
      (Text.onOneLine_ofString (notMem_toString _))).append
      (Text.onOneLine_ofString (by decide))).append hsource
  · exact ((hblanks _).append hdot).append (onOneLine_underline _)
  · exact ((hblanks _).append hdot).append (onOneLine_pointer _ hdetails)
  · exact (onOneLine_run (by decide) _).append (Text.onOneLine_ofString (by decide))
  · exact fun text htext => by cases htext

/-- Reports point at their span. Let a diagnostic point at the characters from one offset to another
of a text, and let neither the name of the text nor the details have a newline. Then the report has
seven lines. The fourth one shows, behind the number of the line, the whole line of the text that
holds the first offset. In the two lines below it, behind margins of the same width, stand an
underline and a corner that point at the characters. -/
theorem report_points {source : Source} {a b : Nat} (hab : a ≤ b) (hb : b ≤ source.text.length)
    (hname : source.name.OnOneLine) {cause : Cause} (hdetails : '\n' ∉ cause.details.toList) :
    ∃ before line after header frame side margin underline pointer foot,
      LineAt source.text a before line after
      ∧ Text.split (.char '\n') (shown ⟨cause, Span.ofRange source a b⟩).report.points
        = [header, frame, side, Text.ofChars (Report.gutter (before.count '\n' + 1) ++ line),
            Text.ofChars (margin ++ underline), Text.ofChars (margin ++ pointer), foot].map
            Text.points
      ∧ margin.length = (Report.gutter (before.count '\n' + 1)).length
      ∧ Report.PointsAt before line a b underline pointer := by
  obtain ⟨before, line, after, h⟩ := exists_lineAt (Nat.le_trans hab hb)
  obtain ⟨tail, hpointer⟩ := Report.toList_pointer h hab hb cause.details
  have hline : '\n' ∉ Report.sourceLine (Span.ofRange source a b).region := by
    rw [Report.sourceLine_region h b]
    exact h.whole
  have hrows := onOneLine_of_mem_reportLines (d := shown ⟨cause, Span.ofRange source a b⟩) hname
    hline hdetails
  obtain ⟨header, frame, side, foot, hlines⟩ := Report.exists_reportLines h b cause
  refine ⟨before, line, after, header, frame, side, Report.margin (before.count '\n' + 1), _, _,
    foot, h, ?_, Report.length_margin _, Report.pointsAt_bar h.le tail⟩
  rw [← Report.toList_underline h hab hb, ← hpointer, ← hlines]
  exact Text.split_join hrows

theorem report_points_two_lines :
    let source : Source := ⟨"main", "let x = 1\nx = x / (0 *\n2)\n".toList⟩
    let d : Diagnostic Span := ⟨.divisionByZero, Span.ofRange source 14 24⟩
    14 ≤ 24 ∧ 24 ≤ source.text.length ∧ source.name.OnOneLine
      ∧ '\n' ∉ Cause.divisionByZero.details.toList
      ∧ d.shown.report = Text.join "\n" ["Error ES105E: Division by zero", "   ╭─[main:2:5]",
        "   │", " 2 │ x = x / (0 *", "   ·     ────┬───",
        "   ·         ╰───── Cannot divide by zero", "───╯"]
      ∧ ∃ before line after header frame side margin underline pointer foot,
        LineAt source.text 14 before line after
        ∧ Text.split (.char '\n') d.shown.report.points
          = [header, frame, side, Text.ofChars (Report.gutter (before.count '\n' + 1) ++ line),
              Text.ofChars (margin ++ underline), Text.ofChars (margin ++ pointer), foot].map
              Text.points
        ∧ margin.length = (Report.gutter (before.count '\n' + 1)).length
        ∧ Report.PointsAt before line 14 24 underline pointer := by
  refine ⟨by decide, by decide, ?_, by decide, by decide +kernel, ?_⟩
  · exact Text.onOneLine_ofString (by decide)
  · exact report_points (by decide) (by decide) (Text.onOneLine_ofString (by decide)) (by decide)

end Diagnostic

end Scoreboard
