import Mathlib
import Scoreboard.Proofs.Lines

/-!
# Positions are coordinates

The lines of a text, one below the other, have a column for each character and one more behind the
last character of a line, where its newline stands or the text ends. Line and column of a position
name one of these columns, and every column is named by exactly one offset: the offset is found
again from the lengths of the lines above (`Text.offsetOf`), and going on in the text is going on
in the order of the lines, along each line from the left (`Position.isCoordinateSystem_ofIndex`).

Three readings of a text meet here: counting the newlines before an offset, measuring from the last
of them, and cutting the text into lines. What makes them agree is the line around an offset
(`LineAt`), which says of each reading what it finds.
-/

namespace Scoreboard

namespace Text

/-! ## Lines and columns of a text -/

/-- A line of a text and a column of it, both counted from 1. A line has a column for each of its
characters, and one behind them. -/
@[mk_iff]
structure HasColumn (text : List Char) (line column : Nat) : Prop where
  line_pos : 1 ≤ line
  line_le : line ≤ (lines text).length
  column_pos : 1 ≤ column
  column_le : column ≤ ((lines text).getD (line - 1) []).length + 1

instance (text : List Char) (line column : Nat) : Decidable (HasColumn text line column) :=
  decidable_of_iff _ (hasColumn_iff text line column).symm

/-- The number of characters before a column: the lines above it with their newlines, and the
columns to its left. -/
def offsetOf (text : List Char) (line column : Nat) : Nat :=
  (((lines text).take (line - 1)).map fun above => above.length + 1).sum + (column - 1)

/-- From the front of a list to its end, the count of an element takes every value up to that of
the whole list. -/
theorem exists_count_take {α : Type} [DecidableEq α] {separator : α} {xs : List α} {k : Nat}
    (h : k ≤ xs.count separator) :
    ∃ i ≤ xs.length, (xs.take i).count separator = k := by
  induction xs generalizing k with
  | nil => exact ⟨0, Nat.le_refl _, (Nat.le_zero.1 h).symm⟩
  | cons c rest ih =>
    by_cases hc : c = separator
    · cases k with
      | zero => exact ⟨0, Nat.zero_le _, rfl⟩
      | succ k =>
        rw [hc, List.count_cons_self] at h
        obtain ⟨i, hi, hcount⟩ := ih (Nat.le_of_succ_le_succ h)
        refine ⟨i + 1, Nat.succ_le_succ hi, ?_⟩
        rw [List.take_succ_cons, hc, List.count_cons_self, hcount]
    · rw [List.count_cons_of_ne hc] at h
      obtain ⟨i, hi, hcount⟩ := ih h
      refine ⟨i + 1, Nat.succ_le_succ hi, ?_⟩
      rw [List.take_succ_cons, List.count_cons_of_ne hc, hcount]

end Text

/-! ## What the line around an offset says -/

namespace LineAt

variable {text before line after : List Char} {i : Nat}

/-- Cutting finds the text before the line: it has the lines above, with their newlines. -/
theorem offsetOf_eq (h : LineAt text i before line after) (column : Nat) :
    Text.offsetOf text (before.count '\n' + 1) column = before.length + (column - 1) := by
  obtain ⟨above, below, hlines, hlength, hsum⟩ := h.exists_lines_eq
  unfold Text.offsetOf
  rw [Nat.add_sub_cancel, hlines, ← hlength, List.take_left, hsum]

/-- Measuring from the last newline finds the part of the line before the offset. -/
theorem rtakeWhile_take (h : LineAt text i before line after) :
    (text.take i).rtakeWhile (· ≠ '\n') = line.take (i - before.length) := by
  obtain ⟨k, hk, rfl⟩ := h.exists_eq_add
  have hpart : ∀ c ∈ (line.take k).reverse, decide (c ≠ '\n') = true := by
    intro c hc
    rw [decide_eq_true_iff]
    rintro rfl
    exact h.whole (List.mem_of_mem_take (List.mem_reverse.1 hc))
  -- what stands before the line ends with a newline, so the measuring stops there
  have hbefore : before.rtakeWhile (· ≠ '\n') = [] := by
    rcases h.starts with rfl | ⟨first, rfl⟩
    · rfl
    · exact List.rtakeWhile_concat_neg _ _ _ (by simp)
  rw [h.text_eq, List.take_length_add_append, List.take_append_of_le_length hk,
    Nat.add_sub_cancel_left]
  unfold List.rtakeWhile at hbefore ⊢
  rw [List.reverse_append, List.takeWhile_append_of_pos hpart, List.reverse_append, hbefore,
    List.nil_append, List.reverse_reverse]

/-- The line has a column for each of its characters, and one behind them. -/
theorem hasColumn_iff (h : LineAt text i before line after) {k : Nat} :
    Text.HasColumn text (before.count '\n' + 1) (k + 1) ↔ k ≤ line.length := by
  have hline : (Text.lines text).getD (before.count '\n' + 1 - 1) [] = line := by
    rw [Nat.add_sub_cancel, List.getD_eq_getElem?_getD, h.getElem?_lines, Option.getD_some]
  constructor
  · intro hcolumn
    have hle := hcolumn.column_le
    rw [hline] at hle
    exact Nat.le_of_succ_le_succ hle
  · intro hk
    refine ⟨Nat.le_add_left _ _, (List.getElem?_eq_some_iff.1 h.getElem?_lines).1,
      Nat.le_add_left _ _, ?_⟩
    rw [hline]
    exact Nat.succ_le_succ hk

end LineAt

/-- Every line is the line around some offset. -/
theorem exists_lineAt_number {text : List Char} {k : Nat} (hk : k < (Text.lines text).length) :
    ∃ i before line after, LineAt text i before line after ∧ before.count '\n' = k := by
  unfold Text.lines at hk
  rw [Text.length_split] at hk
  -- on the way through the text the newlines are counted one by one, so none of the counts is
  -- passed over; the line around the offset that has the count is the wanted one
  obtain ⟨i, hi, hcount⟩ := Text.exists_count_take (Nat.le_of_lt_succ hk)
  obtain ⟨before, line, after, h⟩ := exists_lineAt hi
  refine ⟨i, before, line, after, h, ?_⟩
  have hline := Position.line_ofIndex hi
  rw [h.ofIndex_eq, hcount] at hline
  exact Nat.add_right_cancel hline

/-! ## Positions of offsets -/

namespace Position

variable {text : List Char} {i j : Nat}

/-- Line and column of a position, in the order of reading: by the line, and along it. -/
def lineColumn (p : Position) : ℕ ×ₗ ℕ := toLex (p.line, p.column)

/-- Walking to an offset is the same as counting the newlines before it and measuring from the
last of them. -/
theorem ofIndex_scan (h : i ≤ text.length) :
    ofIndex text i = ⟨i, (text.take i).count '\n' + 1,
      ((text.take i).rtakeWhile (· ≠ '\n')).length + 1⟩ := by
  obtain ⟨before, line, after, hline⟩ := exists_lineAt h
  have hcount := line_ofIndex h
  have hle : i - before.length ≤ line.length := Nat.sub_le_iff_le_add'.2 hline.le_end
  rw [hline.ofIndex_eq] at hcount ⊢
  rw [hline.rtakeWhile_take, List.length_take_of_le hle, ← hcount]

theorem hasColumn_ofIndex (h : i ≤ text.length) :
    Text.HasColumn text (ofIndex text i).line (ofIndex text i).column := by
  obtain ⟨before, line, after, hline⟩ := exists_lineAt h
  rw [hline.ofIndex_eq]
  exact hline.hasColumn_iff.2 (Nat.sub_le_iff_le_add'.2 hline.le_end)

theorem offsetOf_ofIndex (h : i ≤ text.length) :
    Text.offsetOf text (ofIndex text i).line (ofIndex text i).column = i := by
  obtain ⟨before, line, after, hline⟩ := exists_lineAt h
  rw [hline.ofIndex_eq, hline.offsetOf_eq, Nat.add_sub_cancel, Nat.add_sub_cancel' hline.le]

/-- Going on in a text is going on along the line, or to a line below. -/
theorem lineColumn_ofIndex_lt (hij : i < j) (hj : j ≤ text.length) :
    (ofIndex text i).lineColumn < (ofIndex text j).lineColumn := by
  obtain ⟨before, line, after, h⟩ := exists_lineAt (hij.le.trans hj)
  have hle := h.le
  unfold lineColumn
  rw [Prod.Lex.toLex_lt_toLex]
  by_cases hsame : j ≤ before.length + line.length
  · right
    have hcolumn : i - before.length + 1 < j - before.length + 1 := by omega
    rw [h.ofIndex_eq, (h.move (hle.trans hij.le) hsame).ofIndex_eq]
    exact ⟨rfl, hcolumn⟩
  · left
    rw [h.ofIndex_eq]
    exact h.line_lt (Nat.lt_of_not_le hsame) hj

/-- A column of a text is the position of its own offset. -/
theorem ofIndex_offsetOf {line column : Nat} (h : Text.HasColumn text line column) :
    Text.offsetOf text line column ≤ text.length
      ∧ ofIndex text (Text.offsetOf text line column)
        = ⟨Text.offsetOf text line column, line, column⟩ := by
  obtain ⟨k, rfl⟩ := Nat.exists_eq_add_of_le' h.line_pos
  obtain ⟨m, rfl⟩ := Nat.exists_eq_add_of_le' h.column_pos
  obtain ⟨i, before, content, after, hline, rfl⟩ := exists_lineAt_number h.line_le
  have hm : m ≤ content.length := hline.hasColumn_iff.1 h
  rw [hline.offsetOf_eq, Nat.add_sub_cancel]
  constructor
  · rw [hline.text_eq, List.length_append, List.length_append]
    omega
  · rw [(hline.move (Nat.le_add_right _ m) (by omega)).ofIndex_eq, Nat.add_sub_cancel_left]

/-- An offset before the text counts as its start. -/
theorem ofIndex_of_neg {i : Int} (h : i < 0) : ofIndex text i = ofIndex text 0 := by
  unfold ofIndex
  rw [Int.toNat_of_nonpos h.le, Int.toNat_zero]

/-- An offset behind the text counts as its end. -/
theorem ofIndex_of_length_lt {i : Int} (h : text.length < i) :
    ofIndex text i = ofIndex text text.length := by
  obtain ⟨k, hk⟩ := Nat.exists_eq_add_of_le (show text.length ≤ i.toNat by omega)
  unfold ofIndex
  rw [hk, Int.toNat_natCast, advance_add, List.drop_length, advance_nil]

end Position

/-- A faithful system of coordinates: positions for the offsets of a text, of which those outside
the text count as its nearest end. -/
structure IsCoordinateSystem (text : List Char) (locate : Int → Position) : Prop where
  /-- The line counts the newlines before the offset, the column the characters since the last of
  them. -/
  scan : ∀ i : Nat, i ≤ text.length → locate i = ⟨i, (text.take i).count '\n' + 1,
    ((text.take i).rtakeWhile (· ≠ '\n')).length + 1⟩
  /-- The position is a column of a line of the text. -/
  hasColumn : ∀ i : Nat, i ≤ text.length →
    Text.HasColumn text (locate i).line (locate i).column
  /-- The offset is that of the column. -/
  offsetOf_eq : ∀ i : Nat, i ≤ text.length →
    Text.offsetOf text (locate i).line (locate i).column = i
  strictMonoOn : StrictMonoOn (fun i : Nat => (locate i).lineColumn) (Set.Iic text.length)
  /-- Every column of every line is the position of an offset. -/
  reaches : ∀ line column, Text.HasColumn text line column →
    ∃ i : Nat, i ≤ text.length ∧ locate i = ⟨i, line, column⟩
  start : ∀ i : Int, i < 0 → locate i = locate 0
  stop : ∀ i : Int, text.length < i → locate i = locate text.length

/-- Positions are a faithful system of coordinates for every text. -/
theorem Position.isCoordinateSystem_ofIndex (text : List Char) :
    IsCoordinateSystem text (Position.ofIndex text) where
  scan _ h := ofIndex_scan h
  hasColumn _ h := hasColumn_ofIndex h
  offsetOf_eq _ h := offsetOf_ofIndex h
  strictMonoOn _ _ _ hj hij := lineColumn_ofIndex_lt hij hj
  reaches line column h := ⟨Text.offsetOf text line column, ofIndex_offsetOf h⟩
  start _ h := ofIndex_of_neg h
  stop _ h := ofIndex_of_length_lt h

/-- A blank line has one column, in front of the newline that ends it. -/
theorem Position.isCoordinateSystem_ofIndex_blank_line :
    let text := ['a', '\n', '\n', 'b']
    Text.HasColumn text 2 1 ∧ ¬ Text.HasColumn text 2 2
      ∧ (∃ i : Nat, i ≤ text.length ∧ ofIndex text i = ⟨i, 2, 1⟩)
      ∧ Text.offsetOf text (ofIndex text 2).line (ofIndex text 2).column = 2
      ∧ (ofIndex text 2).lineColumn < (ofIndex text 4).lineColumn
      ∧ ofIndex text (-1) = ofIndex text 0 ∧ ofIndex text 5 = ofIndex text 4 := by
  have h := isCoordinateSystem_ofIndex ['a', '\n', '\n', 'b']
  have hcolumn : Text.HasColumn ['a', '\n', '\n', 'b'] 2 1 := by decide
  refine ⟨hcolumn, by decide, h.reaches 2 1 hcolumn, h.offsetOf_eq 2 (by decide), ?_,
    h.start (-1) (by decide), h.stop 5 (by decide)⟩
  exact h.strictMonoOn (by simp : 2 ∈ _) (by simp : 4 ∈ _) (by decide)

end Scoreboard
