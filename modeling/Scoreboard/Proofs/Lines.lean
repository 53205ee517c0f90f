import Mathlib
import Scoreboard.Source
import Scoreboard.Text.Characters

/-!
# Lines of a text

A text is cut into lines at its newlines. The line that an offset is on can be found in two ways:
by cutting, and by walking to the offset and counting newlines. Both lead to the same line
(`LineAt.getElem?_lines`, `LineAt.ofIndex_eq`): the number of a position is that of its line, and
its column is the distance from the start of the line, both counted from 1.
-/

namespace Scoreboard

namespace Text

/-! ## Texts of strings -/

theorem ofString_append (s t : String) : ofString (s ++ t) = ofString s ++ ofString t := by
  have hpoints : (s ++ t).toList.map CodePoint.char
      = s.toList.map CodePoint.char ++ t.toList.map CodePoint.char := by
    rw [String.toList_append, List.map_append]
  exact congrArg Text.mk hpoints

theorem ofString_injective : Function.Injective ofString := by
  intro s t h
  have hpoints : s.toList.map CodePoint.char = t.toList.map CodePoint.char :=
    congrArg Text.points h
  exact String.toList_injective (List.map_injective_iff.2 (fun _ _ => CodePoint.char.inj) hpoints)

theorem chars?_eq_some_iff {points : List CodePoint} {chars : List Char} :
    points.mapM CodePoint.char? = some chars ↔ points = chars.map CodePoint.char := by
  induction points generalizing chars with
  | nil => cases chars <;> simp
  | cons point rest ih =>
    cases point with
    | char c =>
      simp only [List.mapM_cons, CodePoint.char?, Option.pure_def, Option.bind_eq_bind,
        Option.bind_some, Option.bind_eq_some_iff, ih, Option.some.injEq]
      constructor
      · rintro ⟨tail, rfl, rfl⟩
        rfl
      · intro h
        obtain ⟨d, tail, rfl, hd, rfl⟩ := List.map_eq_cons_iff.1 h.symm
        exact ⟨tail, rfl, by rw [CodePoint.char.inj hd]⟩
    | half offset => cases chars <;> simp [CodePoint.char?]

/-- A text can be encoded exactly if it is that of a string. -/
theorem string?_eq_some_iff {text : Text} {s : String} :
    text.string? = some s ↔ text = ofString s := by
  obtain ⟨points⟩ := text
  rw [string?, chars?, Option.map_eq_some_iff, ofString, ofChars, Text.mk.injEq]
  simp only [chars?_eq_some_iff]
  constructor
  · rintro ⟨chars, rfl, rfl⟩
    rw [String.toList_ofList]
  · rintro rfl
    exact ⟨s.toList, rfl, String.ofList_toList⟩

theorem string?_ofString (s : String) : (ofString s).string? = some s :=
  string?_eq_some_iff.2 rfl

theorem plain_ofString (s : String) : (ofString s).plain = s := by
  simp [plain, ofString, ofChars, CodePoint.char?, Function.comp_def]

/-! ## Splitting texts -/

variable {α : Type} [DecidableEq α] {separator : α}

theorem exists_split_cons (separator : α) (xs : List α) :
    ∃ piece more, split separator xs = piece :: more := by
  cases xs with
  | nil => exact ⟨[], [], rfl⟩
  | cons c rest =>
    rw [split]
    split
    · exact ⟨_, _, rfl⟩
    · split
      · exact ⟨_, _, rfl⟩
      · exact ⟨_, _, rfl⟩

theorem split_append (xs ys : List α) :
    split separator (xs ++ separator :: ys) = split separator xs ++ split separator ys := by
  induction xs with
  | nil => simp [split]
  | cons c rest ih =>
    rw [List.cons_append, split, split, ih]
    by_cases hc : c = separator
    · rw [if_pos hc, if_pos hc, List.cons_append]
    · obtain ⟨piece, more, hrest⟩ := exists_split_cons separator rest
      rw [if_neg hc, if_neg hc, hrest, List.cons_append, List.cons_append]

theorem split_of_notMem {xs : List α} (h : separator ∉ xs) : split separator xs = [xs] := by
  induction xs with
  | nil => rfl
  | cons c rest ih =>
    rw [List.mem_cons, not_or] at h
    rw [split, if_neg (Ne.symm h.1), ih h.2]

/-- There is one piece more than there are separators. -/
theorem length_split (xs : List α) : (split separator xs).length = xs.count separator + 1 := by
  induction xs with
  | nil => rfl
  | cons c rest ih =>
    rw [split]
    obtain ⟨piece, more, hrest⟩ := exists_split_cons separator rest
    rw [hrest] at ih ⊢
    by_cases hc : c = separator
    · rw [if_pos hc, List.length_cons, ih, hc, List.count_cons_self]
    · rw [if_neg hc, List.count_cons_of_ne hc]
      exact ih

/-- With a separator behind each of them, the pieces are one longer than the list. -/
theorem sum_length_split (xs : List α) :
    ((split separator xs).map fun piece => piece.length + 1).sum = xs.length + 1 := by
  induction xs with
  | nil => rfl
  | cons c rest ih =>
    obtain ⟨piece, more, hrest⟩ := exists_split_cons separator rest
    rw [split]
    rw [hrest, List.map_cons, List.sum_cons] at ih
    by_cases hc : c = separator
    · rw [if_pos hc, hrest, List.map_cons, List.map_cons, List.sum_cons, List.sum_cons, ih,
        List.length_nil, List.length_cons]
      omega
    · rw [if_neg hc, hrest, List.map_cons, List.sum_cons, List.length_cons, List.length_cons]
      omega

end Text

/-! ## Positions along a text -/

namespace Position

variable {first second line : List Char} {i n : Nat}

theorem advance_nil (p : Position) (n : Nat) : p.advance [] n = p := by
  cases n <;> rfl

theorem advance_add (p : Position) (text : List Char) (m n : Nat) :
    p.advance text (m + n) = (p.advance text m).advance (text.drop m) n := by
  induction m generalizing p text with
  | zero => rw [Nat.zero_add, advance, List.drop_zero]
  | succ m ih =>
    cases text with
    | nil => rw [List.drop_nil, advance_nil, advance_nil, advance_nil]
    | cons c rest =>
      rw [Nat.succ_add, List.drop_succ_cons]
      exact ih (p.next c) rest

theorem index_advance (p : Position) (text : List Char) (n : Nat) :
    (p.advance text n).index = p.index + min n text.length := by
  induction n generalizing p text with
  | zero => rw [advance, Nat.zero_min, Nat.add_zero]
  | succ n ih =>
    cases text with
    | nil => rw [advance, List.length_nil, Nat.min_zero, Nat.add_zero]
    | cons c rest =>
      have hnext : (p.next c).index = p.index + 1 := by
        unfold next
        split <;> rfl
      rw [advance, ih, hnext, List.length_cons]
      omega

/-- An offset within a text is the index of its position. -/
theorem index_ofIndex {text : List Char} {i : Nat} (h : i ≤ text.length) :
    (ofIndex text i).index = i := by
  unfold ofIndex
  rw [index_advance, Int.toNat_natCast]
  show 0 + _ = i
  omega

theorem advance_append (p : Position) {n : Nat} (hn : n ≤ first.length) :
    p.advance (first ++ second) n = p.advance first n := by
  induction n generalizing p first with
  | zero => rw [advance, advance]
  | succ n ih =>
    cases first with
    | nil => cases hn
    | cons c first => exact ih (p.next c) (Nat.le_of_succ_le_succ hn)

theorem line_advance_length (p : Position) (text : List Char) :
    (p.advance text text.length).line = p.line + text.count '\n' := by
  induction text generalizing p with
  | nil => rfl
  | cons c text ih =>
    rw [List.length_cons, advance, ih]
    by_cases hc : c = '\n'
    · rw [hc, List.count_cons_self]
      show p.line + 1 + _ = _
      omega
    · have hnext : (p.next c).line = p.line := by
        unfold next
        rw [if_neg hc]
      rw [List.count_cons_of_ne hc, hnext]

theorem ofIndex_append {i : Nat} (hi : i ≤ first.length) :
    ofIndex (first ++ second) i = ofIndex first i := by
  unfold ofIndex
  rw [Int.toNat_natCast, advance_append origin hi]

/-- An offset lies behind as many newlines as its position has lines above it. -/
theorem line_ofIndex {text : List Char} (h : i ≤ text.length) :
    (ofIndex text i).line = (text.take i).count '\n' + 1 := by
  have hlength : (text.take i).length = i := List.length_take_of_le h
  have happend : ofIndex text i = origin.advance (text.take i) i := by
    unfold ofIndex
    rw [Int.toNat_natCast]
    nth_rewrite 1 [← List.take_append_drop i text]
    exact advance_append origin (by omega)
  have hline := line_advance_length origin (text.take i)
  rw [hlength] at hline
  rw [happend, hline]
  exact Nat.add_comm _ _

/-- Without a newline a position moves along its line. -/
theorem advance_of_notMem (hline : '\n' ∉ line) (p : Position) (hn : n ≤ line.length) :
    p.advance line n = ⟨p.index + n, p.line, p.column + n⟩ := by
  induction n generalizing p line with
  | zero => rw [advance, Nat.add_zero, Nat.add_zero]
  | succ n ih =>
    cases line with
    | nil => cases hn
    | cons c line =>
      rw [List.mem_cons, not_or] at hline
      have hnext : p.next c = ⟨p.index + 1, p.line, p.column + 1⟩ := by
        unfold next
        rw [if_neg (Ne.symm hline.1)]
      rw [advance, hnext, ih hline.2 _ (Nat.le_of_succ_le_succ hn)]
      simp only [Position.mk.injEq, true_and]
      omega

end Position

/-! ## The line of an offset -/

/-- The line of a text that holds an offset, with the text before and behind it. An offset at a
newline, or at the end of the text, belongs to the line that ends there. -/
structure LineAt (text : List Char) (i : Nat) (before line after : List Char) : Prop where
  text_eq : text = before ++ (line ++ after)
  starts : before = [] ∨ ∃ first, before = first ++ ['\n']
  whole : '\n' ∉ line
  ends : after = [] ∨ ∃ rest, after = '\n' :: rest
  le : before.length ≤ i
  le_end : i ≤ before.length + line.length

theorem exists_lineAt {text : List Char} {i : Nat} (hi : i ≤ text.length) :
    ∃ before line after, LineAt text i before line after := by
  induction text generalizing i with
  | nil =>
    obtain rfl : i = 0 := Nat.le_zero.1 hi
    exact ⟨[], [], [], rfl, .inl rfl, by simp, .inl rfl, Nat.le_refl _, Nat.le_refl _⟩
  | cons c text ih =>
    by_cases hc : c = '\n'
    · subst hc
      -- a newline ends the line in front of it, or stands above the line
      cases i with
      | zero =>
        exact ⟨[], [], '\n' :: text, rfl, .inl rfl, by simp, .inr ⟨text, rfl⟩, Nat.le_refl _,
          Nat.le_refl _⟩
      | succ i =>
        obtain ⟨before, line, after, h⟩ := ih (Nat.le_of_succ_le_succ hi)
        refine ⟨'\n' :: before, line, after, ?_, .inr ?_, h.whole, h.ends, ?_, ?_⟩
        · rw [h.text_eq, List.cons_append]
        · rcases h.starts with rfl | ⟨first, rfl⟩
          · exact ⟨[], rfl⟩
          · exact ⟨'\n' :: first, rfl⟩
        · exact Nat.succ_le_succ h.le
        · have hle := h.le_end
          rw [List.length_cons]
          omega
    · -- the first character goes on with the first line of the rest, or stands above the line
      obtain ⟨before, line, after, h⟩ := ih (i := i - 1) (by rw [List.length_cons] at hi; omega)
      have hle := h.le
      have hle_end := h.le_end
      rcases h.starts with rfl | ⟨first, rfl⟩
      · refine ⟨[], c :: line, after, ?_, .inl rfl, ?_, h.ends, Nat.zero_le _, ?_⟩
        · rw [h.text_eq]
          rfl
        · rw [List.mem_cons, not_or]
          exact ⟨Ne.symm hc, h.whole⟩
        · rw [List.length_cons]
          omega
      · refine ⟨c :: (first ++ ['\n']), line, after, ?_, .inr ⟨c :: first, rfl⟩, h.whole, h.ends,
          ?_, ?_⟩
        · rw [h.text_eq, List.cons_append]
        · rw [List.length_append, List.length_singleton] at hle
          rw [List.length_cons, List.length_append, List.length_singleton]
          omega
        · rw [List.length_append, List.length_singleton] at hle hle_end
          rw [List.length_cons, List.length_append, List.length_singleton]
          omega

namespace LineAt

variable {text before line after : List Char} {i j : Nat}

/-- Every offset up to the end of the line is on it. -/
theorem move (h : LineAt text i before line after) (hle : before.length ≤ j)
    (hle_end : j ≤ before.length + line.length) : LineAt text j before line after :=
  ⟨h.text_eq, h.starts, h.whole, h.ends, hle, hle_end⟩

/-- An offset is some characters into its line. -/
theorem exists_eq_add (h : LineAt text i before line after) :
    ∃ k ≤ line.length, i = before.length + k := by
  obtain ⟨k, rfl⟩ := Nat.exists_eq_add_of_le h.le
  exact ⟨k, Nat.le_of_add_le_add_left h.le_end, rfl⟩

/-- A line starts in the first column. -/
theorem advance_before (h : LineAt text i before line after) :
    Position.origin.advance before before.length = ⟨before.length, before.count '\n' + 1, 1⟩ := by
  rcases h.starts with rfl | ⟨first, rfl⟩
  · rfl
  · have hindex := Position.index_advance .origin first first.length
    have hline := Position.line_advance_length .origin first
    rw [List.length_append, Position.advance_add, List.drop_left,
      Position.advance_append _ (Nat.le_refl _), List.length_singleton, Position.advance,
      Position.advance, Position.next, if_pos rfl, hindex, hline, List.count_append]
    simp only [Position.origin, Position.mk.injEq, Nat.min_self, List.count_singleton_self,
      and_true]
    omega

/-- The position of an offset has the number of its line, and the column counts from the start of
the line. -/
theorem ofIndex_eq (h : LineAt text i before line after) :
    Position.ofIndex text i = ⟨i, before.count '\n' + 1, i - before.length + 1⟩ := by
  obtain ⟨k, hk, rfl⟩ := h.exists_eq_add
  unfold Position.ofIndex
  rw [Int.toNat_natCast, h.text_eq, Position.advance_add, List.drop_left,
    Position.advance_append _ (Nat.le_refl _), h.advance_before, Position.advance_append _ hk,
    Position.advance_of_notMem h.whole _ hk, Nat.add_sub_cancel_left, Nat.add_comm 1]

/-- Cutting a text leaves the line of an offset whole. The lines above it are as many as the
newlines before it, and with their newlines they are as long as the text before it. -/
theorem exists_lines_eq (h : LineAt text i before line after) :
    ∃ above below, Text.lines text = above ++ line :: below ∧ above.length = before.count '\n'
      ∧ (above.map fun content => content.length + 1).sum = before.length := by
  have hfirst : ∃ below, Text.split '\n' (line ++ after) = line :: below := by
    rcases h.ends with rfl | ⟨rest, rfl⟩
    · exact ⟨[], by rw [List.append_nil, Text.split_of_notMem h.whole]⟩
    · exact ⟨_, by rw [Text.split_append, Text.split_of_notMem h.whole, List.singleton_append]⟩
  obtain ⟨below, hbelow⟩ := hfirst
  unfold Text.lines
  rw [h.text_eq]
  rcases h.starts with rfl | ⟨first, rfl⟩
  · exact ⟨[], below, hbelow, rfl, rfl⟩
  · refine ⟨Text.split '\n' first, below, ?_, ?_, ?_⟩
    · rw [List.append_assoc, List.singleton_append, Text.split_append, hbelow]
    · rw [Text.length_split, List.count_append, List.count_singleton_self]
    · rw [Text.sum_length_split, List.length_append, List.length_singleton]

/-- The lines of a text are cut at the newlines above them. -/
theorem getElem?_lines (h : LineAt text i before line after) :
    (Text.lines text)[before.count '\n']? = some line := by
  obtain ⟨above, below, hlines, hlength, -⟩ := h.exists_lines_eq
  rw [hlines, ← hlength, List.getElem?_append_right (Nat.le_refl _), Nat.sub_self,
    List.getElem?_cons_zero]

/-- Behind the end of the line the lines have greater numbers. -/
theorem line_lt (h : LineAt text i before line after) (hj : before.length + line.length < j)
    (hlength : j ≤ text.length) : before.count '\n' + 1 < (Position.ofIndex text j).line := by
  rw [Position.line_ofIndex hlength, h.text_eq]
  rcases h.ends with rfl | ⟨rest, rfl⟩
  · rw [h.text_eq, List.append_nil, List.length_append] at hlength
    omega
  · obtain ⟨k, rfl⟩ := Nat.exists_eq_add_of_le (Nat.succ_le_of_lt hj)
    have hsplit : before ++ (line ++ '\n' :: rest) = (before ++ line ++ ['\n']) ++ rest := by simp
    have hshort : (before ++ line ++ ['\n']).length = (before.length + line.length).succ := by
      rw [List.length_append, List.length_append, List.length_singleton]
    rw [hsplit, ← hshort, List.take_length_add_append, List.count_append, List.count_append,
      List.count_append, List.count_singleton_self]
    omega

end LineAt

end Scoreboard
