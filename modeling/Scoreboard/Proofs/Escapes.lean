import Mathlib
import Scoreboard.Text.Quoted

/-!
# Texts between quotes

A text that is shown between quotes can be told from every other text (`Text.quoted_append_inj`):
the first character is the quote in use, what stands for one code point tells where it ends, and
the closing quote begins none of them. Codes are written with a fixed number of hexadecimal
digits, so that they too can be told from each other and from what follows.
-/

namespace Scoreboard

namespace Text

/-- What is in no part and in no gap is not in the parts put together. -/
theorem notMem_intercalate {α : Type} {x : α} {gap : List α} {parts : List (List α)}
    (hgap : x ∉ gap) (hparts : ∀ part ∈ parts, x ∉ part) : x ∉ gap.intercalate parts := by
  induction parts with
  | nil => exact List.not_mem_nil
  | cons part parts ih =>
    obtain ⟨hpart, hmore⟩ := List.forall_mem_cons.1 hparts
    cases parts with
    | nil =>
      rw [List.intercalate_singleton]
      exact hpart
    | cons next parts =>
      rw [List.intercalate_cons_cons, List.mem_append, List.mem_append]
      rintro ((hmem | hmem) | hmem)
      · exact hpart hmem
      · exact hgap hmem
      · exact ih hmore hmem

/-! ## Hexadecimal digits -/

/-- All but the last digit are those of the quotient. -/
theorem hex_succ {width : Nat} (hwidth : 0 < width) (n : Nat) :
    hex (width + 1) n = hex width (n / 16) ++ [(n % 16).digitChar] := by
  have hdigits := Nat.toDigits_eq_if (b := 16) (n := n) (by omega)
  unfold hex
  by_cases hsmall : n < 16
  · rw [if_pos hsmall] at hdigits
    obtain ⟨k, rfl⟩ : ∃ k, width = k + 1 := ⟨width - 1, by omega⟩
    rw [hdigits, Nat.div_eq_of_lt hsmall, Nat.mod_eq_of_lt hsmall, Nat.toDigits_zero]
    simp [List.replicate_succ']
  · rw [if_neg hsmall] at hdigits
    simp [hdigits]

theorem hex_one {n : Nat} (h : n < 16) : hex 1 n = [n.digitChar] := by
  unfold hex
  simp [Nat.toDigits_of_lt_base h]

theorem length_hex {width n : Nat} (hwidth : 0 < width) (h : n < 16 ^ width) :
    (hex width n).length = width := by
  have hle := (Nat.length_toDigits_le_iff (b := 16) (by omega) hwidth).2 h
  unfold hex
  rw [List.length_append, List.length_replicate]
  omega

/-- Numbers below sixteen have different digits. -/
theorem digitChar_injOn {m n : Nat} (hm : m < 16) (hn : n < 16) (h : m.digitChar = n.digitChar) :
    m = n := by
  have hall : ∀ m n : Fin 16, m.val.digitChar = n.val.digitChar → m = n := by decide
  exact congrArg Fin.val (hall ⟨m, hm⟩ ⟨n, hn⟩ h)

/-- Numbers that fit a width have different digits. -/
theorem hex_injOn {width m n : Nat} (hwidth : 0 < width) (hm : m < 16 ^ width)
    (hn : n < 16 ^ width) (h : hex width m = hex width n) : m = n := by
  induction width, hwidth using Nat.le_induction generalizing m n with
  | base =>
    rw [hex_one hm, hex_one hn] at h
    exact digitChar_injOn hm hn (List.cons.inj h).1
  | succ width hwidth ih =>
    rw [hex_succ hwidth, hex_succ hwidth] at h
    obtain ⟨hfirst, hlast⟩ := List.append_inj' h rfl
    have hquotient := ih (Nat.div_lt_of_lt_mul (by rwa [← Nat.pow_succ']))
      (Nat.div_lt_of_lt_mul (by rwa [← Nat.pow_succ'])) hfirst
    have hremainder := digitChar_injOn (Nat.mod_lt m (by omega)) (Nat.mod_lt n (by omega))
      (List.cons.inj hlast).1
    omega

theorem mem_hex {width n : Nat} (hwidth : 0 < width) (h : n < 16 ^ width) :
    ∀ c ∈ hex width n, ∃ k < 16, c = k.digitChar := by
  induction width, hwidth using Nat.le_induction generalizing n with
  | base =>
    rw [hex_one h, List.forall_mem_singleton]
    exact ⟨n, h, rfl⟩
  | succ width hwidth ih =>
    rw [hex_succ hwidth, List.forall_mem_append, List.forall_mem_singleton]
    exact ⟨ih (Nat.div_lt_of_lt_mul (by rwa [← Nat.pow_succ'])), n % 16, by omega, rfl⟩

/-! ## Code points by their codes -/

end Text

namespace CodePoint

theorem code_char_notMem (c : Char) : (char c).code < firstHalf ∨ 0xE000 ≤ (char c).code := by
  have hvalid : c.toNat < 0xD800 ∨ 0xDFFF < c.toNat ∧ c.toNat < 0x110000 := c.valid
  unfold code firstHalf
  simp only
  omega

theorem code_half_mem (offset : Fin 0x800) :
    firstHalf ≤ (half offset).code ∧ (half offset).code < 0xE000 := by
  have hlt := offset.isLt
  unfold code firstHalf
  simp only
  omega

theorem code_lt (point : CodePoint) : point.code < 0x110000 := by
  cases point with
  | char c =>
    have hvalid : c.toNat < 0xD800 ∨ 0xDFFF < c.toNat ∧ c.toNat < 0x110000 := c.valid
    unfold code
    simp only
    omega
  | half offset =>
    have hhalf := code_half_mem offset
    omega

/-- A code stands for one code point. -/
theorem ofCode_code (point : CodePoint) : ofCode point.code = point := by
  cases point with
  | char c =>
    have hchar := code_char_notMem c
    unfold ofCode
    rw [dif_neg (by omega)]
    exact congrArg char (Char.ofNat_toNat c)
  | half offset =>
    have hhalf := code_half_mem offset
    unfold ofCode
    rw [dif_pos hhalf]
    exact congrArg half (Fin.ext (Nat.add_sub_cancel_left firstHalf offset.val))

theorem code_injective : Function.Injective code := by
  intro first second h
  rw [← ofCode_code first, h, ofCode_code]

end CodePoint

namespace Text

/-! ## Shown code points -/

/-- The characters that are shown by a letter behind a backslash, with their letters. -/
def letters (quote : Char) : List (Char × Char) :=
  [(quote, quote), ('\\', '\\'), ('\n', 'n'), ('\r', 'r'), ('\t', 't')]

/-- The letters that announce a code, with the number of its digits. -/
def codeWidths : List (Char × Nat) := [('x', 2), ('u', 4), ('U', 8)]

/-- The three ways to show a code point: by itself, by a letter, and by its code. -/
inductive Shown (quote : Char) : CodePoint → List Char → Prop
  | plain {c : Char} (hquote : c ≠ quote) (hbackslash : c ≠ '\\') (hnewline : c ≠ '\n') :
      Shown quote (.char c) [c]
  | letter {c letter : Char} (h : (c, letter) ∈ letters quote) :
      Shown quote (.char c) ['\\', letter]
  | code {point : CodePoint} {letter : Char} {width : Nat} (h : (letter, width) ∈ codeWidths)
      (hcode : point.code < 16 ^ width) :
      Shown quote point ('\\' :: letter :: hex width point.code)

theorem shown_escapeCode (quote : Char) (point : CodePoint) :
    Shown quote point (escapeCode point.code) := by
  have hlt := point.code_lt
  unfold escapeCode
  split
  · exact .code (by decide) (by omega)
  · split
    · exact .code (by decide) (by omega)
    · exact .code (by decide) (by omega)

theorem shown_escapePoint (quote : Char) (point : CodePoint) :
    Shown quote point (escapePoint quote point) := by
  cases point with
  | half offset => exact shown_escapeCode quote (.half offset)
  | char c =>
    show Shown quote (.char c) (escapeShown quote c)
    unfold escapeShown
    split
    · rename_i hself
      rw [Bool.or_eq_true, beq_iff_eq, beq_iff_eq] at hself
      rcases hself with rfl | rfl <;> exact .letter (by simp [letters])
    · rename_i hself
      rw [Bool.or_eq_true, beq_iff_eq, beq_iff_eq, not_or] at hself
      split
      · rename_i hc
        rw [eq_of_beq hc]
        exact .letter (by simp [letters])
      · rename_i hnewline
        split
        · rename_i hc
          rw [eq_of_beq hc]
          exact .letter (by simp [letters])
        · split
          · rename_i hc
            rw [eq_of_beq hc]
            exact .letter (by simp [letters])
          · split
            · exact .plain hself.1 hself.2 (by simpa using hnewline)
            · exact shown_escapeCode quote (.char c)

/-- What a text is enclosed in. -/
def IsQuote (quote : Char) : Prop := quote = '\x27' ∨ quote = '"'

theorem isQuote_enclosingQuote (text : Text) : IsQuote (enclosingQuote text) := by
  unfold enclosingQuote
  split
  · exact .inr rfl
  · exact .inl rfl

section
variable {quote : Char} {point point' : CodePoint} {chars chars' rest rest' : List Char}

/-- A letter stands for one character, and announces no code. -/
theorem IsQuote.letters_inj (hquote : IsQuote quote) :
    (∀ a ∈ letters quote, ∀ b ∈ letters quote, a.2 = b.2 → a.1 = b.1)
      ∧ ∀ a ∈ letters quote, ∀ b ∈ codeWidths, a.2 ≠ b.1 := by
  rcases hquote with rfl | rfl <;> decide

theorem codeWidths_inj : ∀ a ∈ codeWidths, ∀ b ∈ codeWidths, a.1 = b.1 → a = b := by decide

theorem codeWidths_pos : ∀ a ∈ codeWidths, 0 < a.2 := by decide

/-- No code point is shown by something that starts with the quote. -/
theorem Shown.head_ne (h : Shown quote point chars) (hquote : IsQuote quote) :
    ∃ first more, chars = first :: more ∧ first ≠ quote := by
  have hbackslash : '\\' ≠ quote := by rcases hquote with rfl | rfl <;> decide
  cases h with
  | plain hne _ _ => exact ⟨_, _, rfl, hne⟩
  | letter _ => exact ⟨_, _, rfl, hbackslash⟩
  | code _ _ => exact ⟨_, _, rfl, hbackslash⟩

/-- What shows a code point stays on its line. -/
theorem Shown.notMem_newline (h : Shown quote point chars) (hquote : IsQuote quote) :
    '\n' ∉ chars := by
  cases h with
  | plain _ _ hnewline => simpa using hnewline.symm
  | letter hletter =>
    have hall : ∀ a ∈ letters quote, '\n' ∉ ['\\', a.2] := by
      rcases hquote with rfl | rfl <;> decide
    exact hall _ hletter
  | code hwidth hcode =>
    have hall : ∀ a ∈ codeWidths, '\n' ∉ ['\\', a.1] := by decide
    have hdigit : ∀ k : Fin 16, '\n' ≠ k.val.digitChar := by decide
    intro hmem
    obtain hmem | hmem := List.mem_append.1 (show '\n' ∈ ['\\', _] ++ hex _ _ from hmem)
    · exact hall _ hwidth hmem
    · obtain ⟨k, hk, heq⟩ := mem_hex (codeWidths_pos _ hwidth) hcode _ hmem
      exact hdigit ⟨k, hk⟩ heq

/-- What shows a code point can be told from what shows another one, whatever follows. -/
theorem Shown.append_inj (h : Shown quote point chars) (h' : Shown quote point' chars')
    (hquote : IsQuote quote) (heq : chars ++ rest = chars' ++ rest') :
    point = point' ∧ rest = rest' := by
  obtain ⟨hletters, hapart⟩ := hquote.letters_inj
  cases h with
  | plain _ hbackslash _ =>
    cases h' with
    | plain _ _ _ =>
      obtain ⟨hfirst, hrest⟩ := List.cons.inj heq
      exact ⟨congrArg _ hfirst, hrest⟩
    | letter _ => exact (hbackslash (List.cons.inj heq).1).elim
    | code _ _ => exact (hbackslash (List.cons.inj heq).1).elim
  | letter hletter =>
    cases h' with
    | plain _ hbackslash _ => exact (hbackslash (List.cons.inj heq).1.symm).elim
    | letter hletter' =>
      obtain ⟨hsame, hrest⟩ := List.cons.inj (List.cons.inj heq).2
      exact ⟨congrArg _ (hletters _ hletter _ hletter' hsame), hrest⟩
    | code hwidth _ =>
      exact (hapart _ hletter _ hwidth (List.cons.inj (List.cons.inj heq).2).1).elim
  | code hwidth hcode =>
    cases h' with
    | plain _ hbackslash _ => exact (hbackslash (List.cons.inj heq).1.symm).elim
    | letter hletter =>
      exact (hapart _ hletter _ hwidth (List.cons.inj (List.cons.inj heq).2).1.symm).elim
    | code hwidth' hcode' =>
      -- the same letter announces the same number of digits
      obtain ⟨hsame, hdigits⟩ := List.cons.inj (List.cons.inj heq).2
      obtain rfl := (Prod.mk.inj (codeWidths_inj _ hwidth _ hwidth' hsame)).2
      have hpos := codeWidths_pos _ hwidth
      obtain ⟨hhex, hrest⟩ := List.append_inj hdigits
        (by rw [length_hex hpos hcode, length_hex hpos hcode'])
      exact ⟨CodePoint.code_injective (hex_injOn hpos hcode hcode' hhex), hrest⟩

end

/-! ## Quoted texts -/

theorem escapePoints_inj {quote : Char} (hquote : IsQuote quote) {points points' : List CodePoint}
    {rest rest' : List Char} (h : points.flatMap (escapePoint quote) ++ quote :: rest
      = points'.flatMap (escapePoint quote) ++ quote :: rest') :
    points = points' ∧ rest = rest' := by
  induction points generalizing points' with
  | nil =>
    cases points' with
    | nil => exact ⟨rfl, (List.cons.inj h).2⟩
    | cons point' points' =>
      obtain ⟨first, more, hchars, hne⟩ := (shown_escapePoint quote point').head_ne hquote
      rw [List.flatMap_cons, hchars] at h
      exact (hne (List.cons.inj h).1.symm).elim
  | cons point points ih =>
    cases points' with
    | nil =>
      obtain ⟨first, more, hchars, hne⟩ := (shown_escapePoint quote point).head_ne hquote
      rw [List.flatMap_cons, hchars] at h
      exact (hne (List.cons.inj h).1).elim
    | cons point' points' =>
      rw [List.flatMap_cons, List.flatMap_cons, List.append_assoc, List.append_assoc] at h
      obtain ⟨rfl, hmore⟩ :=
        (shown_escapePoint quote point).append_inj (shown_escapePoint quote point') hquote h
      obtain ⟨rfl, hrest⟩ := ih hmore
      exact ⟨rfl, hrest⟩

theorem toList_quoted (text : Text) :
    (quoted text).toList = enclosingQuote text
      :: (text.points.flatMap (escapePoint (enclosingQuote text)) ++ [enclosingQuote text]) :=
  String.toList_ofList

theorem newline_notMem_quoted (text : Text) : '\n' ∉ (quoted text).toList := by
  have hquote := isQuote_enclosingQuote text
  have hne : '\n' ≠ enclosingQuote text := by
    rcases hquote with h | h <;> rw [h] <;> decide
  rw [toList_quoted, List.mem_cons, List.mem_append, List.mem_flatMap, List.mem_singleton]
  rintro (heq | ⟨point, -, hmem⟩ | heq)
  · exact hne heq
  · exact (shown_escapePoint _ point).notMem_newline hquote hmem
  · exact hne heq

/-- A shown text can be told from every other one, whatever follows. -/
theorem quoted_append_inj {text text' : Text} {rest rest' : List Char}
    (h : (quoted text).toList ++ rest = (quoted text').toList ++ rest') :
    text = text' ∧ rest = rest' := by
  rw [toList_quoted, toList_quoted, List.cons_append, List.cons_append] at h
  obtain ⟨hquote, hmore⟩ := List.cons.inj h
  rw [← hquote, List.append_assoc, List.append_assoc] at hmore
  obtain ⟨hpoints, hrest⟩ := escapePoints_inj (isQuote_enclosingQuote text) hmore
  exact ⟨congrArg Text.mk hpoints, hrest⟩

end Text

end Scoreboard
