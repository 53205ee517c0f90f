import Mathlib
import Scoreboard.Project
import Scoreboard.Proofs.Building
import Scoreboard.Proofs.Delivery
import Scoreboard.Proofs.Escapes

/-!
# Settings that are saved and loaded

The settings of a project that are written to its settings file are read back as they were
(`Project.load_save`). A string is written in ASCII alone, with an escape for each UTF-16 unit of
a character beyond it, and the reader puts the two halves of a pair together again. The only
texts that change on the way are those in which the two halves of a pair stand side by side as
code points of their own (`Text.NoPair`), because these are read as one character.
-/

namespace Scoreboard

/-! ## Halves of pairs -/

namespace CodePoint

/-- A first half of a pair. -/
def IsHigh (point : CodePoint) : Prop := 0xD800 ≤ point.code ∧ point.code < 0xDC00

/-- A second half of a pair. -/
def IsLow (point : CodePoint) : Prop := 0xDC00 ≤ point.code ∧ point.code < 0xE000

end CodePoint

/-- No first half of a pair stands directly in front of a second one. -/
def Text.NoPair (text : Text) : Prop :=
  text.points.IsChain fun first second => ¬(first.IsHigh ∧ second.IsLow)

theorem Text.noPair_of_forall {text : Text} (h : ∀ point ∈ text.points, ¬point.IsHigh) :
    text.NoPair := by
  unfold Text.NoPair
  generalize text.points = points at h
  induction points with
  | nil => exact .nil
  | cons first rest ih =>
    obtain ⟨hfirst, hrest⟩ := List.forall_mem_cons.1 h
    cases rest with
    | nil => exact .singleton first
    | cons second rest => exact .cons_cons (fun hpair => hfirst hpair.1) (ih hrest)

/-- A text without lone halves has no halves at all. -/
theorem Text.noPair_of_isWhole {text : Text} (h : text.isWhole = true) : text.NoPair := by
  refine noPair_of_forall fun point hpoint hhigh => ?_
  have hchar := List.all_eq_true.1 h point hpoint
  cases point with
  | half offset => cases hchar
  | char c =>
    have hcode := CodePoint.code_char_notMem c
    unfold CodePoint.IsHigh at hhigh
    unfold CodePoint.firstHalf at hcode
    omega

namespace Json

/-! ## Written code points -/

/-- The characters with a short escape, with the letters that stand for them. -/
def shortLetters : List (Char × Char) :=
  [('"', '"'), ('\\', '\\'), ('\n', 'n'), ('\r', 'r'), ('\t', 't'), ('\x08', 'b'), ('\x0c', 'f')]

/-- The escape of a UTF-16 unit. -/
def unitEscape (unit : Nat) : List Char := '\\' :: 'u' :: Text.hex 4 unit

/-- The ways to write a code point in a string: by itself, by a short escape, by its code, and
by the two units of its UTF-16 encoding. -/
inductive Written : CodePoint → List Char → Prop
  | plain {c : Char} (hlow : 32 ≤ c.toNat) (hhigh : c.toNat < 127) (hquote : c ≠ '"')
      (hbackslash : c ≠ '\\') : Written (.char c) [c]
  | short {c letter : Char} (h : (c, letter) ∈ shortLetters) : Written (.char c) ['\\', letter]
  | unit {point : CodePoint} (h : point.code < 0x10000) : Written point (unitEscape point.code)
  | pair {point : CodePoint} (h : 0x10000 ≤ point.code) : Written point
      (unitEscape (0xD800 + (point.code - 0x10000) / 0x400)
        ++ unitEscape (0xDC00 + (point.code - 0x10000) % 0x400))

theorem units_of_lt {code : Nat} (h : code < 0x10000) : units code = [code] := if_pos h

theorem units_of_le {code : Nat} (h : 0x10000 ≤ code) :
    units code = [0xD800 + (code - 0x10000) / 0x400, 0xDC00 + (code - 0x10000) % 0x400] :=
  if_neg (by omega)

theorem written_escapeCode (point : CodePoint) : Written point (escapeCode point.code) := by
  show Written point ((units point.code).flatMap unitEscape)
  by_cases hsmall : point.code < 0x10000
  · rw [units_of_lt hsmall, List.flatMap_singleton]
    exact .unit hsmall
  · rw [units_of_le (by omega), List.flatMap_cons, List.flatMap_singleton]
    exact .pair (by omega)

theorem written_escapePoint (point : CodePoint) : Written point (escapePoint point) := by
  cases point with
  | half offset => exact written_escapeCode (.half offset)
  | char c =>
    show Written (.char c) (escape c)
    unfold escape
    split
    · rename_i hc
      rw [eq_of_beq hc]
      exact .short (by decide)
    · rename_i hquote
      split
      · rename_i hc
        rw [eq_of_beq hc]
        exact .short (by decide)
      · rename_i hbackslash
        -- the five other letters
        iterate 5
          split
          · rename_i hc
            rw [eq_of_beq hc]
            exact .short (by decide)
        split
        · rename_i hascii
          rw [Bool.and_eq_true, decide_eq_true_eq, decide_eq_true_eq] at hascii
          exact .plain hascii.1 hascii.2 (by simpa using hquote) (by simpa using hbackslash)
        · exact written_escapeCode (.char c)

/-! ## Reading a string -/

theorem hexValue?_digitChar {n : Nat} (h : n < 16) : hexValue? n.digitChar = some n := by
  have hall : ∀ n : Fin 16, hexValue? n.val.digitChar = some n.val := by decide
  exact hall ⟨n, h⟩

/-- The four digits of a unit. -/
theorem hex_four {unit : Nat} (h : unit < 0x10000) :
    Text.hex 4 unit = [(unit / 16 / 16 / 16).digitChar, (unit / 16 / 16 % 16).digitChar,
      (unit / 16 % 16).digitChar, (unit % 16).digitChar] := by
  rw [Text.hex_succ (by omega), Text.hex_succ (by omega), Text.hex_succ (by omega),
    Text.hex_one (by omega)]
  rfl

theorem hexUnit?_hex {unit : Nat} (h : unit < 0x10000) :
    hexUnit? (unit / 16 / 16 / 16).digitChar (unit / 16 / 16 % 16).digitChar
      (unit / 16 % 16).digitChar (unit % 16).digitChar = some unit := by
  unfold hexUnit?
  rw [hexValue?_digitChar (by omega), hexValue?_digitChar (by omega),
    hexValue?_digitChar (by omega), hexValue?_digitChar (by omega)]
  show some _ = some unit
  congr 1
  omega

section
variable {before : List Nat} {rest : List Char}

theorem stringUnits_unit {unit : Nat} (h : unit < 0x10000) :
    stringUnits before (unitEscape unit ++ rest) = stringUnits (unit :: before) rest := by
  rw [unitEscape, hex_four h]
  simp only [List.cons_append, List.nil_append, stringUnits, hexUnit?_hex h]

theorem stringUnits_plain {c : Char} (hlow : 32 ≤ c.toNat) (hquote : c ≠ '"')
    (hbackslash : c ≠ '\\') :
    stringUnits before (c :: rest) = stringUnits (c.toNat :: before) rest := by
  have hcontrol : ¬(c == '\\' || decide (c.toNat < 32)) = true := by
    simp [hbackslash, hlow]
  rw [stringUnits.eq_def]
  split
  · rename_i heq
    cases heq
  · rename_i heq
    exact (hquote (List.cons.inj heq).1).elim
  · rename_i heq
    exact (hbackslash (List.cons.inj heq).1).elim
  · rename_i heq
    exact (hbackslash (List.cons.inj heq).1).elim
  · rename_i heq
    obtain ⟨rfl, rfl⟩ := List.cons.inj heq
    exact if_neg hcontrol

theorem stringUnits_short {c letter : Char} (h : (c, letter) ∈ shortLetters) :
    stringUnits before ('\\' :: letter :: rest) = stringUnits (c.toNat :: before) rest := by
  have hall : ∀ pair ∈ shortLetters, pair.2 ≠ 'u' ∧ shortEscape? pair.2 = some pair.1 := by decide
  obtain ⟨hletter, hshort⟩ := hall _ h
  rw [stringUnits.eq_def]
  split
  · rename_i heq
    cases heq
  · rename_i heq
    exact absurd (List.cons.inj heq).1 (by decide)
  · rename_i heq
    exact (hletter (List.cons.inj (List.cons.inj heq).2).1).elim
  · rename_i heq
    obtain ⟨rfl, rfl⟩ := List.cons.inj (List.cons.inj heq).2
    simp only [hshort]
  · rename_i hnot heq
    obtain ⟨hfirst, hmore⟩ := List.cons.inj heq
    exact (hnot _ _ hfirst.symm hmore.symm).elim

/-- What is written for a code point is read as its units. -/
theorem stringUnits_written {point : CodePoint} {chars : List Char} (h : Written point chars) :
    stringUnits before (chars ++ rest)
      = stringUnits ((units point.code).reverse ++ before) rest := by
  have hlt := point.code_lt
  cases h with
  | plain hlow hhigh hquote hbackslash =>
    rename_i c
    have hunits : units c.toNat = [c.toNat] := units_of_lt (by omega)
    exact (stringUnits_plain hlow hquote hbackslash).trans (by rw [CodePoint.code, hunits]; rfl)
  | short hletter =>
    rename_i c letter
    have hall : ∀ pair ∈ shortLetters, pair.1.toNat < 0x10000 := by decide
    have hunits : units c.toNat = [c.toNat] := units_of_lt (hall _ hletter)
    exact (stringUnits_short hletter).trans (by rw [CodePoint.code, hunits]; rfl)
  | unit hsmall =>
    rw [units_of_lt hsmall, stringUnits_unit hsmall]
    rfl
  | pair hlarge =>
    rw [units_of_le hlarge, List.append_assoc, stringUnits_unit (by omega),
      stringUnits_unit (by omega)]
    rfl

theorem stringUnits_points (points : List CodePoint) :
    stringUnits before (points.flatMap escapePoint ++ '"' :: rest)
      = some (points.reverse.flatMap (fun point => (units point.code).reverse) ++ before,
          rest) := by
  induction points generalizing before with
  | nil => rw [List.flatMap_nil, List.nil_append, stringUnits]; rfl
  | cons point points ih =>
    rw [List.flatMap_cons, List.append_assoc, stringUnits_written (written_escapePoint point), ih,
      List.reverse_cons, List.flatMap_append, List.flatMap_singleton, List.append_assoc]

end

/-- The last unit of a code point is a first half only if the code point is one. -/
theorem getLast?_units {point : CodePoint} {unit : Nat} (h : unit ∈ (units point.code).getLast?)
    (hhigh : 0xD800 ≤ unit ∧ unit < 0xDC00) : point.IsHigh := by
  have hlt := point.code_lt
  by_cases hsmall : point.code < 0x10000
  · rw [units_of_lt hsmall] at h
    obtain rfl : point.code = unit := Option.some.inj h
    exact hhigh
  · rw [units_of_le (by omega)] at h
    have hunit : 0xDC00 + (point.code - 0x10000) % 0x400 = unit := Option.some.inj h
    omega

/-- The units of one code point are put together again, unless they are a second half behind a
first one. -/
theorem joinUnits_units {behind : List CodePoint} {point : CodePoint} {more : List Nat}
    (h : point.IsLow → ∀ unit ∈ more.head?, ¬(0xD800 ≤ unit ∧ unit < 0xDC00)) :
    joinUnits behind ((units point.code).reverse ++ more) = joinUnits (point :: behind) more := by
  have hlt := point.code_lt
  by_cases hsmall : point.code < 0x10000
  · rw [units_of_lt hsmall]
    cases more with
    | nil =>
      show CodePoint.ofCode point.code :: behind = point :: behind
      rw [CodePoint.ofCode_code]
    | cons high more =>
      have hapart : ¬(0xD800 ≤ high && decide (high < 0xDC00) && decide (0xDC00 ≤ point.code)
          && decide (point.code < 0xE000)) = true := by
        simp only [Bool.and_eq_true, decide_eq_true_eq]
        rintro ⟨⟨⟨hhigh, hhigh'⟩, hlow⟩, hlow'⟩
        exact h ⟨hlow, hlow'⟩ high rfl ⟨hhigh, hhigh'⟩
      show joinUnits behind (point.code :: high :: more) = _
      rw [joinUnits, if_neg hapart, CodePoint.ofCode_code]
  · rw [units_of_le (by omega)]
    -- the two units are a pair, and the pair has the code it came from
    generalize hhigh : 0xD800 + (point.code - 0x10000) / 0x400 = high
    generalize hlow : 0xDC00 + (point.code - 0x10000) % 0x400 = low
    have hpair : (0xD800 ≤ high && decide (high < 0xDC00) && decide (0xDC00 ≤ low)
        && decide (low < 0xE000)) = true := by
      simp only [Bool.and_eq_true, decide_eq_true_eq]
      omega
    have hcode : 0x10000 + (high - 0xD800) * 0x400 + (low - 0xDC00) = point.code := by omega
    show joinUnits behind (low :: high :: more) = _
    rw [joinUnits, if_pos hpair]
    simp only [hcode, CodePoint.ofCode_code]

/-- The code points in reverse, each of which is not a second half in front of a first one. -/
theorem joinUnits_points {behind points : List CodePoint}
    (h : points.IsChain fun second first => ¬(first.IsHigh ∧ second.IsLow)) :
    joinUnits behind (points.flatMap fun point => (units point.code).reverse)
      = points.reverse ++ behind := by
  induction points generalizing behind with
  | nil => rfl
  | cons second points ih =>
    have hnext : second.IsLow → ∀ unit ∈ (points.flatMap fun point =>
        (units point.code).reverse).head?, ¬(0xD800 ≤ unit ∧ unit < 0xDC00) := by
      intro hlow unit hunit hhigh
      cases points with
      | nil => cases hunit
      | cons first points =>
        obtain ⟨hapart, -⟩ := List.isChain_cons_cons.1 h
        rw [List.flatMap_cons] at hunit
        apply hapart ⟨getLast?_units ?_ hhigh, hlow⟩
        have hne : units first.code ≠ [] := by
          unfold units
          split <;> exact List.cons_ne_nil _ _
        rwa [List.head?_append_of_ne_nil _ (by simpa using hne), List.head?_reverse] at hunit
    rw [List.flatMap_cons, joinUnits_units hnext, ih h.tail, List.reverse_cons, List.append_assoc]
    rfl

/-- A written string is read back. -/
theorem readString_points {text : Text} (h : text.NoPair) (rest : List Char) :
    readString (text.points.flatMap escapePoint ++ '"' :: rest) = .ok (text, rest) := by
  unfold readString
  rw [stringUnits_points]
  simp only
  rw [List.append_nil, joinUnits_points (List.isChain_reverse.2 h), List.reverse_reverse,
    List.append_nil]

/-! ## Objects of strings -/

/-- A member of an object whose value is a string. -/
def fieldChars (field : Text × Text) : List Char :=
  '"' :: (field.1.points.flatMap escapePoint ++ '"' :: ':' :: ' ' :: '"'
    :: (field.2.points.flatMap escapePoint ++ ['"']))

/-- An object whose values are strings. -/
def ofFields (fields : List (Text × Text)) : Json :=
  .object (fields.map fun field => (field.1, .string field.2))

/-- The members of an object whose values are strings, with those read before. -/
def putFields (members : List (Text × Json)) (fields : List (Text × Text)) :
    List (Text × Json) :=
  fields.foldl (fun members field => put field.1 (.string field.2) members) members

/-- Between two members. -/
def fieldGap : List Char := [',', '\n', ' ', ' ']

theorem toList_writeString (text : Text) :
    (writeString text).toList = '"' :: (text.points.flatMap escapePoint ++ ['"']) :=
  String.toList_ofList

theorem map_toList_writeMembers (level : Nat) (fields : List (Text × Text)) :
    (writeMembers level (fields.map fun field => (field.1, .string field.2))).map String.toList
      = fields.map fieldChars := by
  induction fields with
  | nil => rfl
  | cons field fields ih =>
    rw [List.map_cons, writeMembers, List.map_cons, ih, List.map_cons, writeAt]
    simp [String.toList_append, toList_writeString, fieldChars]

theorem toList_write_ofFields {fields : List (Text × Text)} (hne : fields ≠ []) :
    (ofFields fields).write.toList
      = '\x7b' :: '\n' :: ' ' :: ' ' :: (fieldGap.intercalate (fields.map fieldChars)
        ++ ['\n', '\x7d', '\n']) := by
  have hparts : (writeMembers (0 + 1) (fields.map fun field => (field.1, .string field.2))).isEmpty
      = false := by
    obtain ⟨field, more, rfl⟩ := List.exists_cons_of_ne_nil hne
    rfl
  have hinner : (newLine (0 + 1)).toList = ['\n', ' ', ' '] := by decide
  have houter : (newLine 0).toList = ['\n'] := by decide
  rw [write, ofFields, writeAt, enclose, if_neg (by simp [hparts])]
  simp only [String.toList_append, String.toList_intercalate, map_toList_writeMembers, hinner,
    houter]
  simp [fieldGap]

section
variable {members : List (Text × Json)} {field : Text × Text} {n : Nat} {rest : List Char}

theorem readValue_string {text : Text} (h : text.NoPair) :
    readValue (n + 1) ('"' :: (text.points.flatMap escapePoint ++ '"' :: rest))
      = .ok (.string text, rest) := by
  rw [readValue, readString_points h]
  rfl

theorem readMembers_last (hkey : field.1.NoPair) (hvalue : field.2.NoPair) :
    readMembers (n + 2) members (fieldChars field ++ '\n' :: '\x7d' :: rest)
      = .ok (put field.1 (.string field.2) members, rest) := by
  unfold fieldChars
  simp only [List.cons_append, List.append_assoc, List.nil_append]
  rw [readMembers, readString_points hkey]
  show (readValue (n + 1) ('"' :: (field.2.points.flatMap escapePoint
    ++ '"' :: '\n' :: '\x7d' :: rest)) >>= _) = _
  rw [readValue_string hvalue]
  rfl

theorem readMembers_next (hkey : field.1.NoPair) (hvalue : field.2.NoPair) :
    readMembers (n + 2) members (fieldChars field ++ fieldGap ++ rest)
      = readMembers (n + 1) (put field.1 (.string field.2) members) (skipBlanks rest) := by
  unfold fieldChars fieldGap
  simp only [List.cons_append, List.append_assoc, List.nil_append]
  rw [readMembers, readString_points hkey]
  show (readValue (n + 1) ('"' :: (field.2.points.flatMap escapePoint
    ++ '"' :: ',' :: '\n' :: ' ' :: ' ' :: rest)) >>= _) = _
  rw [readValue_string hvalue]
  rfl

/-- The first member starts with a quote. -/
theorem exists_quote (field : Text × Text) (fields : List (Text × Text)) :
    ∃ more, fieldGap.intercalate ((field :: fields).map fieldChars) = '"' :: more := by
  cases fields with
  | nil => exact ⟨_, rfl⟩
  | cons next fields =>
    rw [List.map_cons, List.map_cons, List.intercalate_cons_cons]
    exact ⟨_, rfl⟩

theorem skipBlanks_fields (fields : List (Text × Text)) :
    skipBlanks (fieldGap.intercalate ((field :: fields).map fieldChars) ++ rest)
      = fieldGap.intercalate ((field :: fields).map fieldChars) ++ rest := by
  obtain ⟨more, hmore⟩ := exists_quote field fields
  rw [hmore]
  rfl

/-- Each member takes a character. -/
theorem length_le_fields (fields : List (Text × Text)) :
    fields.length ≤ (fieldGap.intercalate (fields.map fieldChars)).length := by
  induction fields with
  | nil => exact Nat.zero_le _
  | cons field fields ih =>
    cases fields with
    | nil =>
      rw [List.map_singleton, List.intercalate_singleton]
      exact Nat.succ_le_succ (Nat.zero_le _)
    | cons next fields =>
      rw [List.map_cons, List.map_cons, List.intercalate_cons_cons, ← List.map_cons,
        List.length_append, List.length_append, List.length_cons]
      have hgap : fieldGap.length = 4 := rfl
      omega

/-- Members written one behind another are read into those read before. -/
theorem readMembers_fields {fields : List (Text × Text)} (hne : fields ≠ [])
    (hn : fields.length < n) (h : ∀ field ∈ fields, field.1.NoPair ∧ field.2.NoPair) :
    readMembers n members (fieldGap.intercalate (fields.map fieldChars) ++ '\n' :: '\x7d' :: rest)
      = .ok (putFields members fields, rest) := by
  induction fields generalizing n members with
  | nil => exact absurd rfl hne
  | cons field fields ih =>
    obtain ⟨⟨hkey, hvalue⟩, hfields⟩ := List.forall_mem_cons.1 h
    rw [List.length_cons] at hn
    obtain ⟨n, rfl⟩ : ∃ k, n = k + 2 := ⟨n - 2, by omega⟩
    cases fields with
    | nil =>
      rw [List.map_singleton, List.intercalate_singleton, readMembers_last hkey hvalue]
      rfl
    | cons next fields =>
      rw [List.map_cons, List.map_cons, List.intercalate_cons_cons, List.append_assoc,
        readMembers_next hkey hvalue, ← List.map_cons, skipBlanks_fields]
      exact ih (List.cons_ne_nil next fields) (by omega) hfields

theorem readValue_fields {fields : List (Text × Text)} (hne : fields ≠ [])
    (hn : fields.length < n) (h : ∀ field ∈ fields, field.1.NoPair ∧ field.2.NoPair) :
    readValue (n + 1) ('\x7b' :: '\n' :: ' ' :: ' '
        :: (fieldGap.intercalate (fields.map fieldChars) ++ '\n' :: '\x7d' :: rest))
      = .ok (.object (putFields [] fields), rest) := by
  obtain ⟨field, fields, rfl⟩ := List.exists_cons_of_ne_nil hne
  have hblanks : skipBlanks ('\n' :: ' ' :: ' ' :: (fieldGap.intercalate
      ((field :: fields).map fieldChars) ++ '\n' :: '\x7d' :: rest)) = _ :=
    skipBlanks_fields fields
  have hmembers := @readMembers_fields [] n rest _ hne hn h
  obtain ⟨more, hmore⟩ := exists_quote field fields
  rw [hmore, List.cons_append] at hblanks hmembers
  rw [hmore, List.cons_append, readValue]
  simp only [hblanks]
  show Except.map _ (readMembers n [] ('"' :: (more ++ '\n' :: '\x7d' :: rest))) = _
  rw [hmembers]
  rfl

end

/-- An object of strings is read as it was written. -/
theorem read_write_ofFields {fields : List (Text × Text)} (hne : fields ≠ [])
    (h : ∀ field ∈ fields, field.1.NoPair ∧ field.2.NoPair) :
    read (ofFields fields).write.toList = .ok (.object (putFields [] fields)) := by
  have hlist := toList_write_ofFields hne
  have hn : fields.length < 2 * (ofFields fields).write.toList.length + 1 := by
    have hle := length_le_fields fields
    rw [hlist]
    simp only [List.length_cons, List.length_append]
    omega
  have hvalue := @readValue_fields _ ['\n'] _ hne hn h
  rw [← hlist] at hvalue
  have hblanks : skipBlanks (ofFields fields).write.toList = (ofFields fields).write.toList := by
    rw [hlist]
    rfl
  unfold read
  rw [hblanks, hvalue]
  rfl

/-- What is written for a code point holds no control character. -/
theorem Written.le_toNat {point : CodePoint} {chars : List Char} (h : Written point chars) :
    ∀ c ∈ chars, 32 ≤ c.toNat := by
  have hdigit : ∀ n : Fin 16, 32 ≤ n.val.digitChar.toNat := by decide
  have hunit : ∀ unit < 0x10000, ∀ c ∈ unitEscape unit, 32 ≤ c.toNat := by
    intro unit hsmall c hc
    rw [unitEscape, hex_four hsmall] at hc
    simp only [List.mem_cons, List.not_mem_nil, or_false] at hc
    obtain rfl | rfl | rfl | rfl | rfl | rfl := hc
    · decide
    · decide
    · exact hdigit ⟨_, by omega⟩
    · exact hdigit ⟨_, by omega⟩
    · exact hdigit ⟨_, by omega⟩
    · exact hdigit ⟨_, by omega⟩
  have hlt := point.code_lt
  cases h with
  | plain hlow => simpa using hlow
  | short hletter =>
    have hall : ∀ pair ∈ shortLetters, 32 ≤ pair.2.toNat := by decide
    have hletter' := hall _ hletter
    simpa using hletter'
  | unit hsmall => exact hunit _ hsmall
  | pair hlarge =>
    exact List.forall_mem_append.2 ⟨hunit _ (by omega), hunit _ (by omega)⟩

theorem notMem_fieldChars (field : Text × Text) : '\r' ∉ fieldChars field := by
  have hpoints : ∀ text : Text, '\r' ∉ text.points.flatMap escapePoint := by
    intro text hmem
    obtain ⟨point, -, hpoint⟩ := List.mem_flatMap.1 hmem
    exact absurd ((written_escapePoint point).le_toNat _ hpoint) (by decide)
  simp [fieldChars, hpoints]

theorem notMem_write_ofFields {fields : List (Text × Text)} (hne : fields ≠ []) :
    '\r' ∉ (ofFields fields).write.toList := by
  have hfields : '\r' ∉ fieldGap.intercalate (fields.map fieldChars) := by
    refine Text.notMem_intercalate (by decide) fun part hpart => ?_
    obtain ⟨field, -, rfl⟩ := List.mem_map.1 hpart
    exact notMem_fieldChars field
  rw [toList_write_ofFields hne]
  simp [hfields]

end Json

/-- Without returns there is nothing to change. -/
theorem Text.normalizeNewlines_of_notMem {text : List Char} (h : '\r' ∉ text) :
    normalizeNewlines text = text := by
  fun_induction normalizeNewlines text with
  | case1 => rfl
  | case2 rest ih => simp at h
  | case3 rest _ ih => simp at h
  | case4 c rest _ _ ih => rw [ih (List.not_mem_of_not_mem_cons h)]

/-! ## Writing a file -/

/-- Writing either puts the text at the target of the path, or leaves the tree as it was because
there is no such target or the path can be on no disk. -/
theorem Files.writeText_cases (path : Path) (text : String) (tree : FileTree) :
    (∃ full, pathFlaw? path.text = none ∧ tree.target? path = some full
      ∧ writeText path text tree = .ok () (tree.put full (.file text.toUTF8)))
    ∨ ∃ fault, (pathFlaw? path.text ≠ none ∨ tree.target? path = none)
      ∧ writeText path text tree = .error fault tree := by
  unfold writeText
  rw [Text.string?_ofString]
  show (∃ full, _ ∧ _ ∧ writeBytes path.text text.toUTF8 tree = _)
    ∨ ∃ fault, _ ∧ writeBytes path.text text.toUTF8 tree = _
  unfold writeBytes
  cases hflaw : pathFlaw? path.text with
  | some flaw =>
    have hcheck : checkPath path.text tree = .error (.flawedPath flaw) tree := by
      unfold checkPath
      rw [hflaw]
      rfl
    exact .inr ⟨_, .inl (Option.some_ne_none flaw), bind_of_error hcheck⟩
  | none =>
    rw [bind_of_ok (Files.checkPath_of_none hflaw), get_bind, FileTree.target?, FileTree.write]
    cases tree.place path.text with
    | vacant full => exact .inl ⟨full, rfl, rfl, rfl⟩
    | failed problem => exact .inr ⟨_, .inr rfl, rfl⟩
    | found full entry =>
      cases entry with
      | file contents => exact .inl ⟨full, rfl, rfl, rfl⟩
      | folder => exact .inr ⟨_, .inr rfl, rfl⟩

/-- A file that was put at the target of a path is read at the path. -/
theorem FileTree.read_put {tree : FileTree} {path : Path} {full : List Text}
    (h : tree.target? path = some full) (contents : ByteArray) :
    (tree.put full (.file contents)).read path.text = .ok contents := by
  have hdelivers := @Delivers.put_file tree full (fun _ => contents) path h
  obtain ⟨full', htarget, hfile⟩ := hdelivers.written path (List.mem_singleton_self path)
  have hplace := place_of_target? htarget rfl (fun _ h => h) hfile
  rw [read, hplace]

/-! ## Projects -/

/-- A JSON value that is a text with a property. -/
def Json.IsText (p : Text → Prop) (value : Json) : Prop := ∃ text, value = .string text ∧ p text

namespace Project

variable {project : Project} {root path : Path} {tree tree' : FileTree}

/-- Settings that are texts with a property. -/
def AllTexts (p : Text → Prop) (project : Project) : Prop :=
  project.name.IsText p ∧ project.space.IsText p ∧ project.source.IsText p
    ∧ project.output.IsText p

theorem AllTexts.mono {p q : Text → Prop} (h : project.AllTexts p) (hpq : ∀ text, p text → q text) :
    project.AllTexts q := by
  have htext : ∀ value : Json, value.IsText p → value.IsText q := by
    rintro value ⟨text, rfl, htext⟩
    exact ⟨text, rfl, hpq text htext⟩
  exact ⟨htext _ h.1, htext _ h.2.1, htext _ h.2.2.1, htext _ h.2.2.2⟩

/-- The settings file is written without returns, and its contents are read as the same
settings. -/
theorem parse_write (h : project.AllTexts Text.NoPair) (shown : Text) :
    '\r' ∉ project.toJson.write.toList
      ∧ parse shown project.toJson.write.toList = .ok project := by
  obtain ⟨⟨name, hname, hname'⟩, ⟨space, hspace, hspace'⟩, ⟨source, hsource, hsource'⟩,
    ⟨output, houtput, houtput'⟩⟩ := h
  let fields : List (Text × Text) :=
    [("name", name), ("namespace", space), ("source", source), ("output", output)]
  have hjson : project.toJson = Json.ofFields fields := by
    rw [toJson, hname, hspace, hsource, houtput]
    rfl
  have hne : fields ≠ [] := List.cons_ne_nil _ _
  have hfields : ∀ field ∈ fields, field.1.NoPair ∧ field.2.NoPair := by
    simp only [fields, List.forall_mem_cons]
    exact ⟨⟨Text.noPair_of_isWhole rfl, hname'⟩, ⟨Text.noPair_of_isWhole rfl, hspace'⟩,
      ⟨Text.noPair_of_isWhole rfl, hsource'⟩, ⟨Text.noPair_of_isWhole rfl, houtput'⟩,
      List.forall_mem_nil _⟩
  -- the keys are different, so each member is found under its own
  have hmembers : ofMembers? (Json.putFields [] fields) = some project := by
    rw [show project = ⟨.string name, .string space, .string source, .string output⟩ from by
      rw [← hname, ← hspace, ← hsource, ← houtput]]
    rfl
  rw [hjson]
  refine ⟨Json.notMem_write_ofFields hne, ?_⟩
  unfold parse
  rw [Json.read_write_ofFields hne hfields]
  simp only [hmembers]

/-- A settings file as it was written is loaded. -/
theorem load_of_read (h : project.AllTexts Text.NoPair)
    (hflaw : pathFlaw? (root.join configName).text = none)
    (hread : tree.read (root.join configName).text = .ok project.toJson.write.toUTF8) :
    load root tree = .ok project tree := by
  obtain ⟨hreturns, hparse⟩ := parse_write h (root.join configName).text
  have htext := Files.readText_of_read hflaw hread (fromUTF8?_toUTF8 _)
  rw [Text.normalizeNewlines_of_notMem hreturns] at htext
  unfold load
  rw [bind_of_ok htext, hparse]
  rfl

/-- Saving either writes the settings to the target of their path, or changes nothing because
there is no such target or the path can be on no disk. -/
theorem save_cases (project : Project) (root : Path) (tree : FileTree) :
    (∃ full, pathFlaw? (root.join configName).text = none
      ∧ tree.target? (root.join configName) = some full
      ∧ project.save root tree
        = .ok (root.join configName) (tree.put full (.file project.toJson.write.toUTF8)))
    ∨ ∃ fault, (pathFlaw? (root.join configName).text ≠ none
        ∨ tree.target? (root.join configName) = none)
      ∧ project.save root tree = .error fault tree := by
  unfold save
  obtain ⟨full, hflaw, htarget, hwrite⟩ | ⟨fault, hbad, hwrite⟩ :=
    Files.writeText_cases (root.join configName) project.toJson.write tree
  · exact .inl ⟨full, hflaw, htarget, bind_of_ok hwrite⟩
  · exact .inr ⟨fault, hbad, bind_of_error hwrite⟩

theorem save_eq_ok :
    project.save root tree = .ok path tree' ↔ path = root.join configName
      ∧ pathFlaw? path.text = none ∧ ∃ full, tree.target? path = some full
        ∧ tree' = tree.put full (.file project.toJson.write.toUTF8) := by
  obtain ⟨full, hflaw, htarget, hsave⟩ | ⟨fault, hbad, hsave⟩ := save_cases project root tree
  · rw [hsave, EStateM.Result.ok.injEq]
    constructor
    · rintro ⟨rfl, rfl⟩
      exact ⟨rfl, hflaw, full, htarget, rfl⟩
    · rintro ⟨rfl, -, full', htarget', rfl⟩
      obtain rfl : full = full' := Option.some.inj (htarget.symm.trans htarget')
      exact ⟨rfl, rfl⟩
  · rw [hsave]
    refine ⟨fun h => (by cases h), ?_⟩
    rintro ⟨rfl, hflaw, full, htarget, -⟩
    rw [hflaw, htarget] at hbad
    simp at hbad

/-- Settings without lone halves are loaded as they were saved. What is written depends on them
alone, and it is written wherever the path of the settings file can be written to. -/
theorem load_save (h : project.AllTexts (·.isWhole = true)) :
    ∃ text : String, ∀ (root path : Path) (tree tree' : FileTree),
      (project.save root tree = .ok path tree' ↔ path = root.join configName
        ∧ pathFlaw? path.text = none ∧ ∃ full, tree.target? path = some full
          ∧ tree' = tree.put full (.file text.toUTF8))
      ∧ (project.save root tree = .ok path tree' → load root tree' = .ok project tree') := by
  refine ⟨project.toJson.write, fun root path tree tree' => ⟨save_eq_ok, fun hsave => ?_⟩⟩
  obtain ⟨rfl, hflaw, full, htarget, rfl⟩ := save_eq_ok.1 hsave
  exact load_of_read (h.mono fun _ => Text.noPair_of_isWhole) hflaw
    (FileTree.read_put htarget _)

/-- A name with a quote, a backslash, a control character and a character beyond the basic
plane, in a project whose folder is not the current one. -/
theorem load_save_escapes :
    let project : Project := { name := .string "a\"b\\\x01😀é" }
    let tree : FileTree := { entries := [(["work"], .folder)] }
    project.AllTexts (·.isWhole = true) ∧ ∃ path tree',
      project.save ⟨.here, ["work"]⟩ tree = .ok path tree'
        ∧ load ⟨.here, ["work"]⟩ tree' = .ok project tree' := by
  intro project tree
  have hwhole : project.AllTexts (·.isWhole = true) :=
    ⟨⟨_, rfl, by decide⟩, ⟨_, rfl, by decide⟩, ⟨_, rfl, by decide⟩, ⟨_, rfl, by decide⟩⟩
  obtain ⟨text, htext⟩ := load_save hwhole
  have hsave := (htext ⟨.here, ["work"]⟩ _ tree _).1.2
    ⟨rfl, by decide +kernel, ["work", "esconfig.json"], by decide +kernel, rfl⟩
  exact ⟨hwhole, _, _, hsave, (htext _ _ _ _).2 hsave⟩

end Project

end Scoreboard
