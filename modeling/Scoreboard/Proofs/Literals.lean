import Mathlib
import Scoreboard.Compilation
import Scoreboard.Proofs.Completeness
import Scoreboard.Proofs.Folding
import Scoreboard.Proofs.Joining
import Scoreboard.Proofs.Outcome
import Scoreboard.Proofs.Tiling

/-!
# Integer literals

The way of an integer from the text of a script to a command. Its digits may have single
underscores between them and, in front, a minus with blanks behind it (`Literal`). The scanner
reads the digits as one token, the reader of scripts joins the minus to it, and only then the
generator compares the integer with the bounds of scores; so the smallest score can be written.
The command has the integer in its canonical form (`CanonicalDecimal`): leading zeros,
underscores, blanks and the minus of a zero are gone.
-/

namespace Scoreboard

/-! ## Written integers -/

/-- The number that decimal digits write, the last digit for the units. -/
def decimalValue (digits : List Char) : Nat :=
  Nat.ofDigits 10 (digits.reverse.map fun d => d.toNat - '0'.toNat)

/-- A text of digits, at least one, with single underscores between some of them, and the digits
alone. -/
inductive Numeral : List Char → List Char → Prop
  | single {d : Char} (hd : d.isDigit = true) : Numeral [d] [d]
  | next {d : Char} {text digits : List Char} (hd : d.isDigit = true) (h : Numeral text digits) :
      Numeral (d :: text) (d :: digits)
  | underscore {d : Char} {text digits : List Char} (hd : d.isDigit = true)
      (h : Numeral text digits) : Numeral (d :: '_' :: text) (d :: digits)

/-- The text of an integer with its digits and its value. Blanks may stand behind the minus. -/
inductive Literal : List Char → List Char → Int → Prop
  | plain {text digits : List Char} (h : Numeral text digits) :
      Literal text digits (decimalValue digits)
  | negative {blanks text digits : List Char} (hblanks : ∀ c ∈ blanks, Scanner.isGap c = true)
      (h : Numeral text digits) : Literal ('-' :: (blanks ++ text)) digits (-decimalValue digits)

/-- The one text of an integer in digits without leading zeros, with a minus in front if it is
negative. -/
def CanonicalDecimal (n : Int) (text : List Char) : Prop :=
  ∃ digits, text = (if n < 0 then ['-'] else []) ++ digits
    ∧ digits ≠ [] ∧ (∀ d ∈ digits, d.isDigit = true)
    ∧ (digits.head? = some '0' → digits = ['0']) ∧ decimalValue digits = n.natAbs

/-! ## Values of digits -/

theorem ofDigits_eq_decimalValue (digits : List Char) :
    Text.ofDigits (digits.map (·.toNat - 48)) = decimalValue digits := by
  unfold Text.ofDigits decimalValue
  rw [Nat.ofDigits_eq_foldr, List.map_reverse, List.foldr_reverse]
  congr 1
  funext n d
  exact Nat.add_comm _ _

theorem decimalValue_toDigits (n : Nat) : decimalValue (Nat.toDigits 10 n) = n := by
  rw [← ofDigits_eq_decimalValue]
  unfold Text.ofDigits
  rw [List.foldl_map]
  exact Nat.ofDigitChars_ten_toDigits

theorem decimalValue_lt {digits : List Char} (h : ∀ d ∈ digits, d.isDigit = true) :
    decimalValue digits < 10 ^ digits.length := by
  have hlt : ∀ d ∈ digits.reverse.map (fun d => d.toNat - '0'.toNat), d < 10 := by
    intro d hd
    obtain ⟨c, hc, rfl⟩ := List.mem_map.1 hd
    have hbounds := Text.digit_bounds (h c (List.mem_reverse.1 hc))
    show c.toNat - 48 < 10
    omega
  have hvalue := Nat.ofDigits_lt_base_pow_length (by omega) hlt
  rwa [List.length_map, List.length_reverse] at hvalue

theorem decimalValue_zero_cons (digits : List Char) :
    decimalValue ('0' :: digits) = decimalValue digits := by
  unfold decimalValue
  rw [List.reverse_cons, List.map_append, Nat.ofDigits_append]
  simp

/-- The digits of a number do not start with a zero, but for the number zero. -/
theorem head_toDigits {n : Nat} (h : (Nat.toDigits 10 n).head? = some '0') :
    Nat.toDigits 10 n = ['0'] := by
  obtain ⟨digits, hdigits⟩ := List.head?_eq_some_iff.1 h
  by_cases hnil : digits = []
  · rw [hdigits, hnil]
  · -- without its zero the number would be written by fewer digits
    have hdigit : ∀ d ∈ digits, d.isDigit = true := by
      intro d hd
      refine Nat.isDigit_of_mem_toDigits (b := 10) (n := n) (by omega) (by omega) ?_
      rw [hdigits]
      exact List.mem_cons_of_mem _ hd
    have hlt : n < 10 ^ digits.length := by
      have hvalue := decimalValue_lt hdigit
      rwa [← decimalValue_zero_cons, ← hdigits, decimalValue_toDigits] at hvalue
    have hlength := (Nat.length_toDigits_le_iff (by omega) (List.length_pos_iff.2 hnil)).2 hlt
    rw [hdigits, List.length_cons] at hlength
    omega

theorem canonicalDecimal_toString (n : Int) : CanonicalDecimal n (toString n).toList := by
  refine ⟨Nat.toDigits 10 n.natAbs, ?_, Nat.toDigits_ne_nil, ?_, head_toDigits,
    decimalValue_toDigits _⟩
  · rw [Int.toString_eq_repr, Int.repr_eq_if]
    split
    · have habs : n.toNat = n.natAbs := by omega
      rw [if_neg (by omega), Nat.toList_repr, habs, List.nil_append]
    · have habs : (-n).toNat = n.natAbs := by omega
      rw [if_pos (by omega), String.toList_append, Nat.toList_repr, habs]
      rfl
  · exact fun d hd => Nat.isDigit_of_mem_toDigits (by omega) (by omega) hd

/-! ## Scanning -/

namespace Numeral

variable {text digits : List Char}

theorem exists_cons (h : Numeral text digits) :
    ∃ d rest, text = d :: rest ∧ d.isDigit = true := by
  cases h with
  | single hd => exact ⟨_, _, rfl, hd⟩
  | next hd _ => exact ⟨_, _, rfl, hd⟩
  | underscore hd _ => exact ⟨_, _, rfl, hd⟩

theorem ne_nil (h : Numeral text digits) : digits ≠ [] := by
  cases h <;> exact List.cons_ne_nil _ _

theorem isDigit (h : Numeral text digits) : ∀ d ∈ digits, d.isDigit = true := by
  induction h with
  | single hd => exact List.forall_mem_singleton.2 hd
  | next hd _ ih => exact List.forall_mem_cons.2 ⟨hd, ih⟩
  | underscore hd _ ih => exact List.forall_mem_cons.2 ⟨hd, ih⟩

/-- The scanner takes all of it. -/
theorem integerLength_eq (h : Numeral text digits) :
    Scanner.integerLength text = text.length := by
  induction h with
  | single hd => rw [Scanner.integerLength_cons hd, Scanner.integerLength, List.length_singleton]
  | next hd _ ih => rw [Scanner.integerLength_cons hd, ih, List.length_cons, Nat.add_comm]
  | underscore hd h ih =>
    -- the underscore goes on with the integer because of the digit behind it
    obtain ⟨e, rest, rfl, he⟩ := h.exists_cons
    have hgoes : ('_'.isDigit || ('_' == '_' && e.isDigit)) = true := by
      rw [he]
      rfl
    rw [Scanner.integerLength_cons hd, Scanner.integerLength, if_pos hgoes, ih, Nat.add_comm]
    rfl

theorem filter_eq (h : Numeral text digits) : text.filter Char.isDigit = digits := by
  induction h with
  | single hd => rw [List.filter_cons_of_pos hd, List.filter_nil]
  | next hd _ ih => rw [List.filter_cons_of_pos hd, ih]
  | underscore hd _ ih =>
    rw [List.filter_cons_of_pos hd, List.filter_cons_of_neg (by decide), ih]

/-- The digits are one token, with their value. -/
theorem firstWord (h : Numeral text digits) (hlimit : digits.length ≤ Text.digitLimit) :
    Scanner.firstWord text = some (text.length, .token (.integer (decimalValue digits))) := by
  have hvalue : Text.integer? (Scanner.integerDigits text) = some (decimalValue digits : Int) := by
    rw [Scanner.integerDigits_eq_filter, h.integerLength_eq, List.take_length, h.filter_eq,
      Text.integer?_of_digits h.isDigit h.ne_nil, if_neg (by omega), ofDigits_eq_decimalValue]
    rfl
  have hword : Scanner.firstWord text = some (Scanner.integerWord text) := by
    obtain ⟨d, rest, rfl, hd⟩ := h.exists_cons
    exact Scanner.firstWord_of_isDigit hd rest
  rw [hword]
  unfold Scanner.integerWord
  rw [hvalue, h.integerLength_eq]

/-- At the end of a text they are the last token. -/
theorem walks (h : Numeral text digits) (hlimit : digits.length ≤ Text.digitLimit)
    {source : Source} {i : Nat} (htext : source.text.drop i = text) :
    i + text.length = source.text.length
      ∧ Walks source i [Scanner.tokenAt source i text.length (.integer (decimalValue digits))]
        source.text.length := by
  have hlength : i + text.length = source.text.length := by
    obtain ⟨d, rest, rfl, -⟩ := h.exists_cons
    have hdrop := congrArg List.length htext
    rw [List.length_drop, List.length_cons] at hdrop
    rw [List.length_cons]
    omega
  refine ⟨hlength, .token ?_ ?_⟩
  · rw [htext]
    exact h.firstWord hlimit
  · rw [hlength]
    exact .refl _

end Numeral

/-- A walk leads over blanks. -/
theorem Walks.blanks {source : Source} {i j : Nat} {ts : List Token} {blanks rest : List Char}
    (hblanks : ∀ c ∈ blanks, Scanner.isGap c = true) (htext : source.text.drop i = blanks ++ rest)
    (h : Walks source (i + blanks.length) ts j) : Walks source i ts j := by
  induction blanks generalizing i with
  | nil => exact h
  | cons c blanks ih =>
    obtain ⟨hc, hblanks⟩ := List.forall_mem_cons.1 hblanks
    have hword : Scanner.firstWord (source.text.drop i) = some (1, .gap) := by
      rw [htext]
      simp only [List.cons_append, Scanner.firstWord]
      rw [if_pos hc]
    refine .gap hword (ih hblanks ?_ ?_)
    · rw [← List.drop_drop, htext]
      rfl
    · rwa [Nat.add_assoc, Nat.add_comm 1]

/-! ## Compiling -/

/-- The tokens of a literal at the end of a text spell its value, marked from its first character
to its last. -/
theorem Literal.walks {literal digits : List Char} {n : Int} (h : Literal literal digits n)
    (hlimit : digits.length ≤ Text.digitLimit) {source : Source} {i : Nat}
    (htext : source.text.drop i = literal) :
    ∃ ts, Walks source i ts source.text.length
      ∧ Derives ts (.atom false (.integer n (Span.ofRange source i source.text.length))) := by
  cases h with
  | plain h =>
    obtain ⟨hlength, hwalk⟩ := h.walks hlimit htext
    rw [← hlength] at hwalk ⊢
    exact ⟨_, hwalk, .integer rfl⟩
  | @negative blanks text digits hblanks h =>
    have hsign : Scanner.firstWord (source.text.drop i)
        = some (1, .token (.operator .subtract)) := by
      rw [htext]
      rfl
    have hblank : source.text.drop (i + 1) = blanks ++ text := by
      rw [← List.drop_drop, htext]
      rfl
    have hbody : source.text.drop (i + 1 + blanks.length) = text := by
      rw [← List.drop_drop, hblank, List.drop_left]
    obtain ⟨hlength, hwalk⟩ := h.walks hlimit hbody
    -- the mark goes from the token of the minus to the token of the digits
    refine ⟨_, .token hsign (.blanks hblanks hblank hwalk), ?_⟩
    rw [← hlength]
    exact .negative rfl rfl

/-- A variable that is defined by a literal. -/
theorem Source.parse_literal {literal digits : List Char} {n : Int}
    (h : Literal literal digits n) (hlimit : digits.length ≤ Text.digitLimit) (name : Text) :
    let source : Source := ⟨name, "let x = ".toList ++ literal⟩
    ∃ mark, source.parse
      = .ok [.define "x" none (.integer n (Span.ofRange source 8 source.text.length)) mark] := by
  intro source
  have htext : source.text.drop 8 = literal := rfl
  obtain ⟨ts, hwalk, hderives⟩ := h.walks hlimit htext
  -- the words in front of the literal, with the blanks behind them
  have hlet : Scanner.firstWord (source.text.drop 0) = some (3, .token (.keyword .declare)) := rfl
  have hx : Scanner.firstWord (source.text.drop 4) = some (1, .token .identifier) := rfl
  have hequals : Scanner.firstWord (source.text.drop 6) = some (1, .token .assign) := rfl
  have hblank : ∀ i ∈ [3, 5, 7], Scanner.firstWord (source.text.drop i) = some (1, .gap) :=
    List.forall_mem_cons.2 ⟨rfl, List.forall_mem_cons.2 ⟨rfl, List.forall_mem_singleton.2 rfl⟩⟩
  have hall := Walks.token hlet (.gap (hblank 3 (by decide)) (.token hx (.gap (hblank 5 (by decide))
    (.token hequals (.gap (hblank 7 (by decide)) hwalk)))))
  have htokens := tokenize_eq_ok_iff.2 ⟨_, hall, rfl⟩
  have hstatement : Derives (Scanner.tokenAt source 0 3 (.keyword .declare)
      :: Scanner.tokenAt source 4 1 .identifier :: ([] ++ Scanner.tokenAt source 6 1 .assign :: ts))
      (.statement true (.define "x" none _ _)) :=
    .define rfl rfl .none rfl (.plain (.operand 1 hderives))
  have hscript := (Scoreboard.parse_eq_ok_iff (endsText_of_tokenize htokens)).2
    ⟨[], _, _, rfl, newlines_nil, .lastLine hstatement, rfl⟩
  exact ⟨_, (parse_eq_ok_iff htokens).2 hscript⟩

section
variable {α : Type} (space : Text) {m mark₁ mark₂ : α} {n : Int}

/-- A variable that is defined by a score is set to it. -/
theorem generate_define_integer (hn : inScoreRange n = true) :
    generate space mainName m [.define "x" none (.integer n mark₁) mark₂]
      = ⟨[⟨mainName, [.addObjective mainName, .set ⟨mainName, .variable "x"⟩ n,
        .removeObjective mainName]⟩], [mainName], none⟩ := by
  have hbody : Generate.compileBody space [.define "x" none (.integer n mark₁) mark₂]
      ((Workspace.ofName mainName).enter mainName) = .ok () _ :=
    Generate.compileBody_singleton (Generate.compile_define_of_ok (by decide)
      (Generate.compile_integer_of_inScoreRange hn) rfl)
  rw [generate_of_ok hbody]
  rfl

/-- A variable cannot be defined by any other integer. -/
theorem generate_define_integer_of_not (hn : ¬inScoreRange n = true) :
    generate space mainName m [.define "x" none (.integer n mark₁) mark₂]
      = ⟨[], [mainName], some ⟨.integerBounds, mark₁⟩⟩ := by
  have hbody : Generate.compileBody space [.define "x" none (.integer n mark₁) mark₂]
      ((Workspace.ofName mainName).enter mainName) = .error ⟨.integerBounds, mark₁⟩ _ :=
    Generate.compileBody_of_error (Generate.compile_define_of_error (by decide)
      (Generate.compile_integer_of_not_inScoreRange hn))
  rw [generate_of_error hbody]
  rfl

end

namespace Source

variable {source : Source} {space name : Text} {script : Script Span}
  {finished : List Block} {taken : List Text}

theorem result_of_generate (hparse : source.parse = .ok script)
    (h : generate space name (Span.whole source) script = ⟨finished, taken, none⟩) :
    (source.compile space name).result = .ok ⟨source, script, ⟨space, finished⟩⟩ := by
  unfold compile
  simp only [hparse, h]

theorem result_of_fault {fault : Diagnostic Span} (hparse : source.parse = .ok script)
    (h : generate space name (Span.whole source) script = ⟨finished, taken, some fault⟩) :
    (source.compile space name).result = .error (.generate fault) := by
  unfold compile
  simp only [hparse, h]

/-- Integer literals, from the text to the command. Let a text have at most 4300 digits, single
underscores between some of them, and a minus in front or none. A script that defines a variable
by it compiles to one block of three commands, the second of which sets the variable to the
integer in canonical form. If the integer is no score, the script fails, and the diagnostic
points at the text with its minus. -/
theorem compile_literal {literal digits : List Char} {n : Int} (h : Literal literal digits n)
    (hlimit : digits.length ≤ 4300) (name space : Text) :
    let source : Source := ⟨name, "let x = ".toList ++ literal⟩
    let result := (source.compile space mainName).result
    (-2147483648 ≤ n ∧ n ≤ 2147483647 → ∃ build decimal, result = .ok build
      ∧ CanonicalDecimal n decimal.toList
      ∧ build.program.blocks.map (fun block => (block.name, block.commands.map Command.text))
        = [(Text.ofString "main", ["scoreboard objectives add main dummy",
          "scoreboard players set $x main " ++ decimal,
          "scoreboard objectives remove main"].map Text.ofString)])
    ∧ (¬(-2147483648 ≤ n ∧ n ≤ 2147483647) → ∃ d, result = .error (.generate d)
      ∧ d.kind = .integerBoundsExceeded
      ∧ d.place = Span.ofRange source 8 source.text.length ∧ d.place.covered = literal) := by
  intro source result
  obtain ⟨mark, hparse⟩ := parse_literal h hlimit name
  constructor
  · intro hn
    have hresult := result_of_generate hparse
      (generate_define_integer space (Generate.inScoreRange_iff.2 hn))
    refine ⟨_, toString n, hresult, canonicalDecimal_toString n, ?_⟩
    have hwords : Text.ofString "scoreboard players set " ++ "$x" ++ " " ++ "main" ++ " "
        = ("scoreboard players set $x main " : Text) := by decide
    have hset : (Command.set ⟨mainName, .variable "x"⟩ n).text
        = Text.ofString ("scoreboard players set $x main " ++ toString n) := by
      rw [Text.ofString_append, ← hwords]
      rfl
    show [(Text.ofString "main", [_, (Command.set ⟨mainName, .variable "x"⟩ n).text, _])] = _
    rw [hset]
    rfl
  · intro hn
    have hresult := result_of_fault hparse
      (generate_define_integer_of_not space (mt Generate.inScoreRange_iff.1 hn))
    have hlength : source.text.length = 8 + literal.length := List.length_append
    refine ⟨_, hresult, rfl, rfl, ?_⟩
    calc (Span.ofRange source 8 source.text.length).covered
        = (Span.ofRange source 8 (8 + literal.length : Nat)).covered := by rw [hlength]
      _ = (source.text.drop 8).take literal.length :=
        Span.covered_ofRange (Nat.le_of_eq hlength.symm)
      _ = literal := List.take_length

theorem compile_literal_smallest :
    let literal := "2147_483648".toList
    let negative := "-\t 00_2147_483648".toList
    let source : Source := ⟨"literal", "let x = ".toList ++ literal⟩
    let source' : Source := ⟨"literal", "let x = ".toList ++ negative⟩
    (Literal literal "2147483648".toList 2147483648 ∧ "2147483648".toList.length ≤ 4300
      ∧ ∃ d, (source.compile "pack" mainName).result = .error (.generate d)
        ∧ d.kind = .integerBoundsExceeded
        ∧ d.place = Span.ofRange source 8 source.text.length ∧ d.place.covered = literal)
    ∧ (Literal negative "002147483648".toList (-2147483648) ∧ "002147483648".toList.length ≤ 4300
      ∧ ∃ build decimal, (source'.compile "pack" mainName).result = .ok build
        ∧ CanonicalDecimal (-2147483648) decimal.toList
        ∧ build.program.blocks.map (fun block => (block.name, block.commands.map Command.text))
          = [(Text.ofString "main", ["scoreboard objectives add main dummy",
            "scoreboard players set $x main " ++ decimal,
            "scoreboard objectives remove main"].map Text.ofString)]) := by
  intro literal negative source source'
  have hdigits : Numeral literal "2147483648".toList :=
    .next rfl (.next rfl (.next rfl (.underscore rfl (.next rfl (.next rfl (.next rfl (.next rfl
      (.next rfl (.single rfl)))))))))
  have hliteral : Literal literal "2147483648".toList 2147483648 := by
    have hvalue : decimalValue "2147483648".toList = 2147483648 := by decide +kernel
    have hplain := Literal.plain hdigits
    rwa [hvalue] at hplain
  have hnegative : Literal negative "002147483648".toList (-2147483648) := by
    have hvalue : decimalValue "002147483648".toList = 2147483648 := by decide +kernel
    have hzeros : Numeral "00_2147_483648".toList "002147483648".toList :=
      .next rfl (.underscore rfl hdigits)
    have hblanks : ∀ c ∈ ['\t', ' '], Scanner.isGap c = true :=
      List.forall_mem_cons.2 ⟨rfl, List.forall_mem_singleton.2 rfl⟩
    have hminus := Literal.negative hblanks hzeros
    rwa [hvalue] at hminus
  refine ⟨⟨hliteral, by decide, ?_⟩, hnegative, by decide, ?_⟩
  · exact (compile_literal hliteral (by decide) "literal" "pack").2 (by decide)
  · exact (compile_literal hnegative (by decide) "literal" "pack").1 (by decide)

end Source

end Scoreboard
