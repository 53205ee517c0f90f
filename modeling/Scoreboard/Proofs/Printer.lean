import Mathlib
import Scoreboard.Proofs.Tokens
import Scoreboard.Proofs.Trees

/-!
# Printing scripts

A script is printed with one statement on a line. Parentheses stand only around an operand
that would otherwise be read differently: an operation that binds less tightly than the one
it is an operand of, a right operand that binds as tightly (operations are grouped to the
left), and an assignment, whose value reaches as far as it can.

A script is printed in two steps, as a list of pieces and then as their characters. A piece
is a gap or becomes one token, if the character behind it does not go on with it. The pieces
of a script are `Neat`: each of them fits the next one. So the tokens of a printed script are
those of its pieces (`tokenize_print`).
-/

namespace Scoreboard

/-! ## Pieces -/

/-- A piece of a printed script. -/
inductive Piece where
  | blank
  | newline
  /-- A sign of one character. -/
  | sign (c : Char)
  /-- A name or a reserved word. -/
  | word (text : String)
  /-- The digits of a number. -/
  | number (n : Nat)
  /-- A string in quotes. -/
  | quoted (text : String)
  deriving DecidableEq, Repr

namespace Piece

/-- The characters of a string as they stand between quotes: a backslash before each quote
and each backslash. -/
def escape : List Char → List Char
  | [] => []
  | c :: rest => if c == '"' || c == '\\' then '\\' :: c :: escape rest else c :: escape rest

/-- The characters of a piece. -/
def text : Piece → List Char
  | blank => [' ']
  | newline => ['\n']
  | sign c => [c]
  | word text => text.toList
  | number n => Nat.toDigits 10 n
  | quoted text => '"' :: (escape text.toList ++ ['"'])

/-- The kind of the token that a piece becomes, none for a gap. -/
def kind? : Piece → Option TokenKind
  | blank => none
  | newline => some .newline
  | sign c => TokenKind.ofSign? c
  | word text => some (.ofWord text)
  | number n => some (.integer (Int.ofNat n))
  | quoted text => some (.string text)

/-- Pieces with a comma between two of them. -/
def commas : List (List Piece) → List Piece
  | [] => []
  | [ps] => ps
  | ps :: qs :: rest => ps ++ .sign ',' :: .blank :: commas (qs :: rest)

/-- Pieces with the end of the line behind each of them. -/
def lines : List (List Piece) → List Piece
  | [] => []
  | ps :: rest => ps ++ .newline :: lines rest

/-- Pieces in parentheses, if they need them. -/
def grouped (needed : Bool) (ps : List Piece) : List Piece :=
  if needed then .sign '(' :: (ps ++ [.sign ')']) else ps

/-- A type behind a colon, if there is a type. -/
def ofType : Option String → List Piece
  | none => []
  | some type => [.sign ':', .blank, .word type]

end Piece

/-- The sign of an operator as a character. -/
def Operator.sign : Operator → Char
  | add => '+'
  | subtract => '-'
  | multiply => '*'
  | divide => '/'

/-! ## The pieces of a script -/

/-- The pieces of a parameter. -/
def Parameter.pieces {α : Type} (p : Parameter α) : List Piece :=
  .word p.name :: Piece.ofType (some p.type)

namespace Node

variable {α : Type}

/-- Whether a node needs parentheses where an operand that binds at least as tightly as
`least` is read. -/
def needsParentheses (least : Nat) : Node α → Bool
  | binary op _ _ _ => op.precedence < least
  | assign _ _ _ => true
  | _ => false

mutual

/-- The pieces of a node. -/
def pieces : Node α → List Piece
  | declare name type _ => .word Keyword.declare.word :: .blank :: .word name :: Piece.ofType type
  | define name type value _ =>
    .word Keyword.declare.word :: .blank :: .word name
      :: (Piece.ofType type ++ .blank :: .sign '=' :: .blank :: value.pieces)
  | assign name value _ => .word name :: .blank :: .sign '=' :: .blank :: value.pieces
  | function name parameters result body _ =>
    .word Keyword.function.word :: .blank :: .word name :: .sign '('
      :: (Piece.commas (parameters.map Parameter.pieces) ++ .sign ')'
      :: (Piece.ofType result ++ .blank :: .sign '\x7b' :: .newline
      :: (Piece.lines (piecesAll body) ++ [.sign '\x7d'])))
  | call name arguments _ =>
    .word name :: .sign '(' :: (Piece.commas (piecesAll arguments) ++ [.sign ')'])
  | raw text _ => [.word Keyword.raw.word, .blank, .quoted text]
  | binary op left right _ =>
    Piece.grouped (left.needsParentheses op.precedence) left.pieces
      ++ .blank :: .sign op.sign :: .blank
      :: Piece.grouped (right.needsParentheses (op.precedence + 1)) right.pieces
  | integer value _ =>
    if value < 0 then [.sign '-', .number value.natAbs] else [.number value.natAbs]
  | string value _ => [.quoted value]
  | access name _ => [.word name]

/-- The pieces of each node. -/
def piecesAll : List (Node α) → List (List Piece)
  | [] => []
  | node :: rest => node.pieces :: piecesAll rest

end

/-- Whether a node has the shape of those that reading returns: its names are names, its
operands and arguments are no declarations, functions or raw commands, a variable has a type
or a first value, and a literal is not longer than what is read. -/
def isReadable : Node α → Bool
  | declare name type _ => isName name && type.any isName
  | define name type _ _ => isName name && type.all isName
  | assign name _ _ => isName name
  | function name parameters result _ _ =>
    isName name && parameters.all (fun p => isName p.name && isName p.type) && result.all isName
  | call name arguments _ => isName name && arguments.all isOperand
  | raw _ _ => true
  | binary _ left right _ => left.isOperand && right.isOperand
  | integer value _ => (Nat.toDigits 10 value.natAbs).length ≤ Text.digitLimit
  | string _ _ => true
  | access name _ => isName name

end Node

/-- The text of a script, one statement on a line. -/
def Script.print {α : Type} (script : Script α) : List Char :=
  (Piece.lines (Node.piecesAll script)).flatMap Piece.text

/-! ## Words of pieces -/

theorem Text.isDigit_of_startsName {c : Char} (hc : startsName c = true) : c.isDigit = false := by
  by_contra hdigit
  have hbounds := digit_bounds (Bool.eq_true_of_not_eq_false hdigit)
  unfold startsName isLetter at hc
  rw [if_pos (by omega), Bool.or_eq_true_iff] at hc
  cases hc with
  | inl hletter =>
    simp only [Char.isAlpha, Char.isUpper, Char.isLower, Bool.or_eq_true, Bool.and_eq_true,
      decide_eq_true_eq, ge_iff_le, UInt32.le_iff_toNat_le] at hletter
    have hbounds' : (65 ≤ c.toNat ∧ c.toNat ≤ 90) ∨ (97 ≤ c.toNat ∧ c.toNat ≤ 122) := hletter
    omega
  | inr hline =>
    rw [eq_of_beq hline] at hbounds
    exact absurd hbounds (by decide)

namespace Scanner

/-- A character that may start a name starts one. -/
theorem firstWord_of_startsName {c : Char} (hc : Text.startsName c = true) (rest : List Char) :
    firstWord (c :: rest) = some (nameWord (c :: rest)) := by
  have hne : ∀ d : Char, Text.startsName d = false → (c == d) = false := by
    intro d hd
    refine beq_eq_false_iff_ne.2 fun heq => ?_
    rw [heq, hd] at hc
    cases hc
  have hgap : isGap c = false := by
    unfold isGap
    rw [hne ' ' rfl, hne '\t' rfl, hne '\r' rfl, hne '\x0c' rfl]
    rfl
  have hdigit : c.isDigit = false := Text.isDigit_of_startsName hc
  simp only [firstWord]
  rw [hgap, hne '\n' rfl, hne '/' rfl, ofSign?_eq_none (.inr hc), hne '"' rfl, hdigit, hc]
  rfl

/-- Behind the characters of a name that nothing goes on with, the name ends. -/
theorem nameWord_append {cs rest : List Char} (hcs : ∀ c ∈ cs, Text.continuesName c = true)
    (hrest : ∀ c ∈ rest.head?, Text.continuesName c = false) :
    nameWord (cs ++ rest) = (cs.length, .token (.ofWord (String.ofList cs))) := by
  have htake : (cs ++ rest).takeWhile Text.continuesName = cs := by
    rw [List.takeWhile_append_of_pos hcs]
    cases rest with
    | nil => simp
    | cons c rest => rw [List.takeWhile_cons_of_neg (by simp [hrest c rfl]), List.append_nil]
  unfold nameWord
  rw [take_nameLength, htake]
  unfold nameLength
  rw [htake]

/-- Behind digits that nothing goes on with, the integer ends. -/
theorem integerLength_append {ds rest : List Char} (hds : ∀ c ∈ ds, c.isDigit = true)
    (hrest : ∀ c ∈ rest.head?, c.isDigit = false ∧ c ≠ '_') :
    integerLength (ds ++ rest) = ds.length := by
  induction ds with
  | nil =>
    cases rest with
    | nil => rfl
    | cons c rest =>
      have hc := hrest c rfl
      cases rest with
      | nil => simp [integerLength, hc.1]
      | cons d rest => simp [integerLength, hc.1, hc.2]
  | cons d ds ih =>
    have hd := hds d List.mem_cons_self
    have htail := ih fun c hc => hds c (List.mem_cons_of_mem d hc)
    rw [List.cons_append, integerLength_cons hd, htail, List.length_cons, Nat.add_comm]

/-- The digits of a number are read as the number. -/
theorem integerWord_append {n : Nat} {rest : List Char}
    (hn : (Nat.toDigits 10 n).length ≤ Text.digitLimit)
    (hrest : ∀ c ∈ rest.head?, c.isDigit = false ∧ c ≠ '_') :
    integerWord (Nat.toDigits 10 n ++ rest)
      = ((Nat.toDigits 10 n).length, .token (.integer (Int.ofNat n))) := by
  have hdigit : ∀ c ∈ Nat.toDigits 10 n, c.isDigit = true := fun c hc =>
    Nat.isDigit_of_mem_toDigits (by omega) (by omega) hc
  have hlength := integerLength_append hdigit hrest
  have hdigits : integerDigits (Nat.toDigits 10 n ++ rest) = Nat.toDigits 10 n := by
    rw [integerDigits_eq_filter, hlength, List.take_left]
    exact List.filter_eq_self.2 hdigit
  have hvalue : Text.ofDigits ((Nat.toDigits 10 n).map (·.toNat - 48)) = n := by
    unfold Text.ofDigits
    rw [List.foldl_map]
    exact Nat.ofDigitChars_ten_toDigits
  have hinteger : Text.integer? (Nat.toDigits 10 n) = some (Int.ofNat n) := by
    rw [Text.integer?_of_digits hdigit Nat.toDigits_ne_nil, if_neg (by omega), hvalue]
  unfold integerWord
  rw [hdigits, hlength, hinteger]

/-- An escaped string is read as the string. -/
theorem stringBody_escape (cs rest : List Char) :
    stringBody (Piece.escape cs ++ '"' :: rest) = some (cs, (Piece.escape cs).length + 1) := by
  induction cs with
  | nil => simp [Piece.escape, stringBody]
  | cons c cs ih =>
    by_cases hquote : c = '"'
    · subst hquote
      simp [Piece.escape, stringBody, ih]
    by_cases hslash : c = '\\'
    · subst hslash
      simp [Piece.escape, stringBody, ih]
    · have hescape : Piece.escape (c :: cs) = c :: Piece.escape cs := by
        simp [Piece.escape, hquote, hslash]
      rw [hescape, List.cons_append, stringBody]
      · rw [ih]
        rfl
      · exact hquote
      · exact fun _ heq _ => hslash heq
      · exact fun _ heq _ => hslash heq

end Scanner

namespace Piece

/-- Whether a piece becomes the token it stands for, if nothing goes on with it. -/
def isFine : Piece → Bool
  | sign c => (TokenKind.ofSign? c).isSome
  | word text =>
    match text.toList with
    | [] => false
    | c :: rest => Text.startsName c && rest.all Text.continuesName
  | number n => (Nat.toDigits 10 n).length ≤ Text.digitLimit
  | _ => true

/-- Whether a character does not go on with a piece. -/
def allows : Piece → Char → Bool
  | sign d, c => !(d == '/' && c == '/')
  | word _, c => !Text.continuesName c
  | number _, c => !c.isDigit && c != '_'
  | _, _ => true

/-- The word that a piece becomes. -/
def toWord (p : Piece) : Word :=
  match p.kind? with
  | none => .gap
  | some kind => .token kind

theorem continuesName_of_sign {c : Char} (hc : (TokenKind.ofSign? c).isSome = true) :
    Text.continuesName c = false := by
  unfold TokenKind.ofSign? at hc
  split at hc
  all_goals first | decide | cases hc

theorem firstWord_sign {c : Char} {kind : TokenKind} (hc : TokenKind.ofSign? c = some kind)
    {rest : List Char} (hrest : ∀ d ∈ rest.head?, (sign c).allows d = true) :
    Scanner.firstWord (c :: rest) = some (1, .token kind) := by
  have hcomment : (c == '/' && rest.head? == some '/') = false := by
    cases rest with
    | nil => simp
    | cons d rest =>
      have hd : (!(c == '/' && d == '/')) = true := hrest d rfl
      rw [Bool.not_eq_true'] at hd
      exact hd
  have hgap : Scanner.isGap c = false ∧ (c == '\n') = false := by
    unfold TokenKind.ofSign? at hc
    split at hc
    all_goals first | decide | cases hc
  simp only [Scanner.firstWord]
  rw [hgap.1, hgap.2, hcomment, hc]
  rfl

/-- A piece is the first word of a text that starts with it and does not go on with it. -/
theorem firstWord_append {p : Piece} (hp : p.isFine = true) {rest : List Char}
    (hrest : ∀ c ∈ rest.head?, p.allows c = true) :
    Scanner.firstWord (p.text ++ rest) = some (p.text.length, p.toWord) := by
  cases p with
  | blank => rfl
  | newline => rfl
  | sign c =>
    obtain ⟨kind, hkind⟩ := Option.isSome_iff_exists.1 hp
    have hword : (sign c).toWord = .token kind := by
      show (match TokenKind.ofSign? c with
        | none => Word.gap
        | some kind => Word.token kind) = _
      rw [hkind]
    rw [hword]
    exact firstWord_sign hkind hrest
  | word text =>
    cases htext : text.toList with
    | nil =>
      simp [isFine, htext] at hp
    | cons c cs =>
      simp only [isFine, htext] at hp
      obtain ⟨hc, hcs⟩ := Bool.and_eq_true_iff.1 hp
      -- the name is taken as far as it goes, and what follows cannot go on with it
      have hall : ∀ d ∈ c :: cs, Text.continuesName d = true :=
        List.forall_mem_cons.2 ⟨Scanner.continuesName_of_startsName hc, List.all_eq_true.1 hcs⟩
      have hstop : ∀ d ∈ rest.head?, Text.continuesName d = false := fun d hd => by
        simpa [allows] using hrest d hd
      have hword := Scanner.nameWord_append hall hstop
      rw [← htext, String.ofList_toList] at hword
      show Scanner.firstWord (text.toList ++ rest) = _
      rw [htext, List.cons_append, Scanner.firstWord_of_startsName hc, ← List.cons_append, ← htext,
        hword]
      rfl
  | number n =>
    have hstop : ∀ c ∈ rest.head?, c.isDigit = false ∧ c ≠ '_' := fun c hc => by
      simpa [allows] using hrest c hc
    have hword := Scanner.integerWord_append (of_decide_eq_true hp) hstop
    have hdigit : ∀ c ∈ Nat.toDigits 10 n, c.isDigit = true := fun c hc =>
      Nat.isDigit_of_mem_toDigits (by omega) (by omega) hc
    show Scanner.firstWord (Nat.toDigits 10 n ++ rest) = _
    cases hdigits : Nat.toDigits 10 n with
    | nil => exact (Nat.toDigits_ne_nil hdigits).elim
    | cons d ds =>
      rw [hdigits] at hword hdigit
      rw [List.cons_append, Scanner.firstWord_of_isDigit (hdigit d List.mem_cons_self),
        ← List.cons_append, hword]
      show _ = some ((Nat.toDigits 10 n).length, _)
      rw [hdigits]
      rfl
  | quoted text =>
    -- the last quote ends the string, whatever follows
    have hbody := Scanner.stringBody_escape text.toList rest
    have hword : Scanner.stringWord (escape text.toList ++ '"' :: rest)
        = ((escape text.toList).length + 1 + 1, .token (.string text)) := by
      unfold Scanner.stringWord
      rw [hbody]
      simp only [String.ofList_toList]
    show Scanner.firstWord ('"' :: (escape text.toList ++ ['"']) ++ rest) = _
    rw [List.cons_append, List.append_assoc]
    show some (Scanner.stringWord (escape text.toList ++ '"' :: rest)) = _
    rw [hword]
    simp [Piece.text, toWord, kind?]

/-! ## Neat pieces -/

/-- Whether a piece fits every other one, before it and behind it. -/
def isGlue : Piece → Bool
  | blank => true
  | newline => true
  | sign c => (TokenKind.ofSign? c).isSome && c != '/'
  | _ => false

/-- The first character of a piece does not go on with the piece before it. -/
def Fits (p q : Piece) : Prop := ∀ c ∈ q.text.head?, p.allows c = true

theorem fits_glue {p g : Piece} (hg : g.isGlue = true) : p.Fits g := by
  intro c hc
  have hplain : Text.continuesName c = false ∧ c.isDigit = false ∧ c ≠ '_' ∧ c ≠ '/' := by
    cases g with
    | blank =>
      cases hc
      decide
    | newline =>
      cases hc
      decide
    | sign d =>
      cases hc
      obtain ⟨hsign, hslash⟩ := Bool.and_eq_true_iff.1 hg
      refine ⟨continuesName_of_sign hsign, ?_, ?_, bne_iff_ne.1 hslash⟩
      · by_contra hdigit
        rw [Scanner.ofSign?_eq_none (.inl (Bool.eq_true_of_not_eq_false hdigit))] at hsign
        cases hsign
      · rintro rfl
        cases hsign
    | word text => cases hg
    | number n => cases hg
    | quoted text => cases hg
  cases p <;> simp [allows, hplain]

theorem glue_fits {g p : Piece} (hg : g.isGlue = true) : g.Fits p := by
  intro c hc
  cases g with
  | blank => rfl
  | newline => rfl
  | sign d =>
    have hslash := bne_iff_ne.1 (Bool.and_eq_true_iff.1 hg).2
    simp [allows, hslash]
  | word text => cases hg
  | number n => cases hg
  | quoted text => cases hg

theorem isFine_of_isGlue {g : Piece} (hg : g.isGlue = true) : g.isFine = true := by
  cases g with
  | sign c => exact (Bool.and_eq_true_iff.1 hg).1
  | word text => cases hg
  | number n => cases hg
  | _ => rfl

theorem text_ne_nil {p : Piece} (hp : p.isFine = true) : p.text ≠ [] := by
  cases p with
  | word text =>
    intro htext
    have hempty : text.toList = [] := htext
    simp [isFine, hempty] at hp
  | number n => exact Nat.toDigits_ne_nil
  | _ => exact List.cons_ne_nil _ _

/-- Pieces that become the tokens they stand for: each of them is fine and fits the next. -/
structure Neat (ps : List Piece) : Prop where
  fine : ∀ p ∈ ps, p.isFine = true
  chain : ps.IsChain Fits

theorem Neat.nil : Neat [] := ⟨List.forall_mem_nil _, .nil⟩

theorem Neat.single {p : Piece} (hp : p.isFine = true) : Neat [p] :=
  ⟨List.forall_mem_singleton.2 hp, .singleton p⟩

/-- Neat pieces may be joined by a piece that fits all others. -/
theorem Neat.join {ps qs : List Piece} {g : Piece} (hps : Neat ps) (hg : g.isGlue = true)
    (hqs : Neat qs) : Neat (ps ++ g :: qs) := by
  refine ⟨?_, ?_⟩
  · intro p hp
    obtain hp | hp := List.mem_append.1 hp
    · exact hps.fine p hp
    obtain rfl | hp := List.mem_cons.1 hp
    · exact isFine_of_isGlue hg
    · exact hqs.fine p hp
  · refine hps.chain.append ?_ ?_
    · exact hqs.chain.cons fun q _ => glue_fits hg
    · intro p _ q hq
      cases hq
      exact fits_glue hg

theorem Neat.cons {qs : List Piece} {g : Piece} (hg : g.isGlue = true) (hqs : Neat qs) :
    Neat (g :: qs) := Neat.nil.join hg hqs

theorem Neat.commas {ps : List (List Piece)} (h : ∀ p ∈ ps, Neat p) : Neat (commas ps) := by
  induction ps with
  | nil => exact .nil
  | cons p ps ih =>
    have hp := h p List.mem_cons_self
    cases ps with
    | nil => exact hp
    | cons q ps => exact hp.join rfl (.cons rfl (ih fun r hr => h r (List.mem_cons_of_mem p hr)))

theorem Neat.lines {ps : List (List Piece)} (h : ∀ p ∈ ps, Neat p) : Neat (lines ps) := by
  induction ps with
  | nil => exact .nil
  | cons p ps ih =>
    exact (h p List.mem_cons_self).join rfl (ih fun q hq => h q (List.mem_cons_of_mem p hq))

theorem Neat.grouped {ps : List Piece} (h : Neat ps) (needed : Bool) :
    Neat (grouped needed ps) := by
  unfold Piece.grouped
  split
  · exact .cons rfl (h.join rfl .nil)
  · exact h

/-- A word with the type behind it. -/
theorem Neat.typed {p : Piece} (hp : p.isFine = true) {type : Option String}
    (htype : ∀ t ∈ type, (word t).isFine = true) : Neat (p :: ofType type) := by
  cases type with
  | none => exact .single hp
  | some t => exact (Neat.single hp).join rfl (.cons rfl (.single (htype t rfl)))

theorem isFine_word {name : String} (h : isName name = true) : (word name).isFine = true :=
  (Bool.and_eq_true_iff.1 h).1

theorem isFine_keyword (k : Keyword) : (word k.word).isFine = true := by
  cases k <;> decide

theorem isFine_operator (op : Operator) : (sign op.sign).isFine = true := by
  cases op <;> rfl

end Piece

namespace Node

open Piece

variable {α : Type}

theorem piecesAll_eq_map (nodes : List (Node α)) : piecesAll nodes = nodes.map pieces := by
  induction nodes with
  | nil => rfl
  | cons node rest ih => rw [piecesAll, ih, List.map_cons]

/-- The pieces of a node are neat, if those of its children are. -/
theorem neat_pieces {node : Node α} (h : ∀ x ∈ node.tree, x.isReadable = true) :
    Neat node.pieces := by
  induction node using Node.induction with
  | step node ih =>
    have hself := h node node.self_mem_tree
    have hchild : ∀ child ∈ node.children, Neat child.pieces := fun child hmem =>
      ih child hmem fun x hx => h x (mem_tree_of_child hmem hx)
    have hall : ∀ ps ∈ piecesAll node.children, Neat ps := by
      rw [piecesAll_eq_map, List.forall_mem_map]
      exact hchild
    -- words are never next to each other: a blank or a sign is between, and fits both sides
    cases node with
    | declare name type m =>
      obtain ⟨hname, htype⟩ := Bool.and_eq_true_iff.1 hself
      rw [pieces]
      refine (Neat.single (isFine_keyword _)).join rfl (.typed (isFine_word hname) fun t ht => ?_)
      cases ht
      exact isFine_word htype
    | define name type value m =>
      obtain ⟨hname, htype⟩ := Bool.and_eq_true_iff.1 hself
      have hvalue := hchild value List.mem_cons_self
      have htyped : Neat (.word name :: ofType type) := .typed (isFine_word hname) fun t ht => by
        cases ht
        exact isFine_word htype
      rw [pieces]
      exact (Neat.single (isFine_keyword _)).join rfl (htyped.join rfl (.cons rfl (.cons rfl hvalue)))
    | assign name value m =>
      have hvalue := hchild value List.mem_cons_self
      rw [pieces]
      exact (Neat.single (isFine_word hself)).join rfl (.cons rfl (.cons rfl hvalue))
    | function name parameters result body m =>
      obtain ⟨hrest, hresult⟩ := Bool.and_eq_true_iff.1 hself
      obtain ⟨hname, hparameters⟩ := Bool.and_eq_true_iff.1 hrest
      have hcommas : Neat (commas (parameters.map Parameter.pieces)) := by
        refine .commas (List.forall_mem_map.2 fun p hp => ?_)
        obtain ⟨hname, htype⟩ := Bool.and_eq_true_iff.1 (List.all_eq_true.1 hparameters p hp)
        refine .typed (isFine_word hname) fun t ht => ?_
        cases ht
        exact isFine_word htype
      have htail : Neat (ofType result ++ .blank :: .sign '\x7b' :: .newline
          :: (lines (piecesAll body) ++ [.sign '\x7d'])) := by
        have hbody := (Neat.lines hall).join (g := .sign '\x7d') rfl .nil
        cases result with
        | none => exact .cons rfl (.cons rfl (.cons rfl hbody))
        | some t =>
          exact .cons rfl (.cons rfl ((Neat.single (isFine_word hresult)).join rfl
            (.cons rfl (.cons rfl hbody))))
      rw [pieces]
      exact (Neat.single (isFine_keyword _)).join rfl ((Neat.single (isFine_word hname)).join rfl
        (hcommas.join rfl htail))
    | call name arguments m =>
      obtain ⟨hname, -⟩ := Bool.and_eq_true_iff.1 hself
      rw [pieces]
      exact (Neat.single (isFine_word hname)).join rfl ((Neat.commas hall).join rfl .nil)
    | raw text m =>
      rw [pieces]
      exact (Neat.single (isFine_keyword _)).join rfl (.single rfl)
    | binary op left right m =>
      have hleft := hchild left List.mem_cons_self
      have hright := hchild right (List.mem_cons_of_mem _ List.mem_cons_self)
      rw [pieces]
      exact (hleft.grouped _).join rfl ((Neat.single (isFine_operator op)).join rfl
        (hright.grouped _))
    | integer value m =>
      rw [pieces]
      split
      · exact .cons rfl (.single hself)
      · exact .single hself
    | string value m => exact .single rfl
    | access name m => exact .single (isFine_word hself)

end Node

/-! ## The tokens of a printed script -/

/-- The tokens that pieces become. -/
inductive Lexed : List Piece → List Token → Prop
  | nil : Lexed [] []
  | gap {p : Piece} {ps : List Piece} {ts : List Token} (hp : p.kind? = none)
      (hrest : Lexed ps ts) : Lexed (p :: ps) ts
  | token {p : Piece} {ps : List Piece} {t : Token} {ts : List Token}
      (hkind : p.kind? = some t.kind) (hlexeme : t.lexeme = String.ofList p.text)
      (hrest : Lexed ps ts) : Lexed (p :: ps) (t :: ts)

/-- The walk over neat pieces leaves their tokens. -/
theorem walks_pieces {source : Source} {ps : List Piece} {i : Nat} (hps : Piece.Neat ps)
    (hi : i ≤ source.text.length) (htext : source.text.drop i = ps.flatMap Piece.text) :
    ∃ ts, Walks source i ts source.text.length ∧ Lexed ps ts := by
  induction ps generalizing i with
  | nil =>
    have hlength := List.drop_eq_nil_iff.1 htext
    have heq : i = source.text.length := by omega
    rw [heq]
    exact ⟨[], .refl _, .nil⟩
  | cons p ps ih =>
    rw [List.flatMap_cons] at htext
    have hp := hps.fine p List.mem_cons_self
    have hrest : Piece.Neat ps :=
      ⟨fun q hq => hps.fine q (List.mem_cons_of_mem p hq), hps.chain.of_cons⟩
    -- the character behind the piece is the first one of the next piece
    have hstop : ∀ c ∈ (ps.flatMap Piece.text).head?, p.allows c = true := by
      cases ps with
      | nil =>
        intro c hc
        cases hc
      | cons q qs =>
        have hfits := (List.isChain_cons_cons.1 hps.chain).1
        have hq := Piece.text_ne_nil (hrest.fine q List.mem_cons_self)
        rw [List.flatMap_cons, List.head?_append_of_ne_nil _ hq]
        exact hfits
    have hword := Piece.firstWord_append hp hstop
    rw [← htext] at hword
    have hdrop : source.text.drop (i + p.text.length) = ps.flatMap Piece.text := by
      rw [← List.drop_drop, htext, List.drop_left]
    have hle : i + p.text.length ≤ source.text.length := by
      have := (Scanner.firstWord_length hword).2
      rw [List.length_drop] at this
      omega
    obtain ⟨ts, hwalk, hlexed⟩ := ih hrest hle hdrop
    unfold Piece.toWord at hword
    split at hword
    · rename_i hgap
      exact ⟨ts, .gap hword hwalk, .gap hgap hlexed⟩
    · rename_i kind hkind
      refine ⟨_, .token hword hwalk, .token hkind ?_ hlexed⟩
      show String.ofList ((source.text.drop i).take p.text.length) = _
      rw [htext, List.take_left]

/-- The tokens of a printed script are those of its pieces. -/
theorem tokenize_print {α : Type} {script : Script α}
    (h : ∀ x ∈ Node.trees script, x.isReadable = true) (name : Text) :
    ∃ ts, Lexed (Piece.lines (Node.piecesAll script)) ts
      ∧ tokenize ⟨name, script.print⟩ = .ok (ts ++ [Source.endToken ⟨name, script.print⟩]) := by
  have hneat : Piece.Neat (Piece.lines (Node.piecesAll script)) := by
    refine .lines ?_
    rw [Node.piecesAll_eq_map, List.forall_mem_map]
    exact fun node hnode => Node.neat_pieces fun x hx => h x (Node.mem_trees.2 ⟨node, hnode, hx⟩)
  have hdrop : (Source.text ⟨name, script.print⟩).drop 0
      = (Piece.lines (Node.piecesAll script)).flatMap Piece.text := List.drop_zero
  obtain ⟨ts, hwalk, hlexed⟩ := walks_pieces hneat (Nat.zero_le _) hdrop
  exact ⟨ts, hlexed, tokenize_eq_ok_iff.2 ⟨ts, hwalk, rfl⟩⟩

end Scoreboard
