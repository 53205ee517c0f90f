import Mathlib
import Scoreboard.Token.Scanner
import Scoreboard.Proofs.Lines
import Scoreboard.Proofs.Steps

/-!
# The words of a text

What one step of the scanner takes depends on the text ahead alone: `firstWord` gives its
length and what it is. A walk over a source is a sequence of such words (`Walks`), and the
scanner makes exactly the walk from the start of the text: to its end, or to the first integer
that has too many digits (`tokenize_eq_ok_iff`, `tokenize_eq_error_iff`).

The tokens of a walk have the spans of their words, one behind the other, and all but the end
of the text cover at least one character.
-/

namespace Scoreboard

/-! ## Places in a text -/

/-- The place at an offset of a text. -/
def Bookmark.ofOffset (text : List Char) (i : Nat) : Bookmark :=
  ⟨i, Position.ofIndex text i, text.drop i⟩

theorem Bookmark.move_ofOffset (text : List Char) (i n : Nat) :
    (ofOffset text i).move n = ofOffset text (i + n) := by
  unfold ofOffset move Position.ofIndex
  rw [Int.toNat_natCast, Int.toNat_natCast, Position.advance_add, List.drop_drop]

/-! ## The first word -/

/-- What a word is. -/
inductive Word where
  /-- A blank or a comment, which leaves no token. -/
  | gap
  /-- A token of a kind. -/
  | token (kind : TokenKind)
  /-- An integer that cannot be read. -/
  | refused
  deriving DecidableEq, Repr

namespace TokenKind

/-- Whether a kind is that of a sign. -/
def isSign : TokenKind → Bool
  | operator _ | assign | leftParen | rightParen | leftBrace | rightBrace | comma | colon => true
  | _ => false

/-- Whether a kind is that of a name or a reserved word. -/
def isWord : TokenKind → Bool
  | identifier | keyword _ => true
  | _ => false

theorem isSign_of_ofSign? {c : Char} {kind : TokenKind} (h : ofSign? c = some kind) :
    kind.isSign = true := by
  unfold ofSign? at h
  split at h <;> cases h <;> rfl

theorem isWord_of_ofWord {word : String} {kind : TokenKind} (h : kind = ofWord word) :
    kind.isWord = true := by
  unfold ofWord at h
  split at h <;> cases h <;> rfl

end TokenKind

namespace Scanner

/-- The word of an integer at the start of a text, without its underscores. -/
def integerDigits (text : List Char) : List Char :=
  (text.take (integerLength text)).filter (· != '_')

/-- The word of a string, given the text behind its opening quote. -/
def stringWord (rest : List Char) : Nat × Word :=
  match stringBody rest with
  | some (value, n) => (n + 1, .token (.string (String.ofList value)))
  | none => (1, .token .illegal)

/-- The word of an integer at the start of a text. -/
def integerWord (text : List Char) : Nat × Word :=
  (integerLength text, match Text.integer? (integerDigits text) with
    | some value => .token (.integer value)
    | none => .refused)

/-- The word of a name at the start of a text. -/
def nameWord (text : List Char) : Nat × Word :=
  (nameLength text, .token (.ofWord (String.ofList (text.take (nameLength text)))))

/-- The word at the start of a text with its number of characters, none at the end of the
text. -/
def firstWord : List Char → Option (Nat × Word)
  | [] => none
  | c :: rest =>
    if isGap c then some (1, .gap)
    else if c == '\n' then some (1, .token .newline)
    else if c == '/' && rest.head? == some '/' then some (lineLength rest + 1, .gap)
    else match TokenKind.ofSign? c with
      | some kind => some (1, .token kind)
      | none =>
        if c == '"' then some (stringWord rest)
        else if c.isDigit then some (integerWord (c :: rest))
        else if Text.startsName c then some (nameWord (c :: rest))
        else some (1, .token .illegal)

theorem firstWord_quote (rest : List Char) : firstWord ('"' :: rest) = some (stringWord rest) := rfl

/-- Whether a token that is not illegal can start with a character. -/
def startsToken (c : Char) : Bool :=
  c == '\n' || (TokenKind.ofSign? c).isSome || c == '"' || c.isDigit || Text.startsName c

theorem integerLength_cons {c : Char} (hc : c.isDigit = true) (rest : List Char) :
    integerLength (c :: rest) = 1 + integerLength rest := by
  cases rest with
  | nil => simp [integerLength, hc]
  | cons d rest => simp [integerLength, hc, Nat.add_comm]

theorem continuesName_of_startsName {c : Char} (hc : Text.startsName c = true) :
    Text.continuesName c = true := by
  unfold Text.startsName at hc
  unfold Text.continuesName
  grind

theorem nameLength_cons {c : Char} (hc : Text.startsName c = true) (rest : List Char) :
    nameLength (c :: rest) = 1 + nameLength rest := by
  unfold nameLength
  rw [List.takeWhile_cons_of_pos (continuesName_of_startsName hc), List.length_cons, Nat.add_comm]

theorem length_stringBody_le {rest value : List Char} {n : Nat}
    (h : stringBody rest = some (value, n)) : n ≤ rest.length := by
  fun_induction stringBody rest generalizing value n with
  | case1 => cases h
  | case2 rest =>
    cases h
    simp
  | case3 rest ih =>
    obtain ⟨⟨v, m⟩, hm, heq⟩ := Option.map_eq_some_iff.1 h
    cases heq
    have := ih hm
    simp only [List.length_cons]
    omega
  | case4 rest ih =>
    obtain ⟨⟨v, m⟩, hm, heq⟩ := Option.map_eq_some_iff.1 h
    cases heq
    have := ih hm
    simp only [List.length_cons]
    omega
  | case5 c rest _ _ _ ih =>
    obtain ⟨⟨v, m⟩, hm, heq⟩ := Option.map_eq_some_iff.1 h
    cases heq
    have := ih hm
    simp only [List.length_cons]
    omega

theorem integerLength_le (text : List Char) : integerLength text ≤ text.length := by
  fun_induction integerLength text with
  | case1 => exact Nat.le_refl 0
  | case2 c => simp
  | case3 c _ => simp
  | case4 c d rest _ ih =>
    rw [List.length_cons]
    omega
  | case5 c d rest _ => exact Nat.zero_le _

/-- The ways to take a word from the start of a text. -/
inductive Takes : List Char → Nat → Word → Prop
  | blank {c : Char} {rest : List Char} (hc : isGap c = true) : Takes (c :: rest) 1 .gap
  | newline {rest : List Char} : Takes ('\n' :: rest) 1 (.token .newline)
  | comment {rest : List Char} (hslash : rest.head? = some '/') :
      Takes ('/' :: rest) (lineLength rest + 1) .gap
  | sign {c : Char} {rest : List Char} {kind : TokenKind}
      (hc : TokenKind.ofSign? c = some kind) (hslash : c = '/' → rest.head? ≠ some '/') :
      Takes (c :: rest) 1 (.token kind)
  | string {rest value : List Char} {n : Nat} (hbody : stringBody rest = some (value, n)) :
      Takes ('"' :: rest) (n + 1) (.token (.string (String.ofList value)))
  | openString {rest : List Char} (hbody : stringBody rest = none) :
      Takes ('"' :: rest) 1 (.token .illegal)
  | integer {c : Char} {rest : List Char} {value : Int} (hc : c.isDigit = true)
      (hvalue : Text.integer? (integerDigits (c :: rest)) = some value) :
      Takes (c :: rest) (integerLength (c :: rest)) (.token (.integer value))
  | refused {c : Char} {rest : List Char} (hc : c.isDigit = true)
      (hvalue : Text.integer? (integerDigits (c :: rest)) = none) :
      Takes (c :: rest) (integerLength (c :: rest)) .refused
  | name {c : Char} {rest : List Char} (hc : Text.startsName c = true) :
      Takes (c :: rest) (nameLength (c :: rest))
        (.token (.ofWord (String.ofList ((c :: rest).take (nameLength (c :: rest))))))
  | illegal {c : Char} {rest : List Char} (hgap : isGap c = false)
      (hstart : startsToken c = false) : Takes (c :: rest) 1 (.token .illegal)

theorem takes_of_firstWord {text : List Char} {n : Nat} {word : Word}
    (h : firstWord text = some (n, word)) : Takes text n word := by
  cases text with
  | nil => cases h
  | cons c rest =>
    -- one split for each test; the last case needs what all of them excluded
    simp only [firstWord] at h
    split at h
    · rename_i hgap
      cases h
      exact .blank hgap
    rename_i hgap
    split at h
    · rename_i hline
      cases h
      rw [eq_of_beq hline]
      exact .newline
    rename_i hline
    split at h
    · rename_i hcomment
      obtain ⟨hc, hslash⟩ := Bool.and_eq_true_iff.1 hcomment
      cases h
      rw [eq_of_beq hc]
      exact .comment (eq_of_beq hslash)
    rename_i hcomment
    split at h
    · rename_i kind hsign
      cases h
      refine .sign hsign fun hc hslash => hcomment ?_
      rw [hc, hslash]
      rfl
    rename_i hsign
    split at h
    · rename_i hquote
      rw [eq_of_beq hquote]
      unfold stringWord at h
      split at h
      · rename_i value m hbody
        cases h
        exact .string hbody
      · rename_i hbody
        cases h
        exact .openString hbody
    rename_i hquote
    split at h
    · rename_i hdigit
      unfold integerWord at h
      split at h
      · rename_i value hvalue
        cases h
        exact .integer hdigit hvalue
      · rename_i hvalue
        cases h
        exact .refused hdigit hvalue
    rename_i hdigit
    split at h
    · rename_i hletter
      cases h
      exact .name hletter
    · rename_i hletter
      cases h
      refine .illegal (Bool.eq_false_iff.2 hgap) ?_
      unfold startsToken
      rw [Bool.eq_false_iff.2 hline, hsign, Bool.eq_false_iff.2 hquote, Bool.eq_false_iff.2 hdigit,
        Bool.eq_false_iff.2 hletter]
      rfl

theorem integerLength_pos {c : Char} (hc : c.isDigit = true) (rest : List Char) :
    0 < integerLength (c :: rest) := by
  rw [integerLength_cons hc]
  omega

theorem nameLength_le (text : List Char) : nameLength text ≤ text.length :=
  (List.takeWhile_prefix _).length_le

/-- A word has at least one character and lies within the text. -/
theorem firstWord_length {text : List Char} {n : Nat} {word : Word}
    (h : firstWord text = some (n, word)) : 0 < n ∧ n ≤ text.length := by
  cases takes_of_firstWord h with
  | @comment rest =>
    have hline : lineLength rest ≤ rest.length := (List.takeWhile_prefix _).length_le
    rw [List.length_cons]
    omega
  | string hbody =>
    have hn := length_stringBody_le hbody
    rw [List.length_cons]
    omega
  | integer hc _ => exact ⟨integerLength_pos hc _, integerLength_le _⟩
  | refused hc _ => exact ⟨integerLength_pos hc _, integerLength_le _⟩
  | name hc =>
    refine ⟨?_, nameLength_le _⟩
    rw [nameLength_cons hc]
    omega
  | _ => simp

theorem exists_firstWord (c : Char) (rest : List Char) :
    ∃ word, firstWord (c :: rest) = some word := by
  simp only [firstWord]
  repeat' split
  all_goals exact ⟨_, rfl⟩

/-- The token of some characters at an offset. -/
def tokenAt (source : Source) (i n : Nat) (kind : TokenKind) : Token :=
  ⟨kind, String.ofList ((source.text.drop i).take n), Span.ofRange source i (i + n : Nat)⟩

/-- A scanner at an offset of its source. -/
def IsAt (s : Scanner) (i : Nat) : Prop :=
  s.current = .ofOffset s.source.text i

variable {s : Scanner} {i : Nat}

theorem IsAt.rest (h : s.IsAt i) : s.rest = s.source.text.drop i := by
  unfold Scanner.rest
  rw [h]
  rfl

/-- A scanner that starts a word at an offset and takes some characters. -/
def across (s : Scanner) (i n : Nat) : Scanner :=
  { s with start := .ofOffset s.source.text i, current := .ofOffset s.source.text (i + n) }

theorem mark_eq_across (h : s.IsAt i) : s.mark = s.across i 0 := by
  unfold mark across
  rw [h]
  rfl

theorem take_across (s : Scanner) (i m n : Nat) : (s.across i m).take n = s.across i (m + n) := by
  unfold take across
  simp only [Bookmark.move_ofOffset, Nat.add_assoc]

theorem rewind_across (s : Scanner) (i n : Nat) : (s.across i n).rewind = s.across i 1 := by
  unfold rewind across
  simp only [Bookmark.move_ofOffset]

theorem rest_across (s : Scanner) (i n : Nat) : (s.across i n).rest = s.source.text.drop (i + n) :=
  rfl

theorem pending_across (s : Scanner) (i n : Nat) :
    (s.across i n).pending = (s.source.text.drop i).take n := by
  show (s.source.text.drop i).take (i + n - i) = _
  rw [Nat.add_sub_cancel_left]

theorem emit_across (s : Scanner) (i n : Nat) (kind : TokenKind) :
    (s.across i n).emit kind
      = { s.across i n with emitted := tokenAt s.source i n kind :: s.emitted } := by
  unfold emit
  rw [pending_across]
  rfl

/-- What a step leaves after a word. -/
def outcome (s : Scanner) (i : Nat) : Nat × Word → EStateM.Result ScanError Scanner Unit
  | (n, .gap) => .ok () (s.across i n)
  | (n, .token kind) => .ok () ((s.across i n).emit kind)
  | (n, .refused) => .error .numeral (s.across i n)

section
variable {c : Char} {rest : List Char} (htext : s.source.text.drop i = c :: rest)
include htext

theorem rest_across_one : (s.across i 1).rest = rest := by
  rw [rest_across, ← List.drop_drop, htext, List.drop_one, List.tail_cons]

theorem string_across : string (s.across i 1) = s.outcome i (stringWord rest) := by
  unfold string stringWord
  rw [get_bind, rest_across_one htext]
  cases stringBody rest with
  | none =>
    show EStateM.Result.ok () ((s.across i 1).rewind.emit .illegal) = _
    rw [rewind_across]
    rfl
  | some found =>
    show EStateM.Result.ok () (((s.across i 1).take found.2).emit _) = _
    rw [take_across, Nat.add_comm]
    rfl

theorem integer_across (hc : c.isDigit = true) :
    integer (s.across i 1) = s.outcome i (integerWord (c :: rest)) := by
  have hstep : (modify fun s => s.take (integerLength s.rest) : Scan PUnit) (s.across i 1)
      = .ok () (s.across i (integerLength (c :: rest))) := by
    show EStateM.Result.ok () ((s.across i 1).take (integerLength (s.across i 1).rest)) = _
    rw [rest_across_one htext, take_across, integerLength_cons hc]
  unfold integer integerWord integerDigits
  rw [bind_of_ok hstep, get_bind, pending_across, htext]
  cases Text.integer? (((c :: rest).take (integerLength (c :: rest))).filter (· != '_')) with
  | none => rfl
  | some value => rfl

theorem name_across (hc : Text.startsName c = true) :
    name (s.across i 1) = s.outcome i (nameWord (c :: rest)) := by
  have htake : (s.across i 1).take (nameLength (s.across i 1).rest)
      = s.across i (nameLength (c :: rest)) := by
    rw [rest_across_one htext, take_across, nameLength_cons hc]
  unfold name nameWord
  show EStateM.Result.ok () (((s.across i 1).take (nameLength (s.across i 1).rest)).emit
    (.ofWord (String.ofList ((s.across i 1).take (nameLength (s.across i 1).rest)).pending))) = _
  rw [htake, pending_across, htext]
  rfl

end

/-- One step takes the first word. -/
theorem scanToken_across {word : Nat × Word}
    (hword : firstWord (s.source.text.drop i) = some word) :
    scanToken (s.across i 0) = s.outcome i word := by
  cases htext : s.source.text.drop i with
  | nil =>
    rw [htext] at hword
    cases hword
  | cons c rest =>
    have hadvance : advance (s.across i 0) = .ok c (s.across i 1) := by
      unfold advance
      rw [get_bind, rest_across, Nat.add_zero, htext]
      show EStateM.Result.ok c ((s.across i 0).take 1) = _
      rw [take_across]
    unfold scanToken
    rw [bind_of_ok hadvance]
    rw [htext] at hword
    simp only [firstWord] at hword
    -- the step and the word it takes are found by the same tests, in the same order
    by_cases hgap : isGap c = true
    · rw [if_pos hgap] at hword ⊢
      cases hword
      rfl
    rw [if_neg hgap] at hword ⊢
    by_cases hline : (c == '\n') = true
    · rw [if_pos hline] at hword ⊢
      cases hword
      rfl
    rw [if_neg hline] at hword ⊢
    rw [get_bind, peek?, rest_across_one htext]
    by_cases hcomment : (c == '/' && rest.head? == some '/') = true
    · rw [if_pos hcomment] at hword ⊢
      cases hword
      show EStateM.Result.ok () ((s.across i 1).take (lineLength (s.across i 1).rest)) = _
      rw [rest_across_one htext, take_across, Nat.add_comm]
      rfl
    rw [if_neg hcomment] at hword ⊢
    cases hsign : TokenKind.ofSign? c with
    | some kind =>
      rw [hsign] at hword
      cases hword
      rfl
    | none =>
      rw [hsign] at hword
      simp only at hword ⊢
      by_cases hquote : (c == '"') = true
      · rw [if_pos hquote] at hword ⊢
        cases hword
        exact string_across htext
      rw [if_neg hquote] at hword ⊢
      by_cases hdigit : c.isDigit = true
      · rw [if_pos hdigit] at hword ⊢
        cases hword
        exact integer_across htext hdigit
      rw [if_neg hdigit] at hword ⊢
      by_cases hletter : Text.startsName c = true
      · rw [if_pos hletter] at hword ⊢
        cases hword
        exact name_across htext hletter
      · rw [if_neg hletter] at hword ⊢
        cases hword
        rfl

end Scanner

/-! ## Walks -/

/-- The words of a source from one offset to another, with the tokens they leave. -/
inductive Walks (source : Source) : Nat → List Token → Nat → Prop
  | refl (i : Nat) : Walks source i [] i
  | gap {i n j : Nat} {ts : List Token}
      (hword : Scanner.firstWord (source.text.drop i) = some (n, .gap))
      (hrest : Walks source (i + n) ts j) : Walks source i ts j
  | token {i n j : Nat} {kind : TokenKind} {ts : List Token}
      (hword : Scanner.firstWord (source.text.drop i) = some (n, .token kind))
      (hrest : Walks source (i + n) ts j) :
      Walks source i (Scanner.tokenAt source i n kind :: ts) j

/-- A walk stops before an integer that cannot be read. -/
def Refuses (source : Source) (i : Nat) : Prop :=
  ∃ n, Scanner.firstWord (source.text.drop i) = some (n, .refused)

namespace Walks

variable {source : Source} {i j k : Nat} {ts us : List Token}

theorem append (h₁ : Walks source i ts j) (h₂ : Walks source j us k) :
    Walks source i (ts ++ us) k := by
  induction h₁ with
  | refl => exact h₂
  | gap hword _ ih => exact .gap hword (ih h₂)
  | token hword _ ih => exact .token hword (ih h₂)

/-- A walk taken apart at one of its tokens. -/
theorem split {t : Token} (h : Walks source i (ts ++ t :: us) j) :
    ∃ a n kind, Walks source i ts a ∧ Scanner.firstWord (source.text.drop a) = some (n, .token kind)
      ∧ t = Scanner.tokenAt source a n kind ∧ Walks source (a + n) us j := by
  generalize hall : ts ++ t :: us = all at h
  induction h generalizing ts with
  | refl => simp at hall
  | gap hword _ ih =>
    obtain ⟨a, n, kind, hwalk, hfirst, ht, hrest⟩ := ih hall
    exact ⟨a, n, kind, .gap hword hwalk, hfirst, ht, hrest⟩
  | @token i n j kind ts' hword hrest ih =>
    cases ts with
    | nil =>
      cases hall
      exact ⟨i, n, kind, .refl i, hword, rfl, hrest⟩
    | cons first ts =>
      obtain ⟨rfl, hrest'⟩ := List.cons.inj hall
      obtain ⟨a, m, kind', hwalk, hfirst, ht, hrest'⟩ := ih hrest'
      exact ⟨a, m, kind', .token hword hwalk, hfirst, ht, hrest'⟩

/-- Of two walks from one place, one goes on where the other ends. -/
theorem total (h₁ : Walks source i ts j) (h₂ : Walks source i us k) :
    (∃ vs, Walks source j vs k ∧ us = ts ++ vs) ∨ ∃ vs, Walks source k vs j ∧ ts = us ++ vs := by
  induction h₁ generalizing us with
  | refl => exact .inl ⟨us, h₂, rfl⟩
  | gap hword hrest ih =>
    cases h₂ with
    | refl => exact .inr ⟨_, .gap hword hrest, rfl⟩
    | gap hword' hrest' =>
      rw [hword] at hword'
      cases hword'
      exact ih hrest'
    | token hword' hrest' =>
      rw [hword] at hword'
      cases hword'
  | token hword hrest ih =>
    cases h₂ with
    | refl => exact .inr ⟨_, .token hword hrest, rfl⟩
    | gap hword' hrest' =>
      rw [hword] at hword'
      cases hword'
    | token hword' hrest' =>
      rw [hword] at hword'
      cases hword'
      obtain ⟨vs, hvs, rfl⟩ | ⟨vs, hvs, rfl⟩ := ih hrest'
      · exact .inl ⟨vs, hvs, rfl⟩
      · exact .inr ⟨vs, hvs, rfl⟩

/-- No walk leads on from the end of the text. -/
theorem of_end (h : Walks source source.text.length ts j) : ts = [] ∧ j = source.text.length := by
  have hnone : Scanner.firstWord (source.text.drop source.text.length) = none := by
    rw [List.drop_length]
    rfl
  cases h with
  | refl => exact ⟨rfl, rfl⟩
  | gap hword _ =>
    rw [hnone] at hword
    cases hword
  | token hword _ =>
    rw [hnone] at hword
    cases hword

/-- No walk leads over an integer that cannot be read. -/
theorem of_refuses (h : Walks source i ts j) (hrefuses : Refuses source i) : ts = [] ∧ j = i := by
  obtain ⟨n, hn⟩ := hrefuses
  cases h with
  | refl => exact ⟨rfl, rfl⟩
  | gap hword _ =>
    rw [hn] at hword
    cases hword
  | token hword _ =>
    rw [hn] at hword
    cases hword

/-- A walk over the whole text meets no integer that cannot be read. -/
theorem not_refuses (h : Walks source i ts source.text.length) (hwalk : Walks source i us k) :
    ¬ Refuses source k := by
  intro hrefuses
  have hk : k = source.text.length := by
    obtain ⟨vs, hvs, -⟩ | ⟨vs, hvs, -⟩ := h.total hwalk
    · exact hvs.of_end.2
    · exact (hvs.of_refuses hrefuses).2.symm
  obtain ⟨n, hn⟩ := hrefuses
  rw [hk, List.drop_length] at hn
  cases hn

end Walks

namespace Scanner

variable {s : Scanner} {i : Nat}

theorem isAt_ofSource (source : Source) : (ofSource source).IsAt 0 := by
  unfold IsAt Bookmark.ofOffset Position.ofIndex
  rw [Int.toNat_natCast, Position.advance, List.drop_zero]
  rfl

/-- A scanner that has gone on from another. -/
structure WentOn (s s' : Scanner) (ts : List Token) (j : Nat) : Prop where
  source : s'.source = s.source
  emitted : s'.emitted = ts.reverse ++ s.emitted
  isAt : s'.IsAt j

/-- With enough steps a scanner walks to the end of the text, or to an integer that cannot
be read. -/
theorem scanUpTo_ensures {n : Nat} (hs : s.IsAt i) (hi : i ≤ s.source.text.length)
    (hn : s.source.text.length ≤ i + n) :
    Ensures (scanUpTo n) s
      (fun _ s' => ∃ ts, Walks s.source i ts s.source.text.length
        ∧ s.WentOn s' ts s.source.text.length)
      fun e _ => e = .numeral ∧ ∃ ts j, Walks s.source i ts j ∧ Refuses s.source j := by
  induction n generalizing s i with
  | zero =>
    -- the steps are used up only at the end, since every word takes a character at least
    have hend : i = s.source.text.length := by omega
    subst hend
    exact ⟨[], .refl _, rfl, rfl, hs⟩
  | succ n ih =>
    unfold Ensures
    rw [scanUpTo, get_bind]
    cases htext : s.source.text.drop i with
    | nil =>
      have hend : i = s.source.text.length := by
        have := List.drop_eq_nil_iff.1 htext
        omega
      have hatEnd : s.atEnd = true := by
        unfold atEnd
        rw [hs.rest, htext]
        rfl
      rw [if_pos hatEnd]
      subst hend
      exact ⟨[], .refl _, rfl, rfl, hs⟩
    | cons c rest =>
      have hatEnd : ¬ s.atEnd = true := by
        unfold atEnd
        rw [hs.rest, htext]
        simp
      have hmark : (modify mark : Scan PUnit) s = .ok () (s.across i 0) := by
        show EStateM.Result.ok () s.mark = _
        rw [mark_eq_across hs]
      -- what follows is always a word, so the scanner never runs past the end of the text
      obtain ⟨⟨m, word⟩, hword⟩ := exists_firstWord c rest
      rw [← htext] at hword
      have hstep := scanToken_across hword
      obtain ⟨hm, hlength⟩ := firstWord_length hword
      rw [List.length_drop] at hlength
      rw [if_neg hatEnd, bind_of_ok hmark]
      cases word with
      | gap =>
        rw [bind_of_ok hstep]
        have hrun := ih (s := s.across i m) (i := i + m) rfl
          (by show _ ≤ s.source.text.length; omega) (by show s.source.text.length ≤ _; omega)
        refine hrun.mono ?_ ?_
        · rintro _ s' ⟨ts, hwalk, hwent⟩
          exact ⟨ts, .gap hword hwalk, hwent.source, hwent.emitted, hwent.isAt⟩
        · rintro e _ ⟨he, ts, j, hwalk, hrefuses⟩
          exact ⟨he, ts, j, .gap hword hwalk, hrefuses⟩
      | token kind =>
        rw [bind_of_ok hstep]
        have hrun := ih (s := (s.across i m).emit kind) (i := i + m) rfl
          (by show _ ≤ s.source.text.length; omega) (by show s.source.text.length ≤ _; omega)
        refine hrun.mono ?_ ?_
        · rintro _ s' ⟨ts, hwalk, hwent⟩
          refine ⟨_, .token hword hwalk, hwent.source, ?_, hwent.isAt⟩
          rw [hwent.emitted, emit_across, List.reverse_cons, List.append_assoc]
          rfl
        · rintro e _ ⟨he, ts, j, hwalk, hrefuses⟩
          exact ⟨he, _, j, .token hword hwalk, hrefuses⟩
      | refused =>
        rw [bind_of_error hstep]
        exact ⟨rfl, [], i, .refl i, m, hword⟩

end Scanner

/-- The end of the text, as a token. -/
def Source.endToken (source : Source) : Token :=
  Scanner.tokenAt source source.text.length 0 .endOfText

/-- The tokens of a walk and the end of the text, taken apart at a token that is not the last. -/
theorem Walks.split_end {source : Source} {i j : Nat} {ts us vs : List Token} {t : Token}
    (h : Walks source i ts j) (hsplit : ts ++ [source.endToken] = us ++ t :: vs) (hne : vs ≠ []) :
    ∃ a n kind ws, Scanner.firstWord (source.text.drop a) = some (n, .token kind)
      ∧ t = Scanner.tokenAt source a n kind ∧ Walks source (a + n) ws j
      ∧ ws ++ [source.endToken] = vs := by
  obtain ⟨ws, last, rfl⟩ := (List.eq_nil_or_concat vs).resolve_left hne
  rw [List.concat_eq_append, ← List.cons_append, ← List.append_assoc] at hsplit
  obtain ⟨rfl, hlast⟩ := List.append_inj' hsplit rfl
  obtain ⟨a, n, kind, -, hword, ht, hrest⟩ := h.split
  refine ⟨a, n, kind, ws, hword, ht, hrest, ?_⟩
  rw [hlast, List.concat_eq_append]

theorem tokenize_cases (source : Source) :
    (∃ ts, Walks source 0 ts source.text.length
      ∧ tokenize source = .ok (ts ++ [source.endToken]))
    ∨ ∃ ts j, Walks source 0 ts j ∧ Refuses source j ∧ tokenize source = .error .numeral := by
  have hrun := Scanner.scanUpTo_ensures (n := source.text.length) (Scanner.isAt_ofSource source)
    (Nat.zero_le _) (by rw [Nat.zero_add]; exact Nat.le_refl _)
  unfold Ensures at hrun
  unfold tokenize Scanner.scanAll
  rw [get_bind]
  have hlength : (Scanner.ofSource source).rest.length = source.text.length := rfl
  rw [hlength]
  cases hscan : Scanner.scanUpTo source.text.length (Scanner.ofSource source) with
  | error e s' =>
    rw [hscan] at hrun
    obtain ⟨rfl, ts, j, hwalk, hrefuses⟩ := hrun
    rw [bind_of_error hscan]
    exact .inr ⟨ts, j, hwalk, hrefuses, rfl⟩
  | ok u s' =>
    rw [hscan] at hrun
    obtain ⟨ts, hwalk, hsource, hemitted, hat⟩ := hrun
    refine .inl ⟨ts, hwalk, ?_⟩
    rw [bind_of_ok hscan]
    -- the last token is made at the place where the walk ended
    show Except.ok (s'.mark.emit .endOfText).tokens = _
    have hsource' : s'.source = source := hsource
    have hat' : s'.IsAt source.text.length := hat
    have hemitted' : s'.emitted = ts.reverse := by
      rw [hemitted]
      exact List.append_nil _
    unfold Scanner.tokens
    rw [Scanner.mark_eq_across hat', Scanner.emit_across, hemitted', hsource',
      List.reverse_cons, List.reverse_reverse]
    rfl

/-- The tokens of a source are those of the walk over its whole text, closed by the end of
the text. -/
theorem tokenize_eq_ok_iff {source : Source} {tokens : List Token} :
    tokenize source = .ok tokens
      ↔ ∃ ts, Walks source 0 ts source.text.length ∧ tokens = ts ++ [source.endToken] := by
  obtain ⟨ts, hwalk, heq⟩ | ⟨ts, j, hwalk, hrefuses, heq⟩ := tokenize_cases source
  · rw [heq]
    constructor
    · intro h
      cases h
      exact ⟨ts, hwalk, rfl⟩
    · rintro ⟨us, hwalk', rfl⟩
      obtain ⟨vs, hvs, rfl⟩ | ⟨vs, hvs, rfl⟩ := hwalk.total hwalk'
      · rw [hvs.of_end.1, List.append_nil]
      · rw [hvs.of_end.1, List.append_nil]
  · rw [heq]
    constructor
    · intro h
      cases h
    · rintro ⟨us, hwalk', rfl⟩
      exact (hwalk'.not_refuses hwalk hrefuses).elim

/-- A source has no tokens exactly if the walk over its text is refused. -/
theorem tokenize_eq_error_iff {source : Source} {e : ScanError} :
    tokenize source = .error e
      ↔ e = .numeral ∧ ∃ ts j, Walks source 0 ts j ∧ Refuses source j := by
  constructor
  · intro h
    obtain ⟨ts, hwalk, heq⟩ | ⟨ts, j, hwalk, hrefuses, heq⟩ := tokenize_cases source
    · rw [heq] at h
      cases h
    · rw [heq] at h
      cases h
      exact ⟨rfl, ts, j, hwalk, hrefuses⟩
  · rintro ⟨rfl, us, k, hwalk', hrefuses'⟩
    obtain ⟨ts, hwalk, heq⟩ | ⟨ts, j, hwalk, hrefuses, heq⟩ := tokenize_cases source
    · exact (hwalk.not_refuses hwalk' hrefuses').elim
    · exact heq

/-! ## Steps of a walk -/

namespace Scanner

/-- The scanners that the walk over a source comes to, one step after the other. -/
inductive Reaches (source : Source) : Scanner → Prop
  | start : Reaches source (ofSource source)
  | step {s s' : Scanner} (h : Reaches source s) (hend : s.atEnd = false)
      (hstep : scanToken s.mark = .ok () s') : Reaches source s'

/-- A scanner between two steps: it stands at an offset of the source, behind the tokens it has
read. -/
structure Between (source : Source) (s : Scanner) : Prop where
  source_eq : s.source = source
  isAt : s.IsAt s.current.offset
  walks : Walks source 0 s.tokens s.current.offset
  le : s.current.offset ≤ source.text.length

variable {source : Source} {s s' : Scanner}

theorem Between.rest (h : Between source s) : s.rest = source.text.drop s.current.offset := by
  rw [h.isAt.rest, h.source_eq]

/-- The next step takes the first word ahead. -/
theorem Between.scanToken (h : Between source s) {word : Nat × Word}
    (hword : firstWord s.rest = some word) :
    scanToken s.mark = s.outcome s.current.offset word := by
  rw [h.isAt.rest] at hword
  rw [mark_eq_across h.isAt]
  exact scanToken_across hword

theorem tokens_emit_across (s : Scanner) (i n : Nat) (kind : TokenKind) :
    ((s.across i n).emit kind).tokens = s.tokens ++ [tokenAt s.source i n kind] := by
  rw [emit_across]
  unfold tokens
  rw [List.reverse_cons]

/-- There is a next word exactly if the text is not at its end. -/
theorem atEnd_eq_false_iff : s.atEnd = false ↔ ∃ n word, firstWord s.rest = some (n, word) := by
  unfold atEnd
  cases s.rest with
  | nil => simp [firstWord]
  | cons c rest =>
    obtain ⟨⟨n, word⟩, hword⟩ := exists_firstWord c rest
    exact ⟨fun _ => ⟨n, word, hword⟩, fun _ => rfl⟩

/-- A step leads from one place between words to the next. -/
theorem Between.step (h : Between source s) (hend : s.atEnd = false)
    (hstep : Scanner.scanToken s.mark = .ok () s') : Between source s' := by
  obtain ⟨n, word, hword⟩ := atEnd_eq_false_iff.1 hend
  have hlength := (firstWord_length hword).2
  rw [h.scanToken hword] at hstep
  rw [h.rest] at hword hlength
  rw [List.length_drop] at hlength
  have hle := h.le
  cases word with
  | gap =>
    cases hstep
    refine ⟨h.source_eq, rfl, ?_, ?_⟩
    · have hwalk := h.walks.append (.gap hword (.refl _))
      rwa [List.append_nil] at hwalk
    · show s.current.offset + n ≤ _
      omega
  | token kind =>
    cases hstep
    refine ⟨h.source_eq, rfl, ?_, ?_⟩
    · rw [tokens_emit_across, h.source_eq]
      exact h.walks.append (.token hword (.refl _))
    · show s.current.offset + n ≤ _
      omega
  | refused => cases hstep

theorem Reaches.between (h : Reaches source s) : Between source s := by
  induction h with
  | start => exact ⟨rfl, isAt_ofSource source, .refl 0, Nat.zero_le _⟩
  | step _ hend hstep ih => exact ih.step hend hstep

end Scanner

/-- Every walk from the start of a source is made, step by step. -/
theorem Walks.reaches {source : Source} {s : Scanner} {i j : Nat} {ts : List Token}
    (h : Walks source i ts j) (hs : Scanner.Reaches source s) (hi : s.current.offset = i) :
    ∃ s', Scanner.Reaches source s' ∧ s'.current.offset = j ∧ s'.tokens = s.tokens ++ ts := by
  induction h generalizing s with
  | refl => exact ⟨s, hs, hi, (List.append_nil _).symm⟩
  | @gap i n j ts hword _ ih =>
    have hbetween := hs.between
    subst hi
    rw [← hbetween.rest] at hword
    have hstep := hbetween.scanToken hword
    exact ih (s := s.across s.current.offset n)
      (hs.step (Scanner.atEnd_eq_false_iff.2 ⟨n, _, hword⟩) hstep) rfl
  | @token i n j kind ts hword _ ih =>
    have hbetween := hs.between
    subst hi
    rw [← hbetween.rest] at hword
    have hstep := hbetween.scanToken hword
    obtain ⟨s', hs', hj, htokens⟩ := ih
      (hs.step (Scanner.atEnd_eq_false_iff.2 ⟨n, _, hword⟩) hstep) rfl
    refine ⟨s', hs', hj, ?_⟩
    rw [htokens, Scanner.tokens_emit_across, hbetween.source_eq, List.append_assoc]
    rfl

/-- The tokens of a source are read step by step, until the text is at its end. -/
theorem tokenize_reaches {source : Source} {tokens : List Token}
    (h : tokenize source = .ok tokens) :
    ∃ s, Scanner.Reaches source s ∧ s.atEnd = true ∧ tokens = s.tokens ++ [source.endToken] := by
  obtain ⟨ts, hwalk, rfl⟩ := tokenize_eq_ok_iff.1 h
  obtain ⟨s, hs, hlength, htokens⟩ := hwalk.reaches .start rfl
  refine ⟨s, hs, ?_, by rw [htokens]; rfl⟩
  unfold Scanner.atEnd
  rw [hs.between.rest, hlength, List.drop_length]
  rfl

end Scoreboard
