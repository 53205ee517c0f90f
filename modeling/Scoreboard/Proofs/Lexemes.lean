import Mathlib
import Scoreboard.Proofs.Independence
import Scoreboard.Proofs.Printer
import Scoreboard.Proofs.Quotes
import Scoreboard.Proofs.Spelling
import Scoreboard.Proofs.Tiling

/-!
# Reading lexemes again

The lexeme of a token says all that the scanner needs to know of it. Set between blanks, it is
read as the same token again, whatever stands behind the blank: a blank goes on with no name and
no integer, makes no comment of a slash, and a string ends at its own closing quote. Only an
illegal quote would find other text behind it. So the lexemes of a source without illegal
tokens, joined by blanks, have the tokens of the source (`tokenize_lexemes`).
-/

namespace Scoreboard

/-! ## Words cut out of their text -/

namespace Scanner

variable {text rest : List Char} {n : Nat} {kind : TokenKind}

theorem integerLength_eq_zero (h : EndsInteger rest) : integerLength rest = 0 := by
  cases rest with
  | nil => rfl
  | cons c rest =>
    have hc := h.digit c rfl
    cases rest with
    | nil => simp [integerLength, hc]
    | cons d rest =>
      have hd : (c == '_' && d.isDigit) = false := by
        by_cases hline : c = '_'
        · subst hline
          exact h.underscore d rest rfl
        · rw [beq_false_of_ne hline, Bool.false_and]
      rw [integerLength, hc, hd]
      rfl

/-- An integer cut out of its text has its length in front of any text that does not go on with
it. -/
theorem integerLength_take (hrest : EndsInteger rest) :
    integerLength (text.take (integerLength text) ++ rest) = integerLength text := by
  have hnone := integerLength_eq_zero hrest
  fun_induction integerLength text with
  | case1 => exact hnone
  | case2 c hc =>
    show integerLength (c :: rest) = 1
    rw [integerLength_cons hc, hnone]
  | case3 c hc => exact hnone
  | case4 c d text hgoes ih =>
    rw [List.take_succ_cons, List.cons_append]
    rcases Bool.or_eq_true_iff.1 hgoes with hc | hline
    · rw [integerLength_cons hc, ih, Nat.add_comm]
    · -- the digit behind the underscore is cut out with it
      have hd := (Bool.and_eq_true_iff.1 hline).2
      have hlength : integerLength (d :: text) = integerLength text + 1 := by
        rw [integerLength_cons hd, Nat.add_comm]
      rw [hlength, List.take_succ_cons, List.cons_append] at ih ⊢
      rw [integerLength, if_pos hgoes, ih]
  | case5 c d text hstops => exact hnone

theorem integerWord_take (text : List Char) (hrest : EndsInteger rest) :
    integerWord (text.take (integerLength text) ++ rest) = integerWord text := by
  have hlength : (text.take (integerLength text)).length = integerLength text := by
    rw [List.length_take, Nat.min_eq_left (integerLength_le text)]
  unfold integerWord integerDigits
  rw [integerLength_take hrest, List.take_append_of_le_length (Nat.le_of_eq hlength.symm),
    List.take_take, Nat.min_self]

theorem nameWord_take (text : List Char) (hrest : ∀ c ∈ rest.head?, Text.continuesName c = false) :
    nameWord (text.take (nameLength text) ++ rest) = nameWord text := by
  have hall : ∀ c ∈ text.take (nameLength text), Text.continuesName c = true := by
    rw [take_nameLength]
    exact fun c hc => List.mem_takeWhile_imp hc
  rw [nameWord_append hall hrest, List.length_take, Nat.min_eq_left (nameLength_le text)]
  rfl

/-- A text that cannot go on with a token of a kind: with a name or an integer, or with a slash,
which a second one would make a comment. -/
structure EndsToken (kind : TokenKind) (rest : List Char) : Prop where
  name : kind.isWord = true → ∀ c ∈ rest.head?, Text.continuesName c = false
  integer : ∀ value, kind = .integer value → EndsInteger rest
  divide : kind = .operator .divide → rest.head? ≠ some '/'

/-- A word cut out of its text is the same word in front of any text that cannot go on with
it. -/
theorem firstWord_take (h : firstWord text = some (n, .token kind)) (hkind : kind ≠ .illegal)
    (hrest : EndsToken kind rest) : firstWord (text.take n ++ rest) = some (n, .token kind) := by
  generalize hword : Word.token kind = word at h ⊢
  cases takes_of_firstWord h with
  | blank _ | comment _ | refused _ _ => cases hword
  | newline => rfl
  | @sign c _ _ hc _ =>
    cases hword
    refine Piece.firstWord_sign hc fun d hd => ?_
    by_cases hslash : c = '/'
    · subst hslash
      have hd' : d ≠ '/' := fun heq => hrest.divide (Option.some.inj hc).symm (heq ▸ hd)
      simp [Piece.allows, hd']
    · simp [Piece.allows, hslash]
  | string hbody =>
    obtain ⟨body, after, rfl, hquoted, rfl⟩ := quoted_of_stringBody hbody
    have htake : (body ++ '"' :: after).take (body.length + 1) = body ++ ['"'] := by
      rw [List.take_length_add_append]
      rfl
    rw [List.take_succ_cons, htake, List.cons_append, List.append_assoc]
    exact firstWord_quoted hquoted rest
  | openString _ | illegal _ _ =>
    cases hword
    exact (hkind rfl).elim
  | @integer c text value hc hvalue =>
    have hcut : (c :: text).take (integerLength (c :: text)) ++ rest
        = c :: (text.take (integerLength text) ++ rest) := by
      rw [integerLength_cons hc, Nat.add_comm, List.take_succ_cons, List.cons_append]
    have hends := hrest.integer value (Word.token.inj hword)
    rw [← h, firstWord_of_isDigit hc text, ← integerWord_take _ hends, hcut]
    exact firstWord_of_isDigit hc _
  | @name c text hc =>
    have hends := hrest.name (TokenKind.isWord_of_ofWord (Word.token.inj hword))
    have hcut : (c :: text).take (nameLength (c :: text)) ++ rest
        = c :: (text.take (nameLength text) ++ rest) := by
      rw [nameLength_cons hc, Nat.add_comm, List.take_succ_cons, List.cons_append]
    rw [← h, firstWord_of_startsName hc text, ← nameWord_take _ hends, hcut]
    exact firstWord_of_startsName hc _

theorem endsToken_of_blank (hrest : ∀ c ∈ rest.head?, c = ' ') : EndsToken kind rest where
  name _ c hc := by
    rw [hrest c hc]
    decide
  integer _ _ := by
    refine ⟨fun c hc => ?_, ?_⟩
    · rw [hrest c hc]
      rfl
    · rintro c after rfl
      cases hrest '_' rfl
  divide _ hslash := by cases hrest '/' hslash

end Scanner

/-! ## Lexemes joined by blanks -/

/-- A token that is read again from its lexeme in front of a blank, or of the end of the text. -/
def Token.Rereads (t : Token) : Prop :=
  ∀ rest : List Char, (∀ c ∈ rest.head?, c = ' ') →
    Scanner.firstWord (t.lexeme.toList ++ rest) = some (t.lexeme.toList.length, .token t.kind)

/-- The lexemes of some tokens with a blank behind each of them, but perhaps the last. -/
inductive Spaced : List Token → List Char → Prop
  | nil : Spaced [] []
  | last (t : Token) : Spaced [t] t.lexeme.toList
  | cons (t : Token) {ts : List Token} {text : List Char} (h : Spaced ts text) :
      Spaced (t :: ts) (t.lexeme.toList ++ ' ' :: text)

theorem spaced_intercalate (ts : List Token) :
    Spaced ts ([' '].intercalate (ts.map (·.lexeme.toList))) := by
  induction ts with
  | nil => exact .nil
  | cons t ts ih =>
    cases ts with
    | nil =>
      rw [List.map_singleton, List.intercalate_singleton]
      exact .last t
    | cons u ts =>
      rw [List.map_cons, List.map_cons, List.intercalate_cons_cons, List.append_assoc]
      exact .cons t ih

/-- A blank in front of the end of the text, whose lexeme is empty. -/
theorem spaced_intercalate_end (ts : List Token) {last : Token} (hlast : last.lexeme = "") :
    Spaced ts ([' '].intercalate ((ts ++ [last]).map (·.lexeme.toList))) := by
  induction ts with
  | nil =>
    show Spaced [] ([' '].intercalate [last.lexeme.toList])
    rw [List.intercalate_singleton, hlast]
    exact .nil
  | cons t ts ih =>
    rw [List.cons_append, List.map_cons, List.intercalate_cons_of_ne_nil (by simp),
      List.append_assoc]
    exact .cons t ih

theorem Walks.rereads {source : Source} {i j : Nat} {ts : List Token} (h : Walks source i ts j)
    (hlegal : Legal ts) : ∀ t ∈ ts, t.Rereads := by
  intro t ht rest hrest
  obtain ⟨a, n, kind, hword, -, hlength, rfl⟩ := h.exists_word ht
  have hcount : ((source.text.drop a).take n).length = n := by
    rw [List.length_take, List.length_drop]
    omega
  have hcut := Scanner.firstWord_take hword (hlegal _ ht) (Scanner.endsToken_of_blank hrest)
  rwa [Scanner.tokenAt, String.toList_ofList, hcount]

/-- At its lexeme a token is read again. -/
theorem Token.Rereads.step {t : Token} (h : t.Rereads) {source : Source} {i : Nat}
    {rest : List Char} (hrest : ∀ c ∈ rest.head?, c = ' ')
    (htext : source.text.drop i = t.lexeme.toList ++ rest) :
    ∃ n, Scanner.firstWord (source.text.drop i) = some (n, .token t.kind)
      ∧ t.Agrees (Scanner.tokenAt source i n t.kind) ∧ source.text.drop (i + n) = rest
      ∧ i + n ≤ source.text.length := by
  have hword := h rest hrest
  rw [← htext] at hword
  refine ⟨_, hword, ⟨rfl, ?_⟩, ?_, ?_⟩
  · show t.lexeme = String.ofList ((source.text.drop i).take t.lexeme.toList.length)
    rw [htext, List.take_left, String.ofList_toList]
  · rw [← List.drop_drop, htext, List.drop_left]
  · have hlength := Scanner.firstWord_length hword
    rw [List.length_drop] at hlength
    omega

/-- The walk over spaced lexemes leaves the tokens that they were taken from. -/
theorem Spaced.walks {ts : List Token} {text : List Char} (h : Spaced ts text)
    (hts : ∀ t ∈ ts, t.Rereads) {source : Source} {i : Nat} (hi : i ≤ source.text.length)
    (htext : source.text.drop i = text) :
    ∃ us, Walks source i us source.text.length ∧ List.Forall₂ Token.Agrees ts us := by
  induction h generalizing i with
  | nil =>
    have hlength := List.drop_eq_nil_iff.1 htext
    obtain rfl : i = source.text.length := by omega
    exact ⟨[], .refl _, .nil⟩
  | last t =>
    rw [← List.append_nil t.lexeme.toList] at htext
    obtain ⟨n, hword, hagrees, hdrop, hle⟩ :=
      (hts t List.mem_cons_self).step (fun c hc => by cases hc) htext
    have hlength := List.drop_eq_nil_iff.1 hdrop
    have hend : i + n = source.text.length := by omega
    refine ⟨_, .token hword ?_, .cons hagrees .nil⟩
    rw [hend]
    exact .refl _
  | @cons t ts text _ ih =>
    obtain ⟨ht, hts⟩ := List.forall_mem_cons.1 hts
    have hstop : ∀ c ∈ (' ' :: text).head?, c = ' ' := by
      intro c hc
      cases hc
      rfl
    obtain ⟨n, hword, hagrees, hdrop, hle⟩ := ht.step hstop htext
    -- the blank behind the lexeme is a word of its own
    have hblank : Scanner.firstWord (source.text.drop (i + n)) = some (1, .gap) := by
      rw [hdrop]
      rfl
    have hnext : source.text.drop (i + n + 1) = text := by
      rw [← List.drop_drop, hdrop, List.drop_one, List.tail_cons]
    have hlength := Scanner.firstWord_length hblank
    rw [List.length_drop] at hlength
    obtain ⟨us, hwalk, hus⟩ := ih hts (by omega) hnext
    exact ⟨_, .token hword (.gap hblank hwalk), .cons hagrees hus⟩

theorem Spaced.tokenize {ts : List Token} {text : List Char} (h : Spaced ts text)
    (hts : ∀ t ∈ ts, t.Rereads) {last : Token} (hlast : last.kind = .endOfText)
    (hlexeme : last.lexeme = "") (name : Text) :
    ∃ again, tokenize ⟨name, text⟩ = .ok again
      ∧ List.Forall₂ Token.Agrees (ts ++ [last]) again := by
  have hdrop : (Source.text ⟨name, text⟩).drop 0 = text := List.drop_zero
  obtain ⟨us, hwalk, hus⟩ := h.walks hts (Nat.zero_le _) hdrop
  refine ⟨_, tokenize_eq_ok_iff.2 ⟨us, hwalk, rfl⟩, List.rel_append hus (.cons ⟨?_, ?_⟩ .nil)⟩
  · exact hlast
  · exact hlexeme

/-- Reading lexemes again. If a source has no illegal token, then its lexemes, joined by single
blanks, have tokens of the same kinds, values and lexemes in the same order. It makes no
difference whether the empty lexeme of the end of the text is joined, too. -/
theorem tokenize_lexemes {source : Source} {tokens : List Token}
    (h : tokenize source = .ok tokens) (hlegal : Legal tokens) (name : Text) :
    (∃ again, tokenize ⟨name, [' '].intercalate (tokens.map (·.lexeme.toList))⟩ = .ok again
      ∧ List.Forall₂ Token.Agrees tokens again)
    ∧ ∃ again, tokenize ⟨name, [' '].intercalate (tokens.dropLast.map (·.lexeme.toList))⟩
        = .ok again
      ∧ List.Forall₂ Token.Agrees tokens again := by
  obtain ⟨ts, hwalk, rfl⟩ := tokenize_eq_ok_iff.1 h
  have hts := hwalk.rereads fun t ht => hlegal t (List.mem_append_left _ ht)
  constructor
  · exact (spaced_intercalate_end ts rfl).tokenize hts rfl rfl name
  · rw [List.dropLast_concat]
    exact (spaced_intercalate ts).tokenize hts rfl rfl name

theorem tokenize_lexemes_comment :
    let text := "let x:int=1_0//half\n raw\"a \\\" // b\n\"\n/ /2_ y".toList
    let lexemes := ["let", "x", ":", "int", "=", "1_0", "\n", "raw", "\"a \\\" // b\n\"", "\n", "/",
      "/", "2", "_", "y", ""]
    ∃ tokens again, tokenize ⟨"script", text⟩ = .ok tokens ∧ Legal tokens
      ∧ tokens.map (·.lexeme) = lexemes
      ∧ tokenize ⟨"joined", [' '].intercalate (tokens.map (·.lexeme.toList))⟩ = .ok again
      ∧ List.Forall₂ Token.Agrees tokens again := by
  have hjoin : ∀ (text : List Char) (lexemes : List String),
      (tokenize ⟨"script", text⟩).toOption.any (fun tokens =>
        (tokens.all fun t => t.kind ≠ .illegal) && tokens.map (·.lexeme) = lexemes) = true →
      ∃ tokens again, tokenize ⟨"script", text⟩ = .ok tokens ∧ Legal tokens
        ∧ tokens.map (·.lexeme) = lexemes
        ∧ tokenize ⟨"joined", [' '].intercalate (tokens.map (·.lexeme.toList))⟩ = .ok again
        ∧ List.Forall₂ Token.Agrees tokens again := by
    intro text lexemes hany
    obtain ⟨tokens, htokens, hany⟩ := exists_ok_of_any hany
    obtain ⟨hall, hlexemes⟩ := Bool.and_eq_true_iff.1 hany
    have hlegal : Legal tokens := fun t ht => of_decide_eq_true (List.all_eq_true.1 hall t ht)
    obtain ⟨⟨again, hagain, hagrees⟩, -⟩ := tokenize_lexemes htokens hlegal "joined"
    exact ⟨tokens, again, htokens, hlegal, of_decide_eq_true hlexemes, hagain, hagrees⟩
  exact hjoin _ _ (by decide +kernel)

end Scoreboard
