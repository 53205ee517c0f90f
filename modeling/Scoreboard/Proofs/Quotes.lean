import Mathlib
import Scoreboard.Proofs.Lexing
import Scoreboard.Proofs.Printer

/-!
# Strings in quotes

Where a string ends is decided by pairs. Behind the opening quote the characters are read from
left to right, a backslash always together with the character behind it, and the first quote
that is read alone closes the string (`Quoted`). The scanner only ever takes a backslash together
with a quote or another backslash; that comes to the same, because nothing else that a
backslash stands in front of could be a quote or begin a pair.

If no quote closes the string, its opening quote becomes an illegal token and the walk goes on
right behind it, through characters that the failed attempt has already read. Each quote among
them was the second of a pair there, so pairs are cut in the same way behind it, and it opens
no string either: behind such a token there are no strings (`strings_in_quotes`).
-/

namespace Scoreboard

/-! ## The characters between quotes -/

/-- The characters between the quotes of a string, with the text that they stand for. A
backslash is left out in front of a quote and in front of a backslash and stays in front of any
other character; a quote never stands alone. -/
inductive Quoted : List Char → List Char → Prop
  | nil : Quoted [] []
  | escaped {c : Char} {body value : List Char} (hc : c = '"' ∨ c = '\\')
      (h : Quoted body value) : Quoted ('\\' :: c :: body) (c :: value)
  | kept {c : Char} {body value : List Char} (hquote : c ≠ '"') (hslash : c ≠ '\\')
      (h : Quoted body value) : Quoted ('\\' :: c :: body) ('\\' :: c :: value)
  | plain {c : Char} {body value : List Char} (hquote : c ≠ '"') (hslash : c ≠ '\\')
      (h : Quoted body value) : Quoted (c :: body) (c :: value)

namespace Scanner

variable {text body value : List Char} {c : Char} {n : Nat}

/-- A character that is no quote and begins no pair is taken alone. -/
theorem stringBody_cons (hquote : c ≠ '"')
    (hpair : c = '\\' → ∀ d ∈ text.head?, d ≠ '"' ∧ d ≠ '\\') :
    stringBody (c :: text) = (stringBody text).map fun found => (c :: found.1, found.2 + 1) := by
  rw [stringBody]
  · exact hquote
  · rintro rest hc rfl
    exact (hpair hc '"' rfl).1 rfl
  · rintro rest hc rfl
    exact (hpair hc '\\' rfl).2 rfl

/-- The quote behind such characters closes the string. -/
theorem stringBody_of_quoted (h : Quoted body value) (rest : List Char) :
    stringBody (body ++ '"' :: rest) = some (value, body.length + 1) := by
  induction h with
  | nil => rfl
  | escaped hc _ ih =>
    rcases hc with rfl | rfl
    · rw [List.cons_append, List.cons_append, stringBody, ih]
      rfl
    · rw [List.cons_append, List.cons_append, stringBody, ih]
      rfl
  | kept hquote hslash _ ih =>
    rw [List.cons_append, List.cons_append, stringBody_cons (by decide), stringBody_cons hquote, ih]
    · rfl
    · exact fun hc => (hslash hc).elim
    · intro _ d hd
      cases hd
      exact ⟨hquote, hslash⟩
  | plain hquote hslash _ ih =>
    rw [List.cons_append, stringBody_cons hquote fun hc => (hslash hc).elim, ih]
    rfl

/-- Up to a quote that closes a string stand such characters. -/
theorem quoted_of_stringBody (h : stringBody text = some (value, n)) :
    ∃ body rest, text = body ++ '"' :: rest ∧ Quoted body value ∧ n = body.length + 1 := by
  fun_induction stringBody text generalizing value n with
  | case1 => cases h
  | case2 text =>
    cases h
    exact ⟨[], text, rfl, .nil, rfl⟩
  | case3 text ih =>
    obtain ⟨⟨v, m⟩, hm, heq⟩ := Option.map_eq_some_iff.1 h
    obtain ⟨body, rest, rfl, hbody, rfl⟩ := ih hm
    cases heq
    exact ⟨_, rest, rfl, .escaped (.inl rfl) hbody, rfl⟩
  | case4 text ih =>
    obtain ⟨⟨v, m⟩, hm, heq⟩ := Option.map_eq_some_iff.1 h
    obtain ⟨body, rest, rfl, hbody, rfl⟩ := ih hm
    cases heq
    exact ⟨_, rest, rfl, .escaped (.inr rfl) hbody, rfl⟩
  | case5 c text hquote hescape hescape' ih =>
    obtain ⟨⟨v, m⟩, hm, heq⟩ := Option.map_eq_some_iff.1 h
    obtain ⟨body, rest, rfl, hbody, rfl⟩ := ih hm
    cases heq
    by_cases hslash : c = '\\'
    · -- the character behind the backslash was taken alone and is its partner
      subst hslash
      cases hbody with
      | nil => exact (hescape rest rfl rfl).elim
      | escaped hc _ => exact (hescape' _ rfl rfl).elim
      | kept _ _ _ => exact (hescape' _ rfl rfl).elim
      | plain hquote' hslash' hbody => exact ⟨_, rest, rfl, .kept hquote' hslash' hbody, rfl⟩
    · exact ⟨_, rest, rfl, .plain hquote hslash hbody, rfl⟩

/-- No quote closes the string. -/
theorem stringBody_eq_none_iff : stringBody text = none
    ↔ ∀ body value rest, text = body ++ '"' :: rest → ¬ Quoted body value := by
  constructor
  · rintro h body value rest rfl hbody
    rw [stringBody_of_quoted hbody] at h
    cases h
  · intro h
    by_contra hsome
    obtain ⟨⟨value, n⟩, hfound⟩ := Option.ne_none_iff_exists'.1 hsome
    obtain ⟨body, rest, htext, hbody, -⟩ := quoted_of_stringBody hfound
    exact h body value rest htext hbody

/-! ## Strings that are not closed -/

/-- A quote in a string that is not closed is the second of a pair, so the pairs behind it are
those of the string, and no quote behind it stands alone. -/
theorem stringBody_behind_quote {us vs : List Char} (h : stringBody (us ++ '"' :: vs) = none) :
    stringBody vs = none := by
  generalize htext : us ++ '"' :: vs = text at h
  fun_induction stringBody text generalizing us with
  | case1 => simp at htext
  | case2 text => cases h
  | case3 text ih =>
    rw [Option.map_eq_none_iff] at h
    rcases us with _ | ⟨a, _ | ⟨b, us⟩⟩
    · cases htext
    · -- the quote is the second of this pair
      cases htext
      exact h
    · cases htext
      exact ih rfl h
  | case4 text ih =>
    rw [Option.map_eq_none_iff] at h
    rcases us with _ | ⟨a, _ | ⟨b, us⟩⟩
    · cases htext
    · cases htext
    · cases htext
      exact ih rfl h
  | case5 c text hquote _ _ ih =>
    rw [Option.map_eq_none_iff] at h
    cases us with
    | nil =>
      cases htext
      exact (hquote rfl).elim
    | cons a us =>
      cases htext
      exact ih rfl h

/-- No quote ahead opens a string. -/
def NoString (text : List Char) : Prop :=
  ∀ us vs, text = us ++ '"' :: vs → stringBody vs = none

theorem NoString.drop (h : NoString text) (n : Nat) : NoString (text.drop n) := by
  intro us vs htext
  refine h (text.take n ++ us) vs ?_
  rw [List.append_assoc, ← htext, List.take_append_drop]

theorem noString_of_open (h : stringBody text = none) : NoString text := by
  rintro us vs rfl
  exact stringBody_behind_quote h

/-- A string starts at a quote. -/
theorem firstWord_string {s : String} (h : firstWord text = some (n, .token (.string s))) :
    ∃ rest, text = '"' :: rest ∧ stringBody rest ≠ none := by
  generalize hword : Word.token (.string s) = word at h
  cases takes_of_firstWord h with
  | @string rest value m hbody =>
    refine ⟨rest, rfl, ?_⟩
    rw [hbody]
    exact Option.some_ne_none _
  | sign hc _ =>
    cases hword
    cases TokenKind.isSign_of_ofSign? hc
  | name _ => cases TokenKind.isWord_of_ofWord (Word.token.inj hword)
  | _ => cases hword

/-- An illegal token is a quote that opens no string, or a character that starts no token. -/
theorem firstWord_illegal (h : firstWord text = some (n, .token .illegal)) :
    n = 1 ∧ ∃ c rest, text = c :: rest
      ∧ (c = '"' ∧ stringBody rest = none ∨ isGap c = false ∧ startsToken c = false) := by
  generalize hword : Word.token .illegal = word at h
  cases takes_of_firstWord h with
  | openString hbody => exact ⟨rfl, _, _, rfl, .inl ⟨rfl, hbody⟩⟩
  | illegal hgap hstart => exact ⟨rfl, _, _, rfl, .inr ⟨hgap, hstart⟩⟩
  | sign hc _ =>
    cases hword
    cases TokenKind.isSign_of_ofSign? hc
  | name _ => cases TokenKind.isWord_of_ofWord (Word.token.inj hword)
  | _ => cases hword

end Scanner

/-- A walk over a text in which no quote opens a string leaves no string. -/
theorem Walks.ne_string {source : Source} {i j : Nat} {ts : List Token} (h : Walks source i ts j)
    (hnone : Scanner.NoString (source.text.drop i)) :
    ∀ t ∈ ts, ∀ value, t.kind ≠ .string value := by
  induction h with
  | refl => exact fun t ht => by cases ht
  | @gap i n j ts hword _ ih =>
    have hrest := hnone.drop n
    rw [List.drop_drop] at hrest
    exact ih hrest
  | @token i n j kind ts hword _ ih =>
    have hrest := hnone.drop n
    rw [List.drop_drop] at hrest
    refine List.forall_mem_cons.2 ⟨?_, ih hrest⟩
    rintro value rfl
    obtain ⟨rest, htext, hsome⟩ := Scanner.firstWord_string hword
    exact hsome (hnone [] rest htext)

/-! ## Strings of a source -/

/-- A text in quotes, with a backslash in front of each quote and each backslash, is one token:
the string of that text. -/
theorem tokenize_escape (name : Text) (value : String) :
    tokenize ⟨name, '"' :: (Piece.escape value.toList ++ ['"'])⟩
      = .ok [Scanner.tokenAt ⟨name, '"' :: (Piece.escape value.toList ++ ['"'])⟩ 0
            ((Piece.escape value.toList).length + 2) (.string value),
          Source.endToken ⟨name, '"' :: (Piece.escape value.toList ++ ['"'])⟩] := by
  have hbody := Scanner.stringBody_escape value.toList []
  have hword : Scanner.firstWord ('"' :: (Piece.escape value.toList ++ ['"']))
      = some ((Piece.escape value.toList).length + 2, .token (.string value)) := by
    simp only [Scanner.firstWord_quote, Scanner.stringWord, hbody, String.ofList_toList]
  refine tokenize_eq_ok_iff.2 ⟨[_], .token hword ?_, rfl⟩
  have hlength : ('"' :: (Piece.escape value.toList ++ ['"'])).length
      = 0 + ((Piece.escape value.toList).length + 2) := by
    rw [List.length_cons, List.length_append, List.length_singleton]
    omega
  show Walks _ _ [] ('"' :: (Piece.escape value.toList ++ ['"'])).length
  rw [hlength]
  exact .refl _

namespace Scanner

/-- The next step reads a token, and the token stays in the list. -/
def Yields (source : Source) (s : Scanner) (t : Token) : Prop :=
  ∃ s', scanToken s.mark = .ok () s' ∧ s'.tokens = s.tokens ++ [t]
    ∧ ∀ tokens, tokenize source = .ok tokens → s'.tokens <+: tokens

variable {source : Source} {s : Scanner} {rest : List Char}

/-- What is read between two steps begins the tokens of the source. -/
theorem Between.begins (h : Between source s) {tokens : List Token}
    (htokens : tokenize source = .ok tokens) : s.tokens <+: tokens := by
  obtain ⟨ts, hwalk, rfl⟩ := tokenize_eq_ok_iff.1 htokens
  obtain ⟨vs, -, rfl⟩ | ⟨vs, hvs, heq⟩ := h.walks.total hwalk
  · rw [List.append_assoc]
    exact List.prefix_append _ _
  · rw [heq, hvs.of_end.1, List.append_nil]
    exact List.prefix_append _ _

theorem Reaches.yields (h : Reaches source s) {n : Nat} {kind : TokenKind}
    (hword : firstWord s.rest = some (n, .token kind)) :
    Yields source s (tokenAt source s.current.offset n kind) := by
  have hstep := h.between.scanToken hword
  refine ⟨_, hstep, ?_, fun tokens htokens => ?_⟩
  · rw [tokens_emit_across, h.between.source_eq]
  · have hnext := h.step (atEnd_eq_false_iff.2 ⟨n, _, hword⟩) hstep
    exact hnext.between.begins htokens

/-- The word at a quote that opens a string. -/
theorem firstWord_quoted {body value : List Char} (h : Quoted body value) (after : List Char) :
    firstWord ('"' :: (body ++ '"' :: after))
      = some (body.length + 2, .token (.string (String.ofList value))) := by
  rw [firstWord_quote]
  unfold stringWord
  rw [stringBody_of_quoted h]

/-- The word at a quote that opens none. -/
theorem firstWord_open (h : stringBody rest = none) :
    firstWord ('"' :: rest) = some (1, .token .illegal) := by
  rw [firstWord_quote]
  unfold stringWord
  rw [h]

end Scanner

/-- Behind a quote that is an illegal token there is no string. -/
theorem ne_string_behind_open {source : Source} {us vs : List Token} {t : Token}
    (h : tokenize source = .ok (us ++ t :: vs)) (hkind : t.kind = .illegal)
    (hlexeme : t.lexeme = "\"") : ∀ u ∈ vs, ∀ value, u.kind ≠ .string value := by
  obtain ⟨ts, hwalk, heq⟩ := tokenize_eq_ok_iff.1 h
  by_cases hvs : vs = []
  · rw [hvs]
    exact fun u hu => by cases hu
  · obtain ⟨a, n, kind, ws, hword, rfl, hrest, rfl⟩ := hwalk.split_end heq.symm hvs
    obtain rfl : kind = .illegal := hkind
    obtain ⟨rfl, c, rest, htext, hreason⟩ := Scanner.firstWord_illegal hword
    have hquote : c = '"' := by
      have hchars := congrArg String.toList hlexeme
      rw [Scanner.tokenAt, String.toList_ofList, htext] at hchars
      exact (List.cons.inj hchars).1
    have hopen : Scanner.stringBody rest = none := by
      rcases hreason with ⟨-, hopen⟩ | ⟨-, hstart⟩
      · exact hopen
      · rw [hquote] at hstart
        cases hstart
    -- the walk goes on right behind the quote, where no quote opens a string
    have hnone : Scanner.NoString (source.text.drop (a + 1)) := by
      rw [← List.drop_drop, htext, List.drop_one, List.tail_cons]
      exact Scanner.noString_of_open hopen
    intro u hu value
    rcases List.mem_append.1 hu with hu | hu
    · exact hrest.ne_string hnone u hu value
    · rw [List.mem_singleton.1 hu]
      intro hend
      cases hend

/-- Strings in quotes. A text whose quotes and backslashes are escaped becomes one string with
that text as its value. Wherever a step of the scanner starts at a quote, it reads the string
up to the first quote that is not the second of a pair, and the quote alone as an illegal token
if there is no such quote. Behind such an illegal token there are no strings. -/
theorem strings_in_quotes :
    (∀ (name : Text) (value : String),
      tokenize ⟨name, '"' :: (Piece.escape value.toList ++ ['"'])⟩
        = .ok [Scanner.tokenAt ⟨name, '"' :: (Piece.escape value.toList ++ ['"'])⟩ 0
              ((Piece.escape value.toList).length + 2) (.string value),
            Source.endToken ⟨name, '"' :: (Piece.escape value.toList ++ ['"'])⟩])
    ∧ (∀ (source : Source) (s : Scanner) (rest : List Char), Scanner.Reaches source s →
      s.rest = '"' :: rest →
      (∀ body value after, rest = body ++ '"' :: after → Quoted body value →
        Scanner.Yields source s (Scanner.tokenAt source s.current.offset (body.length + 2)
          (.string (String.ofList value))))
      ∧ ((∀ body value after, rest = body ++ '"' :: after → ¬ Quoted body value) →
        Scanner.Yields source s (Scanner.tokenAt source s.current.offset 1 .illegal)))
    ∧ ∀ (source : Source) (us : List Token) (t : Token) (vs : List Token),
      tokenize source = .ok (us ++ t :: vs) → t.kind = .illegal → t.lexeme = "\"" →
      ∀ u ∈ vs, ∀ value, u.kind ≠ .string value := by
  refine ⟨tokenize_escape, ?_, ?_⟩
  · intro source s rest hs hrest
    constructor
    · rintro body value after rfl hbody
      refine hs.yields ?_
      rw [hrest]
      exact Scanner.firstWord_quoted hbody after
    · intro hnone
      refine hs.yields ?_
      rw [hrest]
      exact Scanner.firstWord_open (Scanner.stringBody_eq_none_iff.2 hnone)
  · intro source us t vs h hkind hlexeme
    exact ne_string_behind_open h hkind hlexeme

theorem strings_in_quotes_backslashes :
    (∃ tokens, tokenize ⟨"escaped", "\"\\\\\\\"\"".toList⟩ = .ok tokens
      ∧ tokens.map (·.kind) = [.string "\\\"", .endOfText])
    ∧ Scanner.Yields ⟨"closed", "\"\\n\\\\\" \"".toList⟩
      (Scanner.ofSource ⟨"closed", "\"\\n\\\\\" \"".toList⟩)
      (Scanner.tokenAt ⟨"closed", "\"\\n\\\\\" \"".toList⟩ 0 6 (.string "\\n\\"))
    ∧ Scanner.Yields ⟨"open", "\"a\\\" \\\\\\\"x".toList⟩
      (Scanner.ofSource ⟨"open", "\"a\\\" \\\\\\\"x".toList⟩)
      (Scanner.tokenAt ⟨"open", "\"a\\\" \\\\\\\"x".toList⟩ 0 1 .illegal)
    ∧ ∃ t vs, tokenize ⟨"open", "\"a\\\" \\\\\\\"x".toList⟩ = .ok (t :: vs)
      ∧ t.kind = .illegal ∧ t.lexeme = "\"" ∧ vs.length = 9
      ∧ ∀ u ∈ vs, ∀ value, u.kind ≠ .string value := by
  obtain ⟨hescape, hstep, hbehind⟩ := strings_in_quotes
  refine ⟨⟨_, hescape "escaped" "\\\"", rfl⟩, ?_, ?_, ?_⟩
  · refine (hstep _ _ _ .start rfl).1 ['\\', 'n', '\\', '\\'] ['\\', 'n', '\\'] [' ', '"'] rfl ?_
    exact .kept (by decide) (by decide) (.escaped (.inr rfl) .nil)
  · exact (hstep _ _ _ .start rfl).2 (Scanner.stringBody_eq_none_iff.1 (by decide))
  · obtain ⟨tokens, htokens, hall⟩ := exists_ok_of_any
      (x := tokenize ⟨"open", "\"a\\\" \\\\\\\"x".toList⟩)
      (p := fun tokens => (tokens.head?.any fun t => t.kind = .illegal ∧ t.lexeme = "\"")
        && tokens.length = 10) (by decide +kernel)
    obtain ⟨hhead, hlength⟩ := Bool.and_eq_true_iff.1 hall
    cases tokens with
    | nil => cases hhead
    | cons t vs =>
      obtain ⟨hkind, hlexeme⟩ := of_decide_eq_true hhead
      exact ⟨t, vs, htokens, hkind, hlexeme, Nat.succ.inj (of_decide_eq_true hlength),
        hbehind _ [] t vs htokens hkind hlexeme⟩

end Scoreboard
