import Mathlib
import Scoreboard.Proofs.Lexing
import Scoreboard.Proofs.Quotes
import Scoreboard.Proofs.Tokens

/-!
# Tokens tile a source

Every character of a text is read once. Each step of the scanner takes at least one character
and none beyond the end of the text, also where a string is not closed and the scanner goes back
behind its opening quote. So the steps come to the end of the text, and what they leave tiles it
(`Tiling`): tokens one behind the other, each of them the text of its span, with nothing but
blanks and comments between them. A name or an integer is as long as it can be, and a token is
illegal only if no other token starts at its character (`tokenize_tiles`).
-/

namespace Scoreboard

/-! ## The ends of words -/

namespace Scanner

theorem drop_length_takeWhile (p : Char → Bool) (text : List Char) :
    text.drop (text.takeWhile p).length = text.dropWhile p := by
  calc text.drop (text.takeWhile p).length
      = (text.takeWhile p ++ text.dropWhile p).drop (text.takeWhile p).length := by
        rw [List.takeWhile_append_dropWhile]
    _ = text.dropWhile p := List.drop_left

/-- What a run of characters leaves does not go on with it. -/
theorem eq_false_of_dropWhile {p : Char → Bool} {text : List Char} {c : Char}
    (hc : c ∈ (text.dropWhile p).head?) : p c = false := by
  have hhead := List.head?_dropWhile_not p text
  rw [Option.mem_def.1 hc] at hhead
  exact hhead

/-- A name ends where the next character cannot go on with it. -/
theorem continuesName_behind {text : List Char} {c : Char}
    (hc : c ∈ (text.drop (nameLength text)).head?) : Text.continuesName c = false := by
  unfold nameLength at hc
  rw [drop_length_takeWhile] at hc
  exact eq_false_of_dropWhile hc

/-- A text that cannot go on with an integer: it starts neither with a digit nor with an
underscore that a digit follows. -/
structure EndsInteger (after : List Char) : Prop where
  digit : ∀ c ∈ after.head?, c.isDigit = false
  underscore : ∀ c rest, after = '_' :: c :: rest → c.isDigit = false

theorem endsInteger_behind (text : List Char) : EndsInteger (text.drop (integerLength text)) := by
  -- only the places where counting stops say something about the text behind
  fun_induction integerLength text with
  | case1 => exact ⟨by simp, by simp⟩
  | case2 c hc => exact ⟨by simp, by simp⟩
  | case3 c hc =>
    refine ⟨?_, by simp⟩
    intro d hd
    cases hd
    exact Bool.eq_false_iff.2 hc
  | case4 c d rest _ ih => exact ih
  | case5 c d rest hstops =>
    rw [Bool.not_eq_true, Bool.or_eq_false_iff] at hstops
    refine ⟨?_, ?_⟩
    · intro e he
      cases he
      exact hstops.1
    · intro e rest' heq
      cases heq
      simpa using hstops.2

end Scanner

/-! ## Gaps -/

/-- Only blanks and comments lead from the start of one text to another. A comment starts with
two slashes and ends in front of the next newline or at the end of the text. -/
inductive Gap (rest : List Char) : List Char → Prop
  | none : Gap rest rest
  | blank {c : Char} {text : List Char} (hc : Scanner.isGap c = true) (h : Gap rest text) :
      Gap rest (c :: text)
  | comment {line text : List Char} (hline : '\n' ∉ line) (hend : ∀ c ∈ text.head?, c = '\n')
      (h : Gap rest text) : Gap rest ('/' :: '/' :: (line ++ text))

/-- A word without a token is a blank or a comment. -/
theorem Gap.of_firstWord {rest text : List Char} {n : Nat}
    (hword : Scanner.firstWord text = some (n, .gap)) (h : Gap rest (text.drop n)) :
    Gap rest text := by
  generalize hgap : Word.gap = word at hword
  cases Scanner.takes_of_firstWord hword with
  | blank hc => exact .blank hc h
  | @comment line hslash =>
    cases line with
    | nil => cases hslash
    | cons c line =>
      obtain rfl : c = '/' := Option.some.inj hslash
      -- the comment is the run of characters up to a newline
      have hlength : Scanner.lineLength ('/' :: line) = (line.takeWhile (· != '\n')).length + 1 :=
        rfl
      rw [hlength, List.drop_succ_cons, List.drop_succ_cons, Scanner.drop_length_takeWhile] at h
      rw [← List.takeWhile_append_dropWhile (p := (· != '\n')) (l := line)]
      refine .comment ?_ ?_ h
      · intro hmem
        simpa using List.mem_takeWhile_imp hmem
      · intro c hc
        simpa using Scanner.eq_false_of_dropWhile hc
  | _ => cases hgap

/-- A walk that leaves no token leads over a gap. -/
theorem Gap.of_walks {source : Source} {i j : Nat} (h : Walks source i [] j) :
    Gap (source.text.drop j) (source.text.drop i) := by
  generalize hnil : ([] : List Token) = ts at h
  induction h with
  | refl => exact .none
  | @gap i n j ts hword _ ih =>
    have hrest := ih hnil
    rw [← List.drop_drop] at hrest
    exact .of_firstWord hword hrest
  -- a token would be left
  | token => cases hnil

/-! ## Words of tokens -/

theorem TokenKind.isWord_of_isSign {kind : TokenKind} (h : kind.isSign = true) :
    kind.isWord = false := by
  cases kind <;> first | rfl | cases h

namespace Scanner

variable {text : List Char} {n : Nat} {kind : TokenKind}

theorem firstWord_name (h : firstWord text = some (n, .token kind)) (hkind : kind.isWord = true)
    {c : Char} (hc : c ∈ (text.drop n).head?) : Text.continuesName c = false := by
  generalize hword : Word.token kind = word at h
  cases takes_of_firstWord h with
  | name _ => exact continuesName_behind hc
  | sign hsign _ =>
    cases hword
    rw [TokenKind.isWord_of_isSign (TokenKind.isSign_of_ofSign? hsign)] at hkind
    cases hkind
  | blank _ | comment _ | refused _ _ => cases hword
  | newline | string _ | openString _ | integer _ _ | illegal _ _ =>
    cases hword
    cases hkind

theorem firstWord_integer {value : Int} (h : firstWord text = some (n, .token (.integer value))) :
    EndsInteger (text.drop n) := by
  generalize hword : Word.token (.integer value) = word at h
  cases takes_of_firstWord h with
  | integer _ _ => exact endsInteger_behind _
  | sign hc _ =>
    cases hword
    cases TokenKind.isSign_of_ofSign? hc
  | name _ => cases TokenKind.isWord_of_ofWord (Word.token.inj hword)
  | _ => cases hword

end Scanner

/-! ## Places of words -/

section
variable {source : Source} {tokens ts : List Token} {t : Token} {i j a n : Nat} {kind : TokenKind}

theorem Scanner.start_tokenAt (h : a + n ≤ source.text.length) :
    (tokenAt source a n kind).span.start.index = a :=
  Position.index_ofIndex (by omega)

theorem Scanner.stop_tokenAt (h : a + n ≤ source.text.length) :
    (tokenAt source a n kind).span.stop.index = a + n :=
  Position.index_ofIndex h

/-- The characters between two offsets. -/
theorem Span.covered_ofRange (h : a + n ≤ source.text.length) :
    (Span.ofRange source a (a + n : Nat)).covered = (source.text.drop a).take n := by
  have hstart : (Position.ofIndex source.text a).index = a := Position.index_ofIndex (by omega)
  have hstop : (Position.ofIndex source.text (a + n : Nat)).index = a + n :=
    Position.index_ofIndex h
  unfold Span.covered Span.ofRange
  rw [hstart, hstop, Nat.add_sub_cancel_left]

theorem Scanner.lexeme_tokenAt (h : a + n ≤ source.text.length) :
    (tokenAt source a n kind).lexeme
      = String.ofList (tokenAt source a n kind).span.covered := by
  unfold tokenAt
  rw [Span.covered_ofRange h]

/-- A token of a walk, with its word. -/
theorem Walks.exists_word (h : Walks source i ts j) (ht : t ∈ ts) :
    ∃ a n kind, Scanner.firstWord (source.text.drop a) = some (n, .token kind)
      ∧ 0 < n ∧ a + n ≤ source.text.length ∧ t = Scanner.tokenAt source a n kind := by
  obtain ⟨us, vs, rfl⟩ := List.append_of_mem ht
  obtain ⟨a, n, kind, -, hword, rfl, -⟩ := h.split
  obtain ⟨hpos, hlength⟩ := Scanner.firstWord_length hword
  rw [List.length_drop] at hlength
  exact ⟨a, n, kind, hword, hpos, by omega, rfl⟩

/-- A token of a source other than its end is a word of the text at its place. -/
theorem firstWord_of_mem (h : tokenize source = .ok tokens) (ht : t ∈ tokens)
    (hkind : t.kind ≠ .endOfText) :
    ∃ n, Scanner.firstWord (source.text.drop t.span.start.index) = some (n, .token t.kind)
      ∧ t.lexeme = String.ofList ((source.text.drop t.span.start.index).take n)
      ∧ source.text.drop t.span.stop.index = (source.text.drop t.span.start.index).drop n := by
  obtain ⟨ts, hwalk, rfl⟩ := tokenize_eq_ok_iff.1 h
  rcases List.mem_append.1 ht with ht | ht
  · obtain ⟨a, n, kind, hword, -, hlength, rfl⟩ := hwalk.exists_word ht
    rw [Scanner.start_tokenAt hlength, Scanner.stop_tokenAt hlength, ← List.drop_drop]
    exact ⟨n, hword, rfl, rfl⟩
  · rw [List.mem_singleton.1 ht] at hkind
    exact (hkind rfl).elim

/-- In front of the next token, or of the end of the text, a walk leads over a gap. -/
theorem Walks.gap_next (h : Walks source i ts source.text.length) {us : List Token}
    (hnext : ts ++ [source.endToken] = t :: us) :
    Gap (source.text.drop t.span.start.index) (source.text.drop i) := by
  cases ts with
  | nil =>
    obtain rfl : source.endToken = t := (List.cons.inj hnext).1
    have hstart : source.endToken.span.start.index = source.text.length :=
      Scanner.start_tokenAt (Nat.le_refl _)
    rw [hstart]
    exact .of_walks h
  | cons u ts =>
    obtain rfl : u = t := (List.cons.inj hnext).1
    -- nothing is left in front of the first token
    have hfirst : Walks source i ([] ++ u :: ts) source.text.length := h
    obtain ⟨a, n, kind, hwalk, hword, rfl, -⟩ := hfirst.split
    have hlength := Scanner.firstWord_length hword
    rw [List.length_drop] at hlength
    rw [Scanner.start_tokenAt (by omega)]
    exact .of_walks hwalk

end

/-! ## Tilings -/

/-- Tokens that tile a source. -/
structure Tiling (source : Source) (tokens : List Token) : Prop where
  /-- Each token is the text of its span. -/
  slices : ∀ t ∈ tokens, IsRange source 0 t.span ∧ t.lexeme = String.ofList t.span.covered
  /-- The spans come one behind the other. -/
  disjoint : tokens.Pairwise fun t u => t.span.stop.index ≤ u.span.start.index
  /-- The end of the text is the last token and the only one that is empty. -/
  ends : ∃ ts last, tokens = ts ++ [last] ∧ last.kind = .endOfText ∧ last.lexeme = ""
    ∧ last.span = Span.ofRange source source.text.length source.text.length
    ∧ ∀ t ∈ ts, t.kind ≠ .endOfText ∧ t.span.start.index < t.span.stop.index
  /-- In front of the first token there is only a gap. -/
  opens : ∀ t ∈ tokens.head?, Gap (source.text.drop t.span.start.index) source.text
  /-- Between a token and the next there is only a gap. -/
  gaps : ∀ us t u vs, tokens = us ++ t :: u :: vs →
    Gap (source.text.drop u.span.start.index) (source.text.drop t.span.stop.index)
  /-- The next character does not go on with a name or a reserved word. -/
  names : ∀ t ∈ tokens, t.kind.isWord = true →
    ∀ c ∈ (source.text.drop t.span.stop.index).head?, Text.continuesName c = false
  /-- The text behind an integer does not go on with it. -/
  integers : ∀ t ∈ tokens, ∀ value, t.kind = .integer value →
    Scanner.EndsInteger (source.text.drop t.span.stop.index)
  /-- An illegal token is one character, which starts no token or is a quote that opens no
  string. -/
  illegal : ∀ t ∈ tokens, t.kind = .illegal → ∃ c, t.lexeme = String.ofList [c]
    ∧ (Scanner.isGap c = false ∧ Scanner.startsToken c = false
      ∨ c = '"' ∧ ∀ body value after,
        source.text.drop t.span.stop.index = body ++ '"' :: after → ¬ Quoted body value)

section
variable {source : Source} {tokens : List Token}

theorem lexeme_of_mem (h : tokenize source = .ok tokens) {t : Token} (ht : t ∈ tokens) :
    t.lexeme = String.ofList t.span.covered := by
  obtain ⟨ts, hwalk, rfl⟩ := tokenize_eq_ok_iff.1 h
  rcases List.mem_append.1 ht with ht | ht
  · obtain ⟨a, n, kind, -, -, hlength, rfl⟩ := hwalk.exists_word ht
    exact Scanner.lexeme_tokenAt hlength
  · rw [List.mem_singleton.1 ht]
    exact Scanner.lexeme_tokenAt (Nat.le_refl _)

theorem start_lt_stop {ts : List Token} {i j : Nat} (h : Walks source i ts j) {t : Token}
    (ht : t ∈ ts) : t.kind ≠ .endOfText ∧ t.span.start.index < t.span.stop.index := by
  obtain ⟨a, n, kind, hword, hpos, hlength, rfl⟩ := h.exists_word ht
  refine ⟨(Scanner.firstWord_token hword).1, ?_⟩
  rw [Scanner.start_tokenAt hlength, Scanner.stop_tokenAt hlength]
  omega

theorem gap_between {us vs : List Token} {t u : Token}
    (h : tokenize source = .ok (us ++ t :: u :: vs)) :
    Gap (source.text.drop u.span.start.index) (source.text.drop t.span.stop.index) := by
  obtain ⟨ts, hwalk, hsplit⟩ := tokenize_eq_ok_iff.1 h
  obtain ⟨a, n, kind, ws, hword, rfl, hrest, hnext⟩ :=
    hwalk.split_end hsplit.symm (List.cons_ne_nil u vs)
  have hlength := Scanner.firstWord_length hword
  rw [List.length_drop] at hlength
  rw [Scanner.stop_tokenAt (by omega)]
  exact hrest.gap_next hnext

theorem continuesName_of_mem (h : tokenize source = .ok tokens) {t : Token} (ht : t ∈ tokens)
    (hkind : t.kind.isWord = true) {c : Char}
    (hc : c ∈ (source.text.drop t.span.stop.index).head?) : Text.continuesName c = false := by
  have hend : t.kind ≠ .endOfText := by
    intro hend
    rw [hend] at hkind
    cases hkind
  obtain ⟨n, hword, -, hbehind⟩ := firstWord_of_mem h ht hend
  rw [hbehind] at hc
  exact Scanner.firstWord_name hword hkind hc

theorem endsInteger_of_mem (h : tokenize source = .ok tokens) {t : Token} (ht : t ∈ tokens)
    {value : Int} (hkind : t.kind = .integer value) :
    Scanner.EndsInteger (source.text.drop t.span.stop.index) := by
  obtain ⟨n, hword, -, hbehind⟩ := firstWord_of_mem h ht (by rw [hkind]; simp)
  rw [hkind] at hword
  rw [hbehind]
  exact Scanner.firstWord_integer hword

theorem illegal_of_mem (h : tokenize source = .ok tokens) {t : Token} (ht : t ∈ tokens)
    (hkind : t.kind = .illegal) : ∃ c, t.lexeme = String.ofList [c]
      ∧ (Scanner.isGap c = false ∧ Scanner.startsToken c = false
        ∨ c = '"' ∧ ∀ body value after,
          source.text.drop t.span.stop.index = body ++ '"' :: after → ¬ Quoted body value) := by
  obtain ⟨n, hword, hlexeme, hbehind⟩ := firstWord_of_mem h ht (by rw [hkind]; simp)
  rw [hkind] at hword
  obtain ⟨rfl, c, rest, htext, hreason⟩ := Scanner.firstWord_illegal hword
  rw [htext] at hlexeme hbehind
  refine ⟨c, hlexeme, ?_⟩
  rcases hreason with ⟨hc, hopen⟩ | hother
  · refine .inr ⟨hc, ?_⟩
    rw [hbehind]
    exact Scanner.stringBody_eq_none_iff.1 hopen
  · exact .inl hother

theorem tiling_of_tokenize (h : tokenize source = .ok tokens) : Tiling source tokens := by
  have hplaced := placed_of_tokenize h
  obtain ⟨ts, hwalk, htokens⟩ := tokenize_eq_ok_iff.1 h
  exact {
    slices := fun t ht => ⟨hplaced.isRange_of_mem ht, lexeme_of_mem h ht⟩
    disjoint := hplaced.disjoint.imp fun hle => hle.2
    ends := ⟨ts, source.endToken, htokens, rfl, rfl, rfl, fun t ht => start_lt_stop hwalk ht⟩
    opens := by
      intro t ht
      obtain ⟨us, hus⟩ := List.head?_eq_some_iff.1 ht
      exact hwalk.gap_next (htokens.symm.trans hus)
    gaps := fun us t u vs hsplit => gap_between (hsplit ▸ h)
    names := fun t ht hkind c hc => continuesName_of_mem h ht hkind hc
    integers := fun t ht value hkind => endsInteger_of_mem h ht hkind
    illegal := fun t ht hkind => illegal_of_mem h ht hkind }

/-- A step from a place where the text goes on. It takes at least one character and none beyond
the end of the text. -/
theorem Scanner.Reaches.exists_step (h : tokenize source = .ok tokens) {s : Scanner}
    (hs : Reaches source s) (hend : s.atEnd = false) :
    ∃ s', scanToken s.mark = .ok () s' ∧ s'.start = s.current
      ∧ s'.start.offset < s'.current.offset ∧ s'.current.offset ≤ source.text.length := by
  obtain ⟨ts, hwalk, -⟩ := tokenize_eq_ok_iff.1 h
  have hbetween := hs.between
  obtain ⟨n, word, hword⟩ := atEnd_eq_false_iff.1 hend
  have hstep := hbetween.scanToken hword
  obtain ⟨hpos, hlength⟩ := firstWord_length hword
  rw [hbetween.rest, List.length_drop] at hlength
  have hstart : Bookmark.ofOffset s.source.text s.current.offset = s.current := hbetween.isAt.symm
  have hle := hbetween.le
  have hmoves : s.current.offset < s.current.offset + n
      ∧ s.current.offset + n ≤ source.text.length := by omega
  cases word with
  | gap => exact ⟨_, hstep, hstart, hmoves⟩
  | token kind => exact ⟨_, hstep, hstart, hmoves⟩
  | refused =>
    -- the walk over the whole text would have been refused here, too
    rw [hbetween.rest] at hword
    exact (hwalk.not_refuses hbetween.walks ⟨n, hword⟩).elim

/-- Tokens tile the source. Where a source is cut into tokens, every step on the way takes at
least one character and none beyond the end of the text, the steps come to the end of the text,
and the tokens that they leave tile it. -/
theorem tokenize_tiles (h : tokenize source = .ok tokens) :
    (∀ s, Scanner.Reaches source s → s.atEnd = false →
      ∃ s', Scanner.scanToken s.mark = .ok () s' ∧ s'.start = s.current
        ∧ s'.start.offset < s'.current.offset ∧ s'.current.offset ≤ source.text.length)
    ∧ (∃ s, Scanner.Reaches source s ∧ s.atEnd = true ∧ tokens = s.tokens ++ [source.endToken])
    ∧ Tiling source tokens := by
  refine ⟨?_, tokenize_reaches h, tiling_of_tokenize h⟩
  intro s hs hend
  exact hs.exists_step h hend

theorem tokenize_tiles_rewind :
    let source : Source := ⟨"tiles", "let ab// \"\n1_0_\x0c#/\"\\\" //".toList⟩
    let lexemes := ["let", "ab", "\n", "1_0", "_", "#", "/", "\"", "\\", "\"", ""]
    ∃ tokens s s', tokenize source = .ok tokens ∧ tokens.map (·.lexeme) = lexemes
      ∧ Scanner.Reaches source s ∧ s.atEnd = false ∧ Scanner.scanToken s.mark = .ok () s'
      ∧ s'.start = s.current ∧ s'.start.offset < s'.current.offset
      ∧ s'.current.offset ≤ source.text.length ∧ Tiling source tokens := by
  have htiles : ∀ (source : Source) (lexemes : List String),
      (Scanner.ofSource source).atEnd = false →
      (tokenize source).toOption.any (fun tokens => tokens.map (·.lexeme) = lexemes) = true →
      ∃ tokens s s', tokenize source = .ok tokens ∧ tokens.map (·.lexeme) = lexemes
        ∧ Scanner.Reaches source s ∧ s.atEnd = false ∧ Scanner.scanToken s.mark = .ok () s'
        ∧ s'.start = s.current ∧ s'.start.offset < s'.current.offset
        ∧ s'.current.offset ≤ source.text.length ∧ Tiling source tokens := by
    intro source lexemes hend hany
    obtain ⟨tokens, htokens, hlexemes⟩ := exists_ok_of_any hany
    obtain ⟨hsteps, -, htiling⟩ := tokenize_tiles htokens
    obtain ⟨s', hstep, hstart, hlt, hle⟩ := hsteps _ .start hend
    exact ⟨tokens, _, s', htokens, of_decide_eq_true hlexemes, .start, hend, hstep, hstart, hlt,
      hle, htiling⟩
  exact htiles _ _ rfl (by decide +kernel)

end

end Scoreboard
