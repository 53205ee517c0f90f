import Mathlib
import Scoreboard.Compilation
import Scoreboard.Proofs.Completeness
import Scoreboard.Proofs.Grammar
import Scoreboard.Proofs.Lexing
import Scoreboard.Proofs.Lines
import Scoreboard.Proofs.Relocation
import Scoreboard.Proofs.Tokens

/-!
# Joining texts by a newline

A newline between two texts keeps their words apart. The words of the first text do not look
past it, except for the opening quote of a string that is not closed: that one looks for its
closing quote in the second text. So without such a quote the tokens of the joined text are
those of the first, the newline, and those of the second at their new places, and the script
is one script behind the other (`tokenize_parse_join`).

For the script the grammar is used in both directions. Each text is read as lines of
statements, such lines can be put behind each other with newlines between them, and whatever
the grammar derives is read.
-/

namespace Scoreboard

/-! ## Words in front of a newline -/

namespace Scanner

theorem takeWhile_append_newline {p : Char → Bool} (hp : p '\n' = false)
    (text rest : List Char) : (text ++ '\n' :: rest).takeWhile p = text.takeWhile p := by
  induction text with
  | nil => simp [hp]
  | cons c text ih => rw [List.cons_append, List.takeWhile_cons, List.takeWhile_cons, ih]

theorem lineLength_append_newline (text rest : List Char) :
    lineLength (text ++ '\n' :: rest) = lineLength text := by
  unfold lineLength
  rw [takeWhile_append_newline rfl]

theorem nameWord_append_newline (text rest : List Char) :
    nameWord (text ++ '\n' :: rest) = nameWord text := by
  have hname : (text ++ '\n' :: rest).takeWhile Text.continuesName
      = text.takeWhile Text.continuesName := takeWhile_append_newline (by decide) text rest
  unfold nameWord
  rw [take_nameLength, take_nameLength, hname]
  unfold nameLength
  rw [hname]

theorem integerLength_newline (rest : List Char) : integerLength ('\n' :: rest) = 0 := by
  cases rest <;> rfl

/-- An underscore in front of the newline is not followed by a digit, as at the end of the
text. -/
theorem integerLength_append_newline (text rest : List Char) :
    integerLength (text ++ '\n' :: rest) = integerLength text := by
  fun_induction integerLength text with
  | case1 => exact integerLength_newline rest
  | case2 c hc => simp [integerLength, hc, integerLength_newline]
  | case3 c hc => simp [integerLength, hc]
  | case4 c d text hgoes ih =>
    rw [List.cons_append, List.cons_append, integerLength, if_pos hgoes]
    rw [List.cons_append] at ih
    rw [ih]
  | case5 c d text hstops =>
    rw [List.cons_append, List.cons_append, integerLength, if_neg hstops]

theorem integerWord_append_newline (text rest : List Char) :
    integerWord (text ++ '\n' :: rest) = integerWord text := by
  unfold integerWord integerDigits
  rw [integerLength_append_newline, List.take_append_of_le_length (integerLength_le text)]

/-- A string that is closed stays as it is. -/
theorem stringBody_append {text value : List Char} {n : Nat}
    (h : stringBody text = some (value, n)) (rest : List Char) :
    stringBody (text ++ rest) = some (value, n) := by
  fun_induction stringBody text generalizing value n with
  | case1 => cases h
  | case2 text => exact h
  | case3 text ih =>
    obtain ⟨⟨v, m⟩, hm, heq⟩ := Option.map_eq_some_iff.1 h
    simp only [List.cons_append, stringBody, ih hm, Option.map_some, ← heq]
  | case4 text ih =>
    obtain ⟨⟨v, m⟩, hm, heq⟩ := Option.map_eq_some_iff.1 h
    simp only [List.cons_append, stringBody, ih hm, Option.map_some, ← heq]
  | case5 c text hquote hescape hescape' ih =>
    obtain ⟨⟨v, m⟩, hm, heq⟩ := Option.map_eq_some_iff.1 h
    cases text with
    | nil => cases hm
    | cons d text =>
      rw [List.cons_append, List.cons_append, stringBody]
      · rw [← List.cons_append, ih hm, Option.map_some, ← heq]
      · exact hquote
      · intro rest' hc hcons
        exact hescape text hc (by rw [(List.cons.inj hcons).1])
      · intro rest' hc hcons
        exact hescape' text hc (by rw [(List.cons.inj hcons).1])

/-- The first word of a text is the same in front of a newline, unless it is a quote that
opens no string. -/
theorem firstWord_append_newline {text : List Char} {n : Nat} {word : Word}
    (h : firstWord text = some (n, word))
    (hopen : text.head? = some '"' → word ≠ .token .illegal) (rest : List Char) :
    firstWord (text ++ '\n' :: rest) = some (n, word) := by
  cases text with
  | nil => cases h
  | cons c text =>
    by_cases hquote : c = '"'
    · rw [hquote] at h hopen ⊢
      rw [firstWord_quote] at h
      rw [List.cons_append, firstWord_quote, ← h]
      unfold stringWord at h ⊢
      cases hbody : stringBody text with
      | none =>
        rw [hbody] at h
        cases h
        exact (hopen rfl rfl).elim
      | some found => rw [stringBody_append hbody]
    · have hcomment : ((text ++ '\n' :: rest).head? == some '/') = (text.head? == some '/') := by
        cases text <;> rfl
      have hinteger := integerWord_append_newline (c :: text) rest
      have hname := nameWord_append_newline (c :: text) rest
      rw [List.cons_append] at hinteger hname
      have hquote' : (c == '"') = false := beq_false_of_ne hquote
      rw [← h]
      simp only [List.cons_append, firstWord, hcomment, lineLength_append_newline, hinteger, hname,
        hquote']
      rfl

/-- A quote that opens no string is a token of its own. -/
theorem take_of_open {text : List Char} {n : Nat}
    (h : firstWord text = some (n, .token .illegal)) (hquote : text.head? = some '"') :
    text.take n = ['"'] := by
  cases text with
  | nil => cases hquote
  | cons c rest =>
    cases hquote
    rw [firstWord_quote] at h
    unfold stringWord at h
    cases hbody : stringBody rest with
    | none =>
      rw [hbody] at h
      cases h
      rfl
    | some found =>
      rw [hbody] at h
      cases h

end Scanner

/-! ## Places in a joined text -/

theorem drop_first (first second : List Char) :
    (first ++ '\n' :: second).drop (first.length + 1) = second := by
  rw [← List.drop_drop, List.drop_left, List.drop_one, List.tail_cons]

namespace Position

/-- A position of a text that stands behind another one and a newline. -/
def below (text : List Char) (p : Position) : Position :=
  ⟨p.index + (text.length + 1), p.line + (text.count '\n' + 1), p.column⟩

theorem next_below (text : List Char) (p : Position) (c : Char) :
    (p.below text).next c = (p.next c).below text := by
  unfold next below
  split
  · simp only [Position.mk.injEq, and_true]
    omega
  · simp only [Position.mk.injEq, and_true]
    omega

theorem advance_below (text : List Char) (p : Position) (s : List Char) (n : Nat) :
    (p.below text).advance s n = (p.advance s n).below text := by
  induction n generalizing p s with
  | zero => rw [advance, advance]
  | succ n ih =>
    cases s with
    | nil => rfl
    | cons c s => rw [advance, advance, next_below, ih]

/-- Behind the first text and the newline a line starts. -/
theorem advance_newline (first second : List Char) :
    origin.advance (first ++ '\n' :: second) (first.length + 1) = origin.below first := by
  have hline := line_advance_length origin first
  have hindex := index_advance origin first first.length
  rw [advance_add, advance_append origin (Nat.le_refl _), List.drop_left, advance, advance]
  unfold next below
  rw [if_pos rfl, hline, hindex]
  simp only [origin, Position.mk.injEq, Nat.min_self, and_true]
  omega

theorem ofIndex_below (first second : List Char) (i : Nat) :
    ofIndex (first ++ '\n' :: second) (first.length + 1 + i : Nat)
      = (ofIndex second i).below first := by
  unfold ofIndex
  rw [Int.toNat_natCast, Int.toNat_natCast, advance_add, advance_newline, drop_first,
    advance_below]

end Position

namespace Span

/-- A span with the same positions in another source. -/
def within (source : Source) (span : Span) : Span := ⟨span.start, span.stop, source⟩

/-- A span of a text that stands in a source behind another text and a newline. -/
def below (text : List Char) (source : Source) (span : Span) : Span :=
  ⟨span.start.below text, span.stop.below text, source⟩

end Span

/-- Two texts with a newline between them. -/
def Source.join (name : Text) (first second : List Char) : Source :=
  ⟨name, first ++ '\n' :: second⟩

/-! ## Tokens of a joined text -/

namespace Scanner

variable {name name' : Text} {first second : List Char} {i n : Nat} {kind : TokenKind}

theorem tokenAt_within (hn : i + n ≤ first.length) :
    tokenAt (.join name first second) i n kind
      = (tokenAt ⟨name', first⟩ i n kind).mapSpan (.within (.join name first second)) := by
  have hstart : Position.ofIndex (first ++ '\n' :: second) i = Position.ofIndex first i :=
    Position.ofIndex_append (by omega)
  have hstop : Position.ofIndex (first ++ '\n' :: second) (i + n : Nat)
      = Position.ofIndex first (i + n : Nat) := Position.ofIndex_append hn
  have htake : ((first ++ '\n' :: second).drop i).take n = (first.drop i).take n := by
    rw [List.drop_append_of_le_length (by omega), List.take_append_of_le_length]
    rw [List.length_drop]
    omega
  unfold tokenAt Span.ofRange Source.join
  simp only [hstart, hstop, htake]
  rfl

theorem drop_join (name : Text) (first second : List Char) (i : Nat) :
    (Source.join name first second).text.drop (first.length + 1 + i) = second.drop i := by
  show (first ++ '\n' :: second).drop (first.length + 1 + i) = _
  rw [← List.drop_drop, drop_first]

theorem tokenAt_below :
    tokenAt (.join name first second) (first.length + 1 + i) n kind
      = (tokenAt ⟨name', second⟩ i n kind).mapSpan
          (.below first (.join name first second)) := by
  have hstart := Position.ofIndex_below first second i
  have hstop := Position.ofIndex_below first second (i + n)
  rw [← Nat.add_assoc] at hstop
  unfold tokenAt
  rw [drop_join]
  unfold Span.ofRange Source.join
  simp only [hstart, hstop]
  rfl

end Scanner

namespace Walks

variable {source : Source} {name name' : Text} {first second : List Char} {i j k : Nat}
variable {ts us : List Token}

/-- The walk over the first text, if it meets no quote that opens no string. -/
theorem join_left (h : Walks ⟨name', first⟩ i ts j)
    (hquote : ∀ t ∈ ts, t.kind = .illegal → t.lexeme ≠ "\"") :
    Walks (.join name first second) i
      (ts.map (·.mapSpan (.within (.join name first second)))) j := by
  have hplace : ∀ {i n : Nat} {word : Word},
      Scanner.firstWord (first.drop i) = some (n, word) →
      i + n ≤ first.length ∧ (Source.join name first second).text.drop i
        = first.drop i ++ '\n' :: second := by
    intro i n word hword
    have hlength := Scanner.firstWord_length hword
    rw [List.length_drop] at hlength
    exact ⟨by omega, List.drop_append_of_le_length (by omega)⟩
  induction h with
  | refl => exact .refl _
  | gap hword _ ih =>
    obtain ⟨-, hdrop⟩ := hplace hword
    refine .gap ?_ (ih hquote)
    rw [hdrop]
    exact Scanner.firstWord_append_newline hword (fun _ => by simp) second
  | @token i n j kind ts hword _ ih =>
    obtain ⟨hn, hdrop⟩ := hplace hword
    have hopen : (first.drop i).head? = some '"' → Word.token kind ≠ .token .illegal := by
      intro hhead hillegal
      rw [hillegal] at hword
      have hkind : kind = .illegal := Word.token.inj hillegal
      have htake := Scanner.take_of_open hword hhead
      refine hquote _ List.mem_cons_self hkind ?_
      show String.ofList ((first.drop i).take n) = _
      rw [htake]
    have hrest := ih fun t ht => hquote t (List.mem_cons_of_mem _ ht)
    rw [List.map_cons, ← Scanner.tokenAt_within hn]
    refine .token ?_ hrest
    rw [hdrop]
    exact Scanner.firstWord_append_newline hword hopen second

/-- The walk over the second text. -/
theorem join_right (h : Walks ⟨name', second⟩ i ts j) :
    Walks (.join name first second) (first.length + 1 + i)
      (ts.map (·.mapSpan (.below first (.join name first second)))) (first.length + 1 + j) := by
  induction h with
  | refl => exact .refl _
  | gap hword _ ih =>
    rw [← Nat.add_assoc] at ih
    refine .gap ?_ ih
    rw [Scanner.drop_join]
    exact hword
  | token hword _ ih =>
    rw [← Nat.add_assoc] at ih
    rw [List.map_cons, ← Scanner.tokenAt_below]
    refine .token ?_ ih
    rw [Scanner.drop_join]
    exact hword

end Walks

/-- The newline between two texts. -/
def Source.seam (name : Text) (first second : List Char) : Token :=
  ⟨.newline, "\n", .ofRange (.join name first second) first.length (first.length + 1 : Nat)⟩

theorem walks_seam (name : Text) (first second : List Char) :
    Walks (.join name first second) first.length [Source.seam name first second]
      (first.length + 1) := by
  have hdrop : (Source.join name first second).text.drop first.length = '\n' :: second :=
    List.drop_left
  have hword : Scanner.firstWord ((Source.join name first second).text.drop first.length)
      = some (1, .token .newline) := by
    rw [hdrop]
    rfl
  have hseam : Scanner.tokenAt (.join name first second) first.length 1 .newline
      = Source.seam name first second := by
    unfold Scanner.tokenAt Source.seam
    rw [hdrop]
    rfl
  rw [← hseam]
  exact .token hword (.refl _)

theorem Source.length_join (name : Text) (first second : List Char) :
    (Source.join name first second).text.length = first.length + 1 + second.length := by
  show (first ++ '\n' :: second).length = _
  rw [List.length_append, List.length_cons]
  omega

/-- The end of the second text is the end of the joined text. -/
theorem Source.endToken_join (name name' : Text) (first second : List Char) :
    (Source.join name first second).endToken
      = (Source.endToken ⟨name', second⟩).mapSpan (.below first (.join name first second)) := by
  unfold Source.endToken
  rw [length_join, Scanner.tokenAt_below]

/-- The tokens of the first text, the newline and the tokens of the second text. -/
theorem tokenize_join (name : Text) {name₁ name₂ : Text} {first second : List Char}
    {vs us : List Token} {close : Token} (hfirst : tokenize ⟨name₁, first⟩ = .ok (vs ++ [close]))
    (hsecond : tokenize ⟨name₂, second⟩ = .ok us)
    (hquote : ∀ t ∈ vs, t.kind = .illegal → t.lexeme ≠ "\"") :
    tokenize (.join name first second)
      = .ok (vs.map (·.mapSpan (.within (.join name first second)))
        ++ Source.seam name first second
          :: us.map (·.mapSpan (.below first (.join name first second)))) := by
  obtain ⟨ts, hts, heq⟩ := tokenize_eq_ok_iff.1 hfirst
  obtain ⟨ws, hws, rfl⟩ := tokenize_eq_ok_iff.1 hsecond
  obtain ⟨rfl, -⟩ := List.append_inj' heq rfl
  have hbefore : Walks (.join name first second) 0 _ first.length := hts.join_left hquote
  have hbehind : Walks (.join name first second) (first.length + 1) _
      (first.length + 1 + second.length) := hws.join_right
  have hwalk := hbefore.append ((walks_seam name first second).append hbehind)
  rw [← Source.length_join name] at hwalk
  refine tokenize_eq_ok_iff.2 ⟨_, hwalk, ?_⟩
  rw [Source.endToken_join name name₂, List.map_append, List.append_assoc]
  rfl

/-! ## Scripts of a joined text -/

/-- Lines and other lines behind newlines are lines again. Newlines in front of the first line
are not among them. -/
theorem Derives.lines_append {ts ls us : List Token} {xs ys : List (Node Span)}
    (hfirst : Derives ts (.lines xs)) (hlines : Newlines ls) (hsome : ls ≠ [])
    (hsecond : Derives us (.lines ys)) :
    ∃ ms vs, ts ++ ls ++ us = ms ++ vs ∧ Newlines ms ∧ Derives vs (.lines (xs ++ ys)) := by
  generalize hphrase : Phrase.lines xs = phrase at hfirst
  induction hfirst generalizing xs with
  | noLine =>
    cases hphrase
    exact ⟨ls, us, rfl, hlines, hsecond⟩
  | @lastLine ts greedy node h _ =>
    cases hphrase
    exact ⟨[], ts ++ ls ++ us, rfl, newlines_nil, .nextLine h hlines hsome hsecond⟩
  | @nextLine ls' ts us' greedy node nodes h hlines' hsome' _ _ ihmore =>
    cases hphrase
    obtain ⟨ms, vs, heq, hms, hvs⟩ := ihmore rfl
    -- the newlines behind the line and those in front of the next one are one run
    have hrun : Newlines (ls' ++ ms) := List.forall_mem_append.2 ⟨hlines', hms⟩
    have hne : ls' ++ ms ≠ [] := by simp [hsome']
    refine ⟨[], ts ++ (ls' ++ ms) ++ vs, ?_, newlines_nil, .nextLine h hrun hne hvs⟩
    rw [List.nil_append, List.append_assoc, List.append_assoc, List.append_assoc,
      ← List.append_assoc us', heq]
    simp
  | _ => cases hphrase

/-- A script behind another one and a newline. -/
theorem parse_join {ts us : List Token} {close seam : Token} {xs ys : Script Span}
    (hfirst : EndsText (ts ++ [close])) (hsecond : EndsText us)
    (hends : EndsText (ts ++ seam :: us)) (hseam : seam.kind = .newline)
    (hxs : parse (ts ++ [close]) = .ok xs) (hys : parse us = .ok ys) :
    parse (ts ++ seam :: us) = .ok (xs ++ ys) := by
  obtain ⟨ls, vs, close₁, heq, hls, hvs, -⟩ := derives_of_parse hfirst hxs
  obtain ⟨ms, ws, close₂, rfl, hms, hws, hclose⟩ := derives_of_parse hsecond hys
  obtain ⟨rfl, -⟩ := List.append_inj' heq rfl
  -- the newline joins those in front of the second script
  have hrun : Newlines (seam :: ms) := List.forall_mem_cons.2 ⟨hseam, hms⟩
  obtain ⟨ns, lines, hlines, hns, hderives⟩ := hvs.lines_append hrun (List.cons_ne_nil _ _) hws
  have hsplit : ls ++ vs ++ seam :: (ms ++ ws ++ [close₂]) = (ls ++ ns) ++ lines ++ [close₂] := by
    rw [List.append_assoc ls ns, ← hlines]
    simp
  have hnewlines : Newlines (ls ++ ns) := List.forall_mem_append.2 ⟨hls, hns⟩
  exact (parse_eq_ok_iff hends).2 ⟨_, _, _, hsplit, hnewlines, hderives, hclose⟩

theorem endsText_mapSpan (f : Span → Span) {ts : List Token} (h : EndsText ts) :
    EndsText (ts.map (·.mapSpan f)) := by
  induction ts with
  | nil => exact h
  | cons t ts ih =>
    cases ts with
    | nil => exact h
    | cons next rest => exact ⟨h.1, ih h.2⟩

/-- What is read from tokens at other places. -/
theorem parse_mapSpan_of_ok {f : Span → Span}
    (hf : ∀ a b : Span, f (a.merge b) = (f a).merge (f b)) {ts : List Token} {xs : Script Span}
    (h : parse ts = .ok xs) : parse (ts.map (·.mapSpan f)) = .ok (xs.map (Node.mapMark f)) := by
  rw [parse_mapSpan hf, h]
  rfl

theorem Source.parse_eq_ok_iff {source : Source} {ts : List Token} {xs : Script Span}
    (h : tokenize source = .ok ts) : source.parse = .ok xs ↔ Scoreboard.parse ts = .ok xs := by
  unfold Source.parse
  rw [h]
  dsimp only
  cases Scoreboard.parse ts with
  | ok script => simp
  | error e => simp

/-- Joining texts by a newline. If both texts have tokens, and no quote of the first opens a
string that is not closed, then the joined text has the tokens of the first text without its
end, the newline, and the tokens of the second text further down: the index is greater by the
length of the first text and one, the line by its number of newlines and one, and the column
is the same. If both texts are read as scripts, then the joined text is read as the one behind
the other. -/
theorem tokenize_parse_join (name : Text) {name₁ name₂ : Text} {first second : List Char}
    {ts us : List Token} (hfirst : tokenize ⟨name₁, first⟩ = .ok ts)
    (hsecond : tokenize ⟨name₂, second⟩ = .ok us)
    (hquote : ∀ t ∈ ts, t.kind = .illegal → t.lexeme ≠ "\"") :
    ∃ vs close, ts = vs ++ [close] ∧ close.kind = .endOfText
      ∧ tokenize (.join name first second)
        = .ok (vs.map (·.mapSpan (.within (.join name first second)))
          ++ Source.seam name first second
            :: us.map (·.mapSpan (.below first (.join name first second))))
      ∧ ∀ xs ys : Script Span, Source.parse ⟨name₁, first⟩ = .ok xs →
        Source.parse ⟨name₂, second⟩ = .ok ys →
        Source.parse (.join name first second)
          = .ok (xs.map (Node.mapMark (.within (.join name first second)))
            ++ ys.map (Node.mapMark (.below first (.join name first second)))) := by
  obtain ⟨vs, -, rfl⟩ := tokenize_eq_ok_iff.1 hfirst
  have htokens := tokenize_join name hfirst hsecond fun t ht =>
    hquote t (List.mem_append_left _ ht)
  refine ⟨vs, _, rfl, rfl, htokens, ?_⟩
  intro xs ys hxs hys
  -- each script is read from its tokens at their new places
  have hxs' := parse_mapSpan_of_ok (f := .within (.join name first second)) (fun _ _ => rfl)
    ((Source.parse_eq_ok_iff hfirst).1 hxs)
  have hys' := parse_mapSpan_of_ok (f := .below first (.join name first second)) (fun _ _ => rfl)
    ((Source.parse_eq_ok_iff hsecond).1 hys)
  have hends := endsText_mapSpan (.within (.join name first second)) (endsText_of_tokenize hfirst)
  have hends' := endsText_mapSpan (.below first (.join name first second))
    (endsText_of_tokenize hsecond)
  rw [List.map_append] at hxs' hends
  refine (Source.parse_eq_ok_iff htokens).2 ?_
  exact parse_join hends hends' (endsText_of_tokenize htokens) rfl hxs' hys'

theorem tokenize_parse_join_comment :
    let first := "f(1_0, \"a\n\\\"\") / -x // \"not closed".toList
    let second := "\n\nlet y: int = 1 // one\n\ty * 2\n".toList
    let joined : Source := .join "both" first second
    ∃ vs close us xs ys, tokenize ⟨"first", first⟩ = .ok (vs ++ [close])
      ∧ tokenize ⟨"second", second⟩ = .ok us ∧ Source.parse ⟨"first", first⟩ = .ok xs
      ∧ Source.parse ⟨"second", second⟩ = .ok ys ∧ xs.length = 1 ∧ ys.length = 2
      ∧ tokenize joined = .ok (vs.map (·.mapSpan (.within joined))
        ++ Source.seam "both" first second :: us.map (·.mapSpan (.below first joined)))
      ∧ Source.parse joined = .ok (xs.map (Node.mapMark (.within joined))
        ++ ys.map (Node.mapMark (.below first joined))) := by
  have hjoin : ∀ first second : List Char,
      (tokenize ⟨"first", first⟩).toOption.any (fun ts =>
        ts.all fun t => t.kind = .illegal → t.lexeme ≠ "\"") = true →
      (tokenize ⟨"second", second⟩).toOption.any (fun _ => true) = true →
      (Source.parse ⟨"first", first⟩).toOption.any (fun xs => xs.length = 1) = true →
      (Source.parse ⟨"second", second⟩).toOption.any (fun ys => ys.length = 2) = true →
      ∃ vs close us xs ys, tokenize ⟨"first", first⟩ = .ok (vs ++ [close])
        ∧ tokenize ⟨"second", second⟩ = .ok us ∧ Source.parse ⟨"first", first⟩ = .ok xs
        ∧ Source.parse ⟨"second", second⟩ = .ok ys ∧ xs.length = 1 ∧ ys.length = 2
        ∧ tokenize (.join "both" first second)
          = .ok (vs.map (·.mapSpan (.within (.join "both" first second)))
            ++ Source.seam "both" first second
              :: us.map (·.mapSpan (.below first (.join "both" first second))))
        ∧ Source.parse (.join "both" first second)
          = .ok (xs.map (Node.mapMark (.within (.join "both" first second)))
            ++ ys.map (Node.mapMark (.below first (.join "both" first second)))) := by
    intro first second hfirst hsecond hxs hys
    obtain ⟨ts, hts, hall⟩ := exists_ok_of_any hfirst
    obtain ⟨us, hus, -⟩ := exists_ok_of_any hsecond
    obtain ⟨xs, hxs, hlength⟩ := exists_ok_of_any hxs
    obtain ⟨ys, hys, hlength'⟩ := exists_ok_of_any hys
    have hquote : ∀ t ∈ ts, t.kind = .illegal → t.lexeme ≠ "\"" := fun t ht =>
      of_decide_eq_true (List.all_eq_true.1 hall t ht)
    obtain ⟨vs, close, rfl, -, htokens, hscript⟩ := tokenize_parse_join "both" hts hus hquote
    exact ⟨vs, close, us, xs, ys, hts, hus, hxs, hys, of_decide_eq_true hlength,
      of_decide_eq_true hlength', htokens, hscript xs ys hxs hys⟩
  exact hjoin _ _ (by decide +kernel) (by decide +kernel) (by decide +kernel) (by decide +kernel)

end Scoreboard
