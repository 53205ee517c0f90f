import Mathlib
import Scoreboard.Proofs.Marks
import Scoreboard.Proofs.Relocation
import Scoreboard.Proofs.Tokens

/-!
# Places do not matter

Where a token stands in a text, and what the text is called, only shows in the places of
faults. Tokens that differ in nothing but their spans are read as scripts that differ in
nothing but their marks, or are rejected with faults that tell the same. Scripts that differ in
nothing but their marks have the same blocks, or faults that tell the same. For a source this
means that the blanks and comments between its words and its name change nothing
(`outcome_independent_of_spans`).

Both halves compare with a third run from which the spans are gone: all spans are replaced by
one, or all marks by nothing.
-/

namespace Scoreboard

variable {α β : Type}

/-! ## Saying the same -/

/-- Two tokens that differ only in their spans. -/
structure Token.Agrees (t t' : Token) : Prop where
  kind : t.kind = t'.kind
  lexeme : t.lexeme = t'.lexeme

/-- Two faults of one kind that are told in the same words, perhaps at different places. -/
structure Diagnostic.TellsSame (d : Diagnostic α) (d' : Diagnostic β) : Prop where
  kind : d.kind = d'.kind
  details : d.details = d'.details

/-- Two readings that give the same script up to marks, or faults that tell the same. -/
inductive SameReading :
    Except ParseError (Script Span) → Except ParseError (Script Span) → Prop
  | ok {script script' : Script Span} (h : script.map Node.erase = script'.map Node.erase) :
      SameReading (.ok script) (.ok script')
  | error {d d' : Diagnostic Span} (h : d.TellsSame d') :
      SameReading (.error (.diagnosed d)) (.error (.diagnosed d'))

/-- Two generations that finish the same blocks, and fail alike if they fail. -/
structure Generation.Same (g : Generation α) (g' : Generation β) : Prop where
  finished : g.finished = g'.finished
  taken : g.taken = g'.taken
  fault : Option.Rel Diagnostic.TellsSame g.fault g'.fault

/-- Two results of compiling with the same program and the same script up to marks, or with
errors of the same step that tell the same. -/
inductive SameResult : Except CompileError Build → Except CompileError Build → Prop
  | ok {build build' : Build} (hprogram : build.program = build'.program)
      (hscript : build.script.map Node.erase = build'.script.map Node.erase) :
      SameResult (.ok build) (.ok build')
  | scan {e : ScanError} : SameResult (.error (.scan e)) (.error (.scan e))
  | parse {d d' : Diagnostic Span} (h : d.TellsSame d') :
      SameResult (.error (.parse (.diagnosed d))) (.error (.parse (.diagnosed d')))
  | generate {d d' : Diagnostic Span} (h : d.TellsSame d') :
      SameResult (.error (.generate d)) (.error (.generate d'))

/-- Two compilations that finish the same blocks and end alike. -/
structure Compilation.Same (c c' : Compilation) : Prop where
  finished : c.finished = c'.finished
  result : SameResult c.result c'.result

/-! ## Tokens -/

theorem Diagnostic.TellsSame.of_mapPlace {γ : Type} {f : α → γ} {g : β → γ} {d : Diagnostic α}
    {d' : Diagnostic β} (h : d.mapPlace f = d'.mapPlace g) : d.TellsSame d' := by
  have hcause : d.cause = d'.cause := congrArg Diagnostic.cause h
  exact ⟨congrArg Cause.kind hcause, congrArg Cause.details hcause⟩

theorem HasEnd.of_agrees {tokens tokens' : List Token} (hend : HasEnd tokens)
    (h : List.Forall₂ Token.Agrees tokens tokens') : HasEnd tokens' := by
  induction h with
  | nil => exact hend
  | @cons t t' ts ts' ht _ ih =>
    obtain ⟨u, hu, hkind⟩ := hend
    rcases List.mem_cons.1 hu with rfl | hu
    · exact ⟨t', List.mem_cons_self, ht.kind.symm.trans hkind⟩
    · obtain ⟨u', hu', hkind'⟩ := ih ⟨u, hu, hkind⟩
      exact ⟨u', List.mem_cons_of_mem t' hu', hkind'⟩

/-- Tokens that agree are the same if all have one span. -/
theorem map_mapSpan_of_agrees (span : Span) {tokens tokens' : List Token}
    (h : List.Forall₂ Token.Agrees tokens tokens') :
    tokens.map (·.mapSpan fun _ => span) = tokens'.map (·.mapSpan fun _ => span) := by
  induction h with
  | nil => rfl
  | @cons t t' ts ts' ht _ ih =>
    rw [List.map_cons, List.map_cons, ih]
    unfold Token.mapSpan
    rw [ht.kind, ht.lexeme]

theorem parse_of_agrees {tokens tokens' : List Token}
    (h : List.Forall₂ Token.Agrees tokens tokens') (hend : HasEnd tokens) :
    SameReading (parse tokens) (parse tokens') := by
  -- both scripts become the same one when their spans are replaced by one
  have hmerge : ∀ _ _ : Span, (default : Span) = (default : Span).merge default :=
    fun _ _ => rfl
  have hsame := congrArg parse (map_mapSpan_of_agrees default h)
  rw [parse_mapSpan hmerge, parse_mapSpan hmerge] at hsame
  cases hparse : parse tokens with
  | ok script =>
    cases hparse' : parse tokens' with
    | ok script' =>
      rw [hparse, hparse'] at hsame
      have hscripts := congrArg (List.map Node.erase) (Except.ok.inj hsame)
      have herase : Node.erase ∘ Node.mapMark (fun _ : Span => (default : Span)) = Node.erase :=
        funext fun node => node.erase_mapMark _
      rw [List.map_map, List.map_map, herase] at hscripts
      exact .ok hscripts
    | error e' =>
      rw [hparse, hparse'] at hsame
      cases hsame
  | error e =>
    obtain ⟨d, rfl, -⟩ := reported_of_parse hend hparse
    cases hparse' : parse tokens' with
    | ok script' =>
      rw [hparse, hparse'] at hsame
      cases hsame
    | error e' =>
      obtain ⟨d', rfl, -⟩ := reported_of_parse (hend.of_agrees h) hparse'
      rw [hparse, hparse'] at hsame
      have hplaces := ParseError.diagnosed.inj (Except.error.inj hsame)
      exact .error (.of_mapPlace hplaces)

/-! ## Scripts -/

theorem generate_of_erase (space name : Text) (mark : α) (mark' : β)
    {script : Script α} {script' : Script β}
    (h : script.map Node.erase = script'.map Node.erase) :
    (generate space name mark script).Same (generate space name mark' script') := by
  have hleft : generate space name () (script.map Node.erase) = _ :=
    generate_mapMark (f := fun _ => ()) space name mark script
  have hright : generate space name () (script'.map Node.erase) = _ :=
    generate_mapMark (f := fun _ => ()) space name mark' script'
  -- the marks are gone from both runs, and they are the same one
  rw [h, hright] at hleft
  refine ⟨(congrArg Generation.finished hleft).symm, (congrArg Generation.taken hleft).symm, ?_⟩
  have hfault := congrArg Generation.fault hleft
  unfold Generation.mapMark at hfault
  cases hd : (generate space name mark script).fault with
  | none =>
    cases hd' : (generate space name mark' script').fault with
    | none => exact .none
    | some d' =>
      rw [hd, hd'] at hfault
      cases hfault
  | some d =>
    cases hd' : (generate space name mark' script').fault with
    | none =>
      rw [hd, hd'] at hfault
      cases hfault
    | some d' =>
      rw [hd, hd'] at hfault
      exact .some (.of_mapPlace (Option.some.inj hfault).symm)

/-! ## Words -/

/-- The words among the first `n` words, blanks and comments of a text, with the characters
they are spelled by. -/
def Scanner.wordsUpTo : Nat → List Char → List (Word × String)
  | 0, _ => []
  | n + 1, text =>
    match firstWord text with
    | none => []
    | some (k, .gap) => wordsUpTo n (text.drop k)
    | some (k, word) => (word, String.ofList (text.take k)) :: wordsUpTo n (text.drop k)

/-- The words of a source, without the blanks and comments between them. -/
def Source.words (source : Source) : List (Word × String) :=
  Scanner.wordsUpTo source.text.length source.text

/-- The word that a token was read from. -/
def Token.word (t : Token) : Word × String := (.token t.kind, t.lexeme)

theorem agrees_of_map_word {tokens tokens' : List Token}
    (h : tokens.map Token.word = tokens'.map Token.word) :
    List.Forall₂ Token.Agrees tokens tokens' := by
  rw [← List.forall₂_eq_eq_eq, List.forall₂_map_left_iff, List.forall₂_map_right_iff] at h
  refine h.imp fun t t' hword => ?_
  have hkind : Word.token t.kind = .token t'.kind := congrArg Prod.fst hword
  exact ⟨Word.token.inj hkind, congrArg Prod.snd hword⟩

/-- The walk over a source from an offset on leaves the words ahead as its tokens, or it meets
a word that is refused. -/
theorem walks_words {source : Source} {i n : Nat} (hi : i ≤ source.text.length)
    (hn : source.text.length ≤ i + n) :
    (∃ ts, Walks source i ts source.text.length
      ∧ Scanner.wordsUpTo n (source.text.drop i) = ts.map Token.word)
    ∨ ∃ ts j lexeme, Walks source i ts j ∧ Refuses source j
      ∧ (.refused, lexeme) ∈ Scanner.wordsUpTo n (source.text.drop i) := by
  induction n generalizing i with
  | zero =>
    obtain rfl : i = source.text.length := by omega
    exact .inl ⟨[], .refl _, rfl⟩
  | succ n ih =>
    rw [Scanner.wordsUpTo]
    cases hword : Scanner.firstWord (source.text.drop i) with
    | none =>
      -- only the end of the text has no first word
      have hnil : source.text.drop i = [] := by
        cases hdrop : source.text.drop i with
        | nil => rfl
        | cons c rest =>
          obtain ⟨word, hfirst⟩ := Scanner.exists_firstWord c rest
          rw [hdrop, hfirst] at hword
          cases hword
      have hlength : source.text.length ≤ i := List.drop_eq_nil_iff.1 hnil
      obtain rfl : i = source.text.length := by omega
      exact .inl ⟨[], .refl _, rfl⟩
    | some first =>
      obtain ⟨k, word⟩ := first
      have hk := Scanner.firstWord_length hword
      rw [List.length_drop] at hk
      have hrest := ih (i := i + k) (by omega) (by omega)
      rw [← List.drop_drop] at hrest
      cases word with
      | gap =>
        rcases hrest with ⟨ts, hwalk, hwords⟩ | ⟨ts, j, lexeme, hwalk, hrefuses, hmem⟩
        · exact .inl ⟨ts, .gap hword hwalk, hwords⟩
        · exact .inr ⟨ts, j, lexeme, .gap hword hwalk, hrefuses, hmem⟩
      | token kind =>
        rcases hrest with ⟨ts, hwalk, hwords⟩ | ⟨ts, j, lexeme, hwalk, hrefuses, hmem⟩
        · refine .inl ⟨_, .token hword hwalk, ?_⟩
          rw [List.map_cons, ← hwords]
          rfl
        · exact .inr ⟨_, j, lexeme, .token hword hwalk, hrefuses, List.mem_cons_of_mem _ hmem⟩
      -- the walk ends here, whatever the words behind are
      | refused => exact .inr ⟨[], i, _, .refl i, ⟨k, hword⟩, List.mem_cons_self⟩

/-- The words of a source say whether it has tokens, and which ones. -/
theorem tokenize_words (source : Source) :
    (∃ ts, tokenize source = .ok (ts ++ [source.endToken]) ∧ source.words = ts.map Token.word)
    ∨ tokenize source = .error .numeral ∧ ∃ lexeme, (.refused, lexeme) ∈ source.words := by
  have hwords := @walks_words source 0 source.text.length (by omega) (by omega)
  rw [List.drop_zero] at hwords
  rcases hwords with ⟨ts, hwalk, hwords⟩ | ⟨ts, j, lexeme, hwalk, hrefuses, hmem⟩
  · exact .inl ⟨ts, tokenize_eq_ok_iff.2 ⟨ts, hwalk, rfl⟩, hwords⟩
  · exact .inr ⟨tokenize_eq_error_iff.2 ⟨rfl, ts, j, hwalk, hrefuses⟩, lexeme, hmem⟩

theorem tokenize_of_words {source source' : Source} (h : source.words = source'.words) :
    (∃ tokens tokens', tokenize source = .ok tokens ∧ tokenize source' = .ok tokens'
      ∧ List.Forall₂ Token.Agrees tokens tokens')
    ∨ tokenize source = .error .numeral ∧ tokenize source' = .error .numeral := by
  have hread : ∀ (ts : List Token) (lexeme : String),
      (Word.refused, lexeme) ∉ ts.map Token.word := by
    intro ts lexeme hmem
    obtain ⟨t, -, ht⟩ := List.mem_map.1 hmem
    cases congrArg Prod.fst ht
  rcases tokenize_words source with ⟨ts, htokens, hwords⟩ | ⟨herror, lexeme, hmem⟩
  · rcases tokenize_words source' with ⟨ts', htokens', hwords'⟩ | ⟨-, lexeme, hmem⟩
    · refine .inl ⟨_, _, htokens, htokens', agrees_of_map_word ?_⟩
      rw [List.map_append, List.map_append, ← hwords, ← hwords', h]
      rfl
    · rw [← h, hwords] at hmem
      exact (hread ts lexeme hmem).elim
  · rcases tokenize_words source' with ⟨ts', -, hwords'⟩ | ⟨herror', -⟩
    · rw [h, hwords'] at hmem
      exact (hread ts' lexeme hmem).elim
    · exact .inr ⟨herror, herror'⟩

/-! ## Sources -/

/-- Sources whose tokens differ only in their spans are compiled alike. -/
theorem Source.compile_of_agrees (space name : Text) {source source' : Source}
    {tokens tokens' : List Token} (htokens : tokenize source = .ok tokens)
    (htokens' : tokenize source' = .ok tokens')
    (hagrees : List.Forall₂ Token.Agrees tokens tokens') :
    (source.compile space name).Same (source'.compile space name) := by
  unfold Source.compile Source.parse
  rw [htokens, htokens']
  have hread := parse_of_agrees hagrees (endsText_of_tokenize htokens).hasEnd
  dsimp only
  generalize Scoreboard.parse tokens = reading at hread ⊢
  generalize Scoreboard.parse tokens' = reading' at hread ⊢
  cases hread with
  | error hsame => exact ⟨rfl, .parse hsame⟩
  | @ok script script' hscript =>
    have hsame := generate_of_erase space name (Span.whole source) (Span.whole source') hscript
    dsimp only
    generalize generate space name (Span.whole source) script = g at hsame ⊢
    generalize generate space name (Span.whole source') script' = g' at hsame ⊢
    obtain ⟨finished, taken, fault⟩ := g
    obtain ⟨finished', taken', fault'⟩ := g'
    obtain ⟨rfl, -, hfault⟩ := hsame
    cases hfault with
    | none => exact ⟨rfl, .ok rfl hscript⟩
    | some hfault => exact ⟨rfl, .generate hfault⟩

theorem Source.compile_of_words (space name : Text) {source source' : Source}
    (h : source.words = source'.words) :
    (source.compile space name).Same (source'.compile space name) := by
  rcases tokenize_of_words h with ⟨tokens, tokens', htokens, htokens', hagrees⟩ | ⟨herror, herror'⟩
  · exact compile_of_agrees space name htokens htokens' hagrees
  · unfold Source.compile Source.parse
    rw [herror, herror']
    exact ⟨rfl, .scan⟩

/-- Places take no part in what a script means. Tokens that agree in kind and lexeme, with an
end of the text among them, are read alike; scripts that are equal up to their marks are
compiled alike; and sources with the same words are compiled alike, whatever blanks and
comments stand between the words and whatever the sources are called. -/
theorem outcome_independent_of_spans :
    (∀ tokens tokens' : List Token, List.Forall₂ Token.Agrees tokens tokens' → HasEnd tokens →
      SameReading (parse tokens) (parse tokens'))
    ∧ (∀ (α β : Type) (space name : Text) (mark : α) (mark' : β) (script : Script α)
        (script' : Script β), script.map Node.erase = script'.map Node.erase →
      (generate space name mark script).Same (generate space name mark' script'))
    ∧ ∀ (space name : Text) (source source' : Source), source.words = source'.words →
      (source.compile space name).Same (source'.compile space name) := by
  refine ⟨fun tokens tokens' hagrees hend => parse_of_agrees hagrees hend, ?_, ?_⟩
  · intro α β space name mark mark' script script' h
    exact generate_of_erase space name mark mark' h
  · intro space name source source' h
    exact Source.compile_of_words space name h

theorem outcome_independent_of_spans_spaced :
    let source : Source := ⟨"near", "let x=1+2*3\nx=x-y".toList⟩
    let source' : Source := ⟨"far", " let x = 1 + 2*3 // seven\n\tx = x - y // what is y?".toList⟩
    (∃ tokens tokens', tokenize source = .ok tokens ∧ tokenize source' = .ok tokens'
      ∧ SameReading (parse tokens) (parse tokens'))
    ∧ (generate defaultSpace mainName 0 [.define "x" none (.integer 7 1) 2]).Same
      (generate defaultSpace mainName () [.define "x" none (.integer 7 ()) ()])
    ∧ source.words = source'.words
    ∧ (source.compile defaultSpace mainName).Same (source'.compile defaultSpace mainName) := by
  have hread : ∀ source source' : Source, source.words = source'.words →
      (tokenize source).toOption.isSome = true → ∃ tokens tokens', tokenize source = .ok tokens
        ∧ tokenize source' = .ok tokens' ∧ SameReading (parse tokens) (parse tokens') := by
    intro source source' hwords hsome
    rcases tokenize_of_words hwords with ⟨tokens, tokens', htokens, htokens', h⟩ | ⟨herror, -⟩
    · have hend := (endsText_of_tokenize htokens).hasEnd
      exact ⟨tokens, tokens', htokens, htokens', outcome_independent_of_spans.1 _ _ h hend⟩
    · rw [herror] at hsome
      cases hsome
  dsimp only
  refine ⟨hread _ _ (by decide +kernel) (by decide +kernel), ?_, by decide +kernel, ?_⟩
  · exact outcome_independent_of_spans.2.1 _ _ _ _ _ _ _ _ rfl
  · exact outcome_independent_of_spans.2.2 _ _ _ _ (by decide +kernel)

end Scoreboard
