import Mathlib
import Scoreboard.Script.Parser
import Scoreboard.Proofs.Grammar
import Scoreboard.Proofs.Steps

/-!
# Reading is sound

A reader of scripts that succeeds has taken tokens which spell what it returns, in the sense
of the grammar; a reader that fails reports a fault at tokens of the script. This holds
wherever an end of the text lies ahead, which no reader goes past, and it includes that no
allowance of calls is ever used up: an allowance of eight calls for each token, and a few
more for the chain of calls that starts at one token, suffices.

`Reads` puts both halves together, with a rule for sequences of readers. The readers that
call each other are treated together (`ReadersSound`), by induction on the allowance.
-/

namespace Scoreboard

/-! ## Cursors -/

/-- The end of the text stands last, and nowhere else. -/
def EndsText : List Token → Prop
  | [] => False
  | [t] => t.kind = .endOfText
  | t :: next :: rest => t.kind ≠ .endOfText ∧ EndsText (next :: rest)

/-- There is an end of the text. -/
def HasEnd (ts : List Token) : Prop := ∃ t ∈ ts, t.kind = .endOfText

/-- The end of the text is not among the tokens before it. -/
theorem HasEnd.append_right {ts us : List Token} (h : HasEnd (ts ++ us))
    (hts : ∀ t ∈ ts, t.kind ≠ .endOfText) : HasEnd us := by
  obtain ⟨t, ht, hend⟩ := h
  rcases List.mem_append.1 ht with ht | ht
  · exact absurd hend (hts t ht)
  · exact ⟨t, ht, hend⟩

/-- Tokens with their only end last have an end. -/
theorem EndsText.hasEnd {ts : List Token} (h : EndsText ts) : HasEnd ts := by
  induction ts with
  | nil => exact h.elim
  | cons t ts ih =>
    cases ts with
    | nil => exact ⟨t, List.mem_cons_self, h⟩
    | cons next rest =>
      obtain ⟨u, hu, hend⟩ := ih h.2
      exact ⟨u, List.mem_cons_of_mem t hu, hend⟩

/-- What stands behind some tokens ends as they all do. -/
theorem EndsText.append_right {ts : List Token} {t : Token} {us : List Token}
    (h : EndsText (ts ++ t :: us)) : EndsText (t :: us) := by
  induction ts with
  | nil => exact h
  | cons s ts ih =>
    apply ih
    cases ts with
    | nil => exact h.2
    | cons s' ts => exact h.2

/-- The tokens in front of another one do not end the text. -/
theorem EndsText.proper {ts : List Token} {t : Token} {us : List Token}
    (h : EndsText (ts ++ t :: us)) : ∀ s ∈ ts, s.kind ≠ .endOfText := by
  induction ts with
  | nil => intro s hs; cases hs
  | cons first ts ih =>
    have hfirst : first.kind ≠ .endOfText ∧ EndsText (ts ++ t :: us) := by
      cases ts with
      | nil => exact h
      | cons next ts => exact h
    exact List.forall_mem_cons.2 ⟨hfirst.1, ih hfirst.2⟩

namespace Cursor

/-- A cursor has moved over some tokens, none of which ends the text. -/
structure Took (c : Cursor) (ts : List Token) (c' : Cursor) : Prop where
  ahead : c.current :: c.after = ts ++ c'.current :: c'.after
  before : c'.before = ts.reverse ++ c.before
  fromEnd : c'.fromEnd = c.fromEnd
  proper : ∀ t ∈ ts, t.kind ≠ .endOfText

/-- A place counted from the start, with an end of the text ahead. -/
structure Closed (c : Cursor) : Prop where
  fromEnd : c.fromEnd = none
  ends : HasEnd (c.current :: c.after)

variable {c c₁ c₂ : Cursor} {ts us : List Token}

theorem Took.refl (c : Cursor) : c.Took [] c := ⟨rfl, rfl, rfl, fun t ht => by cases ht⟩

theorem Took.trans (h₁ : c.Took ts c₁) (h₂ : c₁.Took us c₂) : c.Took (ts ++ us) c₂ := by
  refine ⟨?_, ?_, h₂.fromEnd.trans h₁.fromEnd, List.forall_mem_append.2 ⟨h₁.proper, h₂.proper⟩⟩
  · rw [h₁.ahead, h₂.ahead, List.append_assoc]
  · rw [h₂.before, h₁.before, List.reverse_append, List.append_assoc]

/-- Moving the cursor keeps the list of tokens. -/
theorem Took.tokens_eq (h : c.Took ts c₁) : c₁.tokens = c.tokens := by
  unfold tokens
  rw [h.ahead, h.before, List.reverse_append, List.reverse_reverse, List.append_assoc]

/-- The tokens taken are tokens of the script. -/
theorem Took.infix (h : c.Took ts c₁) : ts <:+: c.tokens := by
  refine ⟨c.before.reverse, c₁.current :: c₁.after, ?_⟩
  unfold tokens
  rw [h.ahead, List.append_assoc]

/-- Every token that is taken is one less ahead. -/
theorem Took.remaining (h : c.Took ts c₁) : c.remaining = ts.length + c₁.remaining := by
  have hlength := congrArg List.length h.ahead
  simp only [List.length_cons, List.length_append] at hlength
  unfold Cursor.remaining
  omega

theorem Took.remaining_singleton {t : Token} (h : c.Took [t] c₁) :
    c.remaining = 1 + c₁.remaining := h.remaining

theorem current_mem_tokens (c : Cursor) : c.current ∈ c.tokens :=
  List.mem_append_right _ List.mem_cons_self

/-- The first token taken is the one at the place. -/
theorem Took.eq_current {t : Token} (h : c.Took ts c₁) (ht : t ∈ ts.head?) : t = c.current := by
  cases ts with
  | nil => cases ht
  | cons first rest =>
    cases ht
    exact (List.cons.inj h.ahead).1.symm

/-- What was before the place is the last token taken. -/
theorem Took.previous {first : Token} (h : c.Took (first :: ts) c₁) (hc : c.fromEnd = none) :
    c₁.previous = ts.getLastD first := by
  have hbefore : c₁.before.headD c₁.current = ts.getLastD first := by
    rw [h.before, List.reverse_cons]
    cases ts using List.reverseRecOn with
    | nil => rfl
    | append_singleton ts last => simp
  unfold Cursor.previous
  rw [h.fromEnd, hc]
  exact hbefore

/-- The span of the tokens taken. -/
theorem Took.cover {first : Token} (h : c.Took (first :: ts) c₁) (hc : c.fromEnd = none) :
    first.span.merge c₁.previous.span = first.cover ts := by
  rw [h.previous hc]
  rfl

/-- The end of the text stays ahead when other tokens are taken. -/
theorem Closed.took (hc : c.Closed) (h : c.Took ts c₁) : c₁.Closed := by
  refine ⟨h.fromEnd.trans hc.fromEnd, ?_⟩
  have hends := hc.ends
  rw [h.ahead] at hends
  exact hends.append_right h.proper

/-- Going past newlines takes exactly a run of newlines. -/
theorem pastNewlines_spec (before : List Token) (current : Token) (after : List Token)
    (h : HasEnd (current :: after)) :
    ∃ ls, Newlines ls ∧ (pastNewlines before current after).1 = ls.length
      ∧ current :: after = ls ++ (pastNewlines before current after).2.2.1
          :: (pastNewlines before current after).2.2.2
      ∧ (pastNewlines before current after).2.1 = ls.reverse ++ before
      ∧ (pastNewlines before current after).2.2.1.kind ≠ .newline := by
  induction after generalizing before current with
  | nil =>
    refine ⟨[], newlines_nil, rfl, rfl, rfl, ?_⟩
    -- the last token is the end of the text, which stops the run
    obtain ⟨t, ht, hkind⟩ := h
    rw [List.mem_singleton.1 ht] at hkind
    show current.kind ≠ .newline
    rw [hkind]
    simp
  | cons next rest ih =>
    by_cases hnewline : current.kind = .newline
    · have hnext : HasEnd (next :: rest) := by
        change HasEnd ([current] ++ next :: rest) at h
        refine h.append_right (List.forall_mem_singleton.2 ?_)
        rw [hnewline]
        simp
      obtain ⟨ls, hls, hcount, hahead, hbefore, hcurrent⟩ := ih (current :: before) next hnext
      have heq : pastNewlines before current (next :: rest)
          = ((pastNewlines (current :: before) next rest).1 + 1,
            (pastNewlines (current :: before) next rest).2) := by
        rw [pastNewlines, if_pos (by simpa using hnewline)]
      rw [heq]
      refine ⟨current :: ls, List.forall_mem_cons.2 ⟨hnewline, hls⟩, ?_, ?_, ?_, hcurrent⟩
      · rw [hcount, List.length_cons]
      · rw [List.cons_append, ← hahead]
      · rw [hbefore, List.reverse_cons, List.append_assoc]
        rfl
    · have heq : pastNewlines before current (next :: rest)
          = (0, before, current, next :: rest) := by
        rw [pastNewlines, if_neg (by simpa using hnewline)]
      rw [heq]
      exact ⟨[], newlines_nil, rfl, rfl, rfl, hnewline⟩

/-- Any token but the end of the text can be taken. -/
theorem advance_took (hc : c.Closed) (h : c.current.kind ≠ .endOfText) :
    c.Took [c.current] c.advance := by
  have hends := hc.ends
  unfold advance
  split
  · rename_i next rest hafter
    rw [if_neg (by simpa [atEnd] using h)]
    exact ⟨by rw [hafter]; rfl, rfl, rfl, List.forall_mem_singleton.2 h⟩
  · rename_i hafter
    obtain ⟨t, ht, hend⟩ := hends
    rw [hafter] at ht
    rw [List.mem_singleton.1 ht] at hend
    exact (h hend).elim

end Cursor

/-! ## Faults -/

/-- Whether a kind is a fault of reading and not of generating commands. -/
def DiagnosticKind.isSyntax : DiagnosticKind → Bool
  | unknownType => false
  | integerBoundsExceeded => false
  | typeMismatch => false
  | unknownMember => false
  | memberRedeclaration => false
  | divisionByZero => false
  | argumentCountMismatch => false
  | _ => true

/-- A fault of reading, at one or more tokens. -/
def Reported (tokens : List Token) (e : ParseError) : Prop :=
  ∃ d, e = .diagnosed d ∧ d.kind.isSyntax = true ∧ SpanOf tokens d.place

namespace Parser

variable {β γ : Type} {c c' : Cursor}

/-- What a reader does from a place: it takes tokens and returns something that `good` says
of them, or it reports a fault. -/
def Reads (p : Parser β) (c : Cursor) (good : List Token → β → Cursor → Prop) : Prop :=
  Ensures p c (fun x c' => ∃ ts, c.Took ts c' ∧ good ts x c')
    fun e _ => Reported c.tokens e

theorem reads_pure {x : β} {good : List Token → β → Cursor → Prop} (h : good [] x c) :
    Reads (pure x) c good := ⟨[], .refl c, h⟩

/-- The rule of sequence. -/
theorem Reads.bind {p : Parser β} {f : β → Parser γ} {mid : List Token → β → Cursor → Prop}
    {good : List Token → γ → Cursor → Prop} (hp : Reads p c mid) (hc : c.Closed)
    (hf : ∀ ts x c', c.Took ts c' → c'.Closed → mid ts x c' →
      Reads (f x) c' fun us y c'' => good (ts ++ us) y c'') :
    Reads (p >>= f) c good := by
  refine Ensures.bind hp ?_
  rintro x c' ⟨ts, htook, hmid⟩
  refine (hf ts x c' htook (hc.took htook) hmid).mono ?_ ?_
  · rintro y c'' ⟨us, htook', hgood⟩
    exact ⟨ts ++ us, htook.trans htook', hgood⟩
  · intro e _ he
    rwa [htook.tokens_eq] at he

theorem Reads.mono {p : Parser β} {good good' : List Token → β → Cursor → Prop}
    (h : Reads p c good) (hgood : ∀ ts x c', c.Took ts c' → good ts x c' → good' ts x c') :
    Reads p c good' :=
  Ensures.mono h (fun x c' ⟨ts, htook, hx⟩ => ⟨ts, htook, hgood ts x c' htook hx⟩)
    fun _ _ he => he

/-- A report is allowed if it is one of syntax, at a span of the tokens. -/
theorem reads_failAt {cause : Cause} {span : Span} {good : List Token → β → Cursor → Prop}
    (hcause : cause.kind.isSyntax = true) (hspan : SpanOf c.tokens span) :
    Reads (failAt cause span) c good := ⟨⟨cause, span⟩, rfl, hcause, hspan⟩

/-- The current token is one of the tokens. -/
theorem reads_fail {cause : Cause} {good : List Token → β → Cursor → Prop}
    (hcause : cause.kind.isSyntax = true) : Reads (fail cause) c good :=
  ⟨⟨cause, c.current.span⟩, rfl, hcause, .of_mem c.current_mem_tokens⟩

/-! ## Looking at tokens -/

theorem reads_get : Reads get c fun ts x c' => ts = [] ∧ x = c ∧ c' = c :=
  ⟨[], .refl c, rfl, rfl, rfl⟩

theorem reads_set {ts : List Token} (h : c.Took ts c') :
    Reads (set c') c fun us _ c'' => us = ts ∧ c'' = c' :=
  ⟨ts, h, rfl, rfl⟩

theorem reads_peek : Reads peek c fun ts t c' => ts = [] ∧ t = c.current ∧ c' = c :=
  ⟨[], .refl c, rfl, rfl, rfl⟩

theorem reads_previous : Reads previous c fun ts t c' => ts = [] ∧ t = c.previous ∧ c' = c :=
  ⟨[], .refl c, rfl, rfl, rfl⟩

theorem reads_advance (hc : c.Closed) (h : c.current.kind ≠ .endOfText) :
    Reads advance c fun ts t _ => ts = [c.current] ∧ t = c.current := by
  have htook := Cursor.advance_took hc h
  exact ⟨[c.current], htook, rfl, htook.previous hc.fromEnd⟩

/-- An illegal token is reported; any other one is looked at and not taken. -/
theorem reads_legal (hc : c.Closed) :
    Reads legal c fun ts t c' => ts = [] ∧ c' = c ∧ t = c.current ∧ t.kind ≠ .illegal := by
  refine reads_peek.bind hc ?_
  rintro ts t c' - - ⟨rfl, rfl, rfl⟩
  by_cases h : c'.current.kind = .illegal
  · rw [if_pos (by simpa using h)]
    exact (reads_failAt rfl (.of_mem c'.current_mem_tokens)).bind hc fun _ _ _ _ _ h => h
  · rw [if_neg (by simpa using h)]
    exact reads_pure ⟨rfl, rfl, rfl, h⟩

/-- Looking at the kind of a token takes nothing. -/
theorem reads_suspect (hc : c.Closed) (test : TokenKind → Bool) :
    Reads (suspect test) c fun ts b c' => ts = [] ∧ c' = c ∧ b = test c.current.kind := by
  refine (reads_legal hc).bind hc ?_
  rintro ts t c' - - ⟨rfl, rfl, rfl, -⟩
  exact reads_pure ⟨rfl, rfl, rfl⟩

/-- The current token is taken if it is of the kind, and else nothing is. -/
theorem reads_accept (hc : c.Closed) {test : TokenKind → Bool}
    (htest : test .endOfText = false) :
    Reads (accept test) c fun ts b c' => (b = true ∧ test c.current.kind = true
        ∧ ts = [c.current]) ∨ (b = false ∧ test c.current.kind = false ∧ ts = [] ∧ c' = c) := by
  refine (reads_suspect hc test).bind hc ?_
  rintro ts b c' - - ⟨rfl, rfl, rfl⟩
  by_cases h : test c'.current.kind = true
  · rw [if_pos h]
    have hend : c'.current.kind ≠ .endOfText := fun heq => by rw [heq, htest] at h; cases h
    refine (reads_advance hc hend).bind hc ?_
    rintro ts t c'' - - ⟨rfl, -⟩
    exact reads_pure (.inl ⟨rfl, h, rfl⟩)
  · rw [if_neg h]
    exact reads_pure (.inr ⟨rfl, by simpa using h, rfl, rfl⟩)

/-- The current token is taken, and is of the kind. -/
theorem reads_demand (hc : c.Closed) {test : TokenKind → Bool} {cause : Cause}
    (htest : test .endOfText = false) (hcause : cause.kind.isSyntax = true) :
    Reads (demand test cause) c fun ts t _ =>
      ts = [c.current] ∧ t = c.current ∧ test c.current.kind = true := by
  have hexpect : Reads (expect test cause) c fun ts _ c' =>
      ts = [] ∧ c' = c ∧ test c.current.kind = true := by
    refine (reads_suspect hc test).bind hc ?_
    rintro ts b c' - - ⟨rfl, rfl, rfl⟩
    by_cases h : test c'.current.kind = true
    · rw [if_pos h]
      exact reads_peek.mono fun ts t c'' _ ⟨hts, _, hc'⟩ => ⟨hts, hc', h⟩
    · rw [if_neg h]
      exact reads_fail hcause
  refine hexpect.bind hc ?_
  rintro ts t c' - - ⟨rfl, rfl, h⟩
  have hend : c'.current.kind ≠ .endOfText := fun heq => by rw [heq, htest] at h; cases h
  exact (reads_advance hc hend).mono fun ts t c'' _ ⟨hts, ht⟩ => ⟨hts, ht, h⟩

/-- A run of newlines, counted. -/
theorem reads_skipNewlines (hc : c.Closed) :
    Reads skipNewlines c fun ts n c' => Newlines ts ∧ n = ts.length
      ∧ c'.current.kind ≠ .newline := by
  obtain ⟨ls, hls, hcount, hahead, hbefore, hcurrent⟩ :=
    Cursor.pastNewlines_spec c.before c.current c.after hc.ends
  refine reads_get.bind hc ?_
  rintro ts x c' - - ⟨rfl, rfl, rfl⟩
  have htook : c'.Took ls
      { c' with
        before := (Cursor.pastNewlines c'.before c'.current c'.after).2.1
        current := (Cursor.pastNewlines c'.before c'.current c'.after).2.2.1
        after := (Cursor.pastNewlines c'.before c'.current c'.after).2.2.2 } :=
    ⟨hahead, hbefore, rfl, fun t ht => by rw [hls t ht]; simp⟩
  refine (reads_set htook).bind hc ?_
  rintro ts u c'' - hc'' ⟨rfl, rfl⟩
  refine (reads_legal hc'').bind hc'' ?_
  rintro us t c₃ - - ⟨rfl, rfl, -, -⟩
  refine reads_pure ⟨?_, ?_, hcurrent⟩
  · simpa using hls
  · simpa using hcount

/-- The operator at the cursor is given exactly if there is one. -/
theorem reads_operator? (hc : c.Closed) :
    Reads operator? c fun ts o c' => ts = [] ∧ c' = c
      ∧ ∀ op, o = some op ↔ c.current.kind = .operator op := by
  refine (reads_legal hc).bind hc ?_
  rintro ts t c' - - ⟨rfl, rfl, rfl, -⟩
  split
  · rename_i op hop
    exact reads_pure ⟨rfl, rfl, fun op' => by rw [hop]; simp⟩
  · rename_i hop
    exact reads_pure ⟨rfl, rfl, fun op => ⟨fun h => by (cases h), fun h => (hop op h).elim⟩⟩

theorem reads_takeOperator (hc : c.Closed) {op : Operator} (h : c.current.kind = .operator op) :
    Reads takeOperator c fun ts o _ => ts = [c.current] ∧ o = op := by
  refine (reads_advance hc (by rw [h]; simp)).bind hc ?_
  rintro ts t c' - - ⟨rfl, rfl⟩
  rw [h]
  exact reads_pure ⟨rfl, rfl⟩

/-! ## Parameters and types -/

/-- The tokens taken are a colon and a type, or none. -/
theorem reads_typeAfterColon (hc : c.Closed) (role : Role) :
    Reads (typeAfterColon role) c fun ts type _ => TypeTail ts type := by
  refine (reads_accept hc rfl).bind hc ?_
  rintro ts b c₁ htook hc₁ (⟨rfl, hcolon, rfl⟩ | ⟨rfl, -, rfl, rfl⟩)
  · refine (reads_demand hc₁ rfl rfl).bind hc₁ ?_
    rintro ts t c₂ - - ⟨rfl, rfl, htype⟩
    exact reads_pure (.some (eq_of_beq hcolon) (eq_of_beq htype))
  · exact reads_pure .none

/-- A name, a colon and a type are taken, in this order. -/
theorem reads_parameter (hc : c.Closed) :
    Reads parameter c fun ts p _ => ∃ name colon type, ts = [name, colon, type]
      ∧ name.kind = .identifier ∧ colon.kind = .colon ∧ type.kind = .identifier
      ∧ p = ⟨name.lexeme, type.lexeme, name.span.merge type.span⟩ := by
  refine (reads_demand hc rfl rfl).bind hc ?_
  rintro ts name c₁ - hc₁ ⟨rfl, rfl, hname⟩
  refine (reads_demand hc₁ rfl rfl).bind hc₁ ?_
  rintro ts colon c₂ - hc₂ ⟨rfl, rfl, hcolon⟩
  refine (reads_demand hc₂ rfl rfl).bind hc₂ ?_
  rintro ts type c₃ - - ⟨rfl, rfl, htype⟩
  exact reads_pure ⟨_, _, _, rfl, eq_of_beq hname, eq_of_beq hcolon, eq_of_beq htype, rfl⟩

/-- By induction on the allowance; every parameter takes tokens, so it suffices. -/
theorem reads_moreParameters {n : Nat} (hc : c.Closed) (hn : c.remaining < n) :
    Reads (moreParameters n) c fun ts ps _ => ParameterTail ts ps := by
  induction n generalizing c with
  | zero => omega
  | succ n ih =>
    refine (reads_parameter hc).bind hc ?_
    rintro ts p c₁ htook hc₁ ⟨name, colon, type, rfl, hname, hcolon, htype, rfl⟩
    refine (reads_accept hc₁ rfl).bind hc₁ ?_
    rintro ts b c₂ htook₂ hc₂ (⟨rfl, hcomma, rfl⟩ | ⟨rfl, -, rfl, rfl⟩)
    · have hlt : c₂.remaining < n := by
        have h₁ := htook.remaining
        have h₂ := htook₂.remaining
        simp only [List.length_cons, List.length_nil] at h₁ h₂
        omega
      refine (ih hc₂ hlt).bind hc₂ ?_
      intro ts ps c₃ _ _ hmore
      refine reads_pure ?_
      simpa using ParameterTail.more hname hcolon htype (eq_of_beq hcomma) hmore
    · refine (reads_demand hc₁ rfl rfl).bind hc₁ ?_
      rintro ts close c₃ - - ⟨rfl, rfl, hclose⟩
      exact reads_pure (.last hname hcolon htype (eq_of_beq hclose))

theorem reads_parameters {n : Nat} (hc : c.Closed) (hn : c.remaining < n) :
    Reads (parameters n) c fun ts ps _ => ParameterList ts ps := by
  refine (reads_accept hc rfl).bind hc ?_
  rintro ts b c₁ - - (⟨rfl, hclose, rfl⟩ | ⟨rfl, -, rfl, rfl⟩)
  · exact reads_pure (.none (eq_of_beq hclose))
  · exact (reads_moreParameters hc hn).mono fun ts ps _ _ h => .some h

/-! ## Bodies and their ends -/

/-- A body ends with its brace; else a fault is reported, perhaps the one of an earlier
statement. -/
theorem reads_closeBlock (hc : c.Closed) {nodes : List (Node Span)}
    {failed : Option (Diagnostic Span)}
    (hfailed : ∀ d ∈ failed, Reported c.tokens (.diagnosed d)) :
    Reads (closeBlock nodes failed) c fun ts x _ => x = nodes
      ∧ ∃ close, ts = [close] ∧ close.kind = .rightBrace := by
  refine (reads_accept hc rfl).bind hc ?_
  rintro ts b c₁ - - (⟨rfl, hclose, rfl⟩ | ⟨rfl, -, rfl, rfl⟩)
  · exact reads_pure ⟨rfl, _, rfl, eq_of_beq hclose⟩
  · refine reads_get.bind hc ?_
    rintro ts x c₂ - - ⟨rfl, rfl, rfl⟩
    by_cases hend : c₂.atEnd = true
    · rw [if_pos hend]
      exact (reads_fail rfl).bind hc fun _ _ _ _ _ h => h
    · rw [if_neg hend]
      cases failed with
      | none => exact reads_fail rfl
      | some d => exact hfailed d rfl

/-- A reader that fails is taken back, with the fault that it reported. -/
theorem reads_attempt {p : Parser β} {good : List Token → β → Cursor → Prop}
    (h : Reads p c good) :
    Reads (attempt p) c fun ts result c' => match result with
      | .ok x => good ts x c'
      | .error d => ts = [] ∧ c' = c ∧ Reported c.tokens (.diagnosed d) := by
  unfold Reads Ensures at h ⊢
  unfold attempt
  cases hp : p c with
  | ok x c' =>
    rw [hp] at h
    exact h
  | error e c' =>
    rw [hp] at h
    obtain ⟨d, rfl, hkind, hspan⟩ := h
    exact ⟨[], .refl c, rfl, rfl, d, rfl, hkind, hspan⟩

/-! ## Readers that call each other -/

/-- No operator of a level stands at the place. -/
def Below (least : Nat) (c : Cursor) : Prop :=
  ∀ op, c.current.kind = .operator op → op.precedence < least

/-- The tokens of a phrase in front of a place; if the phrase is greedy, no operator stands
there. -/
def DerivesTo (ts : List Token) (phrase : Bool → Phrase) (c : Cursor) : Prop :=
  ∃ greedy, Derives ts (phrase greedy) ∧ (greedy = true → Below 1 c)

/-- A phrase in front of an operator is not greedy. -/
theorem DerivesTo.of_operator {ts : List Token} {phrase : Bool → Phrase} {op : Operator}
    (h : DerivesTo ts phrase c) (hop : c.current.kind = .operator op) :
    Derives ts (phrase false) := by
  obtain ⟨greedy, hderives, hbelow⟩ := h
  cases greedy with
  | false => exact hderives
  | true =>
    have hlt := hbelow rfl op hop
    have hpos : 0 < op.precedence := by cases op <;> decide
    omega

/-- A phrase that is not greedy may be followed by anything. -/
theorem DerivesTo.of_closed {ts : List Token} {phrase : Bool → Phrase}
    (h : Derives ts (phrase false)) (c : Cursor) : DerivesTo ts phrase c :=
  ⟨false, h, fun hfalse => by cases hfalse⟩

/-- All readers are sound with an allowance of `n` calls, if that is enough for the tokens
ahead. The numbers say how long a chain of calls can get before a token is taken. -/
structure ReadersSound (n : Nat) : Prop where
  statement {c : Cursor} (hc : c.Closed) (hn : 8 * c.remaining + 3 ≤ n) :
    Reads (statement n) c fun ts node c' => DerivesTo ts (.statement · node) c'
  declaration {c : Cursor} (hc : c.Closed) (hn : 8 * c.remaining + 1 ≤ n)
    (hopening : c.current.kind = .keyword .declare) :
    Reads (declaration n) c fun ts node c' => DerivesTo ts (.statement · node) c'
  functionDeclaration {c : Cursor} (hc : c.Closed) (hn : 8 * c.remaining + 1 ≤ n)
    (hopening : c.current.kind = .keyword .function) :
    Reads (functionDeclaration n) c fun ts node c' => DerivesTo ts (.statement · node) c'
  rawCode {c : Cursor} (hc : c.Closed) (hn : 8 * c.remaining + 1 ≤ n)
    (hopening : c.current.kind = .keyword .raw) :
    Reads (rawCode n) c fun ts node c' => DerivesTo ts (.statement · node) c'
  block {c : Cursor} (hc : c.Closed) (hn : 8 * c.remaining + 1 ≤ n) :
    Reads (block n) c fun ts nodes _ => Derives ts (.block nodes)
  blockRest {c : Cursor} (hc : c.Closed) (hn : 8 * c.remaining + 1 ≤ n) :
    Reads (blockRest n) c fun ts result _ => Derives ts (.blockTail result.1)
      ∧ ∀ d ∈ result.2, Reported c.tokens (.diagnosed d)
  climb {c : Cursor} {least : Nat} (hc : c.Closed) (hn : 8 * c.remaining + 2 ≤ n) :
    Reads (climb n least) c fun ts node c' => DerivesTo ts (.expression · least node) c'
      ∧ Below least c'
  climbRest {c : Cursor} {least : Nat} {ls : List Token} {left : Node Span} (hc : c.Closed)
    (hn : 8 * c.remaining + 1 ≤ n) (hleft : DerivesTo ls (.expression · least left) c)
    (hnext : ∀ op, c.current.kind = .operator op →
      Derives ls (.expression false op.precedence left)) :
    Reads (climbRest n least left) c fun ts node c' =>
      DerivesTo (ls ++ ts) (.expression · least node) c' ∧ Below least c'
  atom {c : Cursor} (hc : c.Closed) (hn : 8 * c.remaining + 1 ≤ n) :
    Reads (atom n) c fun ts node c' => DerivesTo ts (.atom · node) c'
  nameRest {c : Cursor} {name : Token} (hc : c.Closed) (hn : 8 * c.remaining + 1 ≤ n)
    (hname : name.kind = .identifier) :
    Reads (nameRest n name) c fun ts node c' => DerivesTo (name :: ts) (.atom · node) c'
  arguments {c : Cursor} (hc : c.Closed) (hn : 8 * c.remaining + 4 ≤ n) :
    Reads (arguments n) c fun ts nodes _ => Derives ts (.arguments nodes)
  moreArguments {c : Cursor} (hc : c.Closed) (hn : 8 * c.remaining + 3 ≤ n) :
    Reads (moreArguments n) c fun ts nodes _ => Derives ts (.argumentTail nodes)

section
variable {n : Nat} (h : ReadersSound n)
include h

/-- A statement, by the kind of its first token. -/
theorem statement_succ (hc : c.Closed) (hn : 8 * c.remaining + 3 ≤ n + 1) :
    Reads (statement (n + 1)) c fun ts node c' => DerivesTo ts (.statement · node) c' := by
  rw [statement]
  refine (reads_legal hc).bind hc ?_
  rintro ts t c' - - ⟨rfl, rfl, rfl, -⟩
  split
  · rename_i hopening
    exact h.declaration hc (by omega) hopening
  · rename_i hopening
    exact h.functionDeclaration hc (by omega) hopening
  · rename_i hopening
    exact h.rawCode hc (by omega) hopening
  · refine (h.climb hc (by omega)).mono ?_
    rintro ts node c' - ⟨⟨greedy, hnode, -⟩, hbelow⟩
    exact ⟨true, .plain hnode, fun _ => hbelow⟩

/-- An expression starts with an operand, and ends where no operator of its level goes on. -/
theorem climb_succ {least : Nat} (hc : c.Closed) (hn : 8 * c.remaining + 2 ≤ n + 1) :
    Reads (climb (n + 1) least) c fun ts node c' => DerivesTo ts (.expression · least node) c'
      ∧ Below least c' := by
  rw [climb]
  refine (h.atom hc (by omega)).bind hc ?_
  intro ts first c₁ htook hc₁ hfirst
  obtain ⟨greedy, hatom, hbelow⟩ := id hfirst
  have hpos := List.length_pos_of_ne_nil (hatom.ne_nil trivial)
  have hremaining := htook.remaining
  exact h.climbRest hc₁ (by omega) ⟨greedy, .operand least hatom, hbelow⟩
    fun op hop => .operand _ (hfirst.of_operator hop)

/-- The invariant is that what was read so far derives a left operand of the next operator. -/
theorem climbRest_succ {least : Nat} {ls : List Token} {left : Node Span} (hc : c.Closed)
    (hn : 8 * c.remaining + 1 ≤ n + 1) (hleft : DerivesTo ls (.expression · least left) c)
    (hnext : ∀ op, c.current.kind = .operator op →
      Derives ls (.expression false op.precedence left)) :
    Reads (climbRest (n + 1) least left) c fun ts node c' =>
      DerivesTo (ls ++ ts) (.expression · least node) c' ∧ Below least c' := by
  rw [climbRest]
  refine (reads_operator? hc).bind hc ?_
  rintro ts o c' - - ⟨rfl, rfl, ho⟩
  cases o with
  | none =>
    refine reads_pure ⟨by simpa using hleft, fun op hop => ?_⟩
    cases (ho op).2 hop
  | some op =>
    have hop := (ho op).1 rfl
    simp only
    by_cases hleast : op.precedence < least
    · rw [if_pos hleast]
      refine reads_pure ⟨by simpa using hleft, fun op' hop' => ?_⟩
      have heq := (ho op').2 hop'
      cases heq
      exact hleast
    · rw [if_neg hleast]
      refine (reads_takeOperator hc hop).bind hc ?_
      rintro ts taken c₁ htook₁ hc₁ ⟨rfl, rfl⟩
      have h₁ := htook₁.remaining_singleton
      refine (h.climb hc₁ (by omega)).bind hc₁ ?_
      rintro us right c₂ htook₂ hc₂ ⟨⟨greedy, hright, hgreedy⟩, hbelow⟩
      have h₂ := htook₂.remaining
      -- what was read is an expression of the level of the operator, and of every lower one
      have hbinary : ∀ level, level ≤ taken.precedence → DerivesTo (ls ++ c'.current :: us)
          (.expression · level (.binary taken left right (left.mark.merge right.mark))) c₂ :=
        fun level hlevel => ⟨greedy, .binary (hnext taken hop) hop hright hlevel, hgreedy⟩
      have hrest := h.climbRest hc₂ (by omega) (hbinary least (by omega)) fun op' hop' =>
        have hlevel : op'.precedence ≤ taken.precedence := Nat.le_of_lt_succ (hbelow op' hop')
        (hbinary op'.precedence hlevel).of_operator hop'
      exact hrest.mono fun vs node c₃ _ hnode => by simpa using hnode

theorem declaration_succ (hc : c.Closed) (hn : 8 * c.remaining + 1 ≤ n + 1)
    (hopening : c.current.kind = .keyword .declare) :
    Reads (declaration (n + 1)) c fun ts node c' => DerivesTo ts (.statement · node) c' := by
  rw [declaration]
  refine (reads_advance hc (by rw [hopening]; simp)).bind hc ?_
  rintro ts opening c₁ htook₁ hc₁ ⟨rfl, rfl⟩
  refine (reads_demand hc₁ rfl rfl).bind hc₁ ?_
  rintro ts name c₂ htook₂ hc₂ ⟨rfl, rfl, hname⟩
  refine (reads_typeAfterColon hc₂ .variable).bind hc₂ ?_
  intro typing type c₃ htook₃ hc₃ htype
  have htook := htook₁.trans (htook₂.trans htook₃)
  refine (reads_accept hc₃ rfl).bind hc₃ ?_
  rintro ts b c₄ htook₄ hc₄ (⟨rfl, hequals, rfl⟩ | ⟨rfl, -, rfl, rfl⟩)
  · have hremaining := (htook.trans htook₄).remaining
    simp only [List.length_append, List.length_singleton] at hremaining
    refine (h.statement hc₄ (by omega)).bind hc₄ ?_
    rintro ts value c₅ htook₅ hc₅ ⟨greedy, hvalue, hbelow⟩
    refine reads_previous.bind hc₅ ?_
    rintro us last c₆ - - ⟨rfl, rfl, rfl⟩
    refine reads_pure ⟨greedy, ?_, hbelow⟩
    rw [((htook.trans htook₄).trans htook₅).cover hc.fromEnd]
    simpa using Derives.define hopening (eq_of_beq hname) htype (eq_of_beq hequals) hvalue
  · cases htype with
    | none => exact (reads_fail rfl).bind hc₃ fun _ _ _ _ _ h => h
    | some hcolon htype =>
      refine reads_previous.bind hc₃ ?_
      rintro us last c₆ - - ⟨rfl, rfl, rfl⟩
      refine reads_pure (DerivesTo.of_closed ?_ _)
      rw [htook.cover hc.fromEnd]
      exact (.declare hopening (eq_of_beq hname) hcolon htype)

theorem functionDeclaration_succ (hc : c.Closed) (hn : 8 * c.remaining + 1 ≤ n + 1)
    (hopening : c.current.kind = .keyword .function) :
    Reads (functionDeclaration (n + 1)) c fun ts node c' =>
      DerivesTo ts (.statement · node) c' := by
  rw [functionDeclaration]
  refine (reads_advance hc (by rw [hopening]; simp)).bind hc ?_
  rintro ts opening c₁ htook₁ hc₁ ⟨rfl, rfl⟩
  refine (reads_demand hc₁ rfl rfl).bind hc₁ ?_
  rintro ts name c₂ htook₂ hc₂ ⟨rfl, rfl, hname⟩
  refine (reads_demand hc₂ rfl rfl).bind hc₂ ?_
  rintro ts paren c₃ htook₃ hc₃ ⟨rfl, rfl, hparen⟩
  have htook := htook₁.trans (htook₂.trans htook₃)
  have hremaining := htook.remaining
  simp only [List.length_append, List.length_singleton] at hremaining
  refine (reads_parameters hc₃ (by omega)).bind hc₃ ?_
  intro params parameters c₄ htook₄ hc₄ hparams
  refine (reads_typeAfterColon hc₄ .result).bind hc₄ ?_
  intro typing result c₅ htook₅ hc₅ htype
  have h₄ := htook₄.remaining
  have h₅ := htook₅.remaining
  refine (h.block hc₅ (by omega)).bind hc₅ ?_
  intro ts body c₆ htook₆ hc₆ hbody
  refine reads_previous.bind hc₆ ?_
  rintro us last c₇ - - ⟨rfl, rfl, rfl⟩
  refine reads_pure (DerivesTo.of_closed ?_ _)
  rw [(htook.trans (htook₄.trans (htook₅.trans htook₆))).cover hc.fromEnd]
  simpa using Derives.function hopening (eq_of_beq hname) (eq_of_beq hparen) hparams htype hbody

theorem rawCode_succ (hc : c.Closed) (hn : 8 * c.remaining + 1 ≤ n + 1)
    (hopening : c.current.kind = .keyword .raw) :
    Reads (rawCode (n + 1)) c fun ts node c' => DerivesTo ts (.statement · node) c' := by
  rw [rawCode]
  refine (reads_advance hc (by rw [hopening]; simp)).bind hc ?_
  rintro ts opening c₁ htook₁ hc₁ ⟨rfl, rfl⟩
  have h₁ := htook₁.remaining_singleton
  refine (h.climb hc₁ (by omega)).bind hc₁ ?_
  rintro ts node c₂ htook₂ hc₂ ⟨⟨greedy, hnode, -⟩, hbelow⟩
  split
  · refine reads_pure ⟨true, ?_, fun _ => hbelow⟩
    simpa using Derives.raw hopening hnode
  · -- the fault covers the expression that stands in place of the text
    have hspan : SpanOf ts node.mark := 
      (hnode.sound node (Node.mem_trees.2 ⟨node, List.mem_singleton_self _, node.self_mem_tree⟩)).1
    refine reads_failAt rfl ?_
    rw [htook₂.tokens_eq]
    exact hspan.mono htook₂.infix

/-- A body in braces, empty or with a first statement. -/
theorem block_succ (hc : c.Closed) (hn : 8 * c.remaining + 1 ≤ n + 1) :
    Reads (block (n + 1)) c fun ts nodes _ => Derives ts (.block nodes) := by
  rw [block]
  refine (reads_demand hc rfl rfl).bind hc ?_
  rintro ts brace c₁ htook₁ hc₁ ⟨rfl, rfl, hbrace⟩
  have h₁ := htook₁.remaining_singleton
  refine (reads_skipNewlines hc₁).bind hc₁ ?_
  rintro ls count c₂ htook₂ hc₂ ⟨hlines, -, -⟩
  have h₂ := htook₂.remaining
  refine (reads_suspect hc₂ _).bind hc₂ ?_
  rintro ts b c₃ - - ⟨rfl, rfl, -⟩
  -- an empty body ends in the same way whether the brace or the end of the text comes first
  have hempty : Reads (closeBlock [] none) c₃ fun us nodes _ =>
      Derives ([c.current] ++ (ls ++ us)) (.block nodes) := by
    refine (reads_closeBlock hc₂ (fun d hd => by cases hd)).mono ?_
    rintro us nodes c₄ - ⟨rfl, close, rfl, hclose⟩
    exact .emptyBlock (eq_of_beq hbrace) hlines hclose
  split
  · exact hempty
  · refine reads_get.bind hc₂ ?_
    rintro ts x c₄ - - ⟨rfl, rfl, rfl⟩
    split
    · exact hempty
    · refine (h.statement hc₂ (by omega)).bind hc₂ ?_
      rintro ts first c₅ htook₅ hc₅ ⟨greedy, hfirst, -⟩
      have h₅ := htook₅.remaining
      refine (h.blockRest hc₅ (by omega)).bind hc₅ ?_
      rintro us ⟨rest, failed⟩ c₆ htook₆ hc₆ ⟨hrest, hfailed⟩
      rw [← htook₆.tokens_eq] at hfailed
      refine (reads_closeBlock hc₆ hfailed).mono ?_
      rintro vs nodes c₇ - ⟨rfl, close, rfl, hclose⟩
      simpa using Derives.someBlock (eq_of_beq hbrace) hlines hfirst hrest hclose

/-- The further statements of a body; a fault among them is kept, for the case that the body
does not end there. -/
theorem blockRest_succ (hc : c.Closed) (hn : 8 * c.remaining + 1 ≤ n + 1) :
    Reads (blockRest (n + 1)) c fun ts result _ => Derives ts (.blockTail result.1)
      ∧ ∀ d ∈ result.2, Reported c.tokens (.diagnosed d) := by
  rw [blockRest]
  refine (reads_skipNewlines hc).bind hc ?_
  rintro ls count c₁ htook₁ hc₁ ⟨hlines, rfl, -⟩
  have h₁ := htook₁.remaining
  by_cases hsome : ls.length = 0
  · rw [if_pos hsome]
    refine reads_pure ⟨?_, fun d hd => by cases hd⟩
    simpa using Derives.blockEnd hlines
  · rw [if_neg hsome]
    refine (reads_attempt (h.statement hc₁ (by omega))).bind hc₁ ?_
    intro ts result c₂ htook₂ hc₂ hresult
    cases result with
    | error d =>
      obtain ⟨rfl, rfl, hd⟩ := hresult
      rw [htook₁.tokens_eq] at hd
      refine reads_pure ⟨?_, fun d' hd' => by cases hd'; exact hd⟩
      simpa using Derives.blockEnd hlines
    | ok next =>
      have h₂ := htook₂.remaining
      refine (h.blockRest hc₂ (by omega)).bind hc₂ ?_
      rintro us ⟨rest, failed⟩ c₃ - - ⟨hrest, hfailed⟩
      rw [htook₂.tokens_eq, htook₁.tokens_eq] at hfailed
      refine reads_pure ⟨?_, hfailed⟩
      have hls : ls ≠ [] := fun heq => hsome (by rw [heq, List.length_nil])
      obtain ⟨greedy, hnext, -⟩ := hresult
      simpa using Derives.blockNext hlines hls hnext hrest

/-- An operand, by the kind of its first token. -/
theorem atom_succ (hc : c.Closed) (hn : 8 * c.remaining + 1 ≤ n + 1) :
    Reads (atom (n + 1)) c fun ts node c' => DerivesTo ts (.atom · node) c' := by
  rw [atom]
  refine (reads_legal hc).bind hc ?_
  rintro ts t c' - - ⟨rfl, rfl, rfl, -⟩
  split
  · rename_i value hkind
    refine (reads_advance hc (by rw [hkind]; simp)).bind hc ?_
    rintro ts t c₁ - - ⟨rfl, -⟩
    exact reads_pure (DerivesTo.of_closed (.integer hkind) _)
  · rename_i value hkind
    refine (reads_advance hc (by rw [hkind]; simp)).bind hc ?_
    rintro ts t c₁ - - ⟨rfl, -⟩
    exact reads_pure (DerivesTo.of_closed (.string hkind) _)
  · rename_i hkind
    refine (reads_advance hc (by rw [hkind]; simp)).bind hc ?_
    rintro ts t c₁ htook₁ hc₁ ⟨rfl, -⟩
    have h₁ := htook₁.remaining_singleton
    exact h.nameRest hc₁ (by omega) hkind
  · rename_i hkind
    refine (reads_advance hc (by rw [hkind]; simp)).bind hc ?_
    rintro ts t c₁ htook₁ hc₁ ⟨rfl, -⟩
    have h₁ := htook₁.remaining_singleton
    refine (h.climb hc₁ (by omega)).bind hc₁ ?_
    rintro ts inner c₂ - hc₂ ⟨⟨greedy, hinner, -⟩, -⟩
    refine (reads_demand hc₂ rfl rfl).bind hc₂ ?_
    rintro us close c₃ - - ⟨rfl, rfl, hclose⟩
    exact reads_pure (DerivesTo.of_closed (.group hkind hinner (eq_of_beq hclose)) _)
  · rename_i hkind
    refine (reads_advance hc (by rw [hkind]; simp)).bind hc ?_
    rintro ts t c₁ htook₁ hc₁ ⟨rfl, -⟩
    have h₁ := htook₁.remaining_singleton
    refine reads_peek.bind hc₁ ?_
    rintro ts next c₂ - - ⟨rfl, rfl, rfl⟩
    split
    · rename_i value hvalue
      refine (reads_advance hc₁ (by rw [hvalue]; simp)).bind hc₁ ?_
      rintro ts t c₃ - - ⟨rfl, -⟩
      exact reads_pure (DerivesTo.of_closed (.negative hkind hvalue) _)
    · rename_i hvalue
      refine (h.atom hc₁ (by omega)).bind hc₁ ?_
      rintro ts operand c₃ htook₃ - ⟨greedy, hoperand, hbelow⟩
      -- a minus in front of an integer was taken with it, so the operand starts with no integer
      have hfirst : ∀ t ∈ ts.head?, ∀ n, t.kind ≠ .integer n := by
        intro t ht n
        rw [htook₃.eq_current ht]
        exact hvalue n
      refine reads_pure ⟨greedy, ?_, hbelow⟩
      simpa using Derives.negate hkind hoperand hfirst
  · exact reads_fail rfl

/-- What follows a name makes it an assignment, a call or an access. -/
theorem nameRest_succ {name : Token} (hc : c.Closed) (hn : 8 * c.remaining + 1 ≤ n + 1)
    (hname : name.kind = .identifier) :
    Reads (nameRest (n + 1) name) c fun ts node c' =>
      DerivesTo (name :: ts) (.atom · node) c' := by
  rw [nameRest]
  refine (reads_accept hc rfl).bind hc ?_
  rintro ts b c₁ htook₁ hc₁ (⟨rfl, hequals, rfl⟩ | ⟨rfl, -, rfl, rfl⟩)
  · have h₁ := htook₁.remaining_singleton
    refine (h.statement hc₁ (by omega)).bind hc₁ ?_
    rintro ts value c₂ - - ⟨greedy, hvalue, hbelow⟩
    refine reads_pure ⟨greedy, ?_, hbelow⟩
    simpa using Derives.assign hname (eq_of_beq hequals) hvalue
  · refine (reads_accept hc rfl).bind hc ?_
    rintro ts b c₁ htook₁ hc₁ (⟨rfl, hparen, rfl⟩ | ⟨rfl, -, rfl, rfl⟩)
    · have h₁ := htook₁.remaining_singleton
      refine (h.arguments hc₁ (by omega)).bind hc₁ ?_
      intro ts nodes c₂ htook₂ hc₂ hnodes
      refine reads_previous.bind hc₂ ?_
      rintro us last c₃ - - ⟨rfl, rfl, rfl⟩
      refine reads_pure (DerivesTo.of_closed ?_ _)
      rw [(htook₁.trans htook₂).previous hc.fromEnd]
      have hcall := Derives.call hname (eq_of_beq hparen) hnodes
      unfold Token.cover at hcall
      rw [List.getLastD_cons] at hcall
      simpa using hcall
    · exact reads_pure (DerivesTo.of_closed (.access hname) _)

theorem arguments_succ (hc : c.Closed) (hn : 8 * c.remaining + 4 ≤ n + 1) :
    Reads (arguments (n + 1)) c fun ts nodes _ => Derives ts (.arguments nodes) := by
  rw [arguments]
  refine (reads_accept hc rfl).bind hc ?_
  rintro ts b c₁ - - (⟨rfl, hclose, rfl⟩ | ⟨rfl, -, rfl, rfl⟩)
  · exact reads_pure (.noArguments (eq_of_beq hclose))
  · exact (h.moreArguments hc (by omega)).mono fun ts nodes _ _ hnodes => .someArguments hnodes

theorem moreArguments_succ (hc : c.Closed) (hn : 8 * c.remaining + 3 ≤ n + 1) :
    Reads (moreArguments (n + 1)) c fun ts nodes _ => Derives ts (.argumentTail nodes) := by
  rw [moreArguments]
  refine (h.climb hc (by omega)).bind hc ?_
  rintro ts first c₁ htook₁ hc₁ ⟨⟨greedy, hfirst, -⟩, -⟩
  have h₁ := htook₁.remaining
  refine (reads_accept hc₁ rfl).bind hc₁ ?_
  rintro us b c₂ htook₂ hc₂ (⟨rfl, hcomma, rfl⟩ | ⟨rfl, -, rfl, rfl⟩)
  · have h₂ := htook₂.remaining_singleton
    refine (h.moreArguments hc₂ (by omega)).bind hc₂ ?_
    intro us rest c₃ _ _ hrest
    refine reads_pure ?_
    simpa using Derives.nextArgument hfirst (eq_of_beq hcomma) hrest
  · refine (reads_demand hc₁ rfl rfl).bind hc₁ ?_
    rintro us close c₃ - - ⟨rfl, rfl, hclose⟩
    exact reads_pure (.lastArgument hfirst (eq_of_beq hclose))

end

/-- By induction on the allowance, for all readers that call each other together. -/
theorem readersSound (n : Nat) : ReadersSound n := by
  induction n with
  | zero => constructor <;> intros <;> omega
  | succ n ih =>
    exact {
      statement := statement_succ ih
      declaration := declaration_succ ih
      functionDeclaration := functionDeclaration_succ ih
      rawCode := rawCode_succ ih
      block := block_succ ih
      blockRest := blockRest_succ ih
      climb := climb_succ ih
      climbRest := climbRest_succ ih
      atom := atom_succ ih
      nameRest := nameRest_succ ih
      arguments := arguments_succ ih
      moreArguments := moreArguments_succ ih }

/-! ## Scripts -/

/-- The statements up to the end of the text, with newlines between them. -/
theorem reads_statements {n : Nat} (hc : c.Closed) (hn : 8 * c.remaining + 4 ≤ n) :
    Reads (statements n) c fun ts script c' => Derives ts (.lines script)
      ∧ c'.current.kind = .endOfText := by
  induction n generalizing c with
  | zero => omega
  | succ n ih =>
    rw [statements]
    refine reads_get.bind hc ?_
    rintro ts x c' - - ⟨rfl, rfl, rfl⟩
    split
    · rename_i hend
      exact reads_pure ⟨.noLine, by simpa [Cursor.atEnd] using hend⟩
    · refine ((readersSound n).statement hc (by omega)).bind hc ?_
      rintro ts first c₁ htook₁ hc₁ ⟨greedy, hfirst, -⟩
      have h₁ := htook₁.remaining
      refine reads_get.bind hc₁ ?_
      rintro us x c₂ - - ⟨rfl, rfl, rfl⟩
      split
      · rename_i hend
        refine reads_pure ⟨?_, by simpa [Cursor.atEnd] using hend⟩
        simpa using Derives.lastLine hfirst
      · refine (reads_skipNewlines hc₁).bind hc₁ ?_
        rintro ls count c₃ htook₃ hc₃ ⟨hlines, rfl, -⟩
        have h₃ := htook₃.remaining
        split
        · exact (reads_fail rfl).bind hc₃ fun _ _ _ _ _ h => h
        · rename_i hsome
          have hls : ls ≠ [] := fun heq => hsome (by rw [heq, List.length_nil])
          have hpos := List.length_pos_of_ne_nil hls
          refine (ih hc₃ (by omega)).bind hc₃ ?_
          rintro us rest c₄ - - ⟨hrest, hend⟩
          refine reads_pure ⟨?_, hend⟩
          simpa using Derives.nextLine hfirst hlines hls hrest

/-- A script may start with newlines. -/
theorem reads_script (hc : c.Closed) :
    Reads script c fun ts script c' => c'.current.kind = .endOfText
      ∧ ∃ ls us, ts = ls ++ us ∧ Newlines ls ∧ Derives us (.lines script) := by
  refine (reads_skipNewlines hc).bind hc ?_
  rintro ls count c₁ - hc₁ ⟨hlines, -, -⟩
  refine reads_get.bind hc₁ ?_
  rintro ts x c₂ - - ⟨rfl, rfl, rfl⟩
  have hallowance : 8 * c₂.remaining + 4 ≤ allowance c₂ := by unfold allowance; omega
  refine (reads_statements hc₁ hallowance).mono ?_
  rintro us script c₃ - ⟨hscript, hend⟩
  exact ⟨hend, ls, us, by simp, hlines, hscript⟩

end Parser

theorem HasEnd.exists_cursor {tokens : List Token} (h : HasEnd tokens) :
    ∃ c, Cursor.ofTokens? tokens = some c ∧ c.Closed ∧ c.tokens = tokens ∧ c.before = [] := by
  cases tokens with
  | nil =>
    obtain ⟨t, ht, -⟩ := h
    cases ht
  | cons first rest => exact ⟨_, rfl, ⟨rfl, h⟩, rfl, rfl⟩

/-- The tokens of an accepted script spell it, between newlines and the end of the text. -/
theorem derives_of_parse {tokens : List Token} {script : Script Span} (h : EndsText tokens)
    (hparse : parse tokens = .ok script) :
    ∃ ls us close, tokens = ls ++ us ++ [close] ∧ Newlines ls ∧ Derives us (.lines script)
      ∧ close.kind = .endOfText := by
  obtain ⟨c, hcursor, hc, htokens, hbefore⟩ := h.hasEnd.exists_cursor
  have hreads := Parser.reads_script hc
  unfold Parser.Reads Ensures at hreads
  unfold parse at hparse
  rw [hcursor] at hparse
  simp only at hparse
  cases hscript : Parser.script c with
  | error e c' =>
    rw [hscript] at hparse
    cases hparse
  | ok result c' =>
    rw [hscript] at hparse hreads
    cases hparse
    obtain ⟨ts, htook, hend, ls, us, rfl, hlines, hderives⟩ := hreads
    refine ⟨ls, us, c'.current, ?_, hlines, hderives, hend⟩
    have hahead := htook.ahead
    have hall : tokens = ls ++ us ++ c'.current :: c'.after := by
      rw [← htokens, Cursor.tokens, hbefore, List.reverse_nil, List.nil_append, hahead]
    -- nothing stands behind the end of the text
    have hafter : c'.after = [] := by
      rw [hall] at h
      have hends := h.append_right
      cases hrest : c'.after with
      | nil => rfl
      | cons next rest =>
        rw [hrest] at hends
        exact (hends.1 hend).elim
    rw [hall, hafter]

/-- A rejected script has a fault of reading at some of its tokens; no other outcome is
possible. -/
theorem reported_of_parse {tokens : List Token} {e : ParseError} (h : HasEnd tokens)
    (hparse : parse tokens = .error e) : Reported tokens e := by
  obtain ⟨c, hcursor, hc, htokens, -⟩ := h.exists_cursor
  have hreads := Parser.reads_script hc
  unfold Parser.Reads Ensures at hreads
  unfold parse at hparse
  rw [hcursor] at hparse
  simp only at hparse
  cases hscript : Parser.script c with
  | ok result c' =>
    rw [hscript] at hparse
    cases hparse
  | error e' c' =>
    rw [hscript] at hparse hreads
    cases hparse
    rwa [htokens] at hreads

end Scoreboard
