import Mathlib
import Scoreboard.Proofs.Reading
import Scoreboard.Proofs.ReadingAhead
import Scoreboard.Proofs.Spelling
import Scoreboard.Proofs.Tokens

/-!
# Illegal tokens are reported

No illegal token gets lost. Readers notice one only when they look at it, some tokens are taken
without a look, and the reader of a body gives up faults in order to go back. Still no reader
comes to a place behind an illegal token (`Cursor.Clear`), wherever in a nested script the token
stands: what is taken without a look was looked at before.

So a fault starts at a token that is *in sight*, with no illegal token in front of it, and
an illegal character that is reported is the first one (`parse_reports_illegal`). Both are said
about the tokens of the whole script, which stay the same while a cursor moves over them, and so
a fault that is kept and reported later needs no attention.
-/

namespace Scoreboard

/-! ## Tokens in sight -/

/-- A token with only legal tokens in front of it. -/
def InSight (tokens : List Token) (t : Token) : Prop :=
  ∃ us vs, tokens = us ++ t :: vs ∧ Legal us

/-- A place where a token in sight starts. -/
def StartsInSight (tokens : List Token) (p : Position) : Prop :=
  ∃ t, InSight tokens t ∧ p = t.span.start

/-- A fault that starts in sight. If it is of an illegal character, it is about an illegal token
in sight. -/
structure FaultInSight (tokens : List Token) (d : Diagnostic Span) : Prop where
  starts : StartsInSight tokens d.place.start
  illegal : d.kind = .illegalCharacter →
    ∃ t, InSight tokens t ∧ t.kind = .illegal ∧ d = ⟨.illegalCharacter t.lexeme, t.span⟩

/-- Tokens in the order in which they start. -/
def InOrder (tokens : List Token) : Prop :=
  tokens.Pairwise fun a b => a.span.start.index ≤ b.span.start.index

section
variable {tokens : List Token} {t first : Token}

theorem InSight.starts (h : InSight tokens t) : StartsInSight tokens t.span.start := ⟨t, h, rfl⟩

/-- Of the illegal tokens only the first is in sight. -/
theorem InSight.find?_eq (h : InSight tokens t) (hkind : t.kind = .illegal) :
    tokens.find? (·.kind == .illegal) = some t := by
  obtain ⟨us, vs, rfl, hus⟩ := h
  rw [List.find?_eq_some_iff_append]
  refine ⟨by simpa using hkind, us, vs, rfl, ?_⟩
  intro u hu
  simpa using hus u hu

/-- What is in sight starts at or before the illegal tokens. -/
theorem InSight.start_le (h : InSight tokens t) (horder : InOrder tokens)
    (hfirst : first ∈ tokens) (hkind : first.kind = .illegal) :
    t.span.start.index ≤ first.span.start.index := by
  obtain ⟨us, vs, rfl, hus⟩ := h
  rcases List.mem_append.1 hfirst with hmem | hmem
  · exact absurd hkind (hus first hmem)
  · rcases List.mem_cons.1 hmem with rfl | hmem
    · exact Nat.le_refl _
    · have htail := (List.pairwise_append.1 horder).2.1
      exact (List.pairwise_cons.1 htail).1 first hmem

end

/-- The tokens of a source come in the order in which they start. -/
theorem Placed.inOrder {source : Source} {i : Nat} {ts : List Token} (h : Placed source i ts) :
    InOrder ts :=
  h.disjoint.imp fun hle => Nat.le_trans hle.1 hle.2

/-! ## Places that are clear -/

namespace Cursor

/-- A place in some tokens with only legal tokens in front of it. -/
structure Clear (tokens : List Token) (c : Cursor) : Prop where
  fromEnd : c.fromEnd = none
  tokens_eq : c.tokens = tokens
  before : Legal c.before

variable {tokens : List Token} {c : Cursor}

/-- At a clear place the current token is in sight. -/
theorem Clear.current (h : c.Clear tokens) : InSight tokens c.current := by
  refine ⟨c.before.reverse, c.after, h.tokens_eq.symm, ?_⟩
  intro t ht
  exact h.before t (List.mem_reverse.1 ht)

/-- At a clear place the previous token is in sight. -/
theorem Clear.previous (h : c.Clear tokens) : InSight tokens c.previous := by
  unfold Cursor.previous
  rw [h.fromEnd, Option.getD_none]
  cases hbefore : c.before with
  | nil => exact h.current
  | cons last before =>
    have hlegal := h.before
    rw [hbefore] at hlegal
    refine ⟨before.reverse, c.current :: c.after, ?_, ?_⟩
    · rw [← h.tokens_eq, Cursor.tokens, hbefore, List.reverse_cons, List.append_assoc]
      rfl
    · intro t ht
      exact hlegal t (List.mem_cons_of_mem last (List.mem_reverse.1 ht))

/-- One legal token forward. -/
theorem Clear.advance (h : c.Clear tokens) (hlegal : c.current.kind ≠ .illegal) :
    c.advance.Clear tokens := by
  unfold Cursor.advance
  split
  · rename_i next rest hafter
    split
    · exact h
    · refine ⟨h.fromEnd, ?_, .cons rfl hlegal h.before⟩
      rw [← h.tokens_eq, Cursor.tokens, Cursor.tokens, hafter, List.reverse_cons, List.append_assoc]
      rfl
  · exact h

/-- The place behind a run of newlines. -/
theorem Clear.pastNewlines {before after : List Token} {current : Token}
    (h : Clear tokens ⟨before, current, after, none⟩) :
    Clear tokens ⟨(Cursor.pastNewlines before current after).2.1,
      (Cursor.pastNewlines before current after).2.2.1,
      (Cursor.pastNewlines before current after).2.2.2, none⟩ := by
  induction after generalizing before current with
  | nil => exact h
  | cons next rest ih =>
    rw [Cursor.pastNewlines]
    split
    · rename_i hnewline
      refine ih ⟨rfl, ?_, .cons (eq_of_beq hnewline) (by decide) h.before⟩
      rw [← h.tokens_eq]
      simp [Cursor.tokens]
    · exact h

end Cursor

namespace Parser

variable {β γ : Type} {tokens : List Token} {c : Cursor}

/-- What a reader does from a place: it comes to a place that is clear and returns something
that `good` says of that place, or it reports a fault in sight. Nothing is said of the end of
an allowance. -/
def Heeds (tokens : List Token) (p : Parser β) (c : Cursor) (good : β → Cursor → Prop) : Prop :=
  Ensures p c (fun x c' => c'.Clear tokens ∧ good x c')
    fun e _ => ∀ d, e = .diagnosed d → FaultInSight tokens d

theorem heeds_pure {x : β} {good : β → Cursor → Prop} (hc : c.Clear tokens) (h : good x c) :
    Heeds tokens (pure x) c good := ⟨hc, h⟩

theorem heeds_exhausted {good : β → Cursor → Prop} :
    Heeds tokens (throw .exhausted) c good := fun d hd => by cases hd

/-- The rule of sequence. -/
theorem Heeds.bind {p : Parser β} {f : β → Parser γ} {mid : β → Cursor → Prop}
    {good : γ → Cursor → Prop} (hp : Heeds tokens p c mid)
    (hf : ∀ x c', c'.Clear tokens → mid x c' → Heeds tokens (f x) c' good) :
    Heeds tokens (p >>= f) c good :=
  Ensures.bind hp fun x c' h => hf x c' h.1 h.2

/-- A fault that is no illegal character. -/
theorem heeds_failAt {cause : Cause} {span : Span} {good : β → Cursor → Prop}
    (hcause : (cause.kind == .illegalCharacter) = false)
    (hspan : StartsInSight tokens span.start) : Heeds tokens (failAt cause span) c good := by
  intro d hd
  cases hd
  exact ⟨hspan, fun hkind => (ne_of_beq_false hcause hkind).elim⟩

/-- A fault at a clear place that is not of an illegal character is in sight. -/
theorem heeds_fail {cause : Cause} {good : β → Cursor → Prop} (hc : c.Clear tokens)
    (hcause : (cause.kind == .illegalCharacter) = false) : Heeds tokens (fail cause) c good := by
  show Heeds tokens (failAt cause c.current.span) c good
  exact heeds_failAt hcause hc.current.starts

/-! ## Looking at tokens -/

theorem heeds_get (hc : c.Clear tokens) : Heeds tokens get c fun x c' => x = c ∧ c' = c :=
  ⟨hc, rfl, rfl⟩

theorem heeds_peek (hc : c.Clear tokens) :
    Heeds tokens peek c fun t c' => t = c.current ∧ c' = c := ⟨hc, rfl, rfl⟩

theorem heeds_previous (hc : c.Clear tokens) :
    Heeds tokens previous c fun t _ => InSight tokens t := ⟨hc, hc.previous⟩

/-- A token that is taken has to be known as legal. -/
theorem heeds_advance (hc : c.Clear tokens) (hlegal : c.current.kind ≠ .illegal) :
    Heeds tokens advance c fun t _ => InSight tokens t :=
  ⟨hc.advance hlegal, (hc.advance hlegal).previous⟩

/-- The look at a token which reports it if it is illegal. -/
theorem heeds_legal (hc : c.Clear tokens) :
    Heeds tokens legal c fun t c' => c' = c ∧ t = c.current ∧ c.current.kind ≠ .illegal := by
  unfold Heeds Ensures
  by_cases hkind : c.current.kind = .illegal
  · rw [legal_illegal hkind]
    intro d hd
    cases hd
    exact ⟨hc.current.starts, fun _ => ⟨c.current, hc.current, hkind, rfl⟩⟩
  · rw [legal_of_ne hkind]
    exact ⟨hc, rfl, rfl, hkind⟩

/-- Looking at a token either reports it as illegal or finds it legal. -/
theorem heeds_suspect (hc : c.Clear tokens) (test : TokenKind → Bool) :
    Heeds tokens (suspect test) c fun _ c' => c' = c ∧ c.current.kind ≠ .illegal := by
  refine (heeds_legal hc).bind ?_
  rintro t c' hc' ⟨rfl, rfl, hlegal⟩
  exact heeds_pure hc' ⟨rfl, hlegal⟩

/-- Taking a token if it is of a kind stays clear. -/
theorem heeds_accept (hc : c.Clear tokens) (test : TokenKind → Bool) :
    Heeds tokens (accept test) c fun _ _ => True := by
  refine (heeds_suspect hc test).bind ?_
  rintro b c' hc' ⟨rfl, hlegal⟩
  cases b with
  | false => exact heeds_pure hc' trivial
  | true =>
    refine (heeds_advance hc' hlegal).bind fun t c₁ hc₁ _ => ?_
    exact heeds_pure hc₁ trivial

/-- A demanded token is in sight. -/
theorem heeds_demand (hc : c.Clear tokens) (test : TokenKind → Bool) {cause : Cause}
    (hcause : (cause.kind == .illegalCharacter) = false) :
    Heeds tokens (demand test cause) c fun t _ => InSight tokens t := by
  have hexpect : Heeds tokens (expect test cause) c fun _ c' =>
      c' = c ∧ c.current.kind ≠ .illegal := by
    refine (heeds_suspect hc test).bind ?_
    rintro b c' hc' ⟨rfl, hlegal⟩
    cases b with
    | false => exact heeds_fail hc' hcause
    | true => exact ⟨hc', rfl, hlegal⟩
  refine hexpect.bind ?_
  rintro t c' hc' ⟨rfl, hlegal⟩
  exact heeds_advance hc' hlegal

/-- Skipping newlines stays clear. -/
theorem heeds_skipNewlines (hc : c.Clear tokens) :
    Heeds tokens skipNewlines c fun _ _ => True := by
  refine (heeds_get hc).bind ?_
  rintro x c' hc' ⟨rfl, rfl⟩
  have hpast : Heeds tokens (set { c' with
      before := (Cursor.pastNewlines c'.before c'.current c'.after).2.1
      current := (Cursor.pastNewlines c'.before c'.current c'.after).2.2.1
      after := (Cursor.pastNewlines c'.before c'.current c'.after).2.2.2 }) c' fun _ _ => True := by
    obtain ⟨before, current, after, fromEnd⟩ := c'
    obtain rfl : fromEnd = none := hc'.fromEnd
    exact ⟨hc'.pastNewlines, trivial⟩
  refine hpast.bind fun _ c₁ hc₁ _ => ?_
  refine (heeds_legal hc₁).bind fun _ c₂ hc₂ _ => ?_
  exact heeds_pure hc₂ trivial

/-- An operator that is found may be taken. -/
theorem heeds_operator? (hc : c.Clear tokens) :
    Heeds tokens operator? c fun _ c' => c' = c ∧ c.current.kind ≠ .illegal := by
  refine (heeds_legal hc).bind ?_
  rintro t c' hc' ⟨rfl, rfl, hlegal⟩
  split
  · exact heeds_pure hc' ⟨rfl, hlegal⟩
  · exact heeds_pure hc' ⟨rfl, hlegal⟩

theorem heeds_takeOperator (hc : c.Clear tokens) (hlegal : c.current.kind ≠ .illegal) :
    Heeds tokens takeOperator c fun _ _ => True := by
  refine (heeds_advance hc hlegal).bind fun t c' hc' _ => ?_
  split
  · exact heeds_pure hc' trivial
  · intro d hd
    cases hd

/-! ## Parameters and types -/

theorem heeds_typeAfterColon (hc : c.Clear tokens) (role : Role) :
    Heeds tokens (typeAfterColon role) c fun _ _ => True := by
  refine (heeds_accept hc _).bind fun b c₁ hc₁ _ => ?_
  cases b with
  | false => exact heeds_pure hc₁ trivial
  | true =>
    refine (heeds_demand hc₁ _ rfl).bind fun type c₂ hc₂ _ => ?_
    exact heeds_pure hc₂ trivial

theorem heeds_parameter (hc : c.Clear tokens) : Heeds tokens parameter c fun _ _ => True := by
  refine (heeds_demand hc _ rfl).bind fun name c₁ hc₁ _ => ?_
  refine (heeds_demand hc₁ _ rfl).bind fun colon c₂ hc₂ _ => ?_
  refine (heeds_demand hc₂ _ rfl).bind fun type c₃ hc₃ _ => ?_
  exact heeds_pure hc₃ trivial

theorem heeds_moreParameters (n : Nat) (hc : c.Clear tokens) :
    Heeds tokens (moreParameters n) c fun _ _ => True := by
  induction n generalizing c with
  | zero => exact heeds_exhausted
  | succ n ih =>
    refine (heeds_parameter hc).bind fun first c₁ hc₁ _ => ?_
    refine (heeds_accept hc₁ _).bind fun b c₂ hc₂ _ => ?_
    cases b with
    | false =>
      refine (heeds_demand hc₂ _ rfl).bind fun close c₃ hc₃ _ => ?_
      exact heeds_pure hc₃ trivial
    | true =>
      refine (ih hc₂).bind fun more c₃ hc₃ _ => ?_
      exact heeds_pure hc₃ trivial

theorem heeds_parameters (n : Nat) (hc : c.Clear tokens) :
    Heeds tokens (parameters n) c fun _ _ => True := by
  refine (heeds_accept hc _).bind fun b c₁ hc₁ _ => ?_
  cases b with
  | false => exact heeds_moreParameters n hc₁
  | true => exact heeds_pure hc₁ trivial

/-! ## Readers that call each other -/

/-- The end of a body. A fault that was kept is one in sight. -/
theorem heeds_closeBlock (hc : c.Clear tokens) {nodes : List (Node Span)}
    {failed : Option (Diagnostic Span)} (hfailed : ∀ d ∈ failed, FaultInSight tokens d) :
    Heeds tokens (closeBlock nodes failed) c fun _ _ => True := by
  refine (heeds_accept hc _).bind fun b c₁ hc₁ _ => ?_
  cases b with
  | true => exact heeds_pure hc₁ trivial
  | false =>
    refine (heeds_get hc₁).bind ?_
    rintro x c₂ hc₂ ⟨rfl, rfl⟩
    by_cases hend : c₂.atEnd = true
    · rw [if_pos hend]
      exact (heeds_fail hc₂ rfl).bind fun _ _ _ h => h
    · rw [if_neg hend]
      cases failed with
      | none => exact heeds_fail hc₂ rfl
      | some d =>
        intro d' hd'
        cases hd'
        exact hfailed d rfl

/-- A reader that is tried goes back to a clear place, and its fault is kept. -/
theorem heeds_attempt {p : Parser β} {good : β → Cursor → Prop} (hc : c.Clear tokens)
    (h : Heeds tokens p c good) :
    Heeds tokens (attempt p) c fun result _ => ∀ d, result = .error d → FaultInSight tokens d := by
  unfold Heeds Ensures at h ⊢
  unfold attempt
  cases hp : p c with
  | ok x c' =>
    rw [hp] at h
    exact ⟨h.1, fun d hd => by cases hd⟩
  | error e c' =>
    rw [hp] at h
    cases e with
    | diagnosed d =>
      refine ⟨hc, fun d' hd' => ?_⟩
      cases hd'
      exact h d rfl
    | notOperator => exact fun d hd => by cases hd
    | exhausted => exact fun d hd => by cases hd

/-- All readers with an allowance of `n` calls. What they return starts in sight. Those that
take a token without a look are called where it is legal. -/
structure ReadersHeed (tokens : List Token) (n : Nat) : Prop where
  statement {c : Cursor} (hc : c.Clear tokens) :
    Heeds tokens (statement n) c fun node _ => StartsInSight tokens node.mark.start
  declaration {c : Cursor} (hc : c.Clear tokens) (hlegal : c.current.kind ≠ .illegal) :
    Heeds tokens (declaration n) c fun node _ => StartsInSight tokens node.mark.start
  functionDeclaration {c : Cursor} (hc : c.Clear tokens) (hlegal : c.current.kind ≠ .illegal) :
    Heeds tokens (functionDeclaration n) c fun node _ => StartsInSight tokens node.mark.start
  rawCode {c : Cursor} (hc : c.Clear tokens) (hlegal : c.current.kind ≠ .illegal) :
    Heeds tokens (rawCode n) c fun node _ => StartsInSight tokens node.mark.start
  block {c : Cursor} (hc : c.Clear tokens) : Heeds tokens (block n) c fun _ _ => True
  blockRest {c : Cursor} (hc : c.Clear tokens) :
    Heeds tokens (blockRest n) c fun result _ => ∀ d ∈ result.2, FaultInSight tokens d
  climb {c : Cursor} (hc : c.Clear tokens) (least : Nat) :
    Heeds tokens (climb n least) c fun node _ => StartsInSight tokens node.mark.start
  climbRest {c : Cursor} (hc : c.Clear tokens) (least : Nat) {left : Node Span}
    (hleft : StartsInSight tokens left.mark.start) :
    Heeds tokens (climbRest n least left) c fun node _ => StartsInSight tokens node.mark.start
  atom {c : Cursor} (hc : c.Clear tokens) :
    Heeds tokens (atom n) c fun node _ => StartsInSight tokens node.mark.start
  nameRest {c : Cursor} (hc : c.Clear tokens) {name : Token} (hname : InSight tokens name) :
    Heeds tokens (nameRest n name) c fun node _ => StartsInSight tokens node.mark.start
  arguments {c : Cursor} (hc : c.Clear tokens) : Heeds tokens (arguments n) c fun _ _ => True
  moreArguments {c : Cursor} (hc : c.Clear tokens) :
    Heeds tokens (moreArguments n) c fun _ _ => True

section
variable {n : Nat} (h : ReadersHeed tokens n)
include h

/-- A statement starts in sight, if the readers one level down heed. -/
theorem heeds_statement (hc : c.Clear tokens) :
    Heeds tokens (statement (n + 1)) c fun node _ => StartsInSight tokens node.mark.start := by
  rw [statement]
  refine (heeds_legal hc).bind ?_
  rintro t c' hc' ⟨rfl, rfl, hlegal⟩
  split
  · exact h.declaration hc' hlegal
  · exact h.functionDeclaration hc' hlegal
  · exact h.rawCode hc' hlegal
  · exact h.climb hc' 1

/-- A declaration starts in sight, if the readers one level down heed. -/
theorem heeds_declaration (hc : c.Clear tokens) (hlegal : c.current.kind ≠ .illegal) :
    Heeds tokens (declaration (n + 1)) c fun node _ => StartsInSight tokens node.mark.start := by
  rw [declaration]
  refine (heeds_advance hc hlegal).bind fun opening c₁ hc₁ hopening => ?_
  refine (heeds_demand hc₁ _ rfl).bind fun name c₂ hc₂ _ => ?_
  refine (heeds_typeAfterColon hc₂ _).bind fun type c₃ hc₃ _ => ?_
  refine (heeds_accept hc₃ _).bind fun b c₄ hc₄ _ => ?_
  cases b with
  | true =>
    refine (h.statement hc₄).bind fun value c₅ hc₅ _ => ?_
    refine (heeds_previous hc₅).bind fun last c₆ hc₆ _ => ?_
    exact heeds_pure hc₆ hopening.starts
  | false =>
    cases type with
    | none => exact (heeds_fail hc₄ rfl).bind fun _ _ _ h => h
    | some type =>
      refine (heeds_previous hc₄).bind fun last c₅ hc₅ _ => ?_
      exact heeds_pure hc₅ hopening.starts

/-- A function starts in sight, if the readers one level down heed. -/
theorem heeds_functionDeclaration (hc : c.Clear tokens) (hlegal : c.current.kind ≠ .illegal) :
    Heeds tokens (functionDeclaration (n + 1)) c fun node _ =>
      StartsInSight tokens node.mark.start := by
  rw [functionDeclaration]
  refine (heeds_advance hc hlegal).bind fun opening c₁ hc₁ hopening => ?_
  refine (heeds_demand hc₁ _ rfl).bind fun name c₂ hc₂ _ => ?_
  refine (heeds_demand hc₂ _ rfl).bind fun paren c₃ hc₃ _ => ?_
  refine (heeds_parameters n hc₃).bind fun parameters c₄ hc₄ _ => ?_
  refine (heeds_typeAfterColon hc₄ _).bind fun result c₅ hc₅ _ => ?_
  refine (h.block hc₅).bind fun body c₆ hc₆ _ => ?_
  refine (heeds_previous hc₆).bind fun last c₇ hc₇ _ => ?_
  exact heeds_pure hc₇ hopening.starts

/-- The fault of a raw command without a text lies behind the place: it is at the expression
that was read. -/
theorem heeds_rawCode (hc : c.Clear tokens) (hlegal : c.current.kind ≠ .illegal) :
    Heeds tokens (rawCode (n + 1)) c fun node _ => StartsInSight tokens node.mark.start := by
  rw [rawCode]
  refine (heeds_advance hc hlegal).bind fun opening c₁ hc₁ hopening => ?_
  refine (h.climb hc₁ 1).bind fun node c₂ hc₂ hnode => ?_
  split
  · exact heeds_pure hc₂ hopening.starts
  · exact heeds_failAt rfl hnode

theorem heeds_block (hc : c.Clear tokens) :
    Heeds tokens (block (n + 1)) c fun _ _ => True := by
  rw [block]
  refine (heeds_demand hc _ rfl).bind fun brace c₁ hc₁ _ => ?_
  refine (heeds_skipNewlines hc₁).bind fun count c₂ hc₂ _ => ?_
  refine (heeds_suspect hc₂ _).bind fun b c₃ hc₃ _ => ?_
  have hempty : Heeds tokens (closeBlock [] none) c₃ fun _ _ => True :=
    heeds_closeBlock hc₃ fun d hd => by cases hd
  split
  · exact hempty
  · refine (heeds_get hc₃).bind ?_
    rintro x c₄ hc₄ ⟨rfl, rfl⟩
    split
    · exact hempty
    · refine (h.statement hc₄).bind fun first c₅ hc₅ _ => ?_
      refine (h.blockRest hc₅).bind fun result c₆ hc₆ hfailed => ?_
      exact heeds_closeBlock hc₆ hfailed

/-- The rest of a body, with the fault of the last attempt in sight. -/
theorem heeds_blockRest (hc : c.Clear tokens) :
    Heeds tokens (blockRest (n + 1)) c fun result _ => ∀ d ∈ result.2, FaultInSight tokens d := by
  rw [blockRest]
  refine (heeds_skipNewlines hc).bind fun count c₁ hc₁ _ => ?_
  split
  · exact heeds_pure hc₁ fun d hd => by cases hd
  · refine (heeds_attempt hc₁ (h.statement hc₁)).bind fun result c₂ hc₂ hresult => ?_
    cases result with
    | error d =>
      refine heeds_pure hc₂ fun d' hd' => ?_
      cases hd'
      exact hresult d rfl
    | ok next =>
      refine (h.blockRest hc₂).bind fun rest c₃ hc₃ hrest => ?_
      exact heeds_pure hc₃ hrest

/-- An expression starts in sight, if the readers one level down heed. -/
theorem heeds_climb (hc : c.Clear tokens) (least : Nat) :
    Heeds tokens (climb (n + 1) least) c fun node _ => StartsInSight tokens node.mark.start := by
  rw [climb]
  refine (h.atom hc).bind fun first c₁ hc₁ hfirst => ?_
  exact h.climbRest hc₁ least hfirst

theorem heeds_climbRest (hc : c.Clear tokens) (least : Nat) {left : Node Span}
    (hleft : StartsInSight tokens left.mark.start) :
    Heeds tokens (climbRest (n + 1) least left) c fun node _ =>
      StartsInSight tokens node.mark.start := by
  rw [climbRest]
  refine (heeds_operator? hc).bind ?_
  rintro found c₁ hc₁ ⟨rfl, hlegal⟩
  cases found with
  | none => exact heeds_pure hc₁ hleft
  | some op =>
    simp only
    split
    · exact heeds_pure hc₁ hleft
    · refine (heeds_takeOperator hc₁ hlegal).bind fun taken c₂ hc₂ _ => ?_
      refine (h.climb hc₂ _).bind fun right c₃ hc₃ _ => ?_
      exact h.climbRest hc₃ least hleft

/-- A part of an expression starts in sight, if the readers one level down heed. -/
theorem heeds_atom (hc : c.Clear tokens) :
    Heeds tokens (atom (n + 1)) c fun node _ => StartsInSight tokens node.mark.start := by
  rw [atom]
  refine (heeds_legal hc).bind ?_
  rintro t c' hc' ⟨rfl, rfl, hlegal⟩
  have hstarts := hc'.current.starts
  split
  · refine (heeds_advance hc' hlegal).bind fun _ c₁ hc₁ _ => ?_
    exact heeds_pure hc₁ hstarts
  · refine (heeds_advance hc' hlegal).bind fun _ c₁ hc₁ _ => ?_
    exact heeds_pure hc₁ hstarts
  · refine (heeds_advance hc' hlegal).bind fun _ c₁ hc₁ _ => ?_
    exact h.nameRest hc₁ hc'.current
  · refine (heeds_advance hc' hlegal).bind fun _ c₁ hc₁ _ => ?_
    refine (h.climb hc₁ 1).bind fun inner c₂ hc₂ hinner => ?_
    refine (heeds_demand hc₂ _ rfl).bind fun close c₃ hc₃ _ => ?_
    exact heeds_pure hc₃ hinner
  · refine (heeds_advance hc' hlegal).bind fun _ c₁ hc₁ _ => ?_
    -- an integer behind the minus is taken without a look, but its kind is known
    refine (heeds_peek hc₁).bind ?_
    rintro next c₂ hc₂ ⟨rfl, rfl⟩
    split
    · rename_i value hvalue
      refine (heeds_advance hc₂ (by rw [hvalue]; simp)).bind fun _ c₃ hc₃ _ => ?_
      exact heeds_pure hc₃ hstarts
    · refine (h.atom hc₂).bind fun operand c₃ hc₃ _ => ?_
      exact heeds_pure hc₃ hstarts
  · exact heeds_fail hc' rfl

theorem heeds_nameRest (hc : c.Clear tokens) {name : Token} (hname : InSight tokens name) :
    Heeds tokens (nameRest (n + 1) name) c fun node _ =>
      StartsInSight tokens node.mark.start := by
  rw [nameRest]
  refine (heeds_accept hc _).bind fun b c₁ hc₁ _ => ?_
  cases b with
  | true =>
    refine (h.statement hc₁).bind fun value c₂ hc₂ _ => ?_
    exact heeds_pure hc₂ hname.starts
  | false =>
    refine (heeds_accept hc₁ _).bind fun b c₂ hc₂ _ => ?_
    cases b with
    | true =>
      refine (h.arguments hc₂).bind fun nodes c₃ hc₃ _ => ?_
      refine (heeds_previous hc₃).bind fun last c₄ hc₄ _ => ?_
      exact heeds_pure hc₄ hname.starts
    | false => exact heeds_pure hc₂ hname.starts

theorem heeds_arguments (hc : c.Clear tokens) :
    Heeds tokens (arguments (n + 1)) c fun _ _ => True := by
  rw [arguments]
  refine (heeds_accept hc _).bind fun b c₁ hc₁ _ => ?_
  cases b with
  | true => exact heeds_pure hc₁ trivial
  | false => exact h.moreArguments hc₁

theorem heeds_moreArguments (hc : c.Clear tokens) :
    Heeds tokens (moreArguments (n + 1)) c fun _ _ => True := by
  rw [moreArguments]
  refine (h.climb hc 1).bind fun first c₁ hc₁ _ => ?_
  refine (heeds_accept hc₁ _).bind fun b c₂ hc₂ _ => ?_
  cases b with
  | true =>
    refine (h.moreArguments hc₂).bind fun rest c₃ hc₃ _ => ?_
    exact heeds_pure hc₃ trivial
  | false =>
    refine (heeds_demand hc₂ _ rfl).bind fun close c₃ hc₃ _ => ?_
    exact heeds_pure hc₃ trivial

end

/-- All readers heed at every allowance. -/
theorem readersHeed (tokens : List Token) (n : Nat) : ReadersHeed tokens n := by
  induction n with
  | zero => constructor <;> intros <;> exact heeds_exhausted
  | succ n ih =>
    exact {
      statement := heeds_statement ih
      declaration := heeds_declaration ih
      functionDeclaration := heeds_functionDeclaration ih
      rawCode := heeds_rawCode ih
      block := heeds_block ih
      blockRest := heeds_blockRest ih
      climb := heeds_climb ih
      climbRest := heeds_climbRest ih
      atom := heeds_atom ih
      nameRest := heeds_nameRest ih
      arguments := heeds_arguments ih
      moreArguments := heeds_moreArguments ih }

/-! ## Scripts -/

theorem heeds_statements (n : Nat) (hc : c.Clear tokens) :
    Heeds tokens (statements n) c fun _ _ => True := by
  induction n generalizing c with
  | zero => exact heeds_exhausted
  | succ n ih =>
    rw [statements]
    refine (heeds_get hc).bind ?_
    rintro x c' hc' ⟨rfl, rfl⟩
    split
    · exact heeds_pure hc' trivial
    · refine ((readersHeed tokens n).statement hc').bind fun first c₁ hc₁ _ => ?_
      refine (heeds_get hc₁).bind ?_
      rintro x c₂ hc₂ ⟨rfl, rfl⟩
      split
      · exact heeds_pure hc₂ trivial
      · refine (heeds_skipNewlines hc₂).bind fun count c₃ hc₃ _ => ?_
        split
        · exact (heeds_fail hc₃ rfl).bind fun _ _ _ h => h
        · refine (ih hc₃).bind fun rest c₄ hc₄ _ => ?_
          exact heeds_pure hc₄ trivial

/-- The reader of a script heeds. -/
theorem heeds_script (hc : c.Clear tokens) : Heeds tokens script c fun _ _ => True := by
  unfold script
  refine (heeds_skipNewlines hc).bind fun count c₁ hc₁ _ => ?_
  refine (heeds_get hc₁).bind ?_
  rintro x c₂ hc₂ ⟨rfl, rfl⟩
  exact heeds_statements (allowance c₂) hc₂

end Parser

section
variable {tokens : List Token}

/-- Every fault of a list of tokens is in sight. -/
theorem faultInSight_of_parse {d : Diagnostic Span}
    (hparse : parse tokens = .error (.diagnosed d)) : FaultInSight tokens d := by
  cases tokens with
  | nil => cases hparse
  | cons first rest =>
    have hclear : Cursor.Clear (first :: rest) ⟨[], first, rest, none⟩ := ⟨rfl, rfl, .nil⟩
    have hheeds := Parser.heeds_script hclear
    unfold Parser.Heeds Ensures at hheeds
    unfold parse Cursor.ofTokens? at hparse
    simp only at hparse
    cases hscript : Parser.script ⟨[], first, rest, none⟩ with
    | ok script c =>
      rw [hscript] at hparse
      cases hparse
    | error e c =>
      rw [hscript] at hparse hheeds
      cases hparse
      exact hheeds d rfl

/-- The grammar has no place for an illegal token, so none is in an accepted list. -/
theorem legal_of_parse {script : Script Span} (h : EndsText tokens)
    (hparse : parse tokens = .ok script) : Legal tokens := by
  obtain ⟨ls, us, close, rfl, hlines, hderives, hclose⟩ := derives_of_parse h hparse
  obtain ⟨vs, ms, rfl, hvs, hms⟩ := hderives.spells
  have hmore : Legal (vs ++ ms) := hvs.legal.append hms.legal
  exact (hlines.legal.append hmore).append (.cons hclose (by decide) .nil)

/-- Illegal tokens are never lost. Tokens with an illegal one among them are rejected, with a
fault that starts at or before the first illegal token; and whenever an illegal character is
reported, it is that token. -/
theorem parse_reports_illegal (h : EndsText tokens) :
    (∀ first, tokens.find? (·.kind == .illegal) = some first → InOrder tokens →
      ∃ d, parse tokens = .error (.diagnosed d)
        ∧ d.place.start.index ≤ first.span.start.index)
    ∧ ∀ d, parse tokens = .error (.diagnosed d) → d.kind = .illegalCharacter →
      ∃ first, tokens.find? (·.kind == .illegal) = some first
        ∧ d = ⟨.illegalCharacter first.lexeme, first.span⟩ := by
  constructor
  · intro first hfirst horder
    have hmem := List.mem_of_find?_eq_some hfirst
    have hkind : first.kind = .illegal := by simpa using List.find?_some hfirst
    cases hparse : parse tokens with
    | ok script => exact absurd hkind (legal_of_parse h hparse first hmem)
    | error e =>
      obtain ⟨d, rfl, -⟩ := reported_of_parse h.hasEnd hparse
      obtain ⟨t, hsight, hstart⟩ := (faultInSight_of_parse hparse).starts
      refine ⟨d, rfl, ?_⟩
      rw [hstart]
      exact hsight.start_le horder hmem hkind
  · intro d hparse hillegal
    obtain ⟨t, hsight, hkind, heq⟩ := (faultInSight_of_parse hparse).illegal hillegal
    exact ⟨t, hsight.find?_eq hkind, heq⟩

theorem parse_reports_illegal_nested :
    ∃ tokens first d, tokenize ⟨"nested",
        "function f() \x7b\na = 1\nfunction g() \x7b\nb = (2 + $\n\x7d\n\x7d\nc = #\n".toList⟩
        = .ok tokens
      ∧ EndsText tokens ∧ InOrder tokens
      ∧ tokens.find? (·.kind == .illegal) = some first ∧ first.lexeme = "$"
      ∧ parse tokens = .error (.diagnosed d) ∧ d.kind = .illegalCharacter
      ∧ d.place.start.index ≤ first.span.start.index
      ∧ d = ⟨.illegalCharacter first.lexeme, first.span⟩ := by
  have hread : ∀ text : List Char, (tokenize ⟨"nested", text⟩).toOption.any (fun tokens =>
        (tokens.find? (·.kind == .illegal)).any fun first => first.lexeme == "$"
          && (((parse tokens).map fun _ => false).tryCatch fun e =>
            .ok (e == .diagnosed ⟨.illegalCharacter first.lexeme, first.span⟩)).toOption
              == some true) = true →
      ∃ tokens first d, tokenize ⟨"nested", text⟩ = .ok tokens ∧ EndsText tokens ∧ InOrder tokens
        ∧ tokens.find? (·.kind == .illegal) = some first ∧ first.lexeme = "$"
        ∧ parse tokens = .error (.diagnosed d) ∧ d.kind = .illegalCharacter
        ∧ d.place.start.index ≤ first.span.start.index
        ∧ d = ⟨.illegalCharacter first.lexeme, first.span⟩ := by
    intro text hany
    obtain ⟨tokens, htokens, hany⟩ := exists_ok_of_any hany
    obtain ⟨first, hfind, hfirst⟩ := (Option.any_eq_true _ _).1 hany
    obtain ⟨hlexeme, hfault⟩ := Bool.and_eq_true_iff.1 hfirst
    have hends := endsText_of_tokenize htokens
    have horder := (placed_of_tokenize htokens).inOrder
    obtain ⟨d, hparse, hstart⟩ := (parse_reports_illegal hends).1 first hfind horder
    -- which fault it is comes from reading the tokens
    rw [hparse] at hfault
    have hsame := eq_of_beq (Option.some.inj (eq_of_beq hfault))
    have hkind : d.kind = .illegalCharacter := by
      rw [ParseError.diagnosed.inj hsame]
      rfl
    obtain ⟨first', hfind', heq⟩ := (parse_reports_illegal hends).2 d hparse hkind
    obtain rfl : first = first' := Option.some.inj (hfind.symm.trans hfind')
    exact ⟨tokens, first, d, htokens, hends, horder, hfind, eq_of_beq hlexeme, hparse, hkind,
      hstart, heq⟩
  exact hread _ (by decide +kernel)

end

end Scoreboard
