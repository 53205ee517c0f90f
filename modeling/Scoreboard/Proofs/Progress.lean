import Mathlib
import Scoreboard.Proofs.Reading
import Scoreboard.Proofs.Tokens

/-!
# Readers move forward and end

Every reader of scripts ends, at a place of the same tokens that is not before the one it
started from (`Parser.readers_proceed`). This has two sources. That a reader comes to an end
by itself, with a result or with a fault, is part of `Parser.readersSound`: no allowance in
proportion to the tokens ahead is ever used up. What is left is to say where readers end, also
when they fail, and that an allowance which suffices may be made larger without effect.

Both are properties of one step after another, so they are treated as one (`Parser.Steady`).
The only step that goes back is an attempt, and it goes back to its own start.
-/

namespace Scoreboard

/-! ## Places -/

namespace Cursor

variable {c c₁ c₂ : Cursor} {tokens : List Token} {i : Nat}

/-- A cursor has moved forward, or not at all. -/
def Onward (c c' : Cursor) : Prop := ∃ ts, c.Took ts c'

theorem Onward.refl (c : Cursor) : c.Onward c := ⟨[], .refl c⟩

/-- What was taken on the way adds up. -/
theorem Onward.trans (h₁ : c.Onward c₁) (h₂ : c₁.Onward c₂) : c.Onward c₂ := by
  obtain ⟨ts, hts⟩ := h₁
  obtain ⟨us, hus⟩ := h₂
  exact ⟨ts ++ us, hts.trans hus⟩

/-- The end of the text stays ahead. -/
theorem Closed.onward (hc : c.Closed) (h : c.Onward c₁) : c₁.Closed := by
  obtain ⟨ts, hts⟩ := h
  exact hc.took hts

/-- The end of the text is not gone past. -/
theorem onward_advance (hc : c.Closed) : c.Onward c.advance := by
  by_cases hend : c.current.kind = .endOfText
  · have hstays : c.advance = c := by
      unfold advance atEnd
      rw [hend]
      split <;> rfl
    rw [hstays]
    exact .refl c
  · exact ⟨_, advance_took hc hend⟩

/-- The place behind tokens that were taken. -/
theorem Took.behind? {ts : List Token} (h : c.Took ts c₁)
    (hplace : Cursor.behind? tokens i none = some c) :
    Cursor.behind? tokens (i + ts.length) none = some c₁ := by
  unfold Cursor.behind? at hplace ⊢
  cases hdrop : tokens.drop i with
  | nil =>
    rw [hdrop] at hplace
    cases hplace
  | cons current after =>
    rw [hdrop] at hplace
    obtain rfl : _ = c := Option.some.inj hplace
    have hahead : tokens.drop i = ts ++ c₁.current :: c₁.after := hdrop.trans h.ahead
    have hbefore : (tokens.take (i + ts.length)).reverse = c₁.before := by
      rw [h.before, List.take_add, hahead, List.take_left, List.reverse_append]
    rw [← List.drop_drop, hahead, List.drop_left]
    show some (Cursor.mk (tokens.take (i + ts.length)).reverse c₁.current c₁.after none) = some c₁
    have hfromEnd : c₁.fromEnd = none := h.fromEnd
    rw [hbefore, ← hfromEnd]

/-- A place in a list is one of its indexes. -/
theorem lt_of_behind? (h : Cursor.behind? tokens i none = some c) : i < tokens.length := by
  unfold Cursor.behind? at h
  cases hdrop : tokens.drop i with
  | nil =>
    rw [hdrop] at h
    cases h
  | cons current after =>
    have hlength := congrArg List.length hdrop
    rw [List.length_drop, List.length_cons] at hlength
    omega

end Cursor

/-- At every index of tokens that end with the end of the text there is a place with that end
ahead. -/
theorem EndsText.exists_behind {tokens : List Token} {i : Nat} (h : EndsText tokens)
    (hi : i < tokens.length) : ∃ c, Cursor.behind? tokens i none = some c ∧ c.Closed := by
  have hdrop := List.drop_eq_getElem_cons hi
  have hends : EndsText (tokens.drop i) := by
    rw [← List.take_append_drop i tokens, hdrop] at h
    rw [hdrop]
    exact h.append_right
  unfold Cursor.behind?
  rw [hdrop] at hends ⊢
  exact ⟨_, rfl, rfl, hends.hasEnd⟩

/-! ## Steady readers -/

namespace Parser

variable {β γ : Type} {c : Cursor}

/-- A reader `p` moves forward, whether it succeeds or fails, and `q` does exactly the same
unless the allowance of `p` is used up. -/
def Steady (p q : Parser β) : Prop :=
  ∀ c : Cursor, c.Closed →
    Ensures p c (fun x c' => c.Onward c' ∧ q c = .ok x c')
      fun e c' => c.Onward c' ∧ (e = .exhausted ∨ q c = .error e c')

/-- Nothing is asked where the allowance is used up. -/
theorem steady_exhausted (q : Parser β) : Steady (throw .exhausted) q :=
  fun c _ => ⟨.refl c, .inl rfl⟩

theorem steady_pure (x : β) : Steady (pure x) (pure x) := fun c _ => ⟨.refl c, rfl⟩

/-- A fault that is thrown leaves the cursor where it is. -/
theorem steady_throw (e : ParseError) : Steady (throw e : Parser β) (throw e) :=
  fun c _ => ⟨.refl c, .inr rfl⟩

theorem steady_get : Steady get get := fun c _ => ⟨.refl c, rfl⟩

/-- A reader does the same as itself. -/
theorem Steady.same {p q : Parser β} (h : Steady p q) : Steady p p := by
  intro c hc
  have hrun := h c hc
  unfold Ensures at hrun ⊢
  cases hp : p c with
  | ok x c' =>
    rw [hp] at hrun
    exact ⟨hrun.1, rfl⟩
  | error e c' =>
    rw [hp] at hrun
    exact ⟨hrun.1, .inr rfl⟩

/-- The rule of sequence. -/
theorem Steady.bind {p q : Parser β} {f g : β → Parser γ} (hp : Steady p q)
    (hf : ∀ x, Steady (f x) (g x)) : Steady (p >>= f) (q >>= g) := by
  intro c hc
  apply ensures_bind.2
  refine (hp c hc).mono ?_ ?_
  · rintro x c₁ ⟨hfirst, hq⟩
    rw [bind_of_ok hq]
    refine (hf x c₁ (hc.onward hfirst)).mono ?_ ?_
    · rintro y c₂ ⟨hsecond, hg⟩
      exact ⟨hfirst.trans hsecond, hg⟩
    · rintro e c₂ ⟨hsecond, hg⟩
      exact ⟨hfirst.trans hsecond, hg⟩
  · rintro e c₁ ⟨hfirst, hq⟩
    refine ⟨hfirst, hq.imp_right fun hq => ?_⟩
    exact bind_of_error hq

/-- A choice that both readers make in the same way. -/
theorem Steady.ite {b : Prop} [Decidable b] {p q p' q' : Parser β} (hp : Steady p p')
    (hq : Steady q q') : Steady (if b then p else q) (if b then p' else q') := by
  split
  · exact hp
  · exact hq

/-- An attempt that fails is back where it started. -/
theorem Steady.attempt {p q : Parser β} (h : Steady p q) :
    Steady (attempt p) (attempt q) := by
  intro c hc
  have hrun := h c hc
  unfold Ensures at hrun ⊢
  unfold Parser.attempt
  cases hp : p c with
  | ok x c' =>
    rw [hp] at hrun
    rw [hrun.2]
    exact ⟨hrun.1, rfl⟩
  | error e c' =>
    rw [hp] at hrun
    cases e with
    | diagnosed d =>
      obtain ⟨-, hexhausted | hq⟩ := hrun
      · cases hexhausted
      · rw [hq]
        exact ⟨.refl c, rfl⟩
    | notOperator =>
      obtain ⟨honward, hexhausted | hq⟩ := hrun
      · cases hexhausted
      · rw [hq]
        exact ⟨honward, .inr rfl⟩
    | exhausted => exact ⟨hrun.1, .inl rfl⟩

/-! ## Looking at tokens -/

theorem steady_peek : Steady peek peek := steady_get.bind fun _ => steady_pure _

theorem steady_previous : Steady previous previous := steady_get.bind fun _ => steady_pure _

/-- Taking a token moves forward, or not at all at the end of the text. -/
theorem steady_advance : Steady advance advance := by
  have hmodify : Steady (modify Cursor.advance) (modify Cursor.advance) :=
    fun c hc => ⟨Cursor.onward_advance hc, rfl⟩
  exact hmodify.bind fun _ => steady_previous

theorem steady_failAt (cause : Cause) (span : Span) :
    Steady (failAt cause span : Parser β) (failAt cause span) := steady_throw _

theorem steady_fail (cause : Cause) : Steady (fail cause : Parser β) (fail cause) :=
  steady_peek.bind fun _ => steady_failAt cause _

theorem steady_legal : Steady legal legal :=
  steady_peek.bind fun _ =>
    .ite ((steady_failAt _ _).bind fun _ => steady_pure _) (steady_pure _)

theorem steady_suspect (test : TokenKind → Bool) : Steady (suspect test) (suspect test) :=
  steady_legal.bind fun _ => steady_pure _

theorem steady_accept (test : TokenKind → Bool) : Steady (accept test) (accept test) :=
  (steady_suspect test).bind fun _ =>
    .ite (steady_advance.bind fun _ => steady_pure _) (steady_pure _)

/-- A token is taken or reported. -/
theorem steady_demand (test : TokenKind → Bool) (cause : Cause) :
    Steady (demand test cause) (demand test cause) := by
  have hexpect : Steady (expect test cause) (expect test cause) :=
    (steady_suspect test).bind fun _ => .ite steady_peek (steady_fail cause)
  exact hexpect.bind fun _ => steady_advance

/-- Newlines are skipped also if an illegal token behind them is reported. -/
theorem steady_skipNewlines : Steady skipNewlines skipNewlines := by
  intro c hc
  obtain ⟨ls, hls, -, hahead, hbefore, -⟩ :=
    Cursor.pastNewlines_spec c.before c.current c.after hc.ends
  have htook : c.Took ls
      { c with
        before := (Cursor.pastNewlines c.before c.current c.after).2.1
        current := (Cursor.pastNewlines c.before c.current c.after).2.2.1
        after := (Cursor.pastNewlines c.before c.current c.after).2.2.2 } :=
    ⟨hahead, hbefore, rfl, fun t ht => by rw [hls t ht]; simp⟩
  -- an illegal token behind the newlines is reported there
  have hrest := (steady_legal.bind fun _ =>
    steady_pure (Cursor.pastNewlines c.before c.current c.after).1) _ (hc.took htook)
  refine hrest.mono ?_ ?_
  · rintro n c' ⟨honward, hrun⟩
    exact ⟨Cursor.Onward.trans ⟨ls, htook⟩ honward, hrun⟩
  · rintro e c' ⟨honward, hrun⟩
    exact ⟨Cursor.Onward.trans ⟨ls, htook⟩ honward, hrun⟩

theorem steady_operator? : Steady operator? operator? := by
  refine steady_legal.bind fun t => ?_
  split
  · exact steady_pure _
  · exact steady_pure _

/-- The operator is taken before it is looked at. -/
theorem steady_takeOperator : Steady takeOperator takeOperator := by
  refine steady_advance.bind fun t => ?_
  split
  · exact steady_pure _
  · exact steady_throw _

/-! ## Parameters and types -/

/-- The colon is taken before a missing type is reported. -/
theorem steady_typeAfterColon (role : Role) :
    Steady (typeAfterColon role) (typeAfterColon role) :=
  (steady_accept _).bind fun _ =>
    .ite ((steady_demand _ _).bind fun _ => steady_pure _) (steady_pure _)

theorem steady_parameter : Steady parameter parameter :=
  (steady_demand _ _).bind fun _ => (steady_demand _ _).bind fun _ =>
    (steady_demand _ _).bind fun _ => steady_pure _

/-- By induction on the allowance, which each further parameter lowers by one. -/
theorem steady_moreParameters (n : Nat) :
    Steady (moreParameters n) (moreParameters (n + 1)) := by
  induction n with
  | zero => exact steady_exhausted _
  | succ n ih =>
    refine steady_parameter.bind fun first => (steady_accept _).bind fun _ => ?_
    apply Steady.ite
    · exact ih.bind fun _ => steady_pure _
    · exact (steady_demand _ _).bind fun _ => steady_pure _

theorem steady_parameters (n : Nat) : Steady (parameters n) (parameters (n + 1)) :=
  (steady_accept _).bind fun _ => .ite (steady_pure _) (steady_moreParameters n)

/-! ## Readers that call each other -/

/-- The end of a body uses no allowance. -/
theorem steady_closeBlock (nodes : List (Node Span)) (failed : Option (Diagnostic Span)) :
    Steady (closeBlock nodes failed) (closeBlock nodes failed) := by
  refine (steady_accept _).bind fun _ => .ite (steady_pure _) (steady_get.bind fun _ => ?_)
  cases failed with
  | none => exact .ite ((steady_fail _).bind fun _ => steady_fail _) (steady_fail _)
  | some diagnostic => exact .ite ((steady_fail _).bind fun _ => steady_throw _) (steady_throw _)

/-- All readers with an allowance of `n` calls and with one more. -/
structure ReadersSteady (n : Nat) : Prop where
  statement : Steady (statement n) (statement (n + 1))
  declaration : Steady (declaration n) (declaration (n + 1))
  functionDeclaration : Steady (functionDeclaration n) (functionDeclaration (n + 1))
  rawCode : Steady (rawCode n) (rawCode (n + 1))
  block : Steady (block n) (block (n + 1))
  blockRest : Steady (blockRest n) (blockRest (n + 1))
  climb (least : Nat) : Steady (climb n least) (climb (n + 1) least)
  climbRest (least : Nat) (left : Node Span) :
    Steady (climbRest n least left) (climbRest (n + 1) least left)
  atom : Steady (atom n) (atom (n + 1))
  nameRest (name : Token) : Steady (nameRest n name) (nameRest (n + 1) name)
  arguments : Steady (arguments n) (arguments (n + 1))
  moreArguments : Steady (moreArguments n) (moreArguments (n + 1))

section
variable {n : Nat} (h : ReadersSteady n)
include h

/-- A statement goes over to the reader of its form. -/
theorem steady_statement : Steady (statement (n + 1)) (statement (n + 2)) := by
  rw [statement, statement]
  refine steady_legal.bind fun t => ?_
  cases t.kind with
  | keyword word =>
    cases word with
    | declare => exact h.declaration
    | function => exact h.functionDeclaration
    | raw => exact h.rawCode
  | _ => exact h.climb 1

/-- A declaration with a value reads a statement. -/
theorem steady_declaration : Steady (declaration (n + 1)) (declaration (n + 2)) := by
  rw [declaration, declaration]
  refine steady_advance.bind fun opening => (steady_demand _ _).bind fun name => ?_
  refine (steady_typeAfterColon _).bind fun type => (steady_accept _).bind fun _ => ?_
  apply Steady.ite
  · exact h.statement.bind fun value => steady_previous.bind fun _ => steady_pure _
  · have hdeclare : Steady
        (do return Node.declare name.lexeme type (opening.span.merge (← previous).span))
        (do return Node.declare name.lexeme type (opening.span.merge (← previous).span)) :=
      steady_previous.bind fun _ => steady_pure _
    exact .ite ((steady_fail _).bind fun _ => hdeclare) hdeclare

theorem steady_functionDeclaration :
    Steady (functionDeclaration (n + 1)) (functionDeclaration (n + 2)) := by
  rw [functionDeclaration, functionDeclaration]
  refine steady_advance.bind fun opening => (steady_demand _ _).bind fun name => ?_
  refine (steady_demand _ _).bind fun _ => (steady_parameters n).bind fun parameters => ?_
  refine (steady_typeAfterColon _).bind fun result => h.block.bind fun body => ?_
  exact steady_previous.bind fun _ => steady_pure _

theorem steady_rawCode : Steady (rawCode (n + 1)) (rawCode (n + 2)) := by
  rw [rawCode, rawCode]
  refine steady_advance.bind fun opening => (h.climb 1).bind fun node => ?_
  split
  · exact steady_pure _
  · exact steady_failAt _ _

/-- A body reads a first statement and those behind it. -/
theorem steady_block : Steady (block (n + 1)) (block (n + 2)) := by
  rw [block, block]
  refine (steady_demand _ _).bind fun _ => steady_skipNewlines.bind fun _ => ?_
  refine (steady_suspect _).bind fun _ => .ite (steady_closeBlock [] none) ?_
  refine steady_get.bind fun _ => .ite (steady_closeBlock [] none) ?_
  exact h.statement.bind fun first => h.blockRest.bind fun rest =>
    steady_closeBlock (first :: rest.1) rest.2

/-- A statement that cannot be read puts the cursor back to where it started, which is not
before the newlines. -/
theorem steady_blockRest : Steady (blockRest (n + 1)) (blockRest (n + 2)) := by
  rw [blockRest, blockRest]
  refine steady_skipNewlines.bind fun _ => .ite (steady_pure _) ?_
  refine h.statement.attempt.bind fun result => ?_
  cases result with
  | error diagnostic => exact steady_pure _
  | ok next => exact h.blockRest.bind fun rest => steady_pure _

/-- An expression reads an operand and the operations behind it. -/
theorem steady_climb (least : Nat) : Steady (climb (n + 1) least) (climb (n + 2) least) := by
  rw [climb, climb]
  exact h.atom.bind fun first => h.climbRest least first

/-- Each further operation starts behind its operator. -/
theorem steady_climbRest (least : Nat) (left : Node Span) :
    Steady (climbRest (n + 1) least left) (climbRest (n + 2) least left) := by
  rw [climbRest, climbRest]
  refine steady_operator?.bind fun found => ?_
  cases found with
  | none => exact steady_pure _
  | some op =>
    refine .ite (steady_pure _) (steady_takeOperator.bind fun taken => ?_)
    exact (h.climb _).bind fun right => h.climbRest least _

/-- An operand, one case for each kind of token it can start with. -/
theorem steady_atom : Steady (atom (n + 1)) (atom (n + 2)) := by
  rw [atom, atom]
  refine steady_legal.bind fun t => ?_
  cases t.kind with
  | integer value => exact steady_advance.bind fun _ => steady_pure _
  | string value => exact steady_advance.bind fun _ => steady_pure _
  | identifier => exact steady_advance.bind fun _ => h.nameRest t
  | leftParen =>
    refine steady_advance.bind fun _ => (h.climb 1).bind fun inner => ?_
    exact (steady_demand _ _).bind fun _ => steady_pure _
  | operator op =>
    cases op with
    | subtract =>
      refine steady_advance.bind fun _ => steady_peek.bind fun next => ?_
      cases next.kind with
      | integer value => exact steady_advance.bind fun _ => steady_pure _
      | _ => exact h.atom.bind fun operand => steady_pure _
    | _ => exact steady_fail _
  | _ => exact steady_fail _

/-- An assignment reads a statement, a call its arguments. -/
theorem steady_nameRest (name : Token) :
    Steady (nameRest (n + 1) name) (nameRest (n + 2) name) := by
  rw [nameRest, nameRest]
  refine (steady_accept _).bind fun _ => .ite (h.statement.bind fun value => steady_pure _) ?_
  refine (steady_accept _).bind fun _ => .ite ?_ (steady_pure _)
  exact h.arguments.bind fun nodes => steady_previous.bind fun _ => steady_pure _

theorem steady_arguments : Steady (arguments (n + 1)) (arguments (n + 2)) := by
  rw [arguments, arguments]
  exact (steady_accept _).bind fun _ => .ite (steady_pure _) h.moreArguments

theorem steady_moreArguments : Steady (moreArguments (n + 1)) (moreArguments (n + 2)) := by
  rw [moreArguments, moreArguments]
  refine (h.climb 1).bind fun first => (steady_accept _).bind fun _ => ?_
  apply Steady.ite
  · exact h.moreArguments.bind fun rest => steady_pure _
  · exact (steady_demand _ _).bind fun _ => steady_pure _

end

/-- By induction on the allowance, for all readers that call each other together. -/
theorem readersSteady (n : Nat) : ReadersSteady n := by
  induction n with
  | zero => constructor <;> intros <;> exact steady_exhausted _
  | succ n ih =>
    exact {
      statement := steady_statement ih
      declaration := steady_declaration ih
      functionDeclaration := steady_functionDeclaration ih
      rawCode := steady_rawCode ih
      block := steady_block ih
      blockRest := steady_blockRest ih
      climb := steady_climb ih
      climbRest := steady_climbRest ih
      atom := steady_atom ih
      nameRest := steady_nameRest ih
      arguments := steady_arguments ih
      moreArguments := steady_moreArguments ih }

theorem steady_statements (n : Nat) : Steady (statements n) (statements (n + 1)) := by
  induction n with
  | zero => exact steady_exhausted _
  | succ n ih =>
    rw [statements, statements]
    refine steady_get.bind fun _ => .ite (steady_pure _) ?_
    refine (readersSteady n).statement.bind fun first => ?_
    refine steady_get.bind fun _ => .ite (steady_pure _) (steady_skipNewlines.bind fun _ => ?_)
    have hrest : Steady (do return first :: (← statements n))
        (do return first :: (← statements (n + 1))) := ih.bind fun rest => steady_pure _
    exact .ite ((steady_fail _).bind fun _ => hrest) hrest

/-- A script chooses its allowance by itself. -/
theorem steady_script : Steady script script :=
  steady_skipNewlines.bind fun _ => steady_get.bind fun _ => (steady_statements _).same

/-! ## Ends of readers -/

/-- A reader ends from an index of some tokens, in the same way with every allowance that is in
proportion to the tokens ahead. If it succeeds, it is at least `taken` tokens further on; if it
fails, it reports a fault and is not further back. It never leaves the tokens. -/
def Proceeds (read : Nat → Parser β) (tokens : List Token) (i taken : Nat) : Prop :=
  ∃ c, Cursor.behind? tokens i none = some c
    ∧ ((∃ x j c', i + taken ≤ j ∧ j < tokens.length ∧ Cursor.behind? tokens j none = some c'
        ∧ ∀ n, allowance c ≤ n → read n c = .ok x c')
      ∨ ∃ d j c', i ≤ j ∧ j < tokens.length ∧ Cursor.behind? tokens j none = some c'
        ∧ ∀ n, allowance c ≤ n → read n c = .error (.diagnosed d) c')

/-- Allowances that suffice make no difference. -/
theorem run_eq_of_steady {read : Nat → Parser β} {good : List Token → β → Cursor → Prop}
    (hsteady : ∀ n, Steady (read n) (read (n + 1))) (hc : c.Closed)
    (hreads : ∀ n, allowance c ≤ n → Reads (read n) c good) {n : Nat} (hn : allowance c ≤ n) :
    read n c = read (allowance c) c := by
  induction n, hn using Nat.le_induction with
  | base => rfl
  | succ n hn ih =>
    rw [← ih]
    have hrun := hsteady n c hc
    cases hread : read n c with
    | ok x c' => exact (hrun.ok hread).2
    | error e c' =>
      obtain ⟨d, rfl, -⟩ := Ensures.error (hreads n hn) hread
      obtain hexhausted | hsame := (hrun.error hread).2
      · cases hexhausted
      · exact hsame

/-- A reader that is sound and steady proceeds. -/
theorem proceeds_of_reads {read : Nat → Parser β} {good : List Token → β → Cursor → Prop}
    {tokens : List Token} {i taken : Nat} (hsteady : ∀ n, Steady (read n) (read (n + 1)))
    (hc : c.Closed) (hplace : Cursor.behind? tokens i none = some c)
    (hreads : ∀ n, allowance c ≤ n → Reads (read n) c good)
    (htaken : ∀ ts x c', good ts x c' → taken ≤ ts.length) : Proceeds read tokens i taken := by
  have hsame := fun n (hn : allowance c ≤ n) => run_eq_of_steady hsteady hc hreads hn
  have hends := hreads _ (Nat.le_refl _)
  refine ⟨c, hplace, ?_⟩
  cases hread : read (allowance c) c with
  | ok x c' =>
    obtain ⟨ts, htook, hgood⟩ := Ensures.ok hends hread
    have hlast := htook.behind? hplace
    have hle := htaken ts x c' hgood
    exact .inl ⟨x, i + ts.length, c', by omega, Cursor.lt_of_behind? hlast, hlast,
      fun n hn => (hsame n hn).trans hread⟩
  | error e c' =>
    obtain ⟨d, rfl, -⟩ := Ensures.error hends hread
    obtain ⟨⟨ts, htook⟩, -⟩ := Ensures.error (hsteady (allowance c) c hc) hread
    have hlast := htook.behind? hplace
    exact .inr ⟨d, i + ts.length, c', by omega, Cursor.lt_of_behind? hlast, hlast,
      fun n hn => (hsame n hn).trans hread⟩

/-- A phrase that cannot be empty takes at least one token. -/
theorem DerivesTo.length_pos {ts : List Token} {phrase : Bool → Phrase}
    (h : DerivesTo ts phrase c) (hphrase : ∀ greedy, (phrase greedy).IsProper) :
    0 < ts.length := by
  obtain ⟨greedy, hderives, -⟩ := h
  exact List.length_pos_of_ne_nil (hderives.ne_nil (hphrase greedy))

/-- Every reader makes progress and stays in bounds. Take any tokens that end with their only
end of the text, and any index of them. From there the readers of statements, of expressions of
any level, of operands and of bodies end behind at least one token if they succeed; so do those
of parameters and arguments, which take a closing parenthesis. A run of newlines and a whole
script may be empty. No reader that fails ends before its start, and none leaves the tokens. -/
theorem readers_proceed {tokens : List Token} {i : Nat} (h : EndsText tokens)
    (hi : i < tokens.length) :
    Proceeds statement tokens i 1 ∧ (∀ least, Proceeds (climb · least) tokens i 1)
      ∧ Proceeds atom tokens i 1 ∧ Proceeds block tokens i 1
      ∧ Proceeds parameters tokens i 1 ∧ Proceeds arguments tokens i 1
      ∧ Proceeds (fun _ => skipNewlines) tokens i 0 ∧ Proceeds (fun _ => script) tokens i 0 := by
  obtain ⟨c, hplace, hc⟩ := h.exists_behind hi
  have hallowance : allowance c = 8 * c.remaining + 16 := by unfold allowance; omega
  refine ⟨?_, fun least => ?_, ?_, ?_, ?_, ?_, ?_, ?_⟩
  · refine proceeds_of_reads (fun n => (readersSteady n).statement) hc hplace
      (fun n hn => (readersSound n).statement hc (by omega)) fun ts node c' hnode => ?_
    exact hnode.length_pos fun _ => trivial
  · refine proceeds_of_reads (fun n => (readersSteady n).climb least) hc hplace
      (fun n hn => (readersSound n).climb hc (by omega)) fun ts node c' hnode => ?_
    exact hnode.1.length_pos fun _ => trivial
  · refine proceeds_of_reads (fun n => (readersSteady n).atom) hc hplace
      (fun n hn => (readersSound n).atom hc (by omega)) fun ts node c' hnode => ?_
    exact hnode.length_pos fun _ => trivial
  · refine proceeds_of_reads (fun n => (readersSteady n).block) hc hplace
      (fun n hn => (readersSound n).block hc (by omega)) fun ts nodes c' hnodes => ?_
    exact List.length_pos_of_ne_nil (hnodes.ne_nil trivial)
  · refine proceeds_of_reads steady_parameters hc hplace
      (fun n hn => reads_parameters hc (by omega)) fun ts ps c' hps => ?_
    cases hps with
    | none => simp
    | some hmore => cases hmore <;> simp
  · refine proceeds_of_reads (fun n => (readersSteady n).arguments) hc hplace
      (fun n hn => (readersSound n).arguments hc (by omega)) fun ts nodes c' hnodes => ?_
    exact List.length_pos_of_ne_nil (hnodes.ne_nil trivial)
  · exact proceeds_of_reads (fun _ => steady_skipNewlines) hc hplace
      (fun _ _ => reads_skipNewlines hc) fun ts _ _ _ => ts.length.zero_le
  · exact proceeds_of_reads (fun _ => steady_script) hc hplace
      (fun _ _ => reads_script hc) fun ts _ _ _ => ts.length.zero_le

/-- A body whose second line cannot be read: the reader goes back to the start of that line,
finds no closing brace there, and fails. -/
theorem readers_proceed_rewind :
    ∃ tokens, tokenize ⟨"rewind", "function f() \x7b\na = 1\nb = (2 +\n\x7d\n".toList⟩ = .ok tokens
      ∧ EndsText tokens ∧ 4 < tokens.length ∧ Proceeds block tokens 4 1 := by
  have hread : ∀ text : List Char, (tokenize ⟨"rewind", text⟩).toOption.any
        (fun tokens => decide (4 < tokens.length)) = true →
      ∃ tokens, tokenize ⟨"rewind", text⟩ = .ok tokens ∧ EndsText tokens ∧ 4 < tokens.length
        ∧ Proceeds block tokens 4 1 := by
    intro text hany
    obtain ⟨tokens, htokens, hlength⟩ := exists_ok_of_any hany
    have hends := endsText_of_tokenize htokens
    have hlength := of_decide_eq_true hlength
    exact ⟨tokens, htokens, hends, hlength, (readers_proceed hends hlength).2.2.2.1⟩
  exact hread _ (by decide +kernel)

end Parser

end Scoreboard
