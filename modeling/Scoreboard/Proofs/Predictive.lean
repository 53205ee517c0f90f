import Mathlib
import Scoreboard.Proofs.ReadingAhead

/-!
# Bodies without going back

The reader of a body tries a statement behind every run of newlines and goes back if there is
none. This file has readers that never go back. Theirs decides at the current token alone: a
closing brace ends the body, the end of the text is a fault, and at anything else a statement
is read whose faults are faults of the body. The other readers are the same, but they call
these ones, so nothing inside a nested body goes back either.

Both read the same statements up to the same place or report the same fault
(`Parser.block_agrees_predictive`). The reason is that no statement starts where a body can end, so
that the attempt there fails at its first token, and that elsewhere the fault of an attempt is
the one reported in the end (`Parser.agrees_line`). An attempt needs some allowance to fail. The
readers are therefore compared as long as the allowance of those that go back is not used up.
-/

namespace Scoreboard

/-- Whether no statement is read at a kind inside a body: the body ends there or has a fault. -/
def TokenKind.endsBody : TokenKind → Bool
  | rightBrace => true
  | endOfText => true
  | illegal => true
  | _ => false

/-- Every place in tokens that the end of the text closes has that end ahead. -/
theorem Cursor.exists_behind {tokens : List Token} {last : Token} {i : Nat}
    (hlast : tokens.getLast? = some last) (hend : last.kind = .endOfText)
    (hi : i < tokens.length) : ∃ c, Cursor.behind? tokens i none = some c ∧ c.Closed := by
  have hdrop : (tokens.drop i).getLast? = some last := by
    rw [List.getLast?_drop, if_neg (by omega), hlast]
  unfold Cursor.behind?
  cases htokens : tokens.drop i with
  | nil =>
    rw [htokens] at hdrop
    cases hdrop
  | cons current after =>
    rw [htokens] at hdrop
    exact ⟨_, rfl, rfl, last, List.mem_of_getLast? hdrop, hend⟩

namespace Parser

namespace Predictive

/-- The end of a body, or what to read in its place. -/
def closeOr (read : Parser (List (Node Span))) : Parser (List (Node Span)) := do
  if ← accept (· == .rightBrace) then return []
  if (← get).atEnd then fail .unclosedBlock
  read

mutual

/-- A statement. -/
def statement : Nat → Parser (Node Span)
  | 0 => throw .exhausted
  | n + 1 => do
    match (← legal).kind with
    | .keyword .declare => declaration n
    | .keyword .function => functionDeclaration n
    | .keyword .raw => rawCode n
    | _ => climb n 1

def declaration : Nat → Parser (Node Span)
  | 0 => throw .exhausted
  | n + 1 => do
    let opening ← advance
    let name ← demand (· == .identifier) (.missingName .variable)
    let type ← typeAfterColon .variable
    if ← accept (· == .assign) then
      let value ← statement n
      return .define name.lexeme type value (opening.span.merge (← previous).span)
    if type.isNone then fail .missingTypeOrValue
    return .declare name.lexeme type (opening.span.merge (← previous).span)

def functionDeclaration : Nat → Parser (Node Span)
  | 0 => throw .exhausted
  | n + 1 => do
    let opening ← advance
    let name ← demand (· == .identifier) (.missingName .function)
    let _ ← demand (· == .leftParen) .missingParameters
    let parameters ← parameters n
    let result ← typeAfterColon .result
    let body ← block n
    return .function name.lexeme parameters result body
      (opening.span.merge (← previous).span)

def rawCode : Nat → Parser (Node Span)
  | 0 => throw .exhausted
  | n + 1 => do
    let opening ← advance
    match ← climb n 1 with
    | .string text span => return .raw text (opening.span.merge span)
    | other => failAt .missingString other.mark

/-- A body in braces. -/
def block : Nat → Parser (List (Node Span))
  | 0 => throw .exhausted
  | n + 1 => do
    let _ ← demand (· == .leftBrace) .missingBlock
    let _ ← skipNewlines
    closeOr do
      let first ← statement n
      return first :: (← blockTail n)

/-- The rest of a body behind a statement, with its end. -/
def blockTail : Nat → Parser (List (Node Span))
  | 0 => throw .exhausted
  | n + 1 => do
    if (← skipNewlines) = 0 then closeOr (fail .missingLineInBlock)
    else closeOr do
      let next ← statement n
      return next :: (← blockTail n)

/-- An expression whose operators bind at least as tightly as `least`. -/
def climb : Nat → Nat → Parser (Node Span)
  | 0, _ => throw .exhausted
  | n + 1, least => do
    let first ← atom n
    climbRest n least first

def climbRest : Nat → Nat → Node Span → Parser (Node Span)
  | 0, _, _ => throw .exhausted
  | n + 1, least, left => do
    match ← operator? with
    | none => return left
    | some op =>
      if op.precedence < least then return left
      let taken ← takeOperator
      let right ← climb n (op.precedence + 1)
      climbRest n least (.binary taken left right (left.mark.merge right.mark))

/-- An operand. -/
def atom : Nat → Parser (Node Span)
  | 0 => throw .exhausted
  | n + 1 => do
    let token ← legal
    match token.kind with
    | .integer value =>
      let _ ← advance
      return .integer value token.span
    | .string value =>
      let _ ← advance
      return .string value token.span
    | .identifier =>
      let _ ← advance
      nameRest n token
    | .leftParen =>
      let _ ← advance
      let inner ← climb n 1
      let _ ← demand (· == .rightParen) .unclosedParenthesis
      return inner
    | .operator .subtract =>
      let _ ← advance
      let next ← peek
      match next.kind with
      | .integer value =>
        let _ ← advance
        return .integer (-value) (token.span.merge next.span)
      | _ =>
        let operand ← atom n
        return .binary .subtract (.integer 0 token.span) operand
          (token.span.merge operand.mark)
    | _ => fail .missingExpression

def nameRest : Nat → Token → Parser (Node Span)
  | 0, _ => throw .exhausted
  | n + 1, name => do
    if ← accept (· == .assign) then
      let value ← statement n
      return .assign name.lexeme value (name.span.merge value.mark)
    if ← accept (· == .leftParen) then
      let arguments ← arguments n
      return .call name.lexeme arguments (name.span.merge (← previous).span)
    return .access name.lexeme name.span

def arguments : Nat → Parser (List (Node Span))
  | 0 => throw .exhausted
  | n + 1 => do
    if ← accept (· == .rightParen) then return []
    moreArguments n

def moreArguments : Nat → Parser (List (Node Span))
  | 0 => throw .exhausted
  | n + 1 => do
    let first ← climb n 1
    if ← accept (· == .comma) then
      return first :: (← moreArguments n)
    let _ ← demand (· == .rightParen) .missingSeparator
    return [first]

end

end Predictive

/-! ## Comparing readers -/

variable {α β : Type} {c : Cursor}

/-- Two ends of reading: the same result at the same place, or the same error. Nothing is said
if the allowance of the first is used up. -/
inductive Alike : EStateM.Result ParseError Cursor α → EStateM.Result ParseError Cursor α → Prop
  | exhausted {c : Cursor} {r : EStateM.Result ParseError Cursor α} :
      Alike (.error .exhausted c) r
  | ok {x : α} {c : Cursor} : Alike (.ok x c) (.ok x c)
  | error {e : ParseError} {c c' : Cursor} : Alike (.error e c) (.error e c')

/-- Two readers that end alike wherever they start. -/
def Agrees (p q : Parser α) : Prop := ∀ c, Alike (p c) (q c)

theorem Alike.refl (r : EStateM.Result ParseError Cursor α) : Alike r r := by
  cases r with
  | ok x c => exact .ok
  | error e c => exact .error

/-- Ends that are alike in turn are alike. -/
theorem Alike.trans {r s t : EStateM.Result ParseError Cursor α} (h : Alike r s)
    (h' : Alike s t) : Alike r t := by
  cases h with
  | exhausted => exact .exhausted
  | ok => exact h'
  | error =>
    cases h' with
    | exhausted => exact .exhausted
    | error => exact .error

theorem agrees_same (p : Parser α) : Agrees p p := fun c => .refl (p c)

/-- A reader without allowance agrees with every other. -/
theorem agrees_exhausted (p : Parser α) : Agrees (throw .exhausted) p := fun _ => .exhausted

/-- Agreeing readers one behind the other agree. -/
theorem Agrees.bind {p q : Parser α} {f g : α → Parser β} (h : Agrees p q)
    (hf : ∀ x, Agrees (f x) (g x)) : Agrees (p >>= f) (q >>= g) := by
  intro c
  have hfirst := h c
  generalize hp : p c = r, hq : q c = r' at hfirst
  cases hfirst with
  | exhausted =>
    rw [bind_of_error hp]
    exact .exhausted
  | ok =>
    rw [bind_of_ok hp, bind_of_ok hq]
    exact hf _ _
  | error =>
    rw [bind_of_error hp, bind_of_error hq]
    exact .error

/-- Behind the same reader. -/
theorem Agrees.after {p : Parser α} {f g : α → Parser β} (hf : ∀ x, Agrees (f x) (g x)) :
    Agrees (p >>= f) (p >>= g) :=
  (agrees_same p).bind hf

/-- Agreeing readers in both branches of a choice agree. -/
theorem Agrees.ite {b : Prop} [Decidable b] {p q p' q' : Parser α} (hp : Agrees p p')
    (hq : Agrees q q') : Agrees (if b then p else q) (if b then p' else q') := by
  split
  · exact hp
  · exact hq

/-! ## The ends of bodies -/

open Predictive (closeOr)

/-- A body without statements closes, or lacks a line. -/
theorem closeBlock_none : closeBlock [] none = closeOr (fail .missingLineInBlock) := rfl

/-- A body closes, or the fault of the last attempt is reported. -/
theorem closeBlock_some (d : Diagnostic Span) :
    closeBlock [] (some d) = closeOr (throw (.diagnosed d)) := rfl

/-- The statements read so far do not matter for the end of a body. -/
theorem closeBlock_cons (first : Node Span) (rest : List (Node Span))
    (failed : Option (Diagnostic Span)) :
    closeBlock (first :: rest) failed
      = closeBlock rest failed >>= fun nodes => pure (first :: nodes) := by
  funext c
  unfold closeBlock
  rw [bind_assoc]
  refine bind_congr_ok fun b c' _ => ?_
  cases b with
  | true => rfl
  | false =>
    show (get >>= _ : Parser _) c' = ((get >>= _) >>= _ : Parser _) c'
    rw [bind_assoc, get_bind, get_bind]
    cases c'.atEnd with
    | true => rfl
    | false => cases failed <;> rfl

/-- A token that is not taken stays where it is. -/
theorem accept_eq_false {test : TokenKind → Bool} {c' : Cursor}
    (h : accept test c = .ok false c') :
    c' = c ∧ c.current.kind ≠ .illegal ∧ test c.current.kind = false := by
  unfold accept at h
  by_cases hillegal : c.current.kind = .illegal
  · rw [bind_of_error (suspect_illegal hillegal)] at h
    cases h
  · rw [bind_of_ok (suspect_of_ne hillegal)] at h
    cases htest : test c.current.kind with
    | true =>
      rw [htest] at h
      cases h
    | false =>
      rw [htest] at h
      cases h
      exact ⟨rfl, hillegal, rfl⟩

/-- A body that ends at no brace and at no illegal token ends at the end of the text. -/
theorem atEnd_of_endsBody (h : c.current.kind.endsBody = true)
    (hlegal : c.current.kind ≠ .illegal) (hbrace : c.current.kind ≠ .rightBrace) :
    c.atEnd = true := by
  unfold Cursor.atEnd
  cases hkind : c.current.kind <;> simp_all [TokenKind.endsBody]

theorem ne_of_endsBody (h : c.current.kind.endsBody = false) :
    c.current.kind ≠ .illegal ∧ c.current.kind ≠ .rightBrace ∧ ¬ c.atEnd = true := by
  unfold Cursor.atEnd
  cases hkind : c.current.kind <;> simp_all [TokenKind.endsBody]

/-- Where a body ends it does not matter what else would be read. -/
theorem closeOr_ends (h : c.current.kind.endsBody = true) (p q : Parser (List (Node Span))) :
    closeOr p c = closeOr q c := by
  unfold closeOr
  refine bind_congr_ok fun b c' haccept => ?_
  cases b with
  | true => rfl
  | false =>
    obtain ⟨rfl, hlegal, hbrace⟩ := accept_eq_false haccept
    have hend := atEnd_of_endsBody h hlegal (by simpa using hbrace)
    rw [if_neg Bool.false_ne_true, if_neg Bool.false_ne_true, get_bind, get_bind, if_pos hend,
      if_pos hend]
    rfl

/-- Where no body ends the other reader is called. -/
theorem closeOr_other (h : c.current.kind.endsBody = false) (p : Parser (List (Node Span))) :
    closeOr p c = p c := by
  obtain ⟨hlegal, hbrace, hend⟩ := ne_of_endsBody h
  unfold closeOr
  rw [bind_of_ok (accept_ne hlegal hbrace), if_neg Bool.false_ne_true, get_bind, if_neg hend]

/-- Looking for the end of a body first and closing it then. -/
theorem closeOr_eq_suspect (read : Parser (List (Node Span))) :
    closeOr read = (do
      if ← suspect (· == .rightBrace) then closeBlock [] none
      else if (← get).atEnd then closeBlock [] none
      else read) := by
  funext c
  by_cases hlegal : c.current.kind = .illegal
  · -- an illegal token is reported by whatever looks at it first
    have haccept : accept (· == .rightBrace) c = .error _ c :=
      bind_of_error (suspect_illegal hlegal)
    rw [bind_of_error (suspect_illegal hlegal)]
    exact bind_of_error haccept
  rw [bind_of_ok (suspect_of_ne hlegal)]
  cases hends : c.current.kind.endsBody with
  | true =>
    rw [closeOr_ends hends read (fail .missingLineInBlock), ← closeBlock_none]
    by_cases hbrace : c.current.kind = .rightBrace
    · rw [hbrace]
      rfl
    · have hend := atEnd_of_endsBody hends hlegal hbrace
      rw [if_neg (by simpa using hbrace), get_bind, if_pos hend]
  | false =>
    obtain ⟨-, hbrace, hend⟩ := ne_of_endsBody hends
    rw [closeOr_other hends, if_neg (by simpa using hbrace), get_bind, if_neg hend]

/-- Where a body ends no statement can be read. -/
theorem statement_ends (n : Nat) (h : c.current.kind.endsBody = true) :
    ∃ d, Alike (statement n c) (.error (.diagnosed d) c) := by
  by_cases hlegal : c.current.kind = .illegal
  · refine ⟨⟨.illegalCharacter c.current.lexeme, c.current.span⟩, ?_⟩
    cases n with
    | zero => exact .exhausted
    | succ n =>
      rw [statement, bind_of_error (legal_illegal hlegal)]
      exact .error
  · have hother : c.current.kind.isKeyword = false ∧ c.current.kind.startsAtom = false := by
      cases hkind : c.current.kind <;> simp_all [TokenKind.endsBody] <;> decide
    refine ⟨⟨.missingExpression, c.current.span⟩, ?_⟩
    -- the calls on the way to the operand take something from the allowance
    rcases n with _ | _ | _ | n
    · exact .exhausted
    · rw [statement_other 0 hother.1 hlegal]
      exact .exhausted
    · rw [statement_other 1 hother.1 hlegal]
      exact .exhausted
    · rw [statement_other (n + 2) hother.1 hlegal, climb,
        bind_of_error (atom_other n hother.2 hlegal)]
      exact .error

/-! ## Lines of bodies -/

/-- The rest of a body behind an attempt, if `more` reads it behind a statement. -/
def afterAttempt (more : α → Parser (List (Node Span))) :
    Except (Diagnostic Span) α → Parser (List (Node Span))
  | .error d => closeBlock [] (some d)
  | .ok x => more x

/-- An attempt passes on an error that is no fault of the text. -/
theorem attempt_of_error {p : Parser α} {e : ParseError} {c' : Cursor} (h : p c = .error e c')
    (he : ∀ d, e ≠ .diagnosed d) : attempt p c = .error e c' := by
  unfold attempt
  rw [h]
  cases e with
  | diagnosed d => exact (he d rfl).elim
  | notOperator => rfl
  | exhausted => rfl

/-- Where a body ends it is closed, or has a fault, whatever could be read instead. -/
theorem alike_attempt_ends (n : Nat) (h : c.current.kind.endsBody = true)
    (more : Node Span → Parser (List (Node Span))) (read : Parser (List (Node Span))) :
    Alike ((attempt (statement n) >>= afterAttempt more) c) (closeOr read c) := by
  obtain ⟨d, hd⟩ := statement_ends n h
  generalize hrun : statement n c = result at hd
  cases hd with
  | exhausted =>
    rw [bind_of_error (attempt_of_error hrun nofun)]
    exact .exhausted
  | error =>
    -- the attempt goes back to where it failed, and the end of the body is found there
    rw [bind_of_ok (attempt_of_fault hrun), afterAttempt, closeBlock_some, closeOr_ends h _ read]
    exact .refl _

/-- Where a body does not end, a reader that is tried and whose fault is reported is read. -/
theorem alike_attempt_other {p : Parser α} (h : c.current.kind.endsBody = false)
    (more : α → Parser (List (Node Span))) :
    Alike ((attempt p >>= afterAttempt more) c) ((p >>= more) c) := by
  cases hrun : p c with
  | ok x c' =>
    rw [bind_of_ok (attempt_of_ok hrun), bind_of_ok hrun]
    exact .refl _
  | error e c' =>
    rw [bind_of_error hrun]
    cases e with
    | diagnosed d =>
      rw [bind_of_ok (attempt_of_fault hrun), afterAttempt, closeBlock_some, closeOr_other h]
      exact .error
    | _ =>
      rw [bind_of_error (attempt_of_error hrun nofun)]
      exact .error

section
variable {n : Nat} (hstatement : Agrees (statement n) (Predictive.statement n))
  (htail : Agrees (blockRest n >>= fun rest => closeBlock rest.1 rest.2) (Predictive.blockTail n))
include htail

/-- The rest of a body behind its first statement, with the readers one level down compared. -/
theorem agrees_tail (first : Node Span) :
    Agrees (blockRest n >>= fun rest => closeBlock (first :: rest.1) rest.2)
      (do return first :: (← Predictive.blockTail n)) := by
  simp only [closeBlock_cons]
  rw [← bind_assoc]
  exact htail.bind fun rest => agrees_same _

include hstatement

/-- A line that is tried, with the lines below it, is a line that is read unless the body ends. -/
theorem agrees_line :
    Agrees
      (attempt (statement n) >>= afterAttempt fun next =>
        blockRest n >>= fun rest => closeBlock (next :: rest.1) rest.2)
      (closeOr do
        let next ← Predictive.statement n
        return next :: (← Predictive.blockTail n)) := by
  intro c
  cases hends : c.current.kind.endsBody with
  | true => exact alike_attempt_ends n hends _ _
  | false =>
    rw [closeOr_other hends]
    exact (alike_attempt_other hends _).trans ((hstatement.bind (agrees_tail htail)) c)

end

/-! ## Statements and expressions -/

/-- All readers with an allowance agree with those that never go back. -/
structure ReadersAgree (n : Nat) : Prop where
  statement : Agrees (statement n) (Predictive.statement n)
  declaration : Agrees (declaration n) (Predictive.declaration n)
  functionDeclaration : Agrees (functionDeclaration n) (Predictive.functionDeclaration n)
  rawCode : Agrees (rawCode n) (Predictive.rawCode n)
  block : Agrees (block n) (Predictive.block n)
  blockTail : Agrees (blockRest n >>= fun rest => closeBlock rest.1 rest.2)
    (Predictive.blockTail n)
  climb (least : Nat) : Agrees (climb n least) (Predictive.climb n least)
  climbRest (least : Nat) (left : Node Span) :
    Agrees (climbRest n least left) (Predictive.climbRest n least left)
  atom : Agrees (atom n) (Predictive.atom n)
  nameRest (name : Token) : Agrees (nameRest n name) (Predictive.nameRest n name)
  arguments : Agrees (arguments n) (Predictive.arguments n)
  moreArguments : Agrees (moreArguments n) (Predictive.moreArguments n)

section
variable {n : Nat} (h : ReadersAgree n)
include h

/-- Both readers of statements agree, if those they call do. -/
theorem agrees_statement : Agrees (statement (n + 1)) (Predictive.statement (n + 1)) := by
  rw [statement, Predictive.statement]
  refine .after fun t => ?_
  cases t.kind with
  | keyword word =>
    cases word with
    | declare => exact h.declaration
    | function => exact h.functionDeclaration
    | raw => exact h.rawCode
  | _ => exact h.climb 1

theorem agrees_declaration : Agrees (declaration (n + 1)) (Predictive.declaration (n + 1)) := by
  rw [declaration, Predictive.declaration]
  refine .after fun opening => .after fun name => .after fun type => .after fun b => ?_
  exact .ite (h.statement.bind fun _ => agrees_same _) (agrees_same _)

theorem agrees_functionDeclaration :
    Agrees (functionDeclaration (n + 1)) (Predictive.functionDeclaration (n + 1)) := by
  rw [functionDeclaration, Predictive.functionDeclaration]
  refine .after fun opening => .after fun name => .after fun _ => .after fun parameters => ?_
  exact .after fun result => h.block.bind fun _ => agrees_same _

theorem agrees_rawCode : Agrees (rawCode (n + 1)) (Predictive.rawCode (n + 1)) := by
  rw [rawCode, Predictive.rawCode]
  exact .after fun opening => (h.climb 1).bind fun _ => agrees_same _

/-- Both readers of bodies agree, if those they call do. -/
theorem agrees_block : Agrees (block (n + 1)) (Predictive.block (n + 1)) := by
  rw [block, Predictive.block]
  refine .after fun _ => .after fun _ => ?_
  -- the first line is never tried, so only what follows it differs
  rw [closeOr_eq_suspect]
  refine .after fun b => .ite (agrees_same _) (.after fun c => .ite (agrees_same _) ?_)
  exact h.statement.bind (agrees_tail h.blockTail)

/-- Both readers of the rest of a body agree: the step at which one of them goes back. -/
theorem agrees_blockTail :
    Agrees (blockRest (n + 1) >>= fun rest => closeBlock rest.1 rest.2)
      (Predictive.blockTail (n + 1)) := by
  rw [blockRest, Predictive.blockTail, bind_assoc]
  refine .after fun count => ?_
  split
  · rw [pure_bind]
    exact agrees_same _
  · rw [bind_assoc]
    convert agrees_line h.statement h.blockTail using 3 with result
    cases result with
    | error d => rfl
    | ok next => exact bind_assoc ..

/-- Both readers of expressions agree, if those they call do. -/
theorem agrees_climb (least : Nat) :
    Agrees (climb (n + 1) least) (Predictive.climb (n + 1) least) := by
  rw [climb, Predictive.climb]
  exact h.atom.bind fun first => h.climbRest least first

theorem agrees_climbRest (least : Nat) (left : Node Span) :
    Agrees (climbRest (n + 1) least left) (Predictive.climbRest (n + 1) least left) := by
  rw [climbRest, Predictive.climbRest]
  refine .after fun found => ?_
  cases found with
  | none => exact agrees_same _
  | some op =>
    refine .ite (agrees_same _) (.after fun taken => (h.climb _).bind fun right => ?_)
    exact h.climbRest least _

/-- Both readers of the parts of expressions agree, if those they call do. -/
theorem agrees_atom : Agrees (atom (n + 1)) (Predictive.atom (n + 1)) := by
  rw [atom, Predictive.atom]
  refine .after fun t => ?_
  cases t.kind with
  | identifier => exact .after fun _ => h.nameRest t
  | leftParen => exact .after fun _ => (h.climb 1).bind fun _ => agrees_same _
  | operator op =>
    cases op with
    | subtract =>
      refine .after fun _ => .after fun next => ?_
      cases next.kind with
      | integer value => exact agrees_same _
      | _ => exact h.atom.bind fun _ => agrees_same _
    | _ => exact agrees_same _
  | _ => exact agrees_same _

theorem agrees_nameRest (name : Token) :
    Agrees (nameRest (n + 1) name) (Predictive.nameRest (n + 1) name) := by
  rw [nameRest, Predictive.nameRest]
  refine .after fun b => .ite (h.statement.bind fun _ => agrees_same _) ?_
  exact .after fun b => .ite (h.arguments.bind fun _ => agrees_same _) (agrees_same _)

theorem agrees_arguments : Agrees (arguments (n + 1)) (Predictive.arguments (n + 1)) := by
  rw [arguments, Predictive.arguments]
  exact .after fun b => .ite (agrees_same _) h.moreArguments

theorem agrees_moreArguments :
    Agrees (moreArguments (n + 1)) (Predictive.moreArguments (n + 1)) := by
  rw [moreArguments, Predictive.moreArguments]
  refine (h.climb 1).bind fun first => .after fun b => ?_
  exact .ite (h.moreArguments.bind fun _ => agrees_same _) (agrees_same _)

end

/-- All readers agree at every allowance. -/
theorem readersAgree (n : Nat) : ReadersAgree n := by
  induction n with
  | zero => constructor <;> intros <;> exact agrees_exhausted _
  | succ n ih =>
    exact {
      statement := agrees_statement ih
      declaration := agrees_declaration ih
      functionDeclaration := agrees_functionDeclaration ih
      rawCode := agrees_rawCode ih
      block := agrees_block ih
      blockTail := agrees_blockTail ih
      climb := agrees_climb ih
      climbRest := agrees_climbRest ih
      atom := agrees_atom ih
      nameRest := agrees_nameRest ih
      arguments := agrees_arguments ih
      moreArguments := agrees_moreArguments ih }

/-! ## Bodies -/

theorem withAllowance_apply (p : Nat → Parser α) (c : Cursor) :
    withAllowance p c = p (allowance c) c := rfl

/-- Going back does not show. Wherever a body is read, the same statements are read up to the
same place, or the same fault is reported, if no reader ever goes back. -/
theorem block_agrees_predictive {tokens : List Token} {last : Token} {i : Nat}
    (hlast : tokens.getLast? = some last) (hend : last.kind = .endOfText)
    (hi : i < tokens.length) :
    ∃ c, Cursor.behind? tokens i none = some c
      ∧ ((∃ nodes c', withAllowance block c = .ok nodes c'
          ∧ withAllowance Predictive.block c = .ok nodes c')
        ∨ ∃ d c₁ c₂, withAllowance block c = .error (.diagnosed d) c₁
          ∧ withAllowance Predictive.block c = .error (.diagnosed d) c₂) := by
  obtain ⟨c, hcursor, hc⟩ := Cursor.exists_behind hlast hend hi
  refine ⟨c, hcursor, ?_⟩
  simp only [withAllowance_apply]
  have hagrees := (readersAgree (allowance c)).block c
  have hreads := (readersSound (allowance c)).block hc (by unfold allowance; omega)
  unfold Reads Ensures at hreads
  generalize hrun : block (allowance c) c = result at hagrees hreads
  generalize hrun' : Predictive.block (allowance c) c = result' at hagrees
  cases hagrees with
  | exhausted =>
    -- with this allowance nothing but a fault ends the reading
    obtain ⟨d, hd, -⟩ := hreads
    cases hd
  | ok => exact .inl ⟨_, _, rfl, rfl⟩
  | error =>
    obtain ⟨d, rfl, -⟩ := hreads
    exact .inr ⟨d, _, _, rfl, rfl⟩

theorem block_agrees_predictive_nested :
    ∃ tokens last c d c₁ c₂, tokenize ⟨"nested",
        "function f() \x7b\na = 1\nfunction g() \x7b\n\n\x7d\nb = (2 +\n\x7d\n".toList⟩ = .ok tokens
      ∧ tokens.getLast? = some last ∧ last.kind = .endOfText
      ∧ Cursor.behind? tokens 4 none = some c
      ∧ withAllowance block c = .error (.diagnosed d) c₁
      ∧ withAllowance Predictive.block c = .error (.diagnosed d) c₂ := by
  have hread : ∀ text : List Char, (tokenize ⟨"nested", text⟩).toOption.any (fun tokens =>
        tokens.getLast?.any (·.kind == .endOfText) && decide (4 < tokens.length)
          && (Cursor.behind? tokens 4 none).any fun c =>
            (EStateM.run' (withAllowance block) c).isNone) = true →
      ∃ tokens last c d c₁ c₂, tokenize ⟨"nested", text⟩ = .ok tokens
        ∧ tokens.getLast? = some last ∧ last.kind = .endOfText
        ∧ Cursor.behind? tokens 4 none = some c
        ∧ withAllowance block c = .error (.diagnosed d) c₁
        ∧ withAllowance Predictive.block c = .error (.diagnosed d) c₂ := by
    intro text hany
    obtain ⟨tokens, htokens, hany⟩ := exists_ok_of_any hany
    rw [Bool.and_eq_true, Bool.and_eq_true, decide_eq_true_eq] at hany
    obtain ⟨⟨hlast, hlength⟩, hfails⟩ := hany
    obtain ⟨last, hlast, hend⟩ := (Option.any_eq_true _ _).1 hlast
    obtain ⟨c, hcursor, hsame⟩ := block_agrees_predictive hlast (eq_of_beq hend) hlength
    rw [hcursor, Option.any_some, EStateM.run', EStateM.run] at hfails
    rcases hsame with ⟨nodes, c', hrun, -⟩ | ⟨d, c₁, c₂, hrun, hrun'⟩
    · rw [hrun] at hfails
      cases hfails
    · exact ⟨tokens, last, c, d, c₁, c₂, htokens, hlast, eq_of_beq hend, hcursor, hrun, hrun'⟩
  exact hread _ (by decide +kernel)

end Parser

end Scoreboard
