import Scoreboard.Diagnostic
import Scoreboard.Script
import Scoreboard.Script.Cursor

/-!
# Reading scripts

A script is read by recursive descent over its tokens. There are two ways to look at the
current token: `suspect` asks whether it is of a kind, and `demand` requires it and fails
with a given cause otherwise. Both report an illegal token first, whatever was asked for.

A reader that fails leaves the cursor where it failed. The only place that goes back is a
body: a statement behind a newline that cannot be read ends the list of statements, and what
stands there decides whether the body is closed or the failure is reported.

Readers that call each other count down an allowance of calls. Every chain of calls takes
tokens as it goes, so an allowance in proportion to the tokens is never used up.
-/

namespace Scoreboard

/-- Why reading ends. -/
inductive ParseError where
  /-- The script has a fault. -/
  | diagnosed (diagnostic : Diagnostic Span)
  /-- The token taken for an operator is none. -/
  | notOperator
  /-- The allowance of calls is used up. -/
  | exhausted
  deriving DecidableEq, Repr, Inhabited

/-- A reader of tokens, which keeps its cursor also when it fails. -/
abbrev Parser := EStateM ParseError Cursor

namespace Parser

/-! ## Looking at tokens -/

/-- The current token. -/
def peek : Parser Token := do
  return (← get).current

/-- The token before the current one. -/
def previous : Parser Token := do
  return (← get).previous

/-- Take the current token. -/
def advance : Parser Token := do
  modify Cursor.advance
  previous

/-- Fail at a place. -/
def failAt {α : Type} (cause : Cause) (span : Span) : Parser α :=
  throw (.diagnosed ⟨cause, span⟩)

/-- Fail at the current token. -/
def fail {α : Type} (cause : Cause) : Parser α := do
  failAt cause (← peek).span

/-- The current token, which must not be an illegal one. -/
def legal : Parser Token := do
  let token ← peek
  if token.kind == .illegal then failAt (.illegalCharacter token.lexeme) token.span
  return token

/-- Whether the current token is of a kind. -/
def suspect (test : TokenKind → Bool) : Parser Bool := do
  return test (← legal).kind

/-- Take the current token if it is of a kind. -/
def accept (test : TokenKind → Bool) : Parser Bool := do
  if ← suspect test then
    let _ ← advance
    return true
  return false

/-- Require the current token to be of a kind. -/
def expect (test : TokenKind → Bool) (cause : Cause) : Parser Token := do
  if ← suspect test then peek else fail cause

/-- Require and take a token of a kind. -/
def demand (test : TokenKind → Bool) (cause : Cause) : Parser Token := do
  let _ ← expect test cause
  advance

/-- Take a run of newlines and count them. -/
def skipNewlines : Parser Nat := do
  let c ← get
  let (count, before, current, after) := Cursor.pastNewlines c.before c.current c.after
  set { c with before, current, after }
  let _ ← legal
  return count

/-- The operator at the cursor. -/
def operator? : Parser (Option Operator) := do
  match (← legal).kind with
  | .operator op => return some op
  | _ => return none

/-- Take the operator at the cursor. With a place counted from the end the token that counts
as taken may be none. -/
def takeOperator : Parser Operator := do
  match (← advance).kind with
  | .operator op => return op
  | _ => throw .notOperator

/-- The precedence of the current token, 0 if it is no operator. -/
def operatorPrecedence : Parser Nat := do
  return match ← operator? with
    | some op => op.precedence
    | none => 0

/-! ## Parameters -/

/-- A name with its type. -/
def parameter : Parser (Parameter Span) := do
  let name ← demand (· == .identifier) (.missingName .parameter)
  let _ ← demand (· == .colon) (.missingParameterType name.lexeme)
  let type ← demand (· == .identifier) (.missingType .parameter)
  return ⟨name.lexeme, type.lexeme, name.span.merge type.span⟩

/-- One parameter and those behind its comma, up to the closing parenthesis. -/
def moreParameters : Nat → Parser (List (Parameter Span))
  | 0 => throw .exhausted
  | n + 1 => do
    let first ← parameter
    if ← accept (· == .comma) then
      return first :: (← moreParameters n)
    let _ ← demand (· == .rightParen) .missingSeparator
    return [first]

/-- The parameters of a function, behind the opening parenthesis. -/
def parameters (allowance : Nat) : Parser (List (Parameter Span)) := do
  if ← accept (· == .rightParen) then return []
  moreParameters allowance

/-- A type behind a colon, if there is a colon. -/
def typeAfterColon (role : Role) : Parser (Option String) := do
  if ← accept (· == .colon) then
    return some (← demand (· == .identifier) (.missingType role)).lexeme
  return none

/-! ## Statements and expressions -/

/-- The end of a body. A statement that could not be read is reported if something other
than the end of the text stands in its place. -/
def closeBlock (statements : List (Node Span)) (failed : Option (Diagnostic Span)) :
    Parser (List (Node Span)) := do
  if ← accept (· == .rightBrace) then return statements
  if (← get).atEnd then fail .unclosedBlock
  match failed with
  | some diagnostic => throw (.diagnosed diagnostic)
  | none => fail .missingLineInBlock

/-- Run a reader; if it reports a fault, give the fault and go back. -/
def attempt {α : Type} (p : Parser α) : Parser (Except (Diagnostic Span) α) := fun c =>
  match p c with
  | .ok value c => .ok (.ok value) c
  | .error (.diagnosed diagnostic) _ => .ok (.error diagnostic) c
  | .error other c => .error other c

mutual

/-- A statement. -/
def statement : Nat → Parser (Node Span)
  | 0 => throw .exhausted
  | n + 1 => do
    match (← legal).kind with
    | .keyword .declare => declaration n
    | .keyword .function => functionDeclaration n
    | .keyword .raw => rawCode n
    | _ => climb n 1

/-- A variable with a type, a first value or both; the current token is taken as the word
that opens it. -/
def declaration : Nat → Parser (Node Span)
  | 0 => throw .exhausted
  | n + 1 => do
    let opening ← advance
    let name ← demand (· == .identifier) (.missingName .variable)
    let type ← typeAfterColon .variable
    if ← accept (· == .assign) then
      let value ← statement n
      return .define name.lexeme type value (opening.span.merge (← previous).span)
    if type.isNone then fail .missingTypeOrValue
    return .declare name.lexeme type (opening.span.merge (← previous).span)

/-- A function; the current token is taken as the word that opens it. -/
def functionDeclaration : Nat → Parser (Node Span)
  | 0 => throw .exhausted
  | n + 1 => do
    let opening ← advance
    let name ← demand (· == .identifier) (.missingName .function)
    let _ ← demand (· == .leftParen) .missingParameters
    let parameters ← parameters n
    let result ← typeAfterColon .result
    let body ← block n
    return .function name.lexeme parameters result body
      (opening.span.merge (← previous).span)

/-- A command given as text; the current token is taken as the word that opens it. -/
def rawCode : Nat → Parser (Node Span)
  | 0 => throw .exhausted
  | n + 1 => do
    let opening ← advance
    match ← climb n 1 with
    | .string text span => return .raw text (opening.span.merge span)
    | other => failAt .missingString other.mark

/-- A body in braces. -/
def block : Nat → Parser (List (Node Span))
  | 0 => throw .exhausted
  | n + 1 => do
    let _ ← demand (· == .leftBrace) .missingBlock
    let _ ← skipNewlines
    if ← suspect (· == .rightBrace) then closeBlock [] none
    else if (← get).atEnd then closeBlock [] none
    else
      let first ← statement n
      let (rest, failed) ← blockRest n
      closeBlock (first :: rest) failed

/-- The statements of a body that stand behind newlines, with the fault that ended them. -/
def blockRest : Nat → Parser (List (Node Span) × Option (Diagnostic Span))
  | 0 => throw .exhausted
  | n + 1 => do
    if (← skipNewlines) = 0 then return ([], none)
    match ← attempt (statement n) with
    | .error diagnostic => return ([], some diagnostic)
    | .ok next =>
      let (rest, failed) ← blockRest n
      return (next :: rest, failed)

/-- An expression whose operators bind at least as tightly as `least`. -/
def climb : Nat → Nat → Parser (Node Span)
  | 0, _ => throw .exhausted
  | n + 1, least => do
    let first ← atom n
    climbRest n least first

/-- Operations on an expression that was read already, grouped to the left. -/
def climbRest : Nat → Nat → Node Span → Parser (Node Span)
  | 0, _, _ => throw .exhausted
  | n + 1, least, left => do
    match ← operator? with
    | none => return left
    | some op =>
      if op.precedence < least then return left
      let taken ← takeOperator
      let right ← climb n (op.precedence + 1)
      climbRest n least (.binary taken left right (left.mark.merge right.mark))

/-- An operand. A minus before an integer belongs to the integer; before anything else it
subtracts from zero. -/
def atom : Nat → Parser (Node Span)
  | 0 => throw .exhausted
  | n + 1 => do
    let token ← legal
    match token.kind with
    | .integer value =>
      let _ ← advance
      return .integer value token.span
    | .string value =>
      let _ ← advance
      return .string value token.span
    | .identifier =>
      let _ ← advance
      nameRest n token
    | .leftParen =>
      let _ ← advance
      let inner ← climb n 1
      let _ ← demand (· == .rightParen) .unclosedParenthesis
      return inner
    | .operator .subtract =>
      let _ ← advance
      let next ← peek
      match next.kind with
      | .integer value =>
        let _ ← advance
        return .integer (-value) (token.span.merge next.span)
      | _ =>
        let operand ← atom n
        return .binary .subtract (.integer 0 token.span) operand
          (token.span.merge operand.mark)
    | _ => fail .missingExpression

/-- What follows a name: the value assigned to it, the arguments of a call, or nothing. -/
def nameRest : Nat → Token → Parser (Node Span)
  | 0, _ => throw .exhausted
  | n + 1, name => do
    if ← accept (· == .assign) then
      let value ← statement n
      return .assign name.lexeme value (name.span.merge value.mark)
    if ← accept (· == .leftParen) then
      let arguments ← arguments n
      return .call name.lexeme arguments (name.span.merge (← previous).span)
    return .access name.lexeme name.span

/-- The arguments of a call, behind the opening parenthesis. -/
def arguments : Nat → Parser (List (Node Span))
  | 0 => throw .exhausted
  | n + 1 => do
    if ← accept (· == .rightParen) then return []
    moreArguments n

/-- One argument and those behind its comma, up to the closing parenthesis. -/
def moreArguments : Nat → Parser (List (Node Span))
  | 0 => throw .exhausted
  | n + 1 => do
    let first ← climb n 1
    if ← accept (· == .comma) then
      return first :: (← moreArguments n)
    let _ ← demand (· == .rightParen) .missingSeparator
    return [first]

end

/-- The statements up to the end of the text, with at least one newline between two. -/
def statements : Nat → Parser (Script Span)
  | 0 => throw .exhausted
  | n + 1 => do
    if (← get).atEnd then return []
    let first ← statement n
    if (← get).atEnd then return [first]
    if (← skipNewlines) = 0 then fail .missingLine
    return first :: (← statements n)

/-! ## Whole texts -/

/-- An allowance of calls that reading from a cursor cannot use up. -/
def allowance (c : Cursor) : Nat := 8 * (c.remaining + 2)

/-- Run a reader with an allowance that suffices. -/
def withAllowance {α : Type} (p : Nat → Parser α) : Parser α := do
  p (allowance (← get))

/-- A whole script, with newlines around its statements. -/
def script : Parser (Script Span) := do
  let _ ← skipNewlines
  withAllowance statements

end Parser

/-- The script that a list of tokens spells. -/
def parse (tokens : List Token) : Except ParseError (Script Span) :=
  match Cursor.ofTokens? tokens with
  | none => .ok []
  | some c =>
    match Parser.script c with
    | .ok script _ => .ok script
    | .error e _ => .error e

end Scoreboard
