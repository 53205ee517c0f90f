import Mathlib
import Scoreboard.Script.Parser
import Scoreboard.Proofs.Steps
import Scoreboard.Proofs.Trees

/-!
# Reading tokens at other places

Spans are carried along by the readers of scripts and never looked at. If all spans of the
tokens are changed by a function, then the nodes that are read and the faults that are
reported have their spans changed by it, and nothing else happens differently
(`parse_mapSpan`). The function has to be compatible with `Span.merge`, which makes the span
of a node from the spans of its first and its last token.

Each reader follows itself through the change (`Parser.Moves`). This includes the reader that
goes back from a fault, since the fault is kept and only its place is another one.
-/

namespace Scoreboard

/-! ## Changing spans -/

/-- A token with another span. -/
def Token.mapSpan (f : Span → Span) (t : Token) : Token := ⟨t.kind, t.lexeme, f t.span⟩

/-- A fault at another place. -/
def ParseError.mapSpan (f : Span → Span) : ParseError → ParseError
  | diagnosed d => diagnosed (d.mapPlace f)
  | notOperator => notOperator
  | exhausted => exhausted

namespace Cursor

/-- The same place in a list of tokens with other spans. -/
def mapSpan (f : Span → Span) (c : Cursor) : Cursor :=
  ⟨c.before.map (·.mapSpan f), c.current.mapSpan f, c.after.map (·.mapSpan f),
    c.fromEnd.map (·.mapSpan f)⟩

variable (f : Span → Span) (c : Cursor)

@[simp] theorem remaining_mapSpan : (c.mapSpan f).remaining = c.remaining :=
  List.length_map ..

/-- The token behind the cursor moves with its span. -/
theorem previous_mapSpan : (c.mapSpan f).previous = c.previous.mapSpan f := by
  obtain ⟨before, current, after, fromEnd⟩ := c
  cases fromEnd with
  | none => cases before <;> rfl
  | some first => rfl

/-- Going forward does not look at spans. -/
theorem advance_mapSpan : (c.mapSpan f).advance = c.advance.mapSpan f := by
  obtain ⟨before, current, after, fromEnd⟩ := c
  cases after with
  | nil => rfl
  | cons next rest =>
    -- whether the text ends depends on the kind of the current token alone
    show (if current.kind == .endOfText then _ else _)
      = mapSpan f (if current.kind == .endOfText then _ else _)
    rw [apply_ite (mapSpan f)]
    rfl

/-- Which tokens are newlines does not depend on their spans. -/
theorem pastNewlines_mapSpan (before : List Token) (current : Token) (after : List Token) :
    pastNewlines (before.map (·.mapSpan f)) (current.mapSpan f) (after.map (·.mapSpan f))
      = (pastNewlines before current after).map id fun place =>
          (place.1.map (·.mapSpan f), place.2.1.mapSpan f, place.2.2.map (·.mapSpan f)) := by
  induction after generalizing before current with
  | nil => rfl
  | cons next rest ih =>
    have hkind : (current.mapSpan f).kind = current.kind := rfl
    simp only [List.map_cons, pastNewlines, hkind]
    split
    · have hrest := ih (current :: before) next
      rw [List.map_cons] at hrest
      rw [hrest]
      rfl
    · rfl

end Cursor

/-! ## Single tokens -/

namespace Parser

variable {α β : Type} {f : Span → Span}

/-- A reader does the same with tokens whose spans are changed, and what it reads is changed
by `onResult`. -/
def Moves (f : Span → Span) (onResult : α → β) (follower : Parser β) (reader : Parser α) :
    Prop :=
  Follows (ParseError.mapSpan f) (Cursor.mapSpan f) onResult follower reader

theorem moves_peek : Moves f (Token.mapSpan f) peek peek := fun _ => rfl

/-- The token that was taken last is moved. -/
theorem moves_previous : Moves f (Token.mapSpan f) previous previous := by
  intro c
  show EStateM.Result.ok (c.mapSpan f).previous _ = _
  rw [c.previous_mapSpan]
  rfl

theorem moves_advance : Moves f (Token.mapSpan f) advance advance :=
  (follows_modify (Cursor.advance_mapSpan f)).bind fun _ => moves_previous

/-- A fault at a span is found at the moved span. -/
theorem moves_failAt {cause : Cause} {span : Span} {onResult : α → β} :
    Moves f onResult (failAt cause (f span)) (failAt cause span) :=
  follows_throw rfl

/-- A fault at the current token is found at the moved token. -/
theorem moves_fail {cause : Cause} {onResult : α → β} :
    Moves f onResult (fail cause) (fail cause) :=
  moves_peek.bind fun _ => moves_failAt

/-- A token that is no legal one is reported with its moved span. -/
theorem moves_legal : Moves f (Token.mapSpan f) legal legal := by
  refine moves_peek.bind fun t => ?_
  exact Follows.unless moves_failAt (follows_pure rfl)

/-- A test of the kind of a token does not see its span. -/
theorem moves_suspect {test : TokenKind → Bool} : Moves f id (suspect test) (suspect test) :=
  moves_legal.bind fun _ => follows_pure rfl

theorem moves_accept {test : TokenKind → Bool} : Moves f id (accept test) (accept test) := by
  refine moves_suspect.bind fun b => ?_
  exact Follows.ite (moves_advance.bind fun _ => follows_pure rfl) (follows_pure rfl)

/-- A token of another kind than expected is reported with its moved span. -/
theorem moves_expect {test : TokenKind → Bool} {cause : Cause} :
    Moves f (Token.mapSpan f) (expect test cause) (expect test cause) :=
  moves_suspect.bind fun _ => Follows.ite moves_peek moves_fail

theorem moves_demand {test : TokenKind → Bool} {cause : Cause} :
    Moves f (Token.mapSpan f) (demand test cause) (demand test cause) :=
  moves_expect.bind fun _ => moves_advance

/-- As many newlines are skipped. -/
theorem moves_skipNewlines : Moves f id skipNewlines skipNewlines := by
  refine follows_get.bind fun c => ?_
  have hpast : Cursor.pastNewlines (c.mapSpan f).before (c.mapSpan f).current (c.mapSpan f).after
      = _ := Cursor.pastNewlines_mapSpan f c.before c.current c.after
  rw [hpast]
  -- the new place is set as a whole, so its image is set for the changed tokens
  obtain ⟨count, before, current, after⟩ := Cursor.pastNewlines c.before c.current c.after
  have hset : Moves f id (set (Cursor.mapSpan f ⟨before, current, after, c.fromEnd⟩))
      (set (⟨before, current, after, c.fromEnd⟩ : Cursor)) := fun _ => rfl
  exact hset.bind fun _ => moves_legal.bind fun _ => follows_pure rfl

/-- The operator at the cursor is the same one. -/
theorem moves_operator? : Moves f id operator? operator? := by
  refine moves_legal.bind fun t => ?_
  rw [show (t.mapSpan f).kind = t.kind from rfl]
  cases t.kind with
  | operator op => exact follows_pure rfl
  | _ => exact follows_pure rfl

theorem moves_takeOperator : Moves f id takeOperator takeOperator := by
  refine moves_advance.bind fun t => ?_
  rw [show (t.mapSpan f).kind = t.kind from rfl]
  cases t.kind with
  | operator op => exact follows_pure rfl
  | _ => exact follows_throw rfl

/-- The type behind a colon is a word, which has no span left in it. -/
theorem moves_typeAfterColon {role : Role} :
    Moves f id (typeAfterColon role) (typeAfterColon role) := by
  refine moves_accept.bind fun b => ?_
  exact Follows.ite (moves_demand.bind fun _ => follows_pure rfl) (follows_pure rfl)

/-- Going back from a fault does not depend on where the fault is. -/
theorem moves_attempt {onResult : α → β} {p : Parser α} {p' : Parser β}
    (h : Moves f onResult p' p) :
    Moves f (Except.map onResult ∘ Except.mapError (Diagnostic.mapPlace f)) (attempt p')
      (attempt p) := by
  intro c
  have hp := h c
  unfold attempt
  cases hrun : p c with
  | ok x c' => rw [hp, hrun]; rfl
  | error e c' =>
    -- only a fault is caught; the other errors have no place
    rw [hp, hrun]
    cases e <;> rfl

/-! ## Parts of scripts -/

section
variable (hf : ∀ a b : Span, f (a.merge b) = (f a).merge (f b))
include hf

/-- A parameter is marked by the moved span of its tokens. -/
theorem moves_parameter : Moves f (Parameter.mapMark f) parameter parameter := by
  refine moves_demand.bind fun name => moves_demand.bind fun _ => moves_demand.bind fun type => ?_
  apply follows_pure
  show (⟨name.lexeme, type.lexeme, (f name.span).merge (f type.span)⟩ : Parameter Span)
    = ⟨name.lexeme, type.lexeme, f (name.span.merge type.span)⟩
  rw [hf]

/-- By induction on the number of parameters that may follow. -/
theorem moves_moreParameters (n : Nat) :
    Moves f (List.map (Parameter.mapMark f)) (moreParameters n) (moreParameters n) := by
  induction n with
  | zero => exact follows_throw rfl
  | succ n ih =>
    rw [moreParameters]
    refine (moves_parameter hf).bind fun first => moves_accept.bind fun b => ?_
    refine Follows.ite (ih.bind fun rest => follows_pure rfl) ?_
    exact moves_demand.bind fun _ => follows_pure rfl

theorem moves_parameters (n : Nat) :
    Moves f (List.map (Parameter.mapMark f)) (parameters n) (parameters n) := by
  refine moves_accept.bind fun b => ?_
  exact Follows.ite (follows_pure rfl) (moves_moreParameters hf n)

end

/-- The end of a block: its statements, or the fault that ended them. -/
theorem moves_closeBlock (nodes : List (Node Span)) (failed : Option (Diagnostic Span)) :
    Moves f (List.map (Node.mapMark f))
      (closeBlock (nodes.map (Node.mapMark f)) (failed.map (Diagnostic.mapPlace f)))
      (closeBlock nodes failed) := by
  refine moves_accept.bind fun b => ?_
  refine Follows.ite (follows_pure rfl) ?_
  refine follows_get.bind fun c => ?_
  refine Follows.unless moves_fail ?_
  -- a kept fault is thrown where it was found, not at the current token
  cases failed with
  | none => exact moves_fail
  | some d => exact follows_throw rfl

/-! ## Statements and expressions -/

/-- All readers of statements and expressions with an allowance do the same with tokens whose
spans are changed. -/
structure ReadersMove (f : Span → Span) (n : Nat) : Prop where
  statement : Moves f (Node.mapMark f) (statement n) (statement n)
  declaration : Moves f (Node.mapMark f) (declaration n) (declaration n)
  functionDeclaration : Moves f (Node.mapMark f) (functionDeclaration n) (functionDeclaration n)
  rawCode : Moves f (Node.mapMark f) (rawCode n) (rawCode n)
  block : Moves f (List.map (Node.mapMark f)) (block n) (block n)
  blockRest : Moves f (Prod.map (List.map (Node.mapMark f)) (Option.map (Diagnostic.mapPlace f)))
    (blockRest n) (blockRest n)
  climb (least : Nat) : Moves f (Node.mapMark f) (climb n least) (climb n least)
  climbRest (least : Nat) (left : Node Span) :
    Moves f (Node.mapMark f) (climbRest n least (left.mapMark f)) (climbRest n least left)
  atom : Moves f (Node.mapMark f) (atom n) (atom n)
  nameRest (name : Token) :
    Moves f (Node.mapMark f) (nameRest n (name.mapSpan f)) (nameRest n name)
  arguments : Moves f (List.map (Node.mapMark f)) (arguments n) (arguments n)
  moreArguments : Moves f (List.map (Node.mapMark f)) (moreArguments n) (moreArguments n)

section
variable {n : Nat} (hf : ∀ a b : Span, f (a.merge b) = (f a).merge (f b)) (h : ReadersMove f n)
include hf h

omit hf in
/-- A statement, from the readers of less nesting. -/
theorem moves_statement : Moves f (Node.mapMark f) (statement (n + 1)) (statement (n + 1)) := by
  rw [statement]
  refine moves_legal.bind fun t => ?_
  rw [show (t.mapSpan f).kind = t.kind from rfl]
  cases t.kind with
  | keyword word =>
    cases word with
    | declare => exact h.declaration
    | function => exact h.functionDeclaration
    | raw => exact h.rawCode
  | _ => exact h.climb 1

/-- The mark of a declaration is merged from the spans of its tokens, which is where merged
spans have to move together. -/
theorem moves_declaration :
    Moves f (Node.mapMark f) (declaration (n + 1)) (declaration (n + 1)) := by
  rw [declaration]
  refine moves_advance.bind fun opening => moves_demand.bind fun name => ?_
  refine moves_typeAfterColon.bind fun type => moves_accept.bind fun b => ?_
  refine Follows.ite ?_ ?_
  · refine h.statement.bind fun value => moves_previous.bind fun last => ?_
    apply follows_pure
    rw [Node.mapMark, hf]
    rfl
  · refine Follows.unless moves_fail ?_
    refine moves_previous.bind fun last => ?_
    apply follows_pure
    rw [Node.mapMark, hf]
    rfl

theorem moves_functionDeclaration :
    Moves f (Node.mapMark f) (functionDeclaration (n + 1)) (functionDeclaration (n + 1)) := by
  rw [functionDeclaration]
  refine moves_advance.bind fun opening => moves_demand.bind fun name => ?_
  refine moves_demand.bind fun _ => (moves_parameters hf n).bind fun parameters => ?_
  refine moves_typeAfterColon.bind fun result => h.block.bind fun body => ?_
  refine moves_previous.bind fun last => ?_
  apply follows_pure
  rw [Node.mapMark_function, hf]
  rfl

/-- A raw command is a string behind its keyword, marked by both together. -/
theorem moves_rawCode : Moves f (Node.mapMark f) (rawCode (n + 1)) (rawCode (n + 1)) := by
  rw [rawCode]
  refine moves_advance.bind fun opening => (h.climb 1).bind fun node => ?_
  cases node with
  | string text span =>
    apply follows_pure
    rw [Node.mapMark, hf]
    rfl
  | _ => exact moves_failAt

omit hf in
theorem moves_block : Moves f (List.map (Node.mapMark f)) (block (n + 1)) (block (n + 1)) := by
  rw [block]
  refine moves_demand.bind fun _ => moves_skipNewlines.bind fun _ => ?_
  refine moves_suspect.bind fun b => ?_
  refine Follows.ite (moves_closeBlock [] none) (follows_get.bind fun c => ?_)
  refine Follows.ite (moves_closeBlock [] none) (h.statement.bind fun first => ?_)
  exact h.blockRest.bind fun rest => moves_closeBlock (first :: rest.1) rest.2

omit hf in
/-- The statements of a block up to its end or to the first fault. -/
theorem moves_blockRest :
    Moves f (Prod.map (List.map (Node.mapMark f)) (Option.map (Diagnostic.mapPlace f)))
      (blockRest (n + 1)) (blockRest (n + 1)) := by
  rw [blockRest]
  refine moves_skipNewlines.bind fun count => ?_
  refine Follows.ite (follows_pure rfl) ?_
  refine (moves_attempt h.statement).bind fun result => ?_
  cases result with
  | error d => exact follows_pure rfl
  | ok next => exact h.blockRest.bind fun rest => follows_pure rfl

omit hf in
/-- An operand with the operators behind it that bind tightly enough. -/
theorem moves_climb (least : Nat) :
    Moves f (Node.mapMark f) (climb (n + 1) least) (climb (n + 1) least) := by
  rw [climb]
  exact h.atom.bind fun first => h.climbRest least first

/-- The operators behind a left operand; each node is marked by both operands together. -/
theorem moves_climbRest (least : Nat) (left : Node Span) :
    Moves f (Node.mapMark f) (climbRest (n + 1) least (left.mapMark f))
      (climbRest (n + 1) least left) := by
  rw [climbRest, climbRest]
  refine moves_operator?.bind fun found => ?_
  cases found with
  | none => exact follows_pure rfl
  | some op =>
    refine Follows.ite (follows_pure rfl) ?_
    refine moves_takeOperator.bind fun taken => (h.climb _).bind fun right => ?_
    -- what is read so far is the left operand of the next operation
    have hnode : (Node.binary taken left right (left.mark.merge right.mark)).mapMark f
        = .binary taken (left.mapMark f) (right.mapMark f)
          ((left.mapMark f).mark.merge (right.mapMark f).mark) := by
      rw [Node.mapMark, hf, Node.mark_mapMark, Node.mark_mapMark]
    have hrest := h.climbRest least (.binary taken left right (left.mark.merge right.mark))
    rw [hnode] at hrest
    exact hrest

/-- An operand without operators, one case for each kind of token it can start with. -/
theorem moves_atom : Moves f (Node.mapMark f) (atom (n + 1)) (atom (n + 1)) := by
  rw [atom]
  refine moves_legal.bind fun t => ?_
  rw [show (t.mapSpan f).kind = t.kind from rfl]
  cases t.kind with
  | integer value => exact moves_advance.bind fun _ => follows_pure rfl
  | string value => exact moves_advance.bind fun _ => follows_pure rfl
  | identifier => exact moves_advance.bind fun _ => h.nameRest t
  | leftParen =>
    refine moves_advance.bind fun _ => (h.climb 1).bind fun inner => ?_
    exact moves_demand.bind fun _ => follows_pure rfl
  | operator op =>
    cases op with
    | subtract =>
      refine moves_advance.bind fun _ => moves_peek.bind fun next => ?_
      rw [show (next.mapSpan f).kind = next.kind from rfl]
      -- only an integer behind the minus is a case of its own
      have hoperand : Moves f (Node.mapMark f)
          (do
            let operand ← atom n
            return .binary .subtract (.integer 0 (t.mapSpan f).span) operand
              ((t.mapSpan f).span.merge operand.mark))
          (do
            let operand ← atom n
            return .binary .subtract (.integer 0 t.span) operand
              (t.span.merge operand.mark)) := by
        refine h.atom.bind fun operand => ?_
        apply follows_pure
        rw [Node.mapMark, hf, Node.mark_mapMark]
        rfl
      cases next.kind with
      | integer value =>
        refine moves_advance.bind fun _ => ?_
        apply follows_pure
        rw [Node.mapMark, hf]
        rfl
      | _ => exact hoperand
    | _ => exact moves_fail
  | _ => exact moves_fail

/-- What may follow a name: an assignment, arguments, or nothing. -/
theorem moves_nameRest (name : Token) :
    Moves f (Node.mapMark f) (nameRest (n + 1) (name.mapSpan f)) (nameRest (n + 1) name) := by
  rw [nameRest, nameRest]
  refine moves_accept.bind fun b => Follows.ite ?_ (moves_accept.bind fun b => Follows.ite ?_ ?_)
  · refine h.statement.bind fun value => ?_
    apply follows_pure
    rw [Node.mapMark, hf, Node.mark_mapMark]
    rfl
  · refine h.arguments.bind fun arguments => moves_previous.bind fun last => ?_
    apply follows_pure
    rw [Node.mapMark_call, hf]
    rfl
  · exact follows_pure rfl

omit hf in
theorem moves_arguments :
    Moves f (List.map (Node.mapMark f)) (arguments (n + 1)) (arguments (n + 1)) := by
  rw [arguments]
  exact moves_accept.bind fun b => Follows.ite (follows_pure rfl) h.moreArguments

omit hf in
theorem moves_moreArguments :
    Moves f (List.map (Node.mapMark f)) (moreArguments (n + 1)) (moreArguments (n + 1)) := by
  rw [moreArguments]
  refine (h.climb 1).bind fun first => moves_accept.bind fun b => ?_
  refine Follows.ite (h.moreArguments.bind fun rest => follows_pure rfl) ?_
  exact moves_demand.bind fun _ => follows_pure rfl

end

section
variable (hf : ∀ a b : Span, f (a.merge b) = (f a).merge (f b))
include hf

/-- By induction on the nesting that is allowed for. -/
theorem readersMove (n : Nat) : ReadersMove f n := by
  induction n with
  | zero => constructor <;> intros <;> exact follows_throw rfl
  | succ n ih =>
    exact {
      statement := moves_statement ih
      declaration := moves_declaration hf ih
      functionDeclaration := moves_functionDeclaration hf ih
      rawCode := moves_rawCode hf ih
      block := moves_block ih
      blockRest := moves_blockRest ih
      climb := moves_climb ih
      climbRest := moves_climbRest hf ih
      atom := moves_atom hf ih
      nameRest := moves_nameRest hf ih
      arguments := moves_arguments ih
      moreArguments := moves_moreArguments ih }

/-! ## Scripts -/

theorem moves_statements (n : Nat) :
    Moves f (List.map (Node.mapMark f)) (statements n) (statements n) := by
  induction n with
  | zero => exact follows_throw rfl
  | succ n ih =>
    rw [statements]
    refine follows_get.bind fun c => Follows.ite (follows_pure rfl) ?_
    refine (readersMove hf n).statement.bind fun first => follows_get.bind fun c => ?_
    refine Follows.ite (follows_pure rfl) (moves_skipNewlines.bind fun count => ?_)
    exact Follows.unless moves_fail (ih.bind fun rest => follows_pure rfl)

theorem moves_script : Moves f (List.map (Node.mapMark f)) script script := by
  refine moves_skipNewlines.bind fun _ => follows_get.bind fun c => ?_
  have hallowance : allowance (c.mapSpan f) = allowance c := by
    unfold allowance
    rw [Cursor.remaining_mapSpan]
  rw [hallowance]
  exact moves_statements hf _

end

end Parser

/-- A script whose tokens have their spans changed has its spans changed, and a script that is
rejected is rejected in the same way at the changed span. -/
theorem parse_mapSpan {f : Span → Span} (hf : ∀ a b : Span, f (a.merge b) = (f a).merge (f b))
    (tokens : List Token) :
    parse (tokens.map (·.mapSpan f))
      = ((parse tokens).map (List.map (Node.mapMark f))).mapError (ParseError.mapSpan f) := by
  cases tokens with
  | nil => rfl
  | cons first rest =>
    have hscript : Parser.script ⟨[], first.mapSpan f, rest.map (·.mapSpan f), none⟩ = _ :=
      Parser.moves_script hf ⟨[], first, rest, none⟩
    rw [List.map_cons]
    unfold parse Cursor.ofTokens?
    dsimp only
    rw [hscript]
    cases Parser.script ⟨[], first, rest, none⟩ <;> rfl

end Scoreboard
