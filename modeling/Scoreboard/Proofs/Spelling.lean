import Mathlib
import Scoreboard.Proofs.Reading
import Scoreboard.Proofs.RoundTrip

/-!
# What a script is spelled with

The grammar of scripts without levels and without marks, as a relation between tokens and
trees (`Spelling`). Three points of it need a word.

* Operands with operators between them are a chain, and which tree a chain stands for is said
  about the chain as a whole (`Grouped`): at the root stands an operator that binds least
  tightly, and of several such operators the last. So multiplications group before additions,
  and equal operators to the left.
* The value of an assignment is a statement, and an operator behind it goes on with that
  statement. A phrase that ends so is *greedy*. An operand with an operator behind it is not
  greedy; without this `a = 1 + 2` would also be a sum of an assignment and 2.
* Newlines stand between statements, and around all statements of a body or a script, and
  nowhere else.

Every accepted script is spelled by its tokens, all of them (`parse_spells`).
-/

namespace Scoreboard

/-! ## Chains of operators -/

/-- The tree that a chain stands for. The chain is given as its operands with the operator
behind each, and its last operand. -/
inductive Grouped : List (Node Unit × Operator) → Node Unit → Node Unit → Prop
  | operand (node : Node Unit) : Grouped [] node node
  | root {before after : List (Node Unit × Operator)} {a b left right : Node Unit}
      {op : Operator} (hleft : Grouped before a left) (hright : Grouped after b right)
      (hbefore : ∀ step ∈ before, op.precedence ≤ step.2.precedence)
      (hafter : ∀ step ∈ after, op.precedence < step.2.precedence) :
      Grouped (before ++ (a, op) :: after) b (.binary op left right ())

/-! ## The grammar -/

/-- The parameters of a function, between the parentheses. -/
inductive SpellsParameters : List Token → List (Parameter Unit) → Prop
  | none : SpellsParameters [] []
  | last {name colon type : Token} (hname : name.kind = .identifier)
      (hcolon : colon.kind = .colon) (htype : type.kind = .identifier) :
      SpellsParameters [name, colon, type] [⟨name.lexeme, type.lexeme, ()⟩]
  | more {name colon type comma : Token} {ts : List Token} {p : Parameter Unit}
      {ps : List (Parameter Unit)} (hname : name.kind = .identifier)
      (hcolon : colon.kind = .colon) (htype : type.kind = .identifier)
      (hcomma : comma.kind = .comma) (hmore : SpellsParameters ts (p :: ps)) :
      SpellsParameters (name :: colon :: type :: comma :: ts)
        (⟨name.lexeme, type.lexeme, ()⟩ :: p :: ps)

/-- What tokens can spell. -/
inductive Form where
  /-- A statement. -/
  | statement (greedy : Bool) (node : Node Unit)
  /-- An expression. -/
  | math (greedy : Bool) (node : Node Unit)
  /-- Operands, each with the operator behind it, and the last operand. -/
  | chain (greedy : Bool) (steps : List (Node Unit × Operator)) (last : Node Unit)
  /-- An operand. -/
  | atom (greedy : Bool) (node : Node Unit)
  /-- The arguments of a call, between the parentheses. -/
  | arguments (nodes : List (Node Unit))
  /-- Statements with newlines between them. -/
  | lines (nodes : List (Node Unit))
  /-- A body in braces. -/
  | block (nodes : List (Node Unit))

/-- The tokens of a form. -/
inductive Spelling : List Token → Form → Prop
  -- statements
  | math {ts : List Token} {greedy : Bool} {node : Node Unit}
      (h : Spelling ts (.math greedy node)) : Spelling ts (.statement true node)
  | declare {opening name colon type : Token} (hopening : opening.kind = .keyword .declare)
      (hname : name.kind = .identifier) (hcolon : colon.kind = .colon)
      (htype : type.kind = .identifier) :
      Spelling [opening, name, colon, type]
        (.statement false (.declare name.lexeme (some type.lexeme) ()))
  | define {opening name equals : Token} {typing ts : List Token} {type : Option String}
      {greedy : Bool} {value : Node Unit} (hopening : opening.kind = .keyword .declare)
      (hname : name.kind = .identifier) (htype : TypeTail typing type)
      (hequals : equals.kind = .assign) (hvalue : Spelling ts (.statement greedy value)) :
      Spelling (opening :: name :: (typing ++ equals :: ts))
        (.statement greedy (.define name.lexeme type value ()))
  | function {opening name paren close : Token} {params typing ts : List Token}
      {parameters : List (Parameter Unit)} {result : Option String} {body : List (Node Unit)}
      (hopening : opening.kind = .keyword .function) (hname : name.kind = .identifier)
      (hparen : paren.kind = .leftParen) (hparams : SpellsParameters params parameters)
      (hclose : close.kind = .rightParen) (htype : TypeTail typing result)
      (hbody : Spelling ts (.block body)) :
      Spelling (opening :: name :: paren :: (params ++ close :: (typing ++ ts)))
        (.statement false (.function name.lexeme parameters result body ()))
  | raw {opening : Token} {ts : List Token} {greedy : Bool} {text : String}
      (hopening : opening.kind = .keyword .raw)
      (htext : Spelling ts (.math greedy (.string text ()))) :
      Spelling (opening :: ts) (.statement true (.raw text ()))
  -- expressions
  | grouped {ts : List Token} {greedy : Bool} {steps : List (Node Unit × Operator)}
      {last node : Node Unit} (h : Spelling ts (.chain greedy steps last))
      (hgrouped : Grouped steps last node) : Spelling ts (.math greedy node)
  | last {ts : List Token} {greedy : Bool} {node : Node Unit}
      (h : Spelling ts (.atom greedy node)) : Spelling ts (.chain greedy [] node)
  | step {ts us : List Token} {sign : Token} {op : Operator} {greedy : Bool}
      {node last : Node Unit} {steps : List (Node Unit × Operator)}
      (h : Spelling ts (.atom false node)) (hsign : sign.kind = .operator op)
      (hmore : Spelling us (.chain greedy steps last)) :
      Spelling (ts ++ sign :: us) (.chain greedy ((node, op) :: steps) last)
  -- operands
  | integer {t : Token} {n : Int} (h : t.kind = .integer n) :
      Spelling [t] (.atom false (.integer n ()))
  | negative {sign t : Token} {n : Int} (hsign : sign.kind = .operator .subtract)
      (h : t.kind = .integer n) : Spelling [sign, t] (.atom false (.integer (-n) ()))
  | negate {sign : Token} {ts : List Token} {greedy : Bool} {node : Node Unit}
      (hsign : sign.kind = .operator .subtract) (h : Spelling ts (.atom greedy node))
      (hfirst : ∀ t ∈ ts.head?, ∀ n, t.kind ≠ .integer n) :
      Spelling (sign :: ts) (.atom greedy (.binary .subtract (.integer 0 ()) node ()))
  | string {t : Token} {text : String} (h : t.kind = .string text) :
      Spelling [t] (.atom false (.string text ()))
  | access {name : Token} (h : name.kind = .identifier) :
      Spelling [name] (.atom false (.access name.lexeme ()))
  | assign {name equals : Token} {ts : List Token} {greedy : Bool} {value : Node Unit}
      (hname : name.kind = .identifier) (hequals : equals.kind = .assign)
      (hvalue : Spelling ts (.statement greedy value)) :
      Spelling (name :: equals :: ts) (.atom greedy (.assign name.lexeme value ()))
  | call {name paren close : Token} {ts : List Token} {nodes : List (Node Unit)}
      (hname : name.kind = .identifier) (hparen : paren.kind = .leftParen)
      (harguments : Spelling ts (.arguments nodes)) (hclose : close.kind = .rightParen) :
      Spelling (name :: paren :: (ts ++ [close])) (.atom false (.call name.lexeme nodes ()))
  | group {paren close : Token} {ts : List Token} {greedy : Bool} {node : Node Unit}
      (hparen : paren.kind = .leftParen) (h : Spelling ts (.math greedy node))
      (hclose : close.kind = .rightParen) :
      Spelling (paren :: (ts ++ [close])) (.atom false node)
  -- arguments
  | noArguments : Spelling [] (.arguments [])
  | lastArgument {ts : List Token} {greedy : Bool} {node : Node Unit}
      (h : Spelling ts (.math greedy node)) : Spelling ts (.arguments [node])
  | nextArgument {ts us : List Token} {comma : Token} {greedy : Bool} {node next : Node Unit}
      {nodes : List (Node Unit)} (h : Spelling ts (.math greedy node))
      (hcomma : comma.kind = .comma) (hmore : Spelling us (.arguments (next :: nodes))) :
      Spelling (ts ++ comma :: us) (.arguments (node :: next :: nodes))
  -- statements on lines of their own
  | noLine : Spelling [] (.lines [])
  | lastLine {ts : List Token} {greedy : Bool} {node : Node Unit}
      (h : Spelling ts (.statement greedy node)) : Spelling ts (.lines [node])
  | nextLine {ts ls us : List Token} {greedy : Bool} {node next : Node Unit}
      {nodes : List (Node Unit)} (h : Spelling ts (.statement greedy node))
      (hlines : Newlines ls) (hsome : ls ≠ []) (hmore : Spelling us (.lines (next :: nodes))) :
      Spelling (ts ++ ls ++ us) (.lines (node :: next :: nodes))
  | block {brace close : Token} {ls ts ms : List Token} {nodes : List (Node Unit)}
      (hbrace : brace.kind = .leftBrace) (hleading : Newlines ls)
      (h : Spelling ts (.lines nodes)) (htrailing : Newlines ms)
      (hclose : close.kind = .rightBrace) :
      Spelling (brace :: (ls ++ ts ++ ms ++ [close])) (.block nodes)

/-- The tokens of a whole script: newlines, the statements, newlines and the end of the
text. -/
inductive SpellsScript : List Token → Script Unit → Prop
  | intro {ls ts ms : List Token} {close : Token} {nodes : List (Node Unit)}
      (hleading : Newlines ls) (h : Spelling ts (.lines nodes)) (htrailing : Newlines ms)
      (hclose : close.kind = .endOfText) : SpellsScript (ls ++ ts ++ ms ++ [close]) nodes

/-! ## Tokens of the grammar -/

/-- No token is an illegal one. -/
def Legal (ts : List Token) : Prop := ∀ t ∈ ts, t.kind ≠ .illegal

section
variable {ts us : List Token} {t : Token}

theorem Legal.nil : Legal [] := fun t ht => by cases ht

/-- A legal token in front of legal ones. -/
theorem Legal.cons {kind : TokenKind} (ht : t.kind = kind) (hkind : kind ≠ .illegal)
    (h : Legal ts) : Legal (t :: ts) := by
  intro u hu
  rcases List.mem_cons.1 hu with rfl | hu
  · rwa [ht]
  · exact h u hu

theorem Legal.append (h : Legal ts) (hus : Legal us) : Legal (ts ++ us) :=
  List.forall_mem_append.2 ⟨h, hus⟩

/-- Newlines are legal tokens. -/
theorem Newlines.legal (h : Newlines ts) : Legal ts := by
  intro t ht
  rw [h t ht]
  simp

theorem TypeTail.legal {type : Option String} (h : TypeTail ts type) : Legal ts := by
  cases h with
  | none => exact .nil
  | some hcolon htype => exact .cons hcolon nofun (.cons htype nofun .nil)

/-- Parameters are spelled by legal tokens. -/
theorem SpellsParameters.legal {ps : List (Parameter Unit)} (h : SpellsParameters ts ps) :
    Legal ts := by
  induction h with
  | none => exact .nil
  | last hname hcolon htype => exact .cons hname nofun (.cons hcolon nofun (.cons htype nofun .nil))
  | more hname hcolon htype hcomma _ ih =>
    exact .cons hname nofun (.cons hcolon nofun (.cons htype nofun (.cons hcomma nofun ih)))

/-- The grammar has no place for an illegal token. -/
theorem Spelling.legal {form : Form} (h : Spelling ts form) : Legal ts := by
  induction h with
  | math _ ih => exact ih
  | declare hopening hname hcolon htype =>
    exact .cons hopening nofun (.cons hname nofun (.cons hcolon nofun (.cons htype nofun .nil)))
  | define hopening hname htype hequals _ ih =>
    exact .cons hopening nofun (.cons hname nofun (htype.legal.append (.cons hequals nofun ih)))
  | function hopening hname hparen hparams hclose htype _ ih =>
    exact .cons hopening nofun (.cons hname nofun (.cons hparen nofun
      (hparams.legal.append (.cons hclose nofun (htype.legal.append ih)))))
  | raw hopening _ ih => exact .cons hopening nofun ih
  | grouped _ _ ih => exact ih
  | last _ ih => exact ih
  | step _ hsign _ ih ihmore => exact ih.append (.cons hsign nofun ihmore)
  | integer h => exact .cons h nofun .nil
  | negative hsign h => exact .cons hsign nofun (.cons h nofun .nil)
  | negate hsign _ _ ih => exact .cons hsign nofun ih
  | string h => exact .cons h nofun .nil
  | access h => exact .cons h nofun .nil
  | assign hname hequals _ ih => exact .cons hname nofun (.cons hequals nofun ih)
  | call hname hparen _ hclose ih =>
    exact .cons hname nofun (.cons hparen nofun (ih.append (.cons hclose nofun .nil)))
  | group hparen _ hclose ih => exact .cons hparen nofun (ih.append (.cons hclose nofun .nil))
  | noArguments => exact .nil
  | lastArgument _ ih => exact ih
  | nextArgument _ hcomma _ ih ihmore => exact ih.append (.cons hcomma nofun ihmore)
  | noLine => exact .nil
  | lastLine _ ih => exact ih
  | nextLine _ hlines _ _ ih ihmore => exact (ih.append hlines.legal).append ihmore
  | block hbrace hleading _ htrailing hclose ih =>
    exact .cons hbrace nofun (((hleading.legal.append ih).append htrailing.legal).append
      (.cons hclose nofun .nil))

/-- A script is spelled by legal tokens. -/
theorem SpellsScript.legal {script : Script Unit} (h : SpellsScript ts script) : Legal ts := by
  obtain ⟨hleading, hlines, htrailing, hclose⟩ := h
  exact ((hleading.legal.append hlines.legal).append htrailing.legal).append
    (.cons hclose nofun .nil)

end

/-! ## From levels to chains -/

section
variable {ts us ss : List Token} {greedy : Bool}

/-- A chain in front of an operator goes on behind it. -/
theorem Spelling.append_chain {steps more : List (Node Unit × Operator)} {a b : Node Unit}
    {sign : Token} {op : Operator} (h : Spelling ts (.chain false steps a))
    (hsign : sign.kind = .operator op) (hmore : Spelling us (.chain greedy more b)) :
    Spelling (ts ++ sign :: us) (.chain greedy (steps ++ (a, op) :: more) b) := by
  induction steps generalizing ts with
  | nil =>
    cases h with
    | last hatom => exact .step hatom hsign hmore
  | cons step steps ih =>
    cases h with
    | step hatom hsign' hrest =>
      rw [List.append_assoc, List.cons_append, List.cons_append]
      exact .step hatom hsign' (ih hrest)

/-- Statements on lines of their own, with newlines behind them. -/
def SpellsLines (ts : List Token) (nodes : List (Node Unit)) : Prop :=
  ∃ us ms, ts = us ++ ms ∧ Spelling us (.lines nodes) ∧ Newlines ms

theorem spellsLines_last {ms : List Token} {node : Node Unit}
    (h : Spelling ts (.statement greedy node)) (hms : Newlines ms) :
    SpellsLines (ts ++ ms) [node] := ⟨ts, ms, rfl, .lastLine h, hms⟩

/-- One more statement in front of others. If there are no others, the newlines between are
at the end. -/
theorem SpellsLines.cons {ls : List Token} {node : Node Unit} {nodes : List (Node Unit)}
    (hmore : SpellsLines us nodes) (h : Spelling ts (.statement greedy node))
    (hlines : Newlines ls) (hsome : ls ≠ []) : SpellsLines (ts ++ ls ++ us) (node :: nodes) := by
  obtain ⟨vs, ms, rfl, hvs, hms⟩ := hmore
  cases nodes with
  | nil =>
    cases hvs
    have hall : Newlines (ls ++ ms) := List.forall_mem_append.2 ⟨hlines, hms⟩
    rw [List.append_assoc]
    exact spellsLines_last h hall
  | cons next nodes => exact ⟨ts ++ ls ++ vs, ms, by simp, .nextLine h hlines hsome hvs, hms⟩

/-- Parameters as the reader takes them, up to the closing parenthesis, are spelled as the
grammar has them. -/
theorem ParameterTail.spells {ps : List (Parameter Span)} (h : ParameterTail ts ps) :
    ∃ us close p qs, ts = us ++ [close] ∧ close.kind = .rightParen
      ∧ ps.map Parameter.erase = p :: qs ∧ SpellsParameters us (p :: qs) := by
  induction h with
  | @last name colon type close hname hcolon htype hclose =>
    exact ⟨[name, colon, type], close, _, [], rfl, hclose, rfl, .last hname hcolon htype⟩
  | @more name colon type comma ts ps hname hcolon htype hcomma _ ih =>
    obtain ⟨us, close, p, qs, rfl, hclose, hps, hus⟩ := ih
    refine ⟨name :: colon :: type :: comma :: us, close, ⟨name.lexeme, type.lexeme, ()⟩, p :: qs,
      rfl, hclose, ?_, .more hname hcolon htype hcomma hus⟩
    rw [List.map_cons, hps]
    rfl

/-- The parameters of a function as the reader takes them are spelled as the grammar has them.
-/
theorem ParameterList.spells {ps : List (Parameter Span)} (h : ParameterList ts ps) :
    ∃ us close, ts = us ++ [close] ∧ close.kind = .rightParen
      ∧ SpellsParameters us (ps.map Parameter.erase) := by
  cases h with
  | @none close hclose => exact ⟨[], close, rfl, hclose, .none⟩
  | some h =>
    obtain ⟨us, close, p, qs, rfl, hclose, hps, hus⟩ := h.spells
    exact ⟨us, close, rfl, hclose, hps ▸ hus⟩

end

/-- What a phrase with levels and marks says about the tokens. An expression of a level is a
chain whose operators all bind at least that tightly. -/
def Phrase.Spells (ts : List Token) : Phrase → Prop
  | statement greedy node => Spelling ts (.statement greedy node.erase)
  | expression greedy least node => ∃ steps last, Spelling ts (.chain greedy steps last)
      ∧ Grouped steps last node.erase ∧ ∀ step ∈ steps, least ≤ step.2.precedence
  | atom greedy node => Spelling ts (.atom greedy node.erase)
  | argumentTail nodes => ∃ us close node rest, ts = us ++ [close] ∧ close.kind = .rightParen
      ∧ nodes.map Node.erase = node :: rest ∧ Spelling us (.arguments (node :: rest))
  | arguments nodes => ∃ us close, ts = us ++ [close] ∧ close.kind = .rightParen
      ∧ Spelling us (.arguments (nodes.map Node.erase))
  | block nodes => Spelling ts (.block (nodes.map Node.erase))
  | blockTail nodes => ∀ ss greedy first, Spelling ss (.statement greedy first) →
      SpellsLines (ss ++ ts) (first :: nodes.map Node.erase)
  | lines nodes => SpellsLines ts (nodes.map Node.erase)

/-- An expression of any strength is an expression of the grammar. -/
theorem Phrase.Spells.math {ts : List Token} {greedy : Bool} {least : Nat} {node : Node Span}
    (h : (expression greedy least node).Spells ts) : Spelling ts (.math greedy node.erase) := by
  obtain ⟨steps, last, hchain, hgrouped, -⟩ := h
  exact .grouped hchain hgrouped

/-- What is derived with levels is spelled in chains. -/
theorem Derives.spells {ts : List Token} {phrase : Phrase} (h : Derives ts phrase) :
    phrase.Spells ts := by
  induction h with
  | plain _ ih => exact Spelling.math ih.math
  | declare hopening hname hcolon htype => exact .declare hopening hname hcolon htype
  | define hopening hname htype hequals _ ih =>
    exact .define hopening hname htype hequals ih
  | @function opening name paren params typing ts parameters result body hopening hname hparen
      hparams htype _ ih =>
    obtain ⟨us, close, rfl, hclose, hus⟩ := hparams.spells
    show Spelling _ (.statement false (Node.erase _))
    rw [Node.erase_function]
    simpa using Spelling.function hopening hname hparen hus hclose htype ih
  | raw hopening _ ih => exact .raw hopening ih.math
  | operand least _ ih => exact ⟨[], _, .last ih, .operand _, fun step hstep => by cases hstep⟩
  | @binary ts us sign op left right greedy least _ hsign _ hleast ihleft ihright =>
    obtain ⟨before, a, hbefore, hleft, hlevel⟩ := ihleft
    obtain ⟨after, b, hafter, hright, hlevel'⟩ := ihright
    refine ⟨before ++ (a, op) :: after, b, hbefore.append_chain hsign hafter,
      .root hleft hright hlevel fun step hstep => hlevel' step hstep, ?_⟩
    -- the operators of both sides bind at least as tightly as the one between them
    intro step hstep
    rcases List.mem_append.1 hstep with hmem | hmem
    · exact hleast.trans (hlevel step hmem)
    · rcases List.mem_cons.1 hmem with rfl | hmem
      · exact hleast
      · have hlt : op.precedence + 1 ≤ step.2.precedence := hlevel' step hmem
        omega
  | integer h => exact .integer h
  | negative hsign h => exact .negative hsign h
  | negate hsign _ hfirst ih => exact .negate hsign ih hfirst
  | string h => exact .string h
  | access h => exact .access h
  | assign hname hequals _ ih => exact .assign hname hequals ih
  | @call name paren ts nodes hname hparen _ ih =>
    obtain ⟨us, close, rfl, hclose, hus⟩ := ih
    show Spelling _ (.atom false (Node.erase _))
    rw [Node.erase_call]
    exact .call hname hparen hus hclose
  | group hparen _ hclose ih => exact .group hparen ih.math hclose
  | @noArguments close hclose => exact ⟨[], close, rfl, hclose, .noArguments⟩
  | someArguments _ ih =>
    obtain ⟨us, close, node, rest, rfl, hclose, hnodes, hus⟩ := ih
    exact ⟨us, close, rfl, hclose, hnodes ▸ hus⟩
  | @lastArgument ts close greedy node _ hclose ih =>
    exact ⟨ts, close, node.erase, [], rfl, hclose, rfl, .lastArgument ih.math⟩
  | @nextArgument ts us comma greedy node nodes _ hcomma _ ih ihmore =>
    obtain ⟨vs, close, next, rest, rfl, hclose, hnodes, hvs⟩ := ihmore
    refine ⟨ts ++ comma :: vs, close, node.erase, next :: rest, by simp, hclose, ?_,
      .nextArgument ih.math hcomma hvs⟩
    rw [List.map_cons, hnodes]
  | @emptyBlock brace close ls hbrace hlines hclose =>
    show Spelling _ (.block [])
    simpa using Spelling.block hbrace hlines .noLine newlines_nil hclose
  | @someBlock brace close ls ts us greedy node nodes hbrace hlines _ _ hclose ih ihmore =>
    -- the rest of a block is spelled behind any first statement, here behind the one it has
    obtain ⟨vs, ms, heq, hvs, hms⟩ := ihmore ts greedy node.erase ih
    have hblock := Spelling.block hbrace hlines hvs hms hclose
    rw [List.append_assoc ls, ← heq, ← List.append_assoc] at hblock
    exact hblock
  | blockEnd hlines => exact fun ss greedy first hfirst => spellsLines_last hfirst hlines
  | @blockNext ls ts us greedy node nodes hlines hsome _ _ ih ihmore =>
    intro ss greedy' first hfirst
    have hrest := (ihmore ts greedy node.erase ih).cons hfirst hlines hsome
    rw [List.append_assoc, ← List.append_assoc ls] at hrest
    exact hrest
  | noLine => exact ⟨[], [], rfl, .noLine, newlines_nil⟩
  | lastLine _ ih =>
    have hline := spellsLines_last ih newlines_nil
    rwa [List.append_nil] at hline
  | nextLine _ hlines hsome _ ih ihmore => exact ihmore.cons ih hlines hsome

/-! ## Accepted scripts -/

/-- The tokens of an accepted script spell it, all of them and in order, and none of them is
illegal. -/
theorem parse_spells {tokens : List Token} {script : Script Span} (h : EndsText tokens)
    (hparse : parse tokens = .ok script) :
    SpellsScript tokens (script.map Node.erase) ∧ ∀ t ∈ tokens, t.kind ≠ .illegal := by
  obtain ⟨ls, us, close, rfl, hlines, hderives, hclose⟩ := derives_of_parse h hparse
  obtain ⟨vs, ms, rfl, hvs, hms⟩ := hderives.spells
  rw [← List.append_assoc]
  have hscript : SpellsScript (ls ++ vs ++ ms ++ [close]) (script.map Node.erase) :=
    .intro hlines hvs hms hclose
  exact ⟨hscript, hscript.legal⟩

theorem parse_spells_nested :
    ∃ tokens script, tokenize ⟨"nested",
        ("\n\nfunction f(a: int, b: int): int \x7b\n\n  a = a + b * 2 - 1\n\n  raw (\"say\")\n\n\x7d\n"
          ++ "8 / 4 / 2 + -(3 - 1) * f(1, y = 2 + 3)\ny = let c: int * 2 - x = 1 + 2\n\n").toList⟩
        = .ok tokens ∧ EndsText tokens ∧ parse tokens = .ok script
      ∧ script.print = ("function f(a: int, b: int): int \x7b\na = a + b * 2 - 1\nraw \"say\"\n\x7d\n"
          ++ "8 / 4 / 2 + (0 - (3 - 1)) * f(1, y = 2 + 3)\n"
          ++ "(y = let c: int) * 2 - (x = 1 + 2)\n").toList
      ∧ SpellsScript tokens (script.map Node.erase) ∧ ∀ t ∈ tokens, t.kind ≠ .illegal := by
  have hread : ∀ text printed : List Char,
      (tokenize ⟨"nested", text⟩).toOption.any (fun tokens =>
        (parse tokens).toOption.any fun script => script.print = printed) = true →
      ∃ tokens script, tokenize ⟨"nested", text⟩ = .ok tokens ∧ EndsText tokens
        ∧ parse tokens = .ok script ∧ script.print = printed
        ∧ SpellsScript tokens (script.map Node.erase) ∧ ∀ t ∈ tokens, t.kind ≠ .illegal := by
    intro text printed hany
    obtain ⟨tokens, htokens, hany⟩ := exists_ok_of_any hany
    obtain ⟨script, hparse, hprint⟩ := exists_ok_of_any hany
    have hends := endsText_of_tokenize htokens
    exact ⟨tokens, script, htokens, hends, hparse, of_decide_eq_true hprint,
      parse_spells hends hparse⟩
  exact hread _ _ (by decide +kernel)

end Scoreboard
