import Mathlib
import Scoreboard.Proofs.Grammar
import Scoreboard.Proofs.Reading
import Scoreboard.Proofs.ReadingAhead
import Scoreboard.Proofs.RoundTrip
import Scoreboard.Proofs.Steps

/-!
# Reading is complete

Where the tokens of a phrase stand ahead, the readers return that phrase and stop behind it.
With the soundness of reading this makes the grammar exact: a list of tokens that ends the
text is read as a script if and only if it spells the script (`parse_eq_ok_iff`).

Tokens that spell a phrase may go on with a longer one, so each statement needs something of
what stands behind the phrase. Behind an expression of a level no operator may stand that
binds more tightly than the level, and behind a greedy phrase no operator at all.
-/

namespace Scoreboard

open Scoreboard.Parser

/-! ## Tokens ahead -/

/-- Taking tokens can stop between any two of them. -/
theorem Cursor.Took.split {c c'' : Cursor} {ts us : List Token} (h : c.Took (ts ++ us) c'') :
    ∃ c', c.Took ts c' ∧ c'.Took us c'' := by
  have hproper := List.forall_mem_append.1 h.proper
  cases hrest : us ++ c''.current :: c''.after with
  | nil => simp at hrest
  | cons next rest =>
    refine ⟨⟨ts.reverse ++ c.before, next, rest, c.fromEnd⟩, ⟨?_, rfl, rfl, hproper.1⟩,
      ⟨hrest.symm, ?_, h.fromEnd, hproper.2⟩⟩
    · rw [h.ahead, List.append_assoc, hrest]
    · rw [h.before, List.reverse_append, List.append_assoc]

theorem Cursor.Took.le {c c' : Cursor} {ts : List Token} (h : c.Took ts c') :
    c'.remaining ≤ c.remaining := by
  have := h.remaining
  omega

/-- Taking at least one token leaves fewer. -/
theorem Cursor.Took.lt {c c' : Cursor} {ts : List Token} (h : c.Took ts c') (hts : ts ≠ []) :
    c'.remaining < c.remaining := by
  have hlength := List.length_pos_iff.2 hts
  have hremaining := h.remaining
  omega

namespace Parser

variable {c c' : Cursor} {ts typing : List Token}

/-- A type behind a colon is read where no further colon follows. -/
theorem typeAfterColon_took {type : Option String} {role : Role} (h : TypeTail typing type)
    (hc : c.Closed) (htook : c.Took typing c') (hcolon : c'.current.kind ≠ .colon)
    (hlegal : c'.current.kind ≠ .illegal) : typeAfterColon role c = .ok type c' := by
  cases h with
  | none =>
    rw [htook.done] at hcolon hlegal ⊢
    exact typeAfterColon_other hcolon hlegal
  | some hcolon' htype =>
    obtain ⟨hat, -, hrest⟩ := htook.take hc hcolon' rfl
    obtain ⟨hat', heq, hdone⟩ := hrest.take hat.closed_advance htype rfl
    rw [typeAfterColon_at hat hat', heq, hdone.done]

/-- The name, the colon and the type of a parameter. -/
theorem parameter_took {name colon type : Token} (hc : c.Closed)
    (htook : c.Took (name :: colon :: type :: ts) c') (hname : name.kind = .identifier)
    (hcolon : colon.kind = .colon) (htype : type.kind = .identifier) :
    ∃ c₁, c₁.Closed ∧ c₁.remaining ≤ c.remaining ∧ c₁.Took ts c'
      ∧ parameter c = .ok ⟨name.lexeme, type.lexeme, name.span.merge type.span⟩ c₁ := by
  obtain ⟨hat₁, heq₁, hrest⟩ := htook.take hc hname rfl
  obtain ⟨hat₂, -, hrest⟩ := hrest.take hat₁.closed_advance hcolon rfl
  obtain ⟨hat₃, heq₃, hrest⟩ := hrest.take hat₂.closed_advance htype rfl
  have hread := parameter_at hat₁ hat₂ hat₃
  have h₁ := hat₁.remaining
  have h₂ := hat₂.remaining
  have h₃ := hat₃.remaining
  rw [heq₁, heq₃] at hread
  exact ⟨_, hat₃.closed_advance, by omega, hrest, hread⟩

/-- By induction over the grammar of parameters, each of which takes three tokens. -/
theorem moreParameters_took {ps : List (Parameter Span)} (h : ParameterTail ts ps) (hc : c.Closed)
    (htook : c.Took ts c') : Gives moreParameters 1 c ps c' := by
  induction h generalizing c with
  | last hname hcolon htype hclose =>
    obtain ⟨c₁, hc₁, -, hrest, hread⟩ := parameter_took hc htook hname hcolon htype
    obtain ⟨hat, -, hdone⟩ := hrest.take hc₁ hclose rfl
    rw [hdone.done]
    exact moreParameters_last hread hat
  | more hname hcolon htype hcomma _ ih =>
    obtain ⟨c₁, hc₁, hle, hrest, hread⟩ := parameter_took hc htook hname hcolon htype
    obtain ⟨hat, -, hrest⟩ := hrest.take hc₁ hcomma rfl
    exact moreParameters_next hread hle hat (ih hat.closed_advance hrest)

/-- A list of parameters is read up to its closing parenthesis. -/
theorem parameters_took {ps : List (Parameter Span)} (h : ParameterList ts ps) (hc : c.Closed)
    (htook : c.Took ts c') : Gives parameters 1 c ps c' := by
  cases h with
  | none hclose =>
    obtain ⟨hat, -, hdone⟩ := htook.take hc hclose rfl
    rw [hdone.done]
    exact parameters_none hat
  | some h =>
    have hmore := moreParameters_took h hc htook
    cases h with
    | last hname _ _ _ =>
      obtain ⟨hat, -, -⟩ := htook.take hc hname rfl
      exact parameters_some hat hmore
    | more hname _ _ _ _ =>
      obtain ⟨hat, -, -⟩ := htook.take hc hname rfl
      exact parameters_some hat hmore

end Parser

/-! ## Phrases ahead -/

namespace Phrase

/-- Operators that bind at least this tightly must not stand behind a phrase. -/
def limit : Bool → Nat
  | true => 1
  | false => 3

theorem one_le_limit (greedy : Bool) : 1 ≤ limit greedy := by
  cases greedy <;> simp [limit]

/-- A climb over a node comes to the same as going on behind it with the node already
read. -/
def Climbs (least : Nat) (node : Node Span) (c c' : Cursor) : Prop :=
  ∀ lowest ≤ least, ∀ x c'', Gives (climbRest · lowest node) 1 c' x c'' →
    Gives (climb · lowest) 2 c x c''

/-- Where no operator goes on with it, the node itself is what a climb gives. -/
theorem Climbs.gives {least lowest : Nat} {node : Node Span} {c c' : Cursor}
    (h : Climbs least node c c') (hle : lowest ≤ least) (hstops : Stops lowest c') :
    Gives (climb · lowest) 2 c node c' :=
  h lowest hle node c' (climbRest_stops hstops)

/-- The tokens between two places are read as a phrase. -/
def Given (c c' : Cursor) : Phrase → Prop
  | statement greedy node => Stops (limit greedy) c' → Gives Parser.statement 3 c node c'
  | expression greedy least node =>
    Stops (limit greedy) c' → Stops (least + 1) c' → Climbs least node c c'
  | atom greedy node => Stops (limit greedy) c' → Gives Parser.atom 1 c node c'
  | argumentTail nodes => Gives moreArguments 3 c nodes c'
  | arguments nodes => Gives Parser.arguments 4 c nodes c'
  | block nodes => Gives Parser.block 1 c nodes c'
  | blockTail nodes => c'.At .rightBrace → c.current.kind.isStop = true
      ∧ ∃ failed, Gives blockRest 1 c (nodes, failed) c'
  | lines nodes => c'.current.kind = .endOfText → c.current.kind ≠ .newline
      ∧ c.current.kind ≠ .illegal ∧ Gives statements 4 c nodes c'

/-- Wherever the tokens stand ahead, they are read as a phrase. -/
def IsRead (ts : List Token) (phrase : Phrase) : Prop :=
  ∀ c c' : Cursor, c.Closed → c.Took ts c' → phrase.Given c c'

variable {ts us typing : List Token} {greedy : Bool} {node : Node Span} {nodes : List (Node Span)}
variable {c c' : Cursor}

/-! ### Expressions -/

/-- An expression of the lowest level, where nothing goes on with it. -/
theorem IsRead.gives_climb (h : IsRead ts (.expression greedy 1 node)) (hc : c.Closed)
    (htook : c.Took ts c') (hstops : Stops 1 c') : Gives (climb · 1) 2 c node c' := by
  have hclimbs := h c c' hc htook (hstops.mono (one_le_limit greedy)) (hstops.mono (by omega))
  exact hclimbs.gives (Nat.le_refl 1) hstops

/-- An operand is an expression of every level. -/
theorem isRead_operand (h : IsRead ts (.atom greedy node)) (least : Nat) :
    IsRead ts (.expression greedy least node) := by
  intro c c' hc htook hlimit _ lowest _ x c'' hrest
  exact climb_atom (h c c' hc htook hlimit) htook.le hrest

/-- A left operand is read first, and the climb goes on with the operation in its place. -/
theorem isRead_binary {sign : Token} {op : Operator} {left right : Node Span} {least : Nat}
    (hleft : IsRead ts (.expression false op.precedence left)) (hsign : sign.kind = .operator op)
    (hright : IsRead us (.expression greedy (op.precedence + 1) right))
    (hleast : least ≤ op.precedence) :
    IsRead (ts ++ sign :: us)
      (.expression greedy least (.binary op left right (left.mark.merge right.mark))) := by
  intro c c' hc htook hlimit hstops lowest hlowest x c'' hrest
  obtain ⟨c₁, hfirst, hsecond⟩ := htook.split
  obtain ⟨hat, -, hsecond⟩ := hsecond.take (hc.took hfirst) hsign rfl
  have hop : op.precedence < 3 := Node.precedence_lt_three op
  -- the operator is not taken into the left operand, and what follows not into the right one
  have hbehind : Stops (op.precedence + 1) c' := hstops.mono (by omega)
  have hclimbs := hleft c c₁ hc hfirst (stops_operator hat hop)
    (stops_operator hat (Nat.lt_succ_self _))
  have hclimbs' := hright c₁.advance c' hat.closed_advance hsecond hlimit
    (hbehind.mono (Nat.le_succ _))
  have hgives := hclimbs'.gives (Nat.le_refl _) hbehind
  have hle : lowest ≤ op.precedence := Nat.le_trans hlowest hleast
  exact hclimbs lowest hle x c'' (climbRest_operator hat hle hgives hsecond.le hrest)

/-! ### Operands -/

theorem isRead_integer {t : Token} {n : Int} (h : t.kind = .integer n) :
    IsRead [t] (.atom false (.integer n t.span)) := by
  intro c c' hc htook _
  obtain ⟨hat, heq, hdone⟩ := htook.take hc h rfl
  rw [hdone.done, ← heq]
  exact atom_integer hat

/-- A minus and an integer are one literal. -/
theorem isRead_negative {sign t : Token} {n : Int} (hsign : sign.kind = .operator .subtract)
    (h : t.kind = .integer n) :
    IsRead [sign, t] (.atom false (.integer (-n) (sign.span.merge t.span))) := by
  intro c c' hc htook _
  obtain ⟨hat, heq, hrest⟩ := htook.take hc hsign rfl
  obtain ⟨hat', heq', hdone⟩ := hrest.take hat.closed_advance h rfl
  rw [hdone.done, ← heq, ← heq']
  exact atom_negative hat hat'

/-- A minus before anything else subtracts from zero. -/
theorem isRead_negate {sign first : Token} (hsign : sign.kind = .operator .subtract)
    (hfirst : ∀ n, first.kind ≠ .integer n) (h : IsRead (first :: ts) (.atom greedy node)) :
    IsRead (sign :: first :: ts) (.atom greedy (.binary .subtract (.integer 0 sign.span) node
      (sign.span.merge node.mark))) := by
  intro c c' hc htook hlimit
  obtain ⟨hat, heq, hrest⟩ := htook.take hc hsign rfl
  have hother : ∀ value, c.advance.current.kind ≠ .integer value := by
    rw [← hrest.eq_current rfl]
    exact hfirst
  rw [← heq]
  exact atom_negate hat hother (h c.advance c' hat.closed_advance hrest hlimit)

theorem isRead_string {t : Token} {text : String} (h : t.kind = .string text) :
    IsRead [t] (.atom false (.string text t.span)) := by
  intro c c' hc htook _
  obtain ⟨hat, heq, hdone⟩ := htook.take hc h rfl
  rw [hdone.done, ← heq]
  exact atom_string hat

/-- A name that is followed by neither an equals sign nor a parenthesis. -/
theorem isRead_access {name : Token} (h : name.kind = .identifier) :
    IsRead [name] (.atom false (.access name.lexeme name.span)) := by
  intro c c' hc htook hlimit
  obtain ⟨hat, heq, hdone⟩ := htook.take hc h rfl
  rw [hdone.done] at hlimit ⊢
  rw [← heq]
  exact atom_name hat (nameRest_access hlimit)

/-- An assignment takes a whole statement as its value, and so is as greedy as that. -/
theorem isRead_assign {name equals : Token} (hname : name.kind = .identifier)
    (hequals : equals.kind = .assign) (hvalue : IsRead ts (.statement greedy node)) :
    IsRead (name :: equals :: ts)
      (.atom greedy (.assign name.lexeme node (name.span.merge node.mark))) := by
  intro c c' hc htook hlimit
  obtain ⟨hat, heq, hrest⟩ := htook.take hc hname rfl
  obtain ⟨hat', -, hrest⟩ := hrest.take hat.closed_advance hequals rfl
  rw [← heq]
  exact atom_name hat (nameRest_assign hat' (hvalue _ c' hat'.closed_advance hrest hlimit))

/-- A call ends with its closing parenthesis, whatever follows. -/
theorem isRead_call {name paren : Token} (hname : name.kind = .identifier)
    (hparen : paren.kind = .leftParen) (harguments : IsRead ts (.arguments nodes)) :
    IsRead (name :: paren :: ts)
      (.atom false (.call name.lexeme nodes (name.cover (paren :: ts)))) := by
  intro c c' hc htook _
  obtain ⟨hat, heq, hrest⟩ := htook.take hc hname rfl
  obtain ⟨hat', -, hrest⟩ := hrest.take hat.closed_advance hparen rfl
  rw [← htook.cover hc.fromEnd, ← heq]
  exact atom_name hat (nameRest_call hat' (harguments _ c' hat'.closed_advance hrest))

/-- Parentheses end what is greedy inside them. -/
theorem isRead_group {paren close : Token} (hparen : paren.kind = .leftParen)
    (h : IsRead ts (.expression greedy 1 node)) (hclose : close.kind = .rightParen) :
    IsRead (paren :: (ts ++ [close])) (.atom false node) := by
  intro c c' hc htook _
  obtain ⟨hat, -, hrest⟩ := htook.take hc hparen rfl
  obtain ⟨c₁, hinner, hrest⟩ := hrest.split
  obtain ⟨hat', -, hdone⟩ := hrest.take (hat.closed_advance.took hinner) hclose rfl
  have hstops : Stops 1 c₁ := stops_of_isStop (by rw [hat'.eq_kind]; rfl)
  rw [hdone.done]
  exact atom_group hat (h.gives_climb hat.closed_advance hinner hstops) hat'

/-! ### Arguments -/

theorem isRead_lastArgument {close : Token} (h : IsRead ts (.expression greedy 1 node))
    (hclose : close.kind = .rightParen) : IsRead (ts ++ [close]) (.argumentTail [node]) := by
  intro c c' hc htook
  obtain ⟨c₁, hfirst, hrest⟩ := htook.split
  obtain ⟨hat, -, hdone⟩ := hrest.take (hc.took hfirst) hclose rfl
  have hstops : Stops 1 c₁ := stops_of_isStop (by rw [hat.eq_kind]; rfl)
  rw [hdone.done]
  exact moreArguments_last (h.gives_climb hc hfirst hstops) hat

theorem isRead_nextArgument {comma : Token} (h : IsRead ts (.expression greedy 1 node))
    (hcomma : comma.kind = .comma) (hmore : IsRead us (.argumentTail nodes)) :
    IsRead (ts ++ comma :: us) (.argumentTail (node :: nodes)) := by
  intro c c' hc htook
  obtain ⟨c₁, hfirst, hrest⟩ := htook.split
  obtain ⟨hat, -, hrest⟩ := hrest.take (hc.took hfirst) hcomma rfl
  have hstops : Stops 1 c₁ := stops_of_isStop (by rw [hat.eq_kind]; rfl)
  exact moreArguments_next (h.gives_climb hc hfirst hstops) hfirst.le hat
    (hmore c₁.advance c' hat.closed_advance hrest)

theorem isRead_noArguments {close : Token} (hclose : close.kind = .rightParen) :
    IsRead [close] (.arguments []) := by
  intro c c' hc htook
  obtain ⟨hat, -, hdone⟩ := htook.take hc hclose rfl
  rw [hdone.done]
  exact arguments_none hat

/-! ### Statements -/

/-- An expression stands as a statement, and goes on as far as it can. -/
theorem isRead_plain (h : IsRead ts (.expression greedy 1 node)) :
    IsRead ts (.statement true node) := by
  intro c c' hc htook hlimit
  exact statement_climb (h.gives_climb hc htook hlimit)

/-- A declaration without a value ends with its type. -/
theorem isRead_declare {opening name colon type : Token}
    (hopening : opening.kind = .keyword .declare) (hname : name.kind = .identifier)
    (hcolon : colon.kind = .colon) (htype : type.kind = .identifier) :
    IsRead [opening, name, colon, type] (.statement false (.declare name.lexeme
      (some type.lexeme) (opening.cover [name, colon, type]))) := by
  intro c c' hc htook hlimit
  obtain ⟨hat, heq, hrest⟩ := htook.take hc hopening rfl
  obtain ⟨hat', heq', hrest⟩ := hrest.take hat.closed_advance hname rfl
  obtain ⟨hat₁, -, hrest⟩ := hrest.take hat'.closed_advance hcolon rfl
  obtain ⟨hat₂, heq₂, hdone⟩ := hrest.take hat₁.closed_advance htype rfl
  have hread : typeAfterColon .variable c.advance.advance = .ok (some type.lexeme) c' := by
    rw [typeAfterColon_at hat₁ hat₂, heq₂, hdone.done]
  rw [← htook.cover hc.fromEnd, ← heq, ← heq']
  exact statement_declare hat hat' hread hlimit

/-- A declaration with a value has a type or none, and takes a whole statement as its value. -/
theorem isRead_define {opening name equals : Token} {type : Option String}
    (hopening : opening.kind = .keyword .declare) (hname : name.kind = .identifier)
    (htype : TypeTail typing type) (hequals : equals.kind = .assign)
    (hvalue : IsRead ts (.statement greedy node)) :
    IsRead (opening :: name :: (typing ++ equals :: ts)) (.statement greedy
      (.define name.lexeme type node (opening.cover (name :: (typing ++ equals :: ts))))) := by
  intro c c' hc htook hlimit
  obtain ⟨hat, heq, hrest⟩ := htook.take hc hopening rfl
  obtain ⟨hat', heq', hrest⟩ := hrest.take hat.closed_advance hname rfl
  obtain ⟨c₁, htyping, hrest⟩ := hrest.split
  have hc₁ := hat'.closed_advance.took htyping
  obtain ⟨hassign, -, hrest⟩ := hrest.take hc₁ hequals rfl
  have hread : typeAfterColon .variable c.advance.advance = .ok type c₁ :=
    typeAfterColon_took htype hat'.closed_advance htyping (by rw [hassign.eq_kind]; simp)
      hassign.legal
  have hgives := hvalue c₁.advance c' hassign.closed_advance hrest hlimit
  have hle : c₁.remaining ≤ c.remaining := by
    have h₁ := hat.remaining
    have h₂ := hat'.remaining
    have h₃ := htyping.le
    omega
  rw [← htook.cover hc.fromEnd, ← heq, ← heq']
  exact statement_define hat hat' hread hassign hle hgives

/-- A raw command is any expression that is a string. -/
theorem isRead_raw {opening : Token} {text : String} {span : Span}
    (hopening : opening.kind = .keyword .raw)
    (htext : IsRead ts (.expression greedy 1 (.string text span))) :
    IsRead (opening :: ts) (.statement true (.raw text (opening.span.merge span))) := by
  intro c c' hc htook hlimit
  obtain ⟨hat, heq, hrest⟩ := htook.take hc hopening rfl
  rw [← heq]
  exact statement_raw hat (htext.gives_climb hat.closed_advance hrest hlimit)

/-- A function has its parameters, a result or none, and its body. -/
theorem isRead_function {opening name paren brace : Token} {params : List Token}
    {parameters : List (Parameter Span)} {result : Option String}
    (hopening : opening.kind = .keyword .function) (hname : name.kind = .identifier)
    (hparen : paren.kind = .leftParen) (hparams : ParameterList params parameters)
    (htype : TypeTail typing result) (hbrace : brace.kind = .leftBrace)
    (hbody : IsRead (brace :: ts) (.block nodes)) :
    IsRead (opening :: name :: paren :: (params ++ typing ++ brace :: ts)) (.statement false
      (.function name.lexeme parameters result nodes
        (opening.cover (name :: paren :: (params ++ typing ++ brace :: ts))))) := by
  intro c c' hc htook _
  obtain ⟨hat, heq, hrest⟩ := htook.take hc hopening rfl
  obtain ⟨hat', heq', hrest⟩ := hrest.take hat.closed_advance hname rfl
  obtain ⟨hopen, -, hrest⟩ := hrest.take hat'.closed_advance hparen rfl
  obtain ⟨c₂, hhead, hblock⟩ := hrest.split
  obtain ⟨c₁, hlist, htyping⟩ := hhead.split
  have hc₁ := hopen.closed_advance.took hlist
  obtain ⟨hat₂, -, -⟩ := hblock.take (hc₁.took htyping) hbrace rfl
  have hread : typeAfterColon .result c₁ = .ok result c₂ :=
    typeAfterColon_took htype hc₁ htyping (by rw [hat₂.eq_kind]; simp) hat₂.legal
  have hgives := hbody c₂ c' (hc₁.took htyping) hblock
  have hlt : c₂.remaining < c.remaining := by
    have h₁ := hat.remaining
    have h₂ := hat'.remaining
    have h₃ := hopen.remaining
    have h₄ := hhead.le
    omega
  rw [← htook.cover hc.fromEnd, ← heq, ← heq']
  exact statement_function hat hat' hopen (parameters_took hparams hopen.closed_advance hlist)
    hread hlt hgives

/-! ### Bodies -/

variable {ls : List Token}

/-- A run of newlines starts with a newline. -/
theorem current_of_newlines (hlines : Newlines ls) (hsome : ls ≠ []) (htook : c.Took ls c') :
    c.current.kind = .newline := by
  have hhead : ls.head hsome ∈ ls.head? := List.head?_eq_some_head hsome
  rw [← htook.eq_current hhead]
  exact hlines _ (List.head_mem hsome)

/-- Only newlines may stand in a body without statements. -/
theorem isRead_emptyBlock {brace close : Token} (hbrace : brace.kind = .leftBrace)
    (hlines : Newlines ls) (hclose : close.kind = .rightBrace) :
    IsRead (brace :: (ls ++ [close])) (.block []) := by
  intro c c' hc htook
  obtain ⟨hat, -, hrest⟩ := htook.take hc hbrace rfl
  obtain ⟨c₁, hskipped, hrest⟩ := hrest.split
  obtain ⟨hat', -, hdone⟩ := hrest.take (hat.closed_advance.took hskipped) hclose rfl
  have hskip := skipNewlines_took hskipped hat.closed_advance hlines
    (by rw [hat'.eq_kind]; simp) hat'.legal
  rw [hdone.done]
  exact block_empty hat hskip hat'

theorem isRead_someBlock {brace close : Token} (hbrace : brace.kind = .leftBrace)
    (hlines : Newlines ls) (h : IsRead ts (.statement greedy node))
    (hmore : IsRead us (.blockTail nodes)) (hclose : close.kind = .rightBrace) :
    IsRead (brace :: (ls ++ ts ++ us ++ [close])) (.block (node :: nodes)) := by
  intro c c' hc htook
  obtain ⟨hat, -, hrest⟩ := htook.take hc hbrace rfl
  obtain ⟨c₃, hrest, hlast⟩ := hrest.split
  obtain ⟨c₂, hrest, htail⟩ := hrest.split
  obtain ⟨c₁, hskipped, hfirst⟩ := hrest.split
  have hc₁ := hat.closed_advance.took hskipped
  have hc₂ := hc₁.took hfirst
  obtain ⟨hat', -, hdone⟩ := hlast.take (hc₂.took htail) hclose rfl
  obtain ⟨hstop, failed, hgives'⟩ := hmore c₂ c₃ hc₂ htail hat'
  have hgives := h c₁ c₂ hc₁ hfirst (stops_of_isStop hstop)
  obtain ⟨hnext, -, -, hlegal⟩ := ne_of_starts (starts_of_statement hgives)
  have hskip := skipNewlines_took hskipped hat.closed_advance hlines hnext hlegal
  rw [hdone.done]
  exact block_some hat hskip hskipped.le hgives hfirst.le hgives' hat'

/-- Newlines before the closing brace: the reader tries a statement there, fails and goes back.
-/
theorem isRead_blockEnd (hlines : Newlines ls) : IsRead ls (.blockTail []) := by
  intro c c' hc htook hclose
  have hskip := skipNewlines_took htook hc hlines (by rw [hclose.eq_kind]; simp) hclose.legal
  by_cases hsome : ls = []
  · -- the closing brace stands behind the last statement
    rw [hsome] at htook hskip
    rw [htook.done] at hclose hskip ⊢
    exact ⟨by rw [hclose.eq_kind]; rfl, none, blockRest_none hskip⟩
  · have hnewline := current_of_newlines hlines hsome htook
    exact ⟨by rw [hnewline]; rfl, _,
      blockRest_last hskip (mt List.eq_nil_of_length_eq_zero hsome) (htook.lt hsome) hclose⟩

/-- A further statement stands behind at least one newline. -/
theorem isRead_blockNext (hlines : Newlines ls) (hsome : ls ≠ [])
    (h : IsRead ts (.statement greedy node)) (hmore : IsRead us (.blockTail nodes)) :
    IsRead (ls ++ ts ++ us) (.blockTail (node :: nodes)) := by
  intro c c' hc htook hclose
  obtain ⟨c₂, hrest, htail⟩ := htook.split
  obtain ⟨c₁, hskipped, hfirst⟩ := hrest.split
  have hc₁ := hc.took hskipped
  obtain ⟨hstop, failed, hgives'⟩ := hmore c₂ c' (hc₁.took hfirst) htail hclose
  have hgives := h c₁ c₂ hc₁ hfirst (stops_of_isStop hstop)
  obtain ⟨hnext, -, -, hlegal⟩ := ne_of_starts (starts_of_statement hgives)
  have hskip := skipNewlines_took hskipped hc hlines hnext hlegal
  have hnewline := current_of_newlines hlines hsome hskipped
  exact ⟨by rw [hnewline]; rfl, failed,
    blockRest_next hskip (mt List.eq_nil_of_length_eq_zero hsome) (hskipped.lt hsome) hgives
      hfirst.le hgives'⟩

/-! ### Scripts -/

theorem isRead_noLine : IsRead [] (.lines []) := by
  intro c c' _ htook hend
  rw [htook.done] at hend ⊢
  exact ⟨by rw [hend]; simp, by rw [hend]; simp, statements_none hend⟩

theorem isRead_lastLine (h : IsRead ts (.statement greedy node)) : IsRead ts (.lines [node]) := by
  intro c c' hc htook hend
  have hgives := h c c' hc htook (stops_of_isStop (by rw [hend]; rfl))
  obtain ⟨hstart, -, -, hlegal⟩ := ne_of_starts (starts_of_statement hgives)
  exact ⟨hstart, hlegal, statements_last hgives hend⟩

theorem isRead_nextLine (h : IsRead ts (.statement greedy node)) (hlines : Newlines ls)
    (hsome : ls ≠ []) (hmore : IsRead us (.lines nodes)) :
    IsRead (ts ++ ls ++ us) (.lines (node :: nodes)) := by
  intro c c' hc htook hend
  obtain ⟨c₂, hrest, hothers⟩ := htook.split
  obtain ⟨c₁, hfirst, hskipped⟩ := hrest.split
  have hc₁ := hc.took hfirst
  have hnewline := current_of_newlines hlines hsome hskipped
  have hgives := h c c₁ hc hfirst (stops_of_isStop (by rw [hnewline]; rfl))
  obtain ⟨hstart, -, -, hlegal⟩ := ne_of_starts (starts_of_statement hgives)
  obtain ⟨hnext, hlegal', hgives'⟩ := hmore c₂ c' (hc₁.took hskipped) hothers hend
  have hskip := skipNewlines_took hskipped hc₁ hlines hnext hlegal'
  exact ⟨hstart, hlegal, statements_next hgives hfirst.le hnewline hskip
    (mt List.eq_nil_of_length_eq_zero hsome) (hskipped.lt hsome) hgives'⟩

end Phrase

/-! ## Whole texts -/

theorem Derives.block_cons {ts : List Token} {nodes : List (Node Span)}
    (h : Derives ts (.block nodes)) :
    ∃ brace us, ts = brace :: us ∧ brace.kind = .leftBrace := by
  cases h with
  | emptyBlock hbrace _ _ => exact ⟨_, _, rfl, hbrace⟩
  | someBlock hbrace _ _ _ _ => exact ⟨_, _, rfl, hbrace⟩

/-- What the grammar derives is read. -/
theorem Derives.isRead {ts : List Token} {phrase : Phrase} (h : Derives ts phrase) :
    phrase.IsRead ts := by
  induction h with
  | plain _ ih => exact Phrase.isRead_plain ih
  | declare hopening hname hcolon htype =>
    exact Phrase.isRead_declare hopening hname hcolon htype
  | define hopening hname htype hequals _ ih =>
    exact Phrase.isRead_define hopening hname htype hequals ih
  | function hopening hname hparen hparams htype hbody ih =>
    obtain ⟨brace, us, rfl, hbrace⟩ := hbody.block_cons
    exact Phrase.isRead_function hopening hname hparen hparams htype hbrace ih
  | raw hopening _ ih => exact Phrase.isRead_raw hopening ih
  | operand least _ ih => exact Phrase.isRead_operand ih least
  | binary _ hsign _ hleast ihleft ihright =>
    exact Phrase.isRead_binary ihleft hsign ihright hleast
  | integer h => exact Phrase.isRead_integer h
  | negative hsign h => exact Phrase.isRead_negative hsign h
  | @negate sign ts greedy node hsign h hfirst ih =>
    cases ts with
    | nil => exact (h.ne_nil trivial rfl).elim
    | cons first ts => exact Phrase.isRead_negate hsign (hfirst first rfl) ih
  | string h => exact Phrase.isRead_string h
  | access h => exact Phrase.isRead_access h
  | assign hname hequals _ ih => exact Phrase.isRead_assign hname hequals ih
  | call hname hparen _ ih => exact Phrase.isRead_call hname hparen ih
  | group hparen _ hclose ih => exact Phrase.isRead_group hparen ih hclose
  | noArguments hclose => exact Phrase.isRead_noArguments hclose
  | someArguments _ ih => exact fun c c' hc htook => arguments_some (ih c c' hc htook)
  | lastArgument _ hclose ih => exact Phrase.isRead_lastArgument ih hclose
  | nextArgument _ hcomma _ ih ihmore => exact Phrase.isRead_nextArgument ih hcomma ihmore
  | emptyBlock hbrace hlines hclose => exact Phrase.isRead_emptyBlock hbrace hlines hclose
  | someBlock hbrace hlines _ _ hclose ih ihmore =>
    exact Phrase.isRead_someBlock hbrace hlines ih ihmore hclose
  | blockEnd hlines => exact Phrase.isRead_blockEnd hlines
  | blockNext hlines hsome _ _ ih ihmore => exact Phrase.isRead_blockNext hlines hsome ih ihmore
  | noLine => exact Phrase.isRead_noLine
  | lastLine _ ih => exact Phrase.isRead_lastLine ih
  | nextLine _ hlines hsome _ ih ihmore => exact Phrase.isRead_nextLine ih hlines hsome ihmore

/-- Reading returns a script if and only if the tokens spell it, between newlines and the end
of the text. -/
theorem parse_eq_ok_iff {tokens : List Token} {script : Script Span} (h : EndsText tokens) :
    parse tokens = .ok script
      ↔ ∃ ls us close, tokens = ls ++ us ++ [close] ∧ Newlines ls ∧ Derives us (.lines script)
        ∧ close.kind = .endOfText := by
  constructor
  · exact derives_of_parse h
  · rintro ⟨ls, us, close, rfl, hlines, hderives, hclose⟩
    obtain ⟨c, hcursor, hc, htokens, hbefore⟩ := h.hasEnd.exists_cursor
    have htook : c.Took (ls ++ us) ⟨(ls ++ us).reverse, close, [], c.fromEnd⟩ := by
      refine ⟨?_, by rw [hbefore, List.append_nil], rfl, h.proper⟩
      rw [Cursor.tokens, hbefore] at htokens
      exact htokens
    obtain ⟨c₁, hskipped, hrest⟩ := htook.split
    obtain ⟨hnext, hlegal, hgives⟩ := hderives.isRead c₁ _ (hc.took hskipped) hrest hclose
    have hscript : Parser.script c = .ok script ⟨(ls ++ us).reverse, close, [], c.fromEnd⟩ := by
      unfold Parser.script withAllowance
      rw [bind_of_ok (skipNewlines_took hskipped hc hlines hnext hlegal), get_bind]
      exact hgives _ (by unfold allowance; omega)
    unfold parse
    rw [hcursor]
    simp only [hscript]

end Scoreboard
