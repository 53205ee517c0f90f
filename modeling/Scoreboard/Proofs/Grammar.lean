import Mathlib
import Scoreboard.Script
import Scoreboard.Token
import Scoreboard.Proofs.Trees

/-!
# The grammar of scripts

Which tokens spell which script, as a relation. An expression has a level: the operators on
its outside bind at least that tightly. The left operand of an operator is an expression of
its level and the right one of the next level, so operators of one level group to the left.
The value of an assignment is a whole statement, and an operator behind that value belongs to
it: such an assignment is greedy, and so is everything that ends with it. Only what is not
greedy can be a left operand.

The marks of the nodes are part of the relation: each goes from the start of a token to the
end of the same or a later one (`SpanOf`). Names stand where the grammar asks for an
identifier, and declarations, functions and raw commands only where it asks for a statement
(`Node.Spelled`).
-/

namespace Scoreboard

/-! ## Phrases -/

/-- From the start of the first of some tokens to the end of the last. -/
def Token.cover (first : Token) (rest : List Token) : Span :=
  first.span.merge (rest.getLastD first).span

/-- Newlines only. -/
def Newlines (ts : List Token) : Prop := ∀ t ∈ ts, t.kind = .newline

theorem newlines_nil : Newlines [] := fun t ht => by cases ht

/-- A type behind a colon, or nothing. -/
inductive TypeTail : List Token → Option String → Prop
  | none : TypeTail [] none
  | some {colon type : Token} (hcolon : colon.kind = .colon) (htype : type.kind = .identifier) :
      TypeTail [colon, type] (some type.lexeme)

/-- The parameters of a function, from the first to the closing parenthesis. -/
inductive ParameterTail : List Token → List (Parameter Span) → Prop
  | last {name colon type close : Token} (hname : name.kind = .identifier)
      (hcolon : colon.kind = .colon) (htype : type.kind = .identifier)
      (hclose : close.kind = .rightParen) :
      ParameterTail [name, colon, type, close]
        [⟨name.lexeme, type.lexeme, name.span.merge type.span⟩]
  | more {name colon type comma : Token} {ts : List Token} {ps : List (Parameter Span)}
      (hname : name.kind = .identifier) (hcolon : colon.kind = .colon)
      (htype : type.kind = .identifier) (hcomma : comma.kind = .comma)
      (hmore : ParameterTail ts ps) :
      ParameterTail (name :: colon :: type :: comma :: ts)
        (⟨name.lexeme, type.lexeme, name.span.merge type.span⟩ :: ps)

/-- The parameters of a function behind the opening parenthesis. -/
inductive ParameterList : List Token → List (Parameter Span) → Prop
  | none {close : Token} (hclose : close.kind = .rightParen) : ParameterList [close] []
  | some {ts : List Token} {ps : List (Parameter Span)} (h : ParameterTail ts ps) :
      ParameterList ts ps

/-- What tokens can spell. A greedy phrase takes any operator that stands behind it. -/
inductive Phrase where
  /-- A statement. -/
  | statement (greedy : Bool) (node : Node Span)
  /-- An expression of a level. -/
  | expression (greedy : Bool) (least : Nat) (node : Node Span)
  /-- An operand. -/
  | atom (greedy : Bool) (node : Node Span)
  /-- The arguments of a call, from the first to the closing parenthesis. -/
  | argumentTail (nodes : List (Node Span))
  /-- The arguments of a call behind the opening parenthesis. -/
  | arguments (nodes : List (Node Span))
  /-- A body in braces. -/
  | block (nodes : List (Node Span))
  /-- What stands behind the first statement of a body. -/
  | blockTail (nodes : List (Node Span))
  /-- The statements of a script, up to the end of the text. -/
  | lines (nodes : List (Node Span))

/-- The tokens of a phrase. -/
inductive Derives : List Token → Phrase → Prop
  -- statements
  | plain {ts : List Token} {greedy : Bool} {node : Node Span}
      (h : Derives ts (.expression greedy 1 node)) : Derives ts (.statement true node)
  | declare {opening name colon type : Token} (hopening : opening.kind = .keyword .declare)
      (hname : name.kind = .identifier) (hcolon : colon.kind = .colon)
      (htype : type.kind = .identifier) :
      Derives [opening, name, colon, type]
        (.statement false (.declare name.lexeme (some type.lexeme)
          (opening.cover [name, colon, type])))
  | define {opening name equals : Token} {typing ts : List Token} {type : Option String}
      {greedy : Bool} {value : Node Span} (hopening : opening.kind = .keyword .declare)
      (hname : name.kind = .identifier) (htype : TypeTail typing type)
      (hequals : equals.kind = .assign) (hvalue : Derives ts (.statement greedy value)) :
      Derives (opening :: name :: (typing ++ equals :: ts))
        (.statement greedy (.define name.lexeme type value
          (opening.cover (name :: (typing ++ equals :: ts)))))
  | function {opening name paren : Token} {params typing ts : List Token}
      {parameters : List (Parameter Span)} {result : Option String} {body : List (Node Span)}
      (hopening : opening.kind = .keyword .function) (hname : name.kind = .identifier)
      (hparen : paren.kind = .leftParen) (hparams : ParameterList params parameters)
      (htype : TypeTail typing result) (hbody : Derives ts (.block body)) :
      Derives (opening :: name :: paren :: (params ++ typing ++ ts))
        (.statement false (.function name.lexeme parameters result body
          (opening.cover (name :: paren :: (params ++ typing ++ ts)))))
  | raw {opening : Token} {ts : List Token} {greedy : Bool} {text : String} {span : Span}
      (hopening : opening.kind = .keyword .raw)
      (htext : Derives ts (.expression greedy 1 (.string text span))) :
      Derives (opening :: ts) (.statement true (.raw text (opening.span.merge span)))
  -- expressions
  | operand {ts : List Token} {greedy : Bool} {node : Node Span} (least : Nat)
      (h : Derives ts (.atom greedy node)) : Derives ts (.expression greedy least node)
  | binary {ts us : List Token} {sign : Token} {op : Operator} {left right : Node Span}
      {greedy : Bool} {least : Nat} (hleft : Derives ts (.expression false op.precedence left))
      (hsign : sign.kind = .operator op)
      (hright : Derives us (.expression greedy (op.precedence + 1) right))
      (hleast : least ≤ op.precedence) :
      Derives (ts ++ sign :: us)
        (.expression greedy least (.binary op left right (left.mark.merge right.mark)))
  -- operands
  | integer {t : Token} {n : Int} (h : t.kind = .integer n) :
      Derives [t] (.atom false (.integer n t.span))
  | negative {sign t : Token} {n : Int} (hsign : sign.kind = .operator .subtract)
      (h : t.kind = .integer n) :
      Derives [sign, t] (.atom false (.integer (-n) (sign.span.merge t.span)))
  | negate {sign : Token} {ts : List Token} {greedy : Bool} {node : Node Span}
      (hsign : sign.kind = .operator .subtract) (h : Derives ts (.atom greedy node))
      (hfirst : ∀ t ∈ ts.head?, ∀ n, t.kind ≠ .integer n) :
      Derives (sign :: ts) (.atom greedy (.binary .subtract (.integer 0 sign.span) node
        (sign.span.merge node.mark)))
  | string {t : Token} {text : String} (h : t.kind = .string text) :
      Derives [t] (.atom false (.string text t.span))
  | access {name : Token} (h : name.kind = .identifier) :
      Derives [name] (.atom false (.access name.lexeme name.span))
  | assign {name equals : Token} {ts : List Token} {greedy : Bool} {value : Node Span}
      (hname : name.kind = .identifier) (hequals : equals.kind = .assign)
      (hvalue : Derives ts (.statement greedy value)) :
      Derives (name :: equals :: ts)
        (.atom greedy (.assign name.lexeme value (name.span.merge value.mark)))
  | call {name paren : Token} {ts : List Token} {nodes : List (Node Span)}
      (hname : name.kind = .identifier) (hparen : paren.kind = .leftParen)
      (harguments : Derives ts (.arguments nodes)) :
      Derives (name :: paren :: ts)
        (.atom false (.call name.lexeme nodes (name.cover (paren :: ts))))
  | group {paren close : Token} {ts : List Token} {greedy : Bool} {node : Node Span}
      (hparen : paren.kind = .leftParen) (h : Derives ts (.expression greedy 1 node))
      (hclose : close.kind = .rightParen) :
      Derives (paren :: (ts ++ [close])) (.atom false node)
  -- arguments
  | noArguments {close : Token} (hclose : close.kind = .rightParen) :
      Derives [close] (.arguments [])
  | someArguments {ts : List Token} {nodes : List (Node Span)}
      (h : Derives ts (.argumentTail nodes)) : Derives ts (.arguments nodes)
  | lastArgument {ts : List Token} {close : Token} {greedy : Bool} {node : Node Span}
      (h : Derives ts (.expression greedy 1 node)) (hclose : close.kind = .rightParen) :
      Derives (ts ++ [close]) (.argumentTail [node])
  | nextArgument {ts us : List Token} {comma : Token} {greedy : Bool} {node : Node Span}
      {nodes : List (Node Span)} (h : Derives ts (.expression greedy 1 node))
      (hcomma : comma.kind = .comma) (hmore : Derives us (.argumentTail nodes)) :
      Derives (ts ++ comma :: us) (.argumentTail (node :: nodes))
  -- bodies
  | emptyBlock {brace close : Token} {ls : List Token} (hbrace : brace.kind = .leftBrace)
      (hlines : Newlines ls) (hclose : close.kind = .rightBrace) :
      Derives (brace :: (ls ++ [close])) (.block [])
  | someBlock {brace close : Token} {ls ts us : List Token} {greedy : Bool} {node : Node Span}
      {nodes : List (Node Span)} (hbrace : brace.kind = .leftBrace) (hlines : Newlines ls)
      (h : Derives ts (.statement greedy node)) (hmore : Derives us (.blockTail nodes))
      (hclose : close.kind = .rightBrace) :
      Derives (brace :: (ls ++ ts ++ us ++ [close])) (.block (node :: nodes))
  | blockEnd {ls : List Token} (hlines : Newlines ls) : Derives ls (.blockTail [])
  | blockNext {ls ts us : List Token} {greedy : Bool} {node : Node Span}
      {nodes : List (Node Span)} (hlines : Newlines ls) (hsome : ls ≠ [])
      (h : Derives ts (.statement greedy node))
      (hmore : Derives us (.blockTail nodes)) :
      Derives (ls ++ ts ++ us) (.blockTail (node :: nodes))
  -- scripts
  | noLine : Derives [] (.lines [])
  | lastLine {ts : List Token} {greedy : Bool} {node : Node Span}
      (h : Derives ts (.statement greedy node)) : Derives ts (.lines [node])
  | nextLine {ls ts us : List Token} {greedy : Bool} {node : Node Span}
      {nodes : List (Node Span)} (h : Derives ts (.statement greedy node))
      (hlines : Newlines ls) (hsome : ls ≠ []) (hmore : Derives us (.lines nodes)) :
      Derives (ts ++ ls ++ us) (.lines (node :: nodes))

/-- A phrase that takes at least one token. -/
def Phrase.IsProper : Phrase → Prop
  | blockTail _ => False
  | lines _ => False
  | _ => True

/-- A proper phrase takes at least one token. -/
theorem Derives.ne_nil {ts : List Token} {phrase : Phrase} (h : Derives ts phrase)
    (hphrase : phrase.IsProper) : ts ≠ [] := by
  induction h with
  | plain _ ih => exact ih trivial
  | operand _ _ ih => exact ih trivial
  | someArguments _ ih => exact ih trivial
  | blockEnd _ => exact hphrase.elim
  | blockNext _ _ _ _ => exact hphrase.elim
  | noLine => exact hphrase.elim
  | lastLine _ => exact hphrase.elim
  | nextLine _ _ _ _ => exact hphrase.elim
  | _ => simp

/-! ## Spans of tokens -/

/-- A span from the start of one of the tokens to the end of the same or a later one. -/
def SpanOf (ts : List Token) (span : Span) : Prop :=
  ∃ us first mid vs, ts = us ++ first :: (mid ++ vs) ∧ span = first.cover mid

theorem getLastD_append_cons {β : Type} (xs ys : List β) (a y : β) :
    (xs ++ y :: ys).getLastD a = ys.getLastD y := by
  induction xs generalizing a with
  | nil => rw [List.nil_append, List.getLastD_cons]
  | cons x xs ih => rw [List.cons_append, List.getLastD_cons, ih]

namespace SpanOf

variable {ts us vs : List Token} {s t : Span}

/-- The span over all of some tokens is one of their spans. -/
theorem cover (first : Token) (rest : List Token) :
    SpanOf (first :: rest) (first.cover rest) :=
  ⟨[], first, rest, [], by simp, rfl⟩

theorem token (t : Token) : SpanOf [t] t.span := cover t []

/-- A span of some tokens is a span of any longer list. -/
theorem mono (h : SpanOf us s) (hus : us <:+: ts) : SpanOf ts s := by
  obtain ⟨as, first, mid, bs, rfl, rfl⟩ := h
  obtain ⟨cs, ds, rfl⟩ := hus
  exact ⟨cs ++ as, first, mid, bs ++ ds, by simp, rfl⟩

/-- The span of each token is one of the spans of the list. -/
theorem of_mem {t : Token} (ht : t ∈ ts) : SpanOf ts t.span := by
  obtain ⟨as, bs, rfl⟩ := List.append_of_mem ht
  exact (token t).mono ⟨as, bs, by simp⟩

/-- From a span of the first tokens to one of the others. -/
theorem merge (hs : SpanOf us s) (ht : SpanOf vs t) : SpanOf (us ++ vs) (s.merge t) := by
  obtain ⟨as, first, mid, bs, rfl, rfl⟩ := hs
  obtain ⟨cs, first', mid', ds, rfl, rfl⟩ := ht
  refine ⟨as, first, mid ++ bs ++ cs ++ first' :: mid', ds, by simp, ?_⟩
  unfold Token.cover
  rw [getLastD_append_cons]
  rfl

end SpanOf

/-! ## What a phrase holds -/

/-- The statements or expressions of a phrase. -/
def Phrase.nodes : Phrase → List (Node Span)
  | statement _ node => [node]
  | expression _ _ node => [node]
  | atom _ node => [node]
  | argumentTail nodes => nodes
  | arguments nodes => nodes
  | block nodes => nodes
  | blockTail nodes => nodes
  | lines nodes => nodes

/-- Whether a node may be an operand or an argument: it is no declaration, no function and no
raw command. -/
def Node.isOperand {α : Type} : Node α → Bool
  | declare _ _ _ => false
  | define _ _ _ _ => false
  | function _ _ _ _ _ => false
  | raw _ _ => false
  | _ => true

/-- Where the grammar asks for expressions there are only operands. -/
def Phrase.Operands : Phrase → Prop
  | expression _ _ node => node.isOperand = true
  | atom _ node => node.isOperand = true
  | argumentTail nodes => ∀ node ∈ nodes, node.isOperand = true
  | arguments nodes => ∀ node ∈ nodes, node.isOperand = true
  | _ => True

/-- What stands in an expression or among the arguments of a call is an operand. -/
theorem Derives.operands {ts : List Token} {phrase : Phrase} (h : Derives ts phrase) :
    phrase.Operands := by
  induction h with
  | operand _ _ ih => exact ih
  | group _ _ _ ih => exact ih
  | noArguments _ => exact fun node hnode => by cases hnode
  | someArguments _ ih => exact ih
  | lastArgument _ _ ih => exact List.forall_mem_singleton.2 ih
  | nextArgument _ _ _ ih₁ ih₂ => exact List.forall_mem_cons.2 ⟨ih₁, ih₂⟩
  | binary => rfl
  | integer => rfl
  | negative => rfl
  | negate => rfl
  | string => rfl
  | access => rfl
  | assign => rfl
  | call => rfl
  | _ => trivial

/-- A name that one of the tokens spells. -/
def Spells (ts : List Token) (name : String) : Prop :=
  ∃ t ∈ ts, t.kind = .identifier ∧ t.lexeme = name

/-- An integer that one of the tokens spells, perhaps behind a minus. -/
def SpellsInteger (ts : List Token) (n : Int) : Prop :=
  ∃ t ∈ ts, t.kind = .integer n ∨ t.kind = .integer (-n)

/-- What the grammar requires of the names, the literals and the operands of a node. Zero is
also the left operand of a minus that stands before no integer. -/
def Node.Spelled (ts : List Token) : Node Span → Prop
  | declare name type _ => Spells ts name ∧ ∃ t, type = some t ∧ Spells ts t
  | define name type _ _ => Spells ts name ∧ ∀ t ∈ type, Spells ts t
  | assign name _ _ => Spells ts name
  | function name parameters result _ _ => Spells ts name ∧ (∀ t ∈ result, Spells ts t)
      ∧ ∀ p ∈ parameters, Spells ts p.name ∧ Spells ts p.type ∧ SpanOf ts p.mark
  | call name arguments _ => Spells ts name ∧ ∀ node ∈ arguments, node.isOperand = true
  | binary _ left right _ => left.isOperand = true ∧ right.isOperand = true
  | integer n _ => n = 0 ∨ SpellsInteger ts n
  | access name _ => Spells ts name
  | _ => True

/-- A name that some tokens spell is spelled by any longer list. -/
theorem Spells.mono {ts us : List Token} {name : String} (h : Spells us name)
    (hus : us <:+: ts) : Spells ts name := by
  obtain ⟨t, ht, hkind, hlexeme⟩ := h
  exact ⟨t, hus.subset ht, hkind, hlexeme⟩

theorem Spells.of_mem {ts : List Token} {t : Token} (ht : t ∈ ts)
    (hkind : t.kind = .identifier) : Spells ts t.lexeme := ⟨t, ht, hkind, rfl⟩

/-- What some tokens spell of a node is spelled by any longer list. -/
theorem Node.Spelled.mono {ts us : List Token} {node : Node Span} (h : node.Spelled us)
    (hus : us <:+: ts) : node.Spelled ts := by
  cases node with
  | declare name type m =>
    obtain ⟨hname, t, rfl, ht⟩ := h
    exact ⟨hname.mono hus, t, rfl, ht.mono hus⟩
  | define name type value m => exact ⟨h.1.mono hus, fun t ht => (h.2 t ht).mono hus⟩
  | assign name value m => exact Spells.mono h hus
  | function name parameters result body m =>
    refine ⟨h.1.mono hus, fun t ht => (h.2.1 t ht).mono hus, fun p hp => ?_⟩
    obtain ⟨hname, htype, hmark⟩ := h.2.2 p hp
    exact ⟨hname.mono hus, htype.mono hus, hmark.mono hus⟩
  | call name arguments m => exact ⟨h.1.mono hus, h.2⟩
  | integer n m => exact h.imp_right fun ⟨t, ht, hkind⟩ => ⟨t, hus.subset ht, hkind⟩
  | access name m => exact Spells.mono h hus
  | _ => exact h

/-- A type behind a colon is spelled by its tokens. -/
theorem TypeTail.spells {ts : List Token} {type : Option String} (h : TypeTail ts type) :
    ∀ t ∈ type, Spells ts t := by
  cases h with
  | none => intro t ht; cases ht
  | some hcolon htype =>
    intro t ht
    obtain rfl := Option.mem_some_iff.1 ht
    exact .of_mem (by simp) htype

/-- Parameters up to the closing parenthesis have their names, types and marks from the tokens.
-/
theorem ParameterTail.spelled {ts : List Token} {ps : List (Parameter Span)}
    (h : ParameterTail ts ps) :
    ∀ p ∈ ps, Spells ts p.name ∧ Spells ts p.type ∧ SpanOf ts p.mark := by
  induction h with
  | @last name colon type close hname hcolon htype hclose =>
    rw [List.forall_mem_singleton]
    refine ⟨.of_mem (by simp) hname, .of_mem (by simp) htype, ?_⟩
    exact (SpanOf.cover name [colon, type]).mono ⟨[], [close], by simp⟩
  | @more name colon type comma ts ps hname hcolon htype hcomma hmore ih =>
    rw [List.forall_mem_cons]
    refine ⟨⟨.of_mem (by simp) hname, .of_mem (by simp) htype, ?_⟩, fun p hp => ?_⟩
    · exact (SpanOf.cover name [colon, type]).mono ⟨[], comma :: ts, by simp⟩
    · have hts : ts <:+: name :: colon :: type :: comma :: ts :=
        ⟨[name, colon, type, comma], [], by simp⟩
      obtain ⟨h₁, h₂, h₃⟩ := ih p hp
      exact ⟨h₁.mono hts, h₂.mono hts, h₃.mono hts⟩

/-- The parameters of a function have their names, types and marks from the tokens. -/
theorem ParameterList.spelled {ts : List Token} {ps : List (Parameter Span)}
    (h : ParameterList ts ps) :
    ∀ p ∈ ps, Spells ts p.name ∧ Spells ts p.type ∧ SpanOf ts p.mark := by
  cases h with
  | none hclose => intro p hp; cases hp
  | some h => exact h.spelled

/-- What tokens are known to spell: every node, at any depth, has a span of tokens, and its
names and operands are as the grammar requires. -/
def Sound (ts : List Token) (nodes : List (Node Span)) : Prop :=
  ∀ x ∈ Node.trees nodes, SpanOf ts x.mark ∧ x.Spelled ts

namespace Sound

variable {ts us : List Token} {nodes more : List (Node Span)} {node : Node Span}

theorem mono (h : Sound us nodes) (hus : us <:+: ts) : Sound ts nodes :=
  fun x hx => ⟨(h x hx).1.mono hus, (h x hx).2.mono hus⟩

theorem nil : Sound ts [] := fun x hx => by cases hx

theorem append (h : Sound ts nodes) (hmore : Sound ts more) : Sound ts (nodes ++ more) := by
  intro x hx
  obtain ⟨node, hnode, hx⟩ := Node.mem_trees.1 hx
  rcases List.mem_append.1 hnode with hnode | hnode
  · exact h x (Node.mem_trees.2 ⟨node, hnode, hx⟩)
  · exact hmore x (Node.mem_trees.2 ⟨node, hnode, hx⟩)

/-- A node whose children are known. -/
theorem of_children (hmark : SpanOf ts node.mark) (hspelled : node.Spelled ts)
    (h : Sound ts node.children) : Sound ts [node] := by
  intro x hx
  obtain ⟨n, hn, hxn⟩ := Node.mem_trees.1 hx
  obtain rfl := List.mem_singleton.1 hn
  rw [Node.tree_eq] at hxn
  rcases List.mem_cons.1 hxn with rfl | hchild
  · exact ⟨hmark, hspelled⟩
  · exact h x hchild

/-- The mark of a node is a span of the tokens it is read from. -/
theorem mark (h : Sound ts [node]) : SpanOf ts node.mark :=
  (h node (Node.mem_trees.2 ⟨node, List.mem_singleton_self _, node.self_mem_tree⟩)).1

end Sound

/-- Every node of a derived phrase is as the grammar requires. -/
theorem Derives.sound {ts : List Token} {phrase : Phrase} (h : Derives ts phrase) :
    Sound ts phrase.nodes := by
  induction h with
  | plain _ ih => exact ih
  | @declare opening name colon type hopening hname hcolon htype =>
    refine .of_children (SpanOf.cover _ _) ⟨.of_mem (by simp) hname, _, rfl, ?_⟩ .nil
    exact .of_mem (by simp) htype
  | @define opening name equals typing ts type greedy value hopening hname htype hequals hvalue
      ih =>
    refine .of_children (SpanOf.cover _ _) ⟨.of_mem (by simp) hname, fun t ht => ?_⟩ ?_
    · exact (htype.spells t ht).mono ⟨[opening, name], equals :: ts, by simp⟩
    · exact ih.mono ⟨opening :: name :: (typing ++ [equals]), [], by simp⟩
  | @function opening name paren params typing ts parameters result body hopening hname hparen
      hparams htype hbody ih =>
    refine .of_children (SpanOf.cover _ _)
      ⟨.of_mem (by simp) hname, fun t ht => ?_, fun p hp => ?_⟩ ?_
    · exact (htype.spells t ht).mono ⟨opening :: name :: paren :: params, ts, by simp⟩
    · have hus : params <:+: opening :: name :: paren :: (params ++ typing ++ ts) :=
        ⟨[opening, name, paren], typing ++ ts, by simp⟩
      obtain ⟨h₁, h₂, h₃⟩ := hparams.spelled p hp
      exact ⟨h₁.mono hus, h₂.mono hus, h₃.mono hus⟩
    · exact ih.mono ⟨opening :: name :: paren :: (params ++ typing), [], by simp⟩
  | @raw opening ts greedy text span hopening htext ih =>
    exact .of_children ((SpanOf.token opening).merge ih.mark) trivial .nil
  | operand _ _ ih => exact ih
  | @binary ts us sign op left right greedy least hleft hsign hright hleast ih₁ ih₂ =>
    have hts : ts <:+: ts ++ sign :: us := ⟨[], sign :: us, by simp⟩
    have hus : us <:+: ts ++ sign :: us := ⟨ts ++ [sign], [], by simp⟩
    have hmark : SpanOf (ts ++ sign :: us) (left.mark.merge right.mark) :=
      ih₁.mark.merge (ih₂.mark.mono ⟨[sign], [], by simp⟩)
    exact .of_children hmark ⟨hleft.operands, hright.operands⟩
      ((ih₁.mono hts).append (ih₂.mono hus))
  | @integer t n h =>
    exact .of_children (SpanOf.token _) (.inr ⟨t, List.mem_cons_self, .inl h⟩) .nil
  | @negative sign t n hsign h =>
    refine .of_children (SpanOf.cover sign [t]) (.inr ⟨t, by simp, .inr ?_⟩) .nil
    rw [h, Int.neg_neg]
  | @negate sign ts greedy node hsign h hfirst ih =>
    -- the zero that is negated from is in no token, and has the span of the sign
    have hzero : Sound (sign :: ts) [.integer 0 sign.span] :=
      .of_children (.of_mem List.mem_cons_self) (.inl rfl) .nil
    have hmark : SpanOf (sign :: ts) (sign.span.merge node.mark) :=
      (SpanOf.token sign).merge ih.mark
    exact .of_children hmark ⟨rfl, h.operands⟩
      (hzero.append (ih.mono ⟨[sign], [], by simp⟩))
  | string _ => exact .of_children (SpanOf.token _) trivial .nil
  | access h => exact .of_children (SpanOf.token _) (.of_mem (by simp) h) .nil
  | @assign name equals ts greedy value hname hequals hvalue ih =>
    have hmark : SpanOf (name :: equals :: ts) (name.span.merge value.mark) :=
      (SpanOf.token name).merge (ih.mark.mono ⟨[equals], [], by simp⟩)
    exact .of_children hmark (.of_mem (by simp) hname)
      (ih.mono ⟨[name, equals], [], by simp⟩)
  | @call name paren ts nodes hname hparen harguments ih =>
    exact .of_children (SpanOf.cover _ _) ⟨.of_mem (by simp) hname, harguments.operands⟩
      (ih.mono ⟨[name, paren], [], by simp⟩)
  | @group paren close ts greedy node hparen h hclose ih =>
    exact ih.mono ⟨[paren], [close], by simp⟩
  | noArguments _ => exact .nil
  | someArguments _ ih => exact ih
  | @lastArgument ts close greedy node h hclose ih => exact ih.mono ⟨[], [close], by simp⟩
  | @nextArgument ts us comma greedy node nodes h hcomma hmore ih₁ ih₂ =>
    exact (ih₁.mono ⟨[], comma :: us, by simp⟩).append (ih₂.mono ⟨ts ++ [comma], [], by simp⟩)
  | emptyBlock _ _ _ => exact .nil
  | @someBlock brace close ls ts us greedy node nodes hbrace hlines h hmore hclose ih₁ ih₂ =>
    exact (ih₁.mono ⟨brace :: ls, us ++ [close], by simp⟩).append
      (ih₂.mono ⟨brace :: (ls ++ ts), [close], by simp⟩)
  | blockEnd _ => exact .nil
  | @blockNext ls ts us greedy node nodes hlines hsome h hmore ih₁ ih₂ =>
    exact (ih₁.mono ⟨ls, us, by simp⟩).append (ih₂.mono ⟨ls ++ ts, [], by simp⟩)
  | noLine => exact .nil
  | lastLine _ ih => exact ih
  | @nextLine ls ts us greedy node nodes h hlines hsome hmore ih₁ ih₂ =>
    exact (ih₁.mono ⟨[], ls ++ us, by simp⟩).append (ih₂.mono ⟨ts ++ ls, [], by simp⟩)

end Scoreboard
