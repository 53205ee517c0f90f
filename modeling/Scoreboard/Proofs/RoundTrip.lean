import Mathlib
import Scoreboard.Compilation
import Scoreboard.Proofs.Printer
import Scoreboard.Proofs.ReadingAhead
import Scoreboard.Proofs.Steps
import Scoreboard.Proofs.Tokens

/-!
# Reading what was printed

A script that is printed and read again is the same script up to its marks, if it has the
shape of the scripts that are read (`Source.parse_print`). What is printed for a node is read
back in two ways (`Node.ReadsBack`): as a statement, and, if the node may be an operand, by a
climb. A climb over a node does not end behind it, so what is said of it is that it comes to
the same as going on there with the node already read (`Node.Climbs`).
-/

namespace Scoreboard

/-! ## Nodes -/

namespace Node

open Scoreboard.Parser

variable {α : Type} {c c' : Cursor} {node : Node α}

/-- How tightly a node holds together: a climb takes it whole, if it asks for no more. -/
def strength : Node α → Nat
  | binary op _ _ _ => op.precedence
  | _ => 3

/-- Operators that bind at least this tightly must not stand behind a node: they would be
taken into it. -/
def follow : Node α → Nat
  | binary op _ _ _ => op.precedence + 1
  | assign _ _ _ => 1
  | _ => 3

/-- A climb over a node comes to the same as going on behind it with the node already
read. -/
def Climbs (strength : Nat) (node : Node α) (c c' : Cursor) : Prop :=
  ∃ x : Node Span, x.erase = node.erase ∧ ∀ least ≤ strength, ∀ y c'',
    Gives (climbRest · least x) 1 c' y c'' → Gives (climb · least) 2 c y c''

/-- What is printed for a node is read as the node, up to marks. -/
structure ReadsBack (node : Node α) : Prop where
  statement : ∀ {c c' : Cursor}, c.Ahead node.pieces c' → Stops 1 c' →
    ∃ x : Node Span, x.erase = node.erase ∧ Gives statement 3 c x c'
  climb : node.isOperand = true → ∀ {c c' : Cursor}, c.Ahead node.pieces c' →
    Stops node.follow c' → Climbs node.strength node c c'

/-- A climb over a node may ask for less. -/
theorem Climbs.mono {s s' : Nat} (h : Climbs s node c c') (hle : s' ≤ s) :
    Climbs s' node c c' := by
  obtain ⟨x, hx, hclimb⟩ := h
  exact ⟨x, hx, fun least hleast => hclimb least (Nat.le_trans hleast hle)⟩

/-- A climb that asks for no more ends behind the node, if nothing goes on with it. -/
theorem Climbs.gives {s least : Nat} (h : Climbs s node c c') (hleast : least ≤ s)
    (hstops : Stops least c') :
    ∃ x : Node Span, x.erase = node.erase ∧ Gives (Parser.climb · least) 2 c x c' := by
  obtain ⟨x, hx, hclimb⟩ := h
  exact ⟨x, hx, hclimb least hleast x c' (climbRest_stops hstops)⟩

/-- A node that is read as the smallest part of an expression is climbed over at any strength.
-/
theorem climbs_of_atom {s : Nat} {x : Node Span} (hx : x.erase = node.erase)
    (hatom : Gives atom 1 c x c') (hle : c'.remaining ≤ c.remaining) : Climbs s node c c' :=
  ⟨x, hx, fun _ _ _ _ hrest => climb_atom hatom hle hrest⟩

theorem one_le_strength (node : Node α) : 1 ≤ node.strength := by
  cases node with
  | binary op left right m => cases op <;> simp [strength, Operator.precedence]
  | _ => simp [strength]

theorem one_le_follow (node : Node α) : 1 ≤ node.follow := by
  cases node <;> simp [follow]

/-- An operand is a statement where nothing goes on with it. -/
theorem ReadsBack.of_climb
    (h : ∀ {c c' : Cursor}, c.Ahead node.pieces c' → Stops node.follow c' →
      Climbs node.strength node c c') : ReadsBack node := by
  refine ⟨fun hahead hstops => ?_, fun _ _ _ => h⟩
  have hclimbs := h hahead (hstops.mono node.one_le_follow)
  obtain ⟨x, hx, hgives⟩ := hclimbs.gives node.one_le_strength hstops
  exact ⟨x, hx, statement_climb hgives⟩

/-- A node that is no operand only has to be read as a statement. -/
theorem ReadsBack.of_statement (hnot : node.isOperand = false)
    (h : ∀ {c c' : Cursor}, c.Ahead node.pieces c' → Stops 1 c' →
      ∃ x : Node Span, x.erase = node.erase ∧ Gives Parser.statement 3 c x c') :
    ReadsBack node := by
  refine ⟨h, fun hop => ?_⟩
  rw [hnot] at hop
  cases hop

/-! ### Operations -/

theorem precedence_lt_three (op : Operator) : op.precedence < 3 := by
  cases op <;> simp [Operator.precedence]

/-- An operator that may stand behind an operand without parentheses is not taken into it. -/
theorem stops_follow {k : Nat} (hnot : node.needsParentheses k = false) (h : Stops (k + 1) c) :
    Stops node.follow c := by
  cases node with
  | binary op left right m =>
    have hk : ¬ op.precedence < k := of_decide_eq_false hnot
    exact h.mono (by rw [follow]; omega)
  | assign name value m => cases hnot
  | _ => exact ⟨h.legal, h.assign, h.leftParen, fun op _ => precedence_lt_three op⟩

/-- An operand that needs no parentheses at a strength holds together at least that tightly. -/
theorem le_strength {k : Nat} (hk : k ≤ 3) (hnot : node.needsParentheses k = false) :
    k ≤ node.strength := by
  cases node with
  | binary op left right m =>
    have hk : ¬ op.precedence < k := of_decide_eq_false hnot
    rw [strength]
    omega
  | _ => exact hk

/-- An operand, in parentheses where it needs them. -/
theorem ReadsBack.grouped (h : ReadsBack node) (hop : node.isOperand = true) {k : Nat}
    (hk : k ≤ 3) (hahead : c.Ahead (Piece.grouped (node.needsParentheses k) node.pieces) c')
    (hstops : Stops (k + 1) c') : Climbs k node c c' := by
  cases hneeds : node.needsParentheses k with
  | false =>
    rw [hneeds] at hahead
    exact (h.climb hop hahead (stops_follow hneeds hstops)).mono (le_strength hk hneeds)
  | true =>
    rw [hneeds] at hahead
    obtain ⟨hopen, -, hrest⟩ := hahead.take rfl
    obtain ⟨c₁, hinner, hclose⟩ := hrest.split
    obtain ⟨hclose, -, hdone⟩ := hclose.take rfl
    have hstop : ∀ least, Stops least c₁ := fun least =>
      stops_of_isStop (by rw [hclose.eq_kind]; rfl)
    -- inside the parentheses everything is taken
    obtain ⟨x, hx, hgives⟩ := (h.climb hop hinner (hstop _)).gives node.one_le_strength (hstop 1)
    have hle := hinner.remaining_le
    have hremaining := hopen.remaining
    have hremaining' := hclose.remaining
    rw [hdone.done]
    exact climbs_of_atom hx (atom_group hopen hgives hclose) (by omega)

/-- An operation is read back if its operands are. -/
theorem readsBack_binary {op : Operator} {left right : Node α} {m : α} (hleft : ReadsBack left)
    (hright : ReadsBack right) (hops : (left.isOperand && right.isOperand) = true) :
    ReadsBack (binary op left right m) := by
  obtain ⟨hl, hr⟩ := Bool.and_eq_true_iff.1 hops
  have hop := precedence_lt_three op
  refine .of_climb fun {c c'} hahead hstops => ?_
  rw [pieces] at hahead
  obtain ⟨c₁, hfirst, hrest⟩ := hahead.split
  have hsign : (Piece.sign op.sign).kind? = some (.operator op) := by cases op <;> rfl
  obtain ⟨hat, -, hrest⟩ := (hrest.skip rfl).take hsign
  have hsecond := hrest.skip rfl
  have hstops₁ : Stops (op.precedence + 1) c₁ := stops_operator hat (Nat.lt_succ_self _)
  have hstops₂ : Stops (op.precedence + 1) c' := hstops
  obtain ⟨x, hx, hclimb⟩ := hleft.grouped hl (by omega) hfirst hstops₁
  obtain ⟨y, hy, hgives⟩ := (hright.grouped hr (by omega) hsecond
    (hstops₂.mono (Nat.le_succ _))).gives (Nat.le_refl _) hstops₂
  refine ⟨.binary op x y (x.mark.merge y.mark), ?_, fun least hleast z c'' hz => ?_⟩
  · simp only [erase, mapMark] at hx hy ⊢
    rw [hx, hy]
  -- the climb goes on behind the left operand, takes the operator and the right operand
  exact hclimb least hleast z c'' (climbRest_operator hat hleast hgives hsecond.remaining_le hz)

/-! ### Other expressions -/

/-- An integer is read back, a negative one from its minus and its digits. -/
theorem readsBack_integer (value : Int) (m : α) : ReadsBack (integer value m) := by
  refine .of_climb fun {c c'} hahead _ => ?_
  rw [pieces] at hahead
  split at hahead
  · rename_i hneg
    obtain ⟨hminus, -, hrest⟩ := hahead.take rfl
    obtain ⟨hat, -, hdone⟩ := hrest.take rfl
    have hvalue : -Int.ofNat value.natAbs = value := by
      rw [Int.ofNat_eq_natCast]
      omega
    have hremaining := hminus.remaining
    have hremaining' := hat.remaining
    rw [hdone.done]
    refine climbs_of_atom ?_ (atom_negative hminus hat) (by omega)
    rw [hvalue]
    rfl
  · obtain ⟨hat, -, hdone⟩ := hahead.take rfl
    have hvalue : Int.ofNat value.natAbs = value := by
      rw [Int.ofNat_eq_natCast]
      omega
    have hremaining := hat.remaining
    rw [hdone.done]
    refine climbs_of_atom ?_ (atom_integer hat) (by omega)
    rw [hvalue]
    rfl

/-- A text in quotes is read back. -/
theorem readsBack_string (value : String) (m : α) : ReadsBack (string value m) := by
  refine .of_climb fun {c c'} hahead _ => ?_
  obtain ⟨hat, -, hdone⟩ := hahead.take rfl
  have hremaining := hat.remaining
  rw [hdone.done]
  exact climbs_of_atom rfl (atom_string hat) (by omega)

/-- A variable is read back. -/
theorem readsBack_access {name : String} {m : α} (hname : isName name = true) :
    ReadsBack (access name m) := by
  refine .of_climb fun {c c'} hahead hstops => ?_
  obtain ⟨hat, hlexeme, hdone⟩ := hahead.takeName hname
  have hremaining := hat.remaining
  rw [hdone.done] at hstops ⊢
  refine climbs_of_atom ?_ (atom_name hat (nameRest_access hstops)) (by omega)
  rw [hlexeme]
  rfl

/-- An assignment is read back if its value is. -/
theorem readsBack_assign {name : String} {value : Node α} {m : α} (hname : isName name = true)
    (hvalue : ReadsBack value) : ReadsBack (assign name value m) := by
  refine .of_climb fun {c c'} hahead hstops => ?_
  rw [pieces] at hahead
  obtain ⟨hat, hlexeme, hrest⟩ := hahead.takeName hname
  obtain ⟨hassign, -, hrest⟩ := (hrest.skip rfl).take rfl
  obtain ⟨x, hx, hgives⟩ := hvalue.statement (hrest.skip rfl) hstops
  refine climbs_of_atom ?_ (atom_name hat (nameRest_assign hassign hgives)) hahead.remaining_le
  rw [hlexeme]
  simp only [erase, mapMark] at hx ⊢
  rw [hx]

theorem erase_call {name : String} {arguments : List (Node α)} {m : α} :
    (call name arguments m).erase
      = call name (arguments.map erase) () :=
  mapMark_call ..

theorem erase_function {name : String} {parameters : List (Parameter α)} {result : Option String}
    {body : List (Node α)} {m : α} :
    (function name parameters result body m).erase
      = function name (parameters.map Parameter.erase) result (body.map erase) () :=
  mapMark_function ..

/-- Arguments that are read back one by one are read back between commas. -/
theorem moreArguments_ahead {arguments : List (Node α)} (hne : arguments ≠ [])
    (hops : ∀ a ∈ arguments, a.isOperand = true) (hback : ∀ a ∈ arguments, ReadsBack a)
    (h : c.Ahead (Piece.commas (piecesAll arguments) ++ [.sign ')']) c') :
    ∃ xs : List (Node Span), xs.map erase = arguments.map erase
      ∧ Gives moreArguments 3 c xs c' := by
  induction arguments generalizing c with
  | nil => exact (hne rfl).elim
  | cons a arguments ih =>
    obtain ⟨c₁, hfirst, hrest⟩ := h.takeItem
    have hread : c₁.current.kind.isStop = true → ∃ x : Node Span, x.erase = a.erase
        ∧ Gives (Parser.climb · 1) 2 c x c₁ := fun hstop =>
      ((hback a List.mem_cons_self).climb (hops a List.mem_cons_self) hfirst
        (stops_of_isStop hstop)).gives a.one_le_strength (stops_of_isStop hstop)
    obtain ⟨hnil, hclose⟩ | ⟨hcons, hcomma, hmore⟩ := hrest
    · -- the last argument
      obtain ⟨hclose, -, hdone⟩ := hclose.take rfl
      obtain ⟨x, hx, hgives⟩ := hread (by rw [hclose.eq_kind]; rfl)
      have hnone : arguments = [] := by
        rw [piecesAll_eq_map] at hnil
        exact List.map_eq_nil_iff.1 hnil
      rw [hdone.done]
      exact ⟨[x], by rw [hnone]; simp [hx], moreArguments_last hgives hclose⟩
    · obtain ⟨x, hx, hgives⟩ := hread (by rw [hcomma.eq_kind]; rfl)
      have hne : arguments ≠ [] := fun heq => hcons (by rw [heq]; rfl)
      obtain ⟨xs, hxs, hgives'⟩ := ih hne (fun b hb => hops b (List.mem_cons_of_mem a hb))
        (fun b hb => hback b (List.mem_cons_of_mem a hb)) hmore
      exact ⟨x :: xs, by simp [hx, hxs],
        moreArguments_next hgives hfirst.remaining_le hcomma hgives'⟩

/-- The arguments of a call are read back, also if there are none. -/
theorem arguments_ahead {arguments : List (Node α)}
    (hops : ∀ a ∈ arguments, a.isOperand = true) (hback : ∀ a ∈ arguments, ReadsBack a)
    (h : c.Ahead (Piece.commas (piecesAll arguments) ++ [.sign ')']) c') :
    ∃ xs : List (Node Span), xs.map erase = arguments.map erase
      ∧ Gives Parser.arguments 4 c xs c' := by
  cases arguments with
  | nil =>
    obtain ⟨hclose, -, hdone⟩ := h.take rfl
    rw [hdone.done]
    exact ⟨[], rfl, arguments_none hclose⟩
  | cons a rest =>
    obtain ⟨xs, hxs, hgives⟩ := moreArguments_ahead (List.cons_ne_nil a rest) hops hback h
    exact ⟨xs, hxs, arguments_some hgives⟩

/-- A call is read back if its arguments are. -/
theorem readsBack_call {name : String} {arguments : List (Node α)} {m : α}
    (hname : isName name = true) (hops : ∀ a ∈ arguments, a.isOperand = true)
    (hback : ∀ a ∈ arguments, ReadsBack a) : ReadsBack (call name arguments m) := by
  refine .of_climb fun {c c'} hahead _ => ?_
  rw [pieces] at hahead
  obtain ⟨hat, hlexeme, hrest⟩ := hahead.takeName hname
  obtain ⟨hopen, -, hrest⟩ := hrest.take rfl
  obtain ⟨xs, hxs, hgives⟩ := arguments_ahead hops hback hrest
  refine climbs_of_atom ?_ (atom_name hat (nameRest_call hopen hgives)) hahead.remaining_le
  rw [hlexeme, erase_call, erase_call, hxs]

/-! ### Declarations -/

/-- A declaration without a value is read back. -/
theorem readsBack_declare {name type : String} {m : α} (hname : isName name = true)
    (htype : isName type = true) : ReadsBack (declare name (some type) m) := by
  refine .of_statement rfl fun {c c'} hahead hstops => ?_
  rw [pieces] at hahead
  obtain ⟨hat, hrest⟩ := hahead.takeKeyword
  obtain ⟨hat', hlexeme, hrest⟩ := (hrest.skip rfl).takeName hname
  obtain ⟨hcolon, -, hrest⟩ := hrest.take rfl
  obtain ⟨hat'', hlexeme', hdone⟩ := (hrest.skip rfl).takeName htype
  have hread : typeAfterColon .variable c.advance.advance = .ok (some type) c' := by
    rw [typeAfterColon_at hcolon hat'', hlexeme', hdone.done]
  refine ⟨_, ?_, statement_declare hat hat' hread hstops⟩
  rw [hlexeme]
  rfl

/-- A definition is read back if its value is. -/
theorem readsBack_define {name : String} {type : Option String} {value : Node α} {m : α}
    (hname : isName name = true) (htype : type.all isName = true) (hvalue : ReadsBack value) :
    ReadsBack (define name type value m) := by
  refine .of_statement rfl fun {c c'} hahead hstops => ?_
  rw [pieces] at hahead
  obtain ⟨hat, hrest⟩ := hahead.takeKeyword
  obtain ⟨hat', hlexeme, hrest⟩ := (hrest.skip rfl).takeName hname
  obtain ⟨c₁, hahead', hrest⟩ := hrest.split
  obtain ⟨hassign, -, hrest⟩ := (hrest.skip rfl).take rfl
  have hread : typeAfterColon .variable c.advance.advance = .ok type c₁ :=
    typeAfterColon_ahead hahead' htype (by rw [hassign.eq_kind]; simp) hassign.legal
  obtain ⟨x, hx, hgives⟩ := hvalue.statement (hrest.skip rfl) hstops
  have hle : c₁.remaining ≤ c.remaining := by
    have h₁ := hat.remaining
    have h₂ := hat'.remaining
    have h₃ := hahead'.remaining_le
    omega
  refine ⟨_, ?_, statement_define hat hat' hread hassign hle hgives⟩
  rw [hlexeme]
  simp only [erase, mapMark] at hx ⊢
  rw [hx]

theorem readsBack_raw (text : String) (m : α) : ReadsBack (raw text m) := by
  refine .of_statement rfl fun {c c'} hahead hstops => ?_
  rw [pieces] at hahead
  obtain ⟨hat, hrest⟩ := hahead.takeKeyword
  obtain ⟨hat', -, hdone⟩ := (hrest.skip rfl).take rfl
  rw [hdone.done] at hstops ⊢
  have hremaining := hat'.remaining
  have hclimb := climb_atom (atom_string hat') (by omega) (climbRest_stops hstops)
  exact ⟨_, rfl, statement_raw hat hclimb⟩

/-! ### Bodies -/

/-- A statement on a line of its own. -/
theorem ReadsBack.line {ps : List Piece} {c'' : Cursor} (h : ReadsBack node)
    (hahead : c.Ahead (node.pieces ++ .newline :: ps) c'') :
    ∃ x c', x.erase = node.erase ∧ Gives Parser.statement 3 c x c' ∧ c.Ahead node.pieces c'
      ∧ c'.Ahead (.newline :: ps) c'' := by
  obtain ⟨c', hfirst, hrest⟩ := hahead.split
  obtain ⟨hnewline, -, -⟩ := hrest.take rfl
  obtain ⟨x, hx, hgives⟩ := h.statement hfirst
    (stops_of_isStop (by rw [hnewline.eq_kind]; rfl))
  exact ⟨x, c', hx, hgives, hfirst, hrest⟩

/-- The statements of a body behind the first one. The last line is followed by no statement,
and the fault of reading one there is not reported. -/
theorem blockRest_ahead {body : List (Node α)} (hback : ∀ x ∈ body, ReadsBack x)
    (h : c.Ahead (.newline :: Piece.lines (piecesAll body)) c') (hclose : c'.At .rightBrace) :
    ∃ xs failed, xs.map erase = body.map erase ∧ Gives blockRest 1 c (xs, failed) c' := by
  induction body generalizing c with
  | nil =>
    obtain ⟨hnewline, -, hdone⟩ := h.take rfl
    have heq := hdone.done
    rw [heq] at hclose ⊢
    have hremaining := hnewline.remaining
    have hskip := skipNewlines_at hnewline (by rw [hclose.eq_kind]; simp) hclose.legal
    exact ⟨[], _, rfl, blockRest_last hskip Nat.one_ne_zero (by omega) hclose⟩
  | cons x body ih =>
    obtain ⟨hnewline, -, hrest⟩ := h.take rfl
    obtain ⟨y, c₁, hy, hgives, hfirst, hmore⟩ := (hback x List.mem_cons_self).line hrest
    obtain ⟨ys, failed, hys, hgives'⟩ := ih (fun z hz => hback z (List.mem_cons_of_mem x hz)) hmore
    obtain ⟨hnext, -, -, hlegal⟩ := ne_of_starts (starts_of_statement hgives)
    have hremaining := hnewline.remaining
    exact ⟨y :: ys, failed, by simp [hy, hys],
      blockRest_next (skipNewlines_at hnewline hnext hlegal) Nat.one_ne_zero (by omega) hgives
        hfirst.remaining_le hgives'⟩

/-- A body on lines of its own is read back if its statements are. -/
theorem block_ahead {body : List (Node α)} (hback : ∀ x ∈ body, ReadsBack x)
    (h : c.Ahead (.sign '\x7b' :: .newline
      :: (Piece.lines (piecesAll body) ++ [.sign '\x7d'])) c') :
    ∃ xs : List (Node Span), xs.map erase = body.map erase ∧ Gives block 1 c xs c' := by
  obtain ⟨hopen, -, hrest⟩ := h.take rfl
  obtain ⟨hnewline, -, hrest'⟩ := hrest.take rfl
  have hremaining := hnewline.remaining
  cases body with
  | nil =>
    obtain ⟨hclose, -, hdone⟩ := hrest'.take rfl
    have hskip := skipNewlines_at hnewline (by rw [hclose.eq_kind]; simp) hclose.legal
    rw [hdone.done]
    exact ⟨[], rfl, block_empty hopen hskip hclose⟩
  | cons x body =>
    rw [piecesAll, Piece.lines, List.append_assoc] at hrest'
    obtain ⟨y, c₁, hy, hgives, hfirst, hmore⟩ := (hback x List.mem_cons_self).line hrest'
    have hmore' : c₁.Ahead ((.newline :: Piece.lines (piecesAll body)) ++ [.sign '\x7d']) c' :=
      hmore
    obtain ⟨c₂, hlines, hclose⟩ := hmore'.split
    obtain ⟨hclose, -, hdone⟩ := hclose.take rfl
    obtain ⟨ys, failed, hys, hgives'⟩ :=
      blockRest_ahead (fun z hz => hback z (List.mem_cons_of_mem x hz)) hlines hclose
    obtain ⟨hnext, -, -, hlegal⟩ := ne_of_starts (starts_of_statement hgives)
    rw [hdone.done]
    exact ⟨y :: ys, by simp [hy, hys],
      block_some hopen (skipNewlines_at hnewline hnext hlegal) (by omega) hgives
        hfirst.remaining_le hgives' hclose⟩

/-- A function is read back if its statements are. -/
theorem readsBack_function {name : String} {parameters : List (Parameter α)}
    {result : Option String} {body : List (Node α)} {m : α} (hname : isName name = true)
    (hparameters : ∀ p ∈ parameters, (isName p.name && isName p.type) = true)
    (hresult : result.all isName = true) (hback : ∀ x ∈ body, ReadsBack x) :
    ReadsBack (function name parameters result body m) := by
  refine .of_statement rfl fun {c c'} hahead _ => ?_
  rw [pieces] at hahead
  obtain ⟨hat, hrest⟩ := hahead.takeKeyword
  obtain ⟨hat', hlexeme, hrest⟩ := (hrest.skip rfl).takeName hname
  obtain ⟨hopen, -, hrest⟩ := hrest.take rfl
  rw [← List.singleton_append (x := Piece.sign ')'), ← List.append_assoc] at hrest
  obtain ⟨c₁, hlist, hrest⟩ := hrest.split
  obtain ⟨c₂, htype, hbody⟩ := hrest.split
  have hbody := hbody.skip rfl
  obtain ⟨hbrace, -, -⟩ := hbody.take rfl
  obtain ⟨ps, hps, hgives⟩ := parameters_ahead hparameters hlist
  have hread : typeAfterColon .result c₁ = .ok result c₂ :=
    typeAfterColon_ahead htype hresult (by rw [hbrace.eq_kind]; simp) hbrace.legal
  obtain ⟨xs, hxs, hgives'⟩ := block_ahead hback hbody
  have hle : c₂.remaining < c.remaining := by
    have h₁ := hat.remaining
    have h₂ := hat'.remaining
    have h₃ := hopen.remaining
    have h₄ := hlist.remaining_le
    have h₅ := htype.remaining_le
    omega
  refine ⟨_, ?_, statement_function hat hat' hopen hgives hread hle hgives'⟩
  rw [hlexeme, erase_function, erase_function, hps, hxs]

/-- Every node of the shape that reading returns is read back from its pieces. -/
theorem readsBack (h : ∀ x ∈ node.tree, x.isReadable = true) : ReadsBack node := by
  induction node using Node.induction with
  | step node ih =>
    have hself := h node node.self_mem_tree
    have hchild : ∀ child ∈ node.children, ReadsBack child := fun child hmem =>
      ih child hmem fun x hx => h x (mem_tree_of_child hmem hx)
    cases node with
    | declare name type m =>
      obtain ⟨hname, htype⟩ := Bool.and_eq_true_iff.1 hself
      cases type with
      | none => cases htype
      | some t => exact readsBack_declare hname htype
    | define name type value m =>
      obtain ⟨hname, htype⟩ := Bool.and_eq_true_iff.1 hself
      exact readsBack_define hname htype (hchild value List.mem_cons_self)
    | assign name value m => exact readsBack_assign hself (hchild value List.mem_cons_self)
    | function name parameters result body m =>
      obtain ⟨hrest, hresult⟩ := Bool.and_eq_true_iff.1 hself
      obtain ⟨hname, hparameters⟩ := Bool.and_eq_true_iff.1 hrest
      exact readsBack_function hname (List.all_eq_true.1 hparameters) hresult hchild
    | call name arguments m =>
      obtain ⟨hname, hops⟩ := Bool.and_eq_true_iff.1 hself
      exact readsBack_call hname (List.all_eq_true.1 hops) hchild
    | raw text m => exact readsBack_raw text m
    | binary op left right m =>
      exact readsBack_binary (hchild left List.mem_cons_self)
        (hchild right (List.mem_cons_of_mem _ List.mem_cons_self)) hself
    | integer value m => exact readsBack_integer value m
    | string value m => exact readsBack_string value m
    | access name m => exact readsBack_access hself

/-! ## Scripts -/

/-- The statements of a script on lines of their own are read back up to the end of the text. -/
theorem statements_ahead {script : Script α} (hback : ∀ x ∈ script, ReadsBack x)
    (h : c.Ahead (Piece.lines (piecesAll script)) c') (hend : c'.current.kind = .endOfText) :
    c.current.kind ≠ .newline ∧ c.current.kind ≠ .illegal
      ∧ ∃ xs : Script Span, xs.map erase = script.map erase ∧ Gives statements 4 c xs c' := by
  induction script generalizing c with
  | nil =>
    have heq := h.done
    rw [heq] at hend ⊢
    exact ⟨by rw [hend]; simp, by rw [hend]; simp, [], rfl, statements_none hend⟩
  | cons node script ih =>
    obtain ⟨x, c₁, hx, hgives, hfirst, hrest⟩ := (hback node List.mem_cons_self).line h
    obtain ⟨hnewline, -, hrest⟩ := hrest.take rfl
    obtain ⟨hnext, hlegal, xs, hxs, hgives'⟩ :=
      ih (fun y hy => hback y (List.mem_cons_of_mem node hy)) hrest
    obtain ⟨hstart, -, -, hstart'⟩ := ne_of_starts (starts_of_statement hgives)
    have hremaining := hnewline.remaining
    exact ⟨hstart, hstart', x :: xs, by simp [hx, hxs],
      statements_next hgives hfirst.remaining_le hnewline.eq_kind
        (skipNewlines_at hnewline hnext hlegal) Nat.one_ne_zero (by omega) hgives'⟩

end Node

/-- The tokens of the pieces of a script are read as the script, up to marks. -/
theorem parse_lexed {α : Type} {script : Script α} {ts : List Token} {last : Token}
    (h : ∀ x ∈ Node.trees script, x.isReadable = true)
    (hlexed : Lexed (Piece.lines (Node.piecesAll script)) ts) (hends : EndsText (ts ++ [last])) :
    ∃ xs : Script Span, parse (ts ++ [last]) = .ok xs
      ∧ xs.map Node.erase = script.map Node.erase := by
  obtain ⟨c, hcursor, hc, htokens, hbefore⟩ := hends.hasEnd.exists_cursor
  have htook : c.Took ts ⟨ts.reverse, last, [], c.fromEnd⟩ := by
    refine ⟨?_, by rw [hbefore, List.append_nil], rfl, hends.proper⟩
    rw [Cursor.tokens, hbefore] at htokens
    exact htokens
  have hahead := Cursor.ahead_of_lexed hlexed hc htook
  have hlast : last.kind = .endOfText := hends.append_right
  have hback : ∀ node ∈ script, Node.ReadsBack node := fun node hnode =>
    Node.readsBack fun x hx => h x (Node.mem_trees.2 ⟨node, hnode, hx⟩)
  obtain ⟨hnewline, hlegal, xs, hxs, hgives⟩ := Node.statements_ahead hback hahead hlast
  refine ⟨xs, ?_, hxs⟩
  have hscript : Parser.script c = .ok xs ⟨ts.reverse, last, [], c.fromEnd⟩ := by
    unfold Parser.script Parser.withAllowance
    rw [bind_of_ok (Parser.skipNewlines_took (.refl c) hc newlines_nil hnewline hlegal), get_bind]
    exact hgives _ (by unfold Parser.allowance; omega)
  unfold parse
  rw [hcursor]
  simp only [hscript]

/-! ## The shape of scripts that are read -/

namespace Node

variable {α : Type}

theorem children_erase (node : Node α) : node.erase.children = node.children.map erase := by
  cases node with
  | function name parameters result body m => rw [erase_function, children, children]
  | call name arguments m => rw [erase_call, children, children]
  | _ => rfl

theorem tree_erase (node : Node α) : node.erase.tree = node.tree.map erase := by
  induction node using Node.induction with
  | step node ih =>
    have htrees : ∀ nodes : List (Node α), (∀ x ∈ nodes, x.erase.tree = x.tree.map erase) →
        trees (nodes.map erase) = (trees nodes).map erase := by
      intro nodes hnodes
      induction nodes with
      | nil => rfl
      | cons x nodes ihnodes =>
        rw [List.map_cons, trees, trees, hnodes x List.mem_cons_self,
          ihnodes fun y hy => hnodes y (List.mem_cons_of_mem x hy), List.map_append]
    rw [tree_eq, tree_eq node, children_erase, htrees _ ih, List.map_cons]

theorem isOperand_erase (node : Node α) : node.erase.isOperand = node.isOperand := by
  cases node <;> rfl

theorem isReadable_erase (node : Node α) : node.erase.isReadable = node.isReadable := by
  cases node with
  | function name parameters result body m =>
    rw [erase_function]
    simp [isReadable, Parameter.erase, Function.comp_def]
  | call name arguments m =>
    rw [erase_call]
    simp [isReadable, Function.comp_def, isOperand_erase]
  | binary op left right m =>
    show (left.erase.isOperand && right.erase.isOperand) = _
    rw [isOperand_erase, isOperand_erase]
    rfl
  | _ => rfl

end Node

/-- Reading returns only nodes of one shape. -/
theorem Source.isReadable_of_parse {source : Source} {script : Script Span}
    (h : source.parse = .ok script) : ∀ x ∈ Node.trees script, x.isReadable = true := by
  obtain ⟨tokens, us, htokens, hinfix, hderives⟩ := Source.parse_ok h
  intro x hx
  have hspelled := (hderives.sound x hx).2.mono hinfix
  have hname : ∀ {name}, Spells tokens name → isName name = true := isName_of_spells htokens
  have htype : ∀ {type : Option String}, (∀ t ∈ type, Spells tokens t) →
      type.all isName = true := by
    intro type hspells
    cases type with
    | none => rfl
    | some t => exact hname (hspells t rfl)
  cases x with
  | declare name type m =>
    obtain ⟨hspells, t, rfl, ht⟩ := hspelled
    exact Bool.and_eq_true_iff.2 ⟨hname hspells, hname ht⟩
  | define name type value m =>
    exact Bool.and_eq_true_iff.2 ⟨hname hspelled.1, htype hspelled.2⟩
  | assign name value m => exact hname hspelled
  | function name parameters result body m =>
    have hparameters : parameters.all (fun p => isName p.name && isName p.type) = true :=
      List.all_eq_true.2 fun p hp => Bool.and_eq_true_iff.2
        ⟨hname (hspelled.2.2 p hp).1, hname (hspelled.2.2 p hp).2.1⟩
    exact Bool.and_eq_true_iff.2
      ⟨Bool.and_eq_true_iff.2 ⟨hname hspelled.1, hparameters⟩, htype hspelled.2.1⟩
  | call name arguments m =>
    exact Bool.and_eq_true_iff.2 ⟨hname hspelled.1, List.all_eq_true.2 hspelled.2⟩
  | raw text m => rfl
  | binary op left right m => exact Bool.and_eq_true_iff.2 hspelled
  | integer value m =>
    refine decide_eq_true ?_
    obtain rfl | hspells := hspelled
    · decide
    · exact length_toDigits_of_spells htokens hspells
  | string value m => rfl
  | access name m => exact hname hspelled

/-- Reading a printed script gives the script back, up to marks, if and only if the script has
the shape of those that reading returns. -/
theorem Source.parse_print {α : Type} (name : Text) (script : Script α) :
    (∀ x ∈ Node.trees script, x.isReadable = true)
      ↔ ∃ xs : Script Span, Source.parse ⟨name, script.print⟩ = .ok xs
        ∧ xs.map Node.erase = script.map Node.erase := by
  constructor
  · intro h
    obtain ⟨ts, hlexed, htokens⟩ := tokenize_print h name
    obtain ⟨xs, hparse, hxs⟩ := parse_lexed h hlexed (endsText_of_tokenize htokens)
    refine ⟨xs, ?_, hxs⟩
    unfold Source.parse
    rw [htokens]
    simp only [hparse]
  · -- what was read has the shape, and the shape does not depend on marks
    rintro ⟨xs, hparse, hxs⟩ x hx
    have hread := Source.isReadable_of_parse hparse
    obtain ⟨node, hnode, hx⟩ := Node.mem_trees.1 hx
    obtain ⟨y, hy, heq⟩ := List.mem_map.1 (hxs ▸ List.mem_map_of_mem hnode)
    have hmem : x.erase ∈ y.tree.map Node.erase := by
      rw [← Node.tree_erase, heq, Node.tree_erase]
      exact List.mem_map_of_mem hx
    obtain ⟨z, hz, heqz⟩ := List.mem_map.1 hmem
    rw [← Node.isReadable_erase, ← heqz, Node.isReadable_erase]
    exact hread z (Node.mem_trees.2 ⟨y, hy, hz⟩)

theorem Source.parse_print_nested :
    ∃ xs : Script Span, Source.parse ⟨"nested",
        ("a - -1 - (b = \"\\\"\\\\\") * (f(c = a, 0) + b)\n"
          ++ "x = function g(p: int, q: int) \x7b\nlet r: int\n\x7d\n").toList⟩ = .ok xs
      ∧ xs.map Node.erase = List.map Node.erase (α := Node Unit) [
        .binary .subtract (.binary .subtract (.access "a" ()) (.integer (-1) ()) ())
          (.binary .multiply (.assign "b" (.string "\"\\" ()) ())
            (.binary .add (.call "f" [.assign "c" (.access "a" ()) (), .integer 0 ()] ())
              (.access "b" ()) ()) ()) (),
        .assign "x" (.function "g" [⟨"p", "int", ()⟩, ⟨"q", "int", ()⟩] none
          [.declare "r" (some "int") ()] ()) ()] := by
  have hback : ∀ (script : Script Unit) (text : List Char), script.print = text →
      (∀ x ∈ Node.trees script, x.isReadable = true) →
      ∃ xs : Script Span, Source.parse ⟨"nested", text⟩ = .ok xs
        ∧ xs.map Node.erase = script.map Node.erase := by
    intro script text hprint hscript
    rw [← hprint]
    exact (Source.parse_print "nested" script).1 hscript
  exact hback _ _ (by decide +kernel) (by decide +kernel)

end Scoreboard
