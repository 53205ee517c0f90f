import Mathlib
import Scoreboard.Proofs.Preservation

/-!
# Folding agrees with running

A closed arithmetic expression needs no commands: its operations are folded while it is
compiled, and only the result is written. The same expression over variables that hold its
literals is computed on the board, by other commands for every shape of tree. Both give the
same number, and folding stops exactly at a division by zero.

The two ways meet in the number `Node.folded?`. Compiling the closed expression gives it, or
the first of the `Node.zeroDivisions`; the interpreter gives it for the expression over
variables, and the program does what the interpreter says. What is left is that the
expression over variables compiles at all: nothing in it can fail, because a constant that is
still in it is the number that it folds to.
-/

namespace Scoreboard

variable {α β : Type}

namespace Node

/-! ## Closed expressions -/

/-- An arithmetic expression without variables, whose literals fit a score. -/
inductive IsArithmetic : Node α → Prop
  | integer {n : Int} (m : α) (h : inScoreRange n = true) : IsArithmetic (integer n m)
  | binary (op : Operator) {left right : Node α} (m : α) (hleft : IsArithmetic left)
      (hright : IsArithmetic right) : IsArithmetic (binary op left right m)

/-- The number that a closed expression folds to. There is none if it divides by zero. -/
def folded? : Node α → Option Int
  | integer n _ => some n
  | binary op left right _ => do
    let a ← left.folded?
    let b ← right.folded?
    if op = .divide ∧ b = 0 then none else some (op.fold a b)
  | _ => none

/-- The marks of the divisions whose divisor folds to zero, in the order of evaluation: the
left operand, the right one, the operation. -/
def zeroDivisions : Node α → List α
  | binary op left right m => left.zeroDivisions ++ right.zeroDivisions
    ++ if op = .divide ∧ right.folded? = some 0 then [m] else []
  | _ => []

theorem folded?_binary (op : Operator) {left right : Node α} (m : α) {a b : Int}
    (hleft : left.folded? = some a) (hright : right.folded? = some b) :
    (binary op left right m).folded?
      = if op = .divide ∧ b = 0 then none else some (op.fold a b) := by
  simp [folded?, hleft, hright]

theorem folded?_binary_eq_some {op : Operator} {left right : Node α} {m : α} {n : Int}
    (h : (binary op left right m).folded? = some n) :
    ∃ a b, left.folded? = some a ∧ right.folded? = some b ∧ ¬(op = .divide ∧ b = 0)
      ∧ op.fold a b = n := by
  simp only [folded?] at h
  obtain ⟨a, hleft, h⟩ := Option.bind_eq_some_iff.1 h
  obtain ⟨b, hright, h⟩ := Option.bind_eq_some_iff.1 h
  by_cases hzero : op = .divide ∧ b = 0
  · rw [if_pos hzero] at h
    cases h
  · rw [if_neg hzero] at h
    exact ⟨a, b, hleft, hright, hzero, Option.some.inj h⟩

/-! ## Variables in the place of literals -/

/-- An expression with variables in the place of literals. The literals that are replaced are
listed with their variables, in the order of the text; others may stay, as the zero of a
negated operand does, which is not in the text. -/
inductive Replaced : Node α → Node β → List (String × Int) → Prop
  | kept (n : Int) (m : α) (m' : β) : Replaced (integer n m) (integer n m') []
  | replaced (x : String) (n : Int) (m : α) (m' : β) :
      Replaced (integer n m) (access x m') [(x, n)]
  | binary (op : Operator) {left right : Node α} {left' right' : Node β}
      {first second : List (String × Int)} (m : α) (m' : β)
      (hleft : Replaced left left' first) (hright : Replaced right right' second) :
      Replaced (binary op left right m) (binary op left' right' m') (first ++ second)

/-- A node whose commands can be run: a regular one that is no raw command and introduces
only names. -/
def IsRunnable (node : Node β) : Prop := node.Regular ∧ node.isRaw = false ∧ node.IsNamed

/-- A statement that declares a variable with a literal. -/
def Declares (node : Node β) (literal : String × Int) : Prop :=
  ∃ m m', node = define literal.1 none (integer literal.2 m) m'

namespace Replaced

variable {e : Node α} {e' : Node β} {literals : List (String × Int)}

theorem inScoreRange (h : Replaced e e' literals) (he : e.IsArithmetic) :
    ∀ l ∈ literals, Scoreboard.inScoreRange l.2 = true := by
  induction h with
  | kept n m m' => exact List.forall_mem_nil _
  | replaced x n m m' =>
    cases he with
    | integer _ hn => exact List.forall_mem_singleton.2 hn
  | binary op m m' _ _ ihleft ihright =>
    cases he with
    | binary _ _ hleft hright => exact List.forall_mem_append.2 ⟨ihleft hleft, ihright hright⟩

theorem assigns_eq_false (h : Replaced e e' literals) (x : String) :
    e'.assigns x = false := by
  induction h with
  | kept n m m' => rfl
  | replaced y n m m' => rfl
  | binary op m m' _ _ ihleft ihright => rw [assigns, ihleft, ihright, Bool.or_self]

theorem isDefinition_eq_false (h : Replaced e e' literals) : e'.isDefinition = false := by
  cases h <;> rfl

/-- Nothing in the expression introduces a name, and all of it can be run. -/
theorem isRunnable (h : Replaced e e' literals) :
    ∀ x ∈ e'.tree, x.introduces? = none ∧ x.IsRunnable := by
  induction h with
  | kept n m m' => simp [tree, introduces?, IsRunnable, Regular, isRaw, IsNamed]
  | replaced y n m m' => simp [tree, introduces?, IsRunnable, Regular, isRaw, IsNamed]
  | binary op m m' hleft hright ihleft ihright =>
    rw [tree, List.forall_mem_cons, List.forall_mem_append]
    refine ⟨⟨rfl, ?_, rfl, trivial⟩, ihleft, ihright⟩
    exact ⟨hleft.isDefinition_eq_false, hright.isDefinition_eq_false⟩

/-- So can the definition of a variable by it. -/
theorem isRunnable_define (h : Replaced e e' literals) {name : String}
    (hname : isName name = true) (m : β) :
    ∀ x ∈ (define name none e' m).tree, x.IsRunnable := by
  have hnone : e'.introduced = [] := by
    refine List.filterMap_eq_nil_iff.2 fun x hx => ?_
    exact (h.isRunnable x (mem_tree_of_mem_scopeTree hx)).1
  rw [tree, List.forall_mem_cons]
  refine ⟨⟨?_, rfl, hname⟩, fun x hx => (h.isRunnable x hx).2⟩
  show name ∉ e'.introduced
  rw [hnone]
  exact List.not_mem_nil

/-- The interpreter computes what the closed expression folds to. -/
theorem evaluate_eq (h : Replaced e e' literals) {n : Int} (hn : e.folded? = some n)
    {f : Frame} (hf : ∀ l ∈ literals, f.value l.1 = some l.2) :
    e'.evaluate f = some (some n, f) := by
  induction h generalizing n with
  | kept k m m' =>
    cases hn
    rfl
  | replaced x k m m' =>
    cases hn
    exact evaluate_access (hf (x, k) List.mem_cons_self)
  | binary op m m' _ _ ihleft ihright =>
    obtain ⟨a, b, hleft, hright, hzero, rfl⟩ := folded?_binary_eq_some hn
    rw [List.forall_mem_append] at hf
    rw [evaluate_binary (ihleft hleft hf.1) (ihright hright hf.2),
      Operator.apply_eq_fold hzero]

end Replaced

theorem isRunnable_declarations {declarations : List (Node β)}
    {literals : List (String × Int)} (h : List.Forall₂ Declares declarations literals)
    (hnames : ∀ x ∈ literals.map Prod.fst, isName x = true) :
    ∀ node ∈ declarations, ∀ x ∈ node.tree, x.IsRunnable := by
  induction h with
  | nil => exact List.forall_mem_nil _
  | cons hnode _ ih =>
    obtain ⟨m, m', rfl⟩ := hnode
    rw [List.map_cons, List.forall_mem_cons] at hnames
    exact List.forall_mem_cons.2
      ⟨(Replaced.kept _ m m).isRunnable_define hnames.1 m', ih hnames.2⟩

/-- Declarations give their variables the literals, and leave all else as it was. -/
theorem evaluateBody_declarations {declarations : List (Node β)}
    {literals : List (String × Int)} (h : List.Forall₂ Declares declarations literals)
    (hnodup : (literals.map Prod.fst).Nodup) (rest : List (Node β)) (f : Frame) :
    ∃ f₁, evaluateBody (declarations ++ rest) f = evaluateBody rest f₁
      ∧ f₁.ended = f.ended ∧ (∀ l ∈ literals, f₁.value l.1 = some l.2)
      ∧ ∀ x ∉ literals.map Prod.fst, f₁.value x = f.value x := by
  induction h generalizing f with
  | nil => exact ⟨f, rfl, rfl, List.forall_mem_nil _, fun x _ => rfl⟩
  | @cons node l declarations literals hnode _ ih =>
    obtain ⟨m, m', rfl⟩ := hnode
    rw [List.map_cons, List.nodup_cons] at hnodup
    obtain ⟨f₁, hbody, hended, hvalues, hothers⟩ := ih hnodup.2 (f.assign l.1 l.2)
    refine ⟨f₁, ?_, hended, List.forall_mem_cons.2 ⟨?_, hvalues⟩, fun x hx => ?_⟩
    · rw [List.cons_append, evaluateBody_cons (evaluate_define rfl), hbody]
    · rw [hothers _ hnodup.1, Frame.assign_value_self]
    · rw [List.map_cons, List.mem_cons, not_or] at hx
      rw [hothers x hx.2, Frame.assign_value_of_ne hx.1]

/-- The definition by the expression gives its variable the number behind them. -/
theorem evaluateBody_replaced {e : Node α} {n : Int} (hn : e.folded? = some n)
    {declarations : List (Node β)} {e' : Node β} {literals : List (String × Int)} (m : β)
    (hdeclarations : List.Forall₂ Declares declarations literals)
    (h : Replaced e e' literals) (hnodup : (literals.map Prod.fst).Nodup) (r : String) :
    ∃ f, evaluateBody (declarations ++ [define r none e' m]) (.start [] []) = some f
      ∧ f.ended = [] ∧ f.value r = some n := by
  obtain ⟨f, hbody, hended, hvalues, -⟩ := evaluateBody_declarations hdeclarations hnodup
    [define r none e' m] (.start [] [])
  refine ⟨f.assign r n, ?_, hended, Frame.assign_value_self ..⟩
  rw [hbody, evaluateBody_cons (evaluate_define (h.evaluate_eq hn hvalues))]
  rfl

end Node

namespace Generate

open Node

variable {space : Text} {w : Workspace}

/-! ## Steps that go through -/

theorem keepValue_of_not_assigns {target : Cell} {left right : Node α} {v : Value}
    (h : ∀ name source, left.storedVariable? = some name → v = .stored source →
      right.assigns name = false) :
    keepValue target left right v w = .ok v w := by
  cases hname : left.storedVariable? with
  | none => simp only [keepValue, hname]; rfl
  | some name =>
    cases v with
    | stored source =>
      simp only [keepValue, hname]
      rw [if_neg (by rw [h name source hname rfl]; exact Bool.false_ne_true)]
      rfl
    | _ => simp only [keepValue, hname]; rfl

/-- An operation whose operands are numbers comes down to combining them. -/
theorem compile_binary_of_ok {context : Context} (op : Operator) {left right : Node α} (m : α)
    {w₁ w₂ : Workspace} {a b : Value} (hleft : compile space context left w = .ok a w₁)
    (hkeep : ∀ name source, left.storedVariable? = some name → a = .stored source →
      right.assigns name = false)
    (hright : compile space (rightContext context) right w₁ = .ok b w₂)
    (ha : a.type = .int) (hb : b.type = .int) :
    compile space context (.binary op left right m) w
      = combine op (target context w.block.name) a b m w₂ := by
  unfold rightContext at hright
  simp only [compile]
  rw [get_bind, bind_of_ok hleft, bind_of_ok (keepValue_of_not_assigns hkeep),
    bind_of_ok hright, bind_of_ok (requireInt_eq_ok (u := ()).2 ⟨ha, rfl⟩),
    bind_of_ok (requireInt_eq_ok (u := ()).2 ⟨hb, rfl⟩)]
  rfl

/-- Two numbers are combined, unless they are constants and the second divides as zero. -/
theorem combine_of_int (op : Operator) (target : Cell) {a b : Value} (m : α)
    (ha : a.type = .int) (hb : b.type = .int)
    (hzero : ∀ y, b = .constant y → ¬(op = .divide ∧ y = 0)) :
    ∃ cs, combine op target a b m w = .ok (combined op target a b) (w.emit cs) := by
  refine ⟨combineCommands w.block.name op target a b, ?_⟩
  cases a with
  | constant x =>
    cases b with
    | constant y =>
      simp only [combine]
      rw [if_neg (hzero y rfl)]
      exact pure_eq_ok.2 ⟨rfl, (Workspace.emit_nil w).symm⟩
    | stored y =>
      simp only [combine, bind_eq_ok, push_eq_ok, pure_eq_ok]
      exact ⟨(), _, rfl, (), _, rfl, rfl, Workspace.emit_emit _ _ _⟩
    | undefined _ => cases hb
    | function _ => cases hb
  | stored x =>
    cases b with
    | constant y =>
      simp only [combine, bind_eq_ok, copy_eq_ok, applyConstant_eq_ok, pure_eq_ok]
      exact ⟨(), _, rfl, (), _, rfl, rfl, Workspace.emit_emit _ _ _⟩
    | stored y =>
      simp only [combine, bind_eq_ok, copy_eq_ok, push_eq_ok, pure_eq_ok]
      exact ⟨(), _, rfl, (), _, rfl, rfl, Workspace.emit_emit _ _ _⟩
    | undefined _ => cases hb
    | function _ => cases hb
  | undefined _ => cases ha
  | function _ => cases ha

theorem compile_integer_of_inScoreRange {context : Context} {n : Int} {m : α}
    (hn : inScoreRange n = true) :
    compile space context (.integer n m) w = .ok (.constant n) w := by
  simp only [compile]
  rw [if_pos hn]
  rfl

theorem compile_integer_of_not_inScoreRange {context : Context} {n : Int} {m : α}
    (hn : ¬inScoreRange n = true) :
    compile space context (.integer n m) w = .error ⟨.integerBounds, m⟩ w := by
  simp only [compile]
  rw [if_neg hn]
  rfl

/-- A new variable gets the value of an expression, if it is a number. -/
theorem compile_define_of_ok {context : Context} {name : String} {value : Node α} {m : α}
    {w₁ : Workspace} {v : Value} (hnew : name ∉ w.scope.names)
    (hvalue : compile space (context.withDestination (w.scope.cell name)) value w = .ok v w₁)
    (hv : v.type = .int) :
    compile space context (.define name none value m) w = .ok (.stored (w.scope.cell name))
      ((w₁.emit (storeCommands (w.scope.cell name) v)).declareVariable name) := by
  have hdeclares : ¬w.scope.declares name = true := by simpa [Scope.declares] using hnew
  simp only [compile]
  rw [get_bind, if_neg hdeclares]
  show (compile space _ value >>= _) w = _
  rw [bind_of_ok hvalue, bind_of_ok (store_eq_ok (u := ()).2 ⟨hv, rfl⟩),
    bind_of_ok (modifyScope_eq_ok (u := ()).2 rfl)]
  rfl

/-- A new variable is not declared if its value fails. -/
theorem compile_define_of_error {context : Context} {name : String} {value : Node α} {m : α}
    {w₁ : Workspace} {fault : Diagnostic α} (hnew : name ∉ w.scope.names)
    (hvalue : compile space (context.withDestination (w.scope.cell name)) value w
      = .error fault w₁) :
    compile space context (.define name none value m) w = .error fault w₁ := by
  have hdeclares : ¬w.scope.declares name = true := by simpa [Scope.declares] using hnew
  simp only [compile]
  rw [get_bind, if_neg hdeclares]
  show (compile space _ value >>= _) w = _
  rw [bind_of_error hvalue]

theorem compileBody_singleton {node : Node α} {v : Value} {w₁ : Workspace}
    (h : compile space {} node w = .ok v w₁) : compileBody space [node] w = .ok () w₁ := by
  rw [compileBody, bind_of_ok h]
  rfl

theorem compileBody_of_error {node : Node α} {rest : List (Node α)} {fault : Diagnostic α}
    {w₁ : Workspace} (h : compile space {} node w = .error fault w₁) :
    compileBody space (node :: rest) w = .error fault w₁ := by
  rw [compileBody, bind_of_error h]

variable (space)

/-! ## Compiling closed expressions -/

/-- A closed expression compiles to the number it folds to, or fails at its first division by
zero. Either way there are no commands. -/
theorem compile_arithmetic {e : Node α} (he : e.IsArithmetic) (context : Context) :
    (∃ n, e.folded? = some n ∧ e.zeroDivisions = []
        ∧ compile space context e w = .ok (.constant n) w)
      ∨ ∃ m, e.zeroDivisions.head? = some m
        ∧ compile space context e w = .error ⟨.divisionByZero, m⟩ w := by
  induction he generalizing context with
  | @integer n m hn => exact .inl ⟨n, rfl, rfl, compile_integer_of_inScoreRange hn⟩
  | @binary op left right m _ _ ihleft ihright =>
    obtain ⟨a, hfirst, hnone, hleft⟩ | ⟨m₁, hfirst, hleft⟩ := ihleft context
    · have hkeep : ∀ name source, left.storedVariable? = some name →
          Value.constant a = .stored source → right.assigns name = false :=
        fun _ _ _ hstored => by cases hstored
      obtain ⟨b, hsecond, hnone', hright⟩ | ⟨m₁, hsecond, hright⟩ :=
        ihright (rightContext context)
      · have hcompile := compile_binary_of_ok op m hleft hkeep hright rfl rfl
        have hfolded := folded?_binary op m hfirst hsecond
        simp only [combine] at hcompile
        by_cases hzero : op = .divide ∧ b = 0
        · rw [if_pos hzero] at hcompile
          refine .inr ⟨m, ?_, hcompile⟩
          simp [zeroDivisions, hnone, hnone', hsecond, hzero]
        · rw [if_neg hzero] at hcompile hfolded
          refine .inl ⟨op.fold a b, hfolded, ?_, hcompile⟩
          simp [zeroDivisions, hnone, hnone', hsecond, hzero]
      · refine .inr ⟨m₁, ?_, ?_⟩
        · simp [zeroDivisions, hnone, hsecond]
        · unfold rightContext at hright
          simp only [compile]
          rw [get_bind, bind_of_ok hleft, bind_of_ok (keepValue_of_not_assigns hkeep),
            bind_of_error hright]
    · refine .inr ⟨m₁, ?_, ?_⟩
      · simp [zeroDivisions, hfirst]
      · simp only [compile]
        rw [get_bind, bind_of_error hleft]

/-! ## Compiling over variables -/

/-- An expression over declared variables compiles to a number if the closed one folds to one.
What is still constant in it is the number that it folds to. -/
theorem compile_replaced {e : Node α} {e' : Node β} {literals : List (String × Int)}
    (h : Replaced e e' literals) (he : e.IsArithmetic) {n : Int} (hn : e.folded? = some n)
    (hdeclared : ∀ l ∈ literals, l.1 ∈ w.scope.names) (hfunctions : w.scope.functions = [])
    (context : Context) :
    ∃ v cs, compile space context e' w = .ok v (w.emit cs) ∧ v.type = .int
      ∧ ∀ k, v = .constant k → k = n := by
  induction h generalizing n w context with
  | kept c m m' =>
    cases hn
    cases he with
    | integer _ hrange =>
      refine ⟨.constant c, [], ?_, rfl, fun k hk => (Value.constant.inj hk).symm⟩
      simp only [compile]
      rw [if_pos hrange, Workspace.emit_nil]
      rfl
  | replaced x c m m' =>
    have hx : ¬(!w.scope.declares x) = true := by
      simpa [Scope.declares] using hdeclared (x, c) List.mem_cons_self
    have hvariable : ¬w.scope.isFunction x = true := by
      simp [Scope.isFunction, Scope.parameters?, hfunctions]
    refine ⟨.stored (w.scope.cell x), [], ?_, rfl, fun k hk => by cases hk⟩
    simp only [compile]
    rw [get_bind, if_neg hx, if_neg hvariable, Workspace.emit_nil]
    rfl
  | @binary op left right left' right' first second m m' _ hright ihleft ihright =>
    obtain ⟨a, b, ha, hb, hzero, rfl⟩ := folded?_binary_eq_some hn
    rw [List.forall_mem_append] at hdeclared
    cases he with
    | binary _ _ heleft heright =>
      obtain ⟨v, cs, hfirst, hv, hconstant⟩ := ihleft heleft ha hdeclared.1 hfunctions context
      obtain ⟨v', cs', hsecond, hv', hconstant'⟩ :=
        ihright (w := w.emit cs) heright hb hdeclared.2 hfunctions (rightContext context)
      obtain ⟨cs'', hcombine⟩ := combine_of_int (w := (w.emit cs).emit cs') op
        (target context w.block.name) m' hv hv' fun y hy => hconstant' y hy ▸ hzero
      refine ⟨combined op (target context w.block.name) v v', cs ++ cs' ++ cs'', ?_,
        combined_type .., fun k hk => ?_⟩
      · rw [compile_binary_of_ok op m' hfirst (fun y _ _ _ => hright.assigns_eq_false y)
          hsecond hv hv', hcombine, Workspace.emit_emit, Workspace.emit_emit,
          ← List.append_assoc]
      · -- only constants combine to a constant
        cases v <;> cases v' <;> cases hk
        rw [hconstant _ rfl, hconstant' _ rfl]

/-- Declarations of literals compile one after the other. -/
theorem compileBody_declarations {declarations : List (Node β)}
    {literals : List (String × Int)} (h : List.Forall₂ Declares declarations literals)
    (hrange : ∀ l ∈ literals, inScoreRange l.2 = true)
    (hnodup : (literals.map Prod.fst).Nodup)
    (hnew : ∀ x ∈ literals.map Prod.fst, x ∉ w.scope.names) (rest : List (Node β)) :
    ∃ w₁, compileBody space (declarations ++ rest) w = compileBody space rest w₁
      ∧ w₁.scope = w.scope.declareVariables (literals.map Prod.fst)
      ∧ w₁.finished = w.finished ∧ w₁.taken = w.taken := by
  induction h generalizing w with
  | nil => exact ⟨w, rfl, rfl, rfl, rfl⟩
  | @cons node l declarations literals hnode _ ih =>
    obtain ⟨m, m', rfl⟩ := hnode
    rw [List.forall_mem_cons] at hrange
    rw [List.map_cons, List.nodup_cons] at hnodup
    rw [List.map_cons, List.forall_mem_cons] at hnew
    have hliteral : compile space (({} : Context).withDestination (w.scope.cell l.1))
        (.integer l.2 m) w = .ok (.constant l.2) w := compile_integer_of_inScoreRange hrange.1
    have hstep := compile_define_of_ok (m := m') hnew.1 hliteral rfl
    have hfresh : ∀ x ∈ literals.map Prod.fst, x ∉ (w.scope.declareVariable l.1).names := by
      intro x hx hmem
      obtain rfl | hmem := Scope.mem_declareVariable.1 hmem
      · exact hnodup.1 hx
      · exact hnew.2 x hx hmem
    obtain ⟨w₁, hbody, hscope, hfinished, htaken⟩ := ih hrange.2 hnodup.2
      (w := (w.emit (storeCommands (w.scope.cell l.1) (.constant l.2))).declareVariable l.1) hfresh
    refine ⟨w₁, ?_, hscope, hfinished, htaken⟩
    rw [List.cons_append, compileBody, bind_of_ok hstep, hbody]

/-- The definition by the expression compiles behind them. -/
theorem compileBody_replaced {e : Node α} (he : e.IsArithmetic) {n : Int}
    (hn : e.folded? = some n) {declarations : List (Node β)} {e' : Node β}
    {literals : List (String × Int)} (m : β)
    (hdeclarations : List.Forall₂ Declares declarations literals)
    (h : Replaced e e' literals) (hnodup : (literals.map Prod.fst).Nodup) {r : String}
    (hr : r ∉ literals.map Prod.fst) (hempty : w.scope.names = [])
    (hfunctions : w.scope.functions = []) :
    ∃ w₁, compileBody space (declarations ++ [.define r none e' m]) w = .ok () w₁
      ∧ w₁.finished = w.finished ∧ w₁.taken = w.taken := by
  have hfresh : ∀ x, x ∉ w.scope.names := by simp [hempty]
  obtain ⟨w₁, hbody, hscope, hfinished, htaken⟩ := compileBody_declarations space
    hdeclarations (h.inScoreRange he) hnodup (fun x _ => hfresh x) [.define r none e' m]
  have hdeclared : ∀ l ∈ literals, l.1 ∈ w₁.scope.names := by
    intro l hl
    rw [hscope, Scope.mem_declareVariables]
    exact .inl (List.mem_map_of_mem hl)
  have hnew : r ∉ w₁.scope.names := by
    rw [hscope, Scope.mem_declareVariables, not_or]
    exact ⟨hr, hfresh r⟩
  obtain ⟨v, cs, hvalue, hv, -⟩ := compile_replaced space h he hn hdeclared
    (by rw [hscope, Scope.declareVariables_functions, hfunctions])
    (({} : Context).withDestination (w₁.scope.cell r))
  have hlast := compileBody_singleton (compile_define_of_ok (m := m) hnew hvalue hv)
  exact ⟨_, hbody.trans hlast, hfinished, htaken⟩

end Generate

/-! ## Whole scripts -/

theorem generate_of_ok {space name : Text} {mark : α} {script : Script α}
    {w : Workspace}
    (h : Generate.compileBody space script ((Workspace.ofName name).enter name) = .ok () w) :
    generate space name mark script = ⟨w.finish.finished, w.taken, none⟩ := by
  unfold generate
  simp only [Generate.compileFunction_ofName, Generate.within, h]
  rfl

theorem generate_of_error {space name : Text} {mark : α} {script : Script α}
    {w : Workspace} {fault : Diagnostic α}
    (h : Generate.compileBody space script ((Workspace.ofName name).enter name)
      = .error fault w) :
    generate space name mark script = ⟨w.finished, w.taken, some fault⟩ := by
  unfold generate
  simp only [Generate.compileFunction_ofName, Generate.within, h]
  rfl

/-- A script without functions, run as its only block, ends with the values that the
interpreter gives its variables. -/
theorem run_script {space name : Text} {script : Script α} {w : Workspace}
    (h : Generate.compileBody space script ((Workspace.ofName name).enter name) = .ok () w)
    (hfinished : w.finished = [])
    (hscript : ∀ node ∈ script, ∀ x ∈ node.tree, x.IsRunnable)
    {f : Frame} (hevaluate : Node.evaluateBody script (.start [] []) = some f)
    (hended : f.ended = []) (d : Nat) :
    ∃ trace board moment,
      (⟨space, w.finish.finished⟩ : Program).run Slot.text (d + 1)
          (w.block.push (.removeObjective w.block.name)) Board.empty = some (trace, board)
        ∧ closings trace = [moment]
        ∧ ∀ x n, f.value x = some n →
          moment.board.read Slot.text ⟨name, .variable x⟩ = n := by
  set main := w.block.push (.removeObjective w.block.name)
  have hblocks : w.finish.finished = [main] := by
    show w.finished ++ [main] = [main]
    rw [hfinished, List.nil_append]
  rw [hblocks]
  obtain ⟨new, hnew⟩ := Generate.compileBody_finishes h
  obtain rfl : new = [] := hnew.finished.symm.trans hfinished
  have hsteps : ∀ node ∈ script, StepCorrect ⟨space, [main]⟩ node := by
    intro node hnode
    apply Generate.stepCorrect node
    · exact fun x hx => (hscript node hnode x hx).1
    · exact fun x hx => (hscript node hnode x hx).2.1
  have hscores : (Board.empty : Board Slot).scores name = argumentScores [] [] :=
    argumentScores_nil.symm
  have hd : w.finished.length ≤ d := by
    rw [hfinished]
    exact Nat.zero_le d
  obtain ⟨s, activations, hrun, hactivations, hcloses⟩ :=
    Generate.run_function (p := ⟨space, [main]⟩) (w := .ofName name) hsteps h hnew
      (List.forall_mem_nil _) hd rfl hscores (List.forall_mem_nil _)
  -- the same run on the texts of the slots
  have hnamed : ∀ x ∈ Node.trees script, x.IsNamed := by
    intro x hx
    obtain ⟨node, hnode, hx⟩ := Node.mem_trees.1 hx
    exact (hscript node hnode x hx).2.2
  have hclean : w.Clean := Generate.compileBody_clean hnamed h
    ((Workspace.clean_ofName name).enter name (List.forall_mem_nil _))
  have hmain : ∀ c ∈ main.commands, c.IsPlain :=
    List.forall_mem_append.2 ⟨hclean.commands, List.forall_mem_singleton.2 trivial⟩
  obtain ⟨t, board, hrunt, -, hmoments⟩ := Program.run_same
    (List.forall_mem_singleton.2 hmain) (d + 1) hmain Board.empty Board.empty s _
    (fun _ _ _ => rfl) hrun
  have hclosest := closes_of_same (closings_same hmoments) hcloses fun a ha =>
    (Script.evaluate_covers hactivations a ha).isNamed hnamed
  -- which has one activation, that of the script
  have hone : activations = [⟨name, f.value⟩] := by
    have hclosure : Node.closure name [] script [] = some (f.close name) := by
      simp [Node.closure, hevaluate]
    rw [Option.some.inj (hactivations.symm.trans hclosure), Frame.close, hended,
      List.nil_append]
  rw [hone] at hclosest
  generalize htrace : closings t = moments at hclosest
  obtain _ | ⟨hcloses, hrest⟩ := hclosest
  cases hrest
  exact ⟨t, board, _, hrunt, htrace, hcloses.2⟩

/-- The script that declares a variable for each literal and computes an expression over them
compiles, and its block ends with the number that the closed expression folds to. -/
theorem run_replaced {space name : Text} {r : String} {e : Node α} (he : e.IsArithmetic)
    {n : Int} (hn : e.folded? = some n) {declarations : List (Node β)} {e' : Node β}
    {literals : List (String × Int)} (mark m : β)
    (hdeclarations : List.Forall₂ Node.Declares declarations literals)
    (h : e.Replaced e' literals) (hnodup : (literals.map Prod.fst ++ [r]).Nodup)
    (hnames : ∀ x ∈ literals.map Prod.fst ++ [r], isName x = true) :
    ∃ main, generate space name mark (declarations ++ [.define r none e' m])
        = ⟨[main], [name], none⟩
      ∧ ∀ depth, 0 < depth → ∃ trace board moment,
        (⟨space, [main]⟩ : Program).run Slot.text depth main Board.empty = some (trace, board)
          ∧ closings trace = [moment]
          ∧ moment.board.read Slot.text ⟨name, .variable r⟩ = n := by
  rw [List.nodup_append', List.disjoint_singleton] at hnodup
  obtain ⟨hliterals, -, hr⟩ := hnodup
  obtain ⟨w, hbody, hfinished, htaken⟩ :=
    Generate.compileBody_replaced space he hn m hdeclarations h hliterals hr
      (w := (Workspace.ofName name).enter name) rfl rfl
  obtain ⟨f, hevaluate, hended, hvalue⟩ :=
    Node.evaluateBody_replaced hn m hdeclarations h hliterals r
  have hscript : ∀ node ∈ declarations ++ [.define r none e' m],
      ∀ x ∈ node.tree, x.IsRunnable := by
    rw [List.forall_mem_append, List.forall_mem_singleton] at hnames ⊢
    exact ⟨Node.isRunnable_declarations hdeclarations hnames.1, h.isRunnable_define hnames.2 m⟩
  have hblocks : w.finish.finished = [w.block.push (.removeObjective w.block.name)] := by
    rw [Workspace.finish, hfinished]
    rfl
  refine ⟨w.block.push (.removeObjective w.block.name), ?_, fun depth hdepth => ?_⟩
  · rw [generate_of_ok hbody, hblocks, htaken]
    rfl
  · obtain ⟨d, rfl⟩ := Nat.exists_eq_add_one_of_ne_zero hdepth.ne'
    obtain ⟨trace, board, moment, hrun, hcloses, hread⟩ :=
      run_script hbody hfinished hscript hevaluate hended d
    rw [hblocks] at hrun
    exact ⟨trace, board, moment, hrun, hcloses, hread r n hvalue⟩

/-- Folding agrees with running. A variable that is defined by a closed arithmetic expression
fails to compile exactly if a divisor in it folds to zero, and the fault is at the first such
division in the order of evaluation. Otherwise one command sets the variable to a number. The
script that declares a new variable for each literal, and defines the same variable by the
expression over them, compiles too, and leaves the same number in it. -/
theorem folding_agrees (space name : Text) (r : String) {e : Node α} (he : e.IsArithmetic)
    (mark m : α) :
    (generate space name mark [.define r none e m]).fault
        = e.zeroDivisions.head?.map (⟨.divisionByZero, ·⟩)
      ∧ (e.zeroDivisions = [] → ∃ v, e.folded? = some v
        ∧ (generate space name mark [.define r none e m]).finished
          = [⟨name, [.addObjective name, .set ⟨name, .variable r⟩ v, .removeObjective name]⟩]
        ∧ ∀ {β : Type} (mark' m' : β) (declarations : List (Node β)) (e' : Node β)
            (literals : List (String × Int)),
          List.Forall₂ Node.Declares declarations literals → e.Replaced e' literals →
          (literals.map Prod.fst ++ [r]).Nodup →
          (∀ x ∈ literals.map Prod.fst ++ [r], isName x = true) →
          ∃ main, generate space name mark' (declarations ++ [.define r none e' m'])
              = ⟨[main], [name], none⟩
            ∧ ∀ depth, 0 < depth → ∃ trace board moment,
              (⟨space, [main]⟩ : Program).run Slot.text depth main Board.empty
                  = some (trace, board)
                ∧ closings trace = [moment]
                ∧ moment.board.read Slot.text ⟨name, .variable r⟩ = v) := by
  set start := (Workspace.ofName name).enter name
  have hnew : r ∉ start.scope.names := List.not_mem_nil
  obtain ⟨n, hn, hnone, hvalue⟩ | ⟨m₁, hfirst, hvalue⟩ :=
    Generate.compile_arithmetic space (w := start) he
      (({} : Context).withDestination (start.scope.cell r))
  · have hbody := Generate.compileBody_singleton
      (Generate.compile_define_of_ok (m := m) hnew hvalue rfl)
    rw [generate_of_ok hbody, hnone]
    refine ⟨rfl, fun _ => ⟨n, hn, rfl, ?_⟩⟩
    intro β mark' m' declarations e' literals hdeclarations h hnodup hnames
    exact run_replaced he hn mark' m' hdeclarations h hnodup hnames
  · have hstep := Generate.compile_define_of_error (m := m) hnew hvalue
    have hbody : Generate.compileBody space [.define r none e m] start
        = .error ⟨.divisionByZero, m₁⟩ start := by
      rw [Generate.compileBody, bind_of_error hstep]
    rw [generate_of_error hbody, hfirst]
    refine ⟨rfl, fun hnone => ?_⟩
    rw [hnone] at hfirst
    cases hfirst

/-- Of two divisions by zero the first is reported. A negated operand, a quotient of negative
numbers and the smallest score divided by -1 fold as they run. -/
theorem folding_agrees_negative :
    (generate defaultSpace mainName 0 [.define "r" none
        (.binary .add
          (.binary .divide (.integer 1 0) (.binary .subtract (.integer 2 1) (.integer 2 2) 3) 4)
          (.binary .divide (.integer 3 5) (.integer 0 6) 7) 8) 9]).fault
        = some ⟨.divisionByZero, 4⟩
      ∧ (generate defaultSpace mainName () [.define "r" none
          (.binary .multiply
            (.binary .add (.binary .divide (.integer (-7) ()) (.integer 2 ()) ())
              (.binary .divide (.integer (-2147483648) ()) (.integer (-1) ()) ()) ())
            (.binary .subtract (.integer 0 ()) (.integer 3 ()) ()) ()) ()]).finished
        = [⟨mainName, [.addObjective mainName, .set ⟨mainName, .variable "r"⟩ (-2147483636),
          .removeObjective mainName]⟩]
      ∧ ∃ main, generate defaultSpace mainName ()
          ([.define "a" none (.integer (-7) ()) (), .define "b" none (.integer 2 ()) (),
            .define "c" none (.integer (-2147483648) ()) (),
            .define "d" none (.integer (-1) ()) (), .define "e" none (.integer 3 ()) ()]
          ++ [.define "r" none
            (.binary .multiply
              (.binary .add (.binary .divide (.access "a" ()) (.access "b" ()) ())
                (.binary .divide (.access "c" ()) (.access "d" ()) ()) ())
              (.binary .subtract (.integer 0 ()) (.access "e" ()) ()) ()) ()])
          = ⟨[main], [mainName], none⟩
        ∧ ∀ depth, 0 < depth → ∃ trace board moment,
          (⟨defaultSpace, [main]⟩ : Program).run Slot.text depth main Board.empty
              = some (trace, board)
            ∧ closings trace = [moment]
            ∧ moment.board.read Slot.text ⟨mainName, .variable "r"⟩ = -2147483636 := by
  have hfails := folding_agrees defaultSpace mainName "r" (e := .binary .add
    (.binary .divide (.integer 1 0) (.binary .subtract (.integer 2 1) (.integer 2 2) 3) 4)
    (.binary .divide (.integer 3 5) (.integer 0 6) 7) 8)
    (.binary _ _
      (.binary _ _ (.integer _ rfl) (.binary _ _ (.integer _ rfl) (.integer _ rfl)))
      (.binary _ _ (.integer _ rfl) (.integer _ rfl))) 0 9
  obtain ⟨v, hv, hfinished, hruns⟩ := (folding_agrees defaultSpace mainName "r"
    (e := .binary .multiply
      (.binary .add (.binary .divide (.integer (-7) ()) (.integer 2 ()) ())
        (.binary .divide (.integer (-2147483648) ()) (.integer (-1) ()) ()) ())
      (.binary .subtract (.integer 0 ()) (.integer 3 ()) ()) ())
    (.binary _ _
      (.binary _ _ (.binary _ _ (.integer _ rfl) (.integer _ rfl))
        (.binary _ _ (.integer _ rfl) (.integer _ rfl)))
      (.binary _ _ (.integer _ rfl) (.integer _ rfl))) () ()).2 (by decide)
  obtain rfl : v = -2147483636 := Option.some.inj (hv.symm.trans (by decide))
  refine ⟨hfails.1, hfinished, hruns () () _ _
    [("a", -7), ("b", 2), ("c", -2147483648), ("d", -1), ("e", 3)] ?_ ?_ (by decide)
    (by decide)⟩
  · exact .cons ⟨(), (), rfl⟩ (.cons ⟨(), (), rfl⟩ (.cons ⟨(), (), rfl⟩
      (.cons ⟨(), (), rfl⟩ (.cons ⟨(), (), rfl⟩ .nil))))
  · exact .binary _ _ _ (.binary _ _ _ (.binary _ _ _ (.replaced ..) (.replaced ..))
      (.binary _ _ _ (.replaced ..) (.replaced ..)))
      (.binary _ _ _ (.kept ..) (.replaced ..))

end Scoreboard
