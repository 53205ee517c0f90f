import Mathlib
import Scoreboard.Proofs.Interpreter
import Scoreboard.Proofs.Lowering

/-!
# Running compiled expressions

The commands of a compiled expression compute on the board what the interpreter computes in
its frame. While an operation is under way its target holds an intermediate result: the
variable that is being assigned does not agree with the frame then. Such variables are
*hidden*, and the expression spares them: it neither reads nor writes them otherwise.

The invariant is `Agrees`: every variable that is not hidden holds its value. What makes it
work is the frame of an expression (`Node.Writes`): the cells it may change are those of the
variables it assigns or introduces, the scratch slots from its own depth on, the slots of
constants, and its destination.
-/

namespace Scoreboard

variable {α : Type}

/-- A value stands for a number on a board. -/
def Value.Denotes (b : Board Slot) (n : Int) : Value → Prop
  | constant c => c = n
  | stored cell => b.read id cell = n
  | undefined _ => False
  | function _ => False

namespace Generate

/-! ## Commands of the helpers -/

theorem executeAll_copyCommands (target source : Cell) (b : Board Slot) :
    b.executeAll id (copyCommands target source) = b.write id target (b.read id source) := by
  unfold copyCommands
  split
  · rename_i h
    rw [h, Board.write_read]
    rfl
  · rfl

theorem executeAll_storeCommands {target : Cell} {v : Value} {n : Int} {b : Board Slot}
    (h : v.Denotes b n) : b.executeAll id (storeCommands target v) = b.write id target n := by
  cases v with
  | constant c =>
    obtain rfl : c = n := h
    rfl
  | stored source =>
    obtain rfl : b.read id source = n := h
    exact executeAll_copyCommands target source b
  | undefined _ => exact h.elim
  | function _ => exact h.elim

/-- An operation with a constant, put into a slot first or not. -/
theorem executeAll_constantCommands {κ : Type} [DecidableEq κ] {key : Slot → κ} {block : Text}
    (op : Operator) {target : Cell} {n : Int} (htarget : target.Apart key ⟨block, .constant n⟩)
    (b : Board κ) :
    (b.executeAll key (constantCommands block op target n)).read key target
        = op.apply (b.read key target) n
      ∧ ∀ cell : Cell, cell.Apart key target → cell.Apart key ⟨block, .constant n⟩ →
        (b.executeAll key (constantCommands block op target n)).read key cell
          = b.read key cell := by
  -- the commands that add or remove a number write the result into the target at once
  have direct : ∀ x, x = op.apply (b.read key target) n →
      (b.write key target x).read key target = op.apply (b.read key target) n
        ∧ ∀ cell : Cell, cell.Apart key target → cell.Apart key ⟨block, .constant n⟩ →
          (b.write key target x).read key cell = b.read key cell := by
    intro x hx
    refine ⟨by rw [Board.read_write_same, hx], fun cell hcell _ => ?_⟩
    rw [Board.read_write_of_apart hcell]
  -- the other operations need the number in a slot
  have via : (b.executeAll key [.set ⟨block, .constant n⟩ n,
        .operate op target ⟨block, .constant n⟩]).read key target = op.apply (b.read key target) n
      ∧ ∀ cell : Cell, cell.Apart key target → cell.Apart key ⟨block, .constant n⟩ →
        (b.executeAll key [.set ⟨block, .constant n⟩ n,
          .operate op target ⟨block, .constant n⟩]).read key cell = b.read key cell := by
    simp only [Board.executeAll_cons, Board.executeAll_nil, Board.execute]
    refine ⟨?_, fun cell hcell hslot => ?_⟩
    · rw [Board.read_write_same, Board.read_write_of_apart htarget, Board.read_write_same]
    · rw [Board.read_write_of_apart hcell, Board.read_write_of_apart hslot]
  cases op with
  | multiply => exact via
  | divide => exact via
  | add =>
    simp only [constantCommands]
    split_ifs
    · exact direct _ rfl
    · exact direct _ (Operator.apply_subtract_neg _ n)
    · exact via
  | subtract =>
    simp only [constantCommands]
    split_ifs
    · exact direct _ (Operator.apply_add_neg _ n)
    · refine direct _ ?_
      rw [neg_neg]
    · exact via

/-- Combining two operands: the combined value stands for the result, and only the target and
slots of constants changed. -/
theorem executeAll_combineCommands {block : Text} {op : Operator} {target : Cell}
    {x y : Value} {m n : Int} {b : Board Slot} (hx : x.Denotes b m) (hy : y.Denotes b n)
    (htarget : ∀ k, target ≠ ⟨block, .constant k⟩) (hdistinct : y ≠ .stored target)
    (hdivisor : ∀ c d, x = .constant c → y = .constant d → op = .divide → d ≠ 0) :
    (combined op target x y).Denotes
        (b.executeAll id (combineCommands block op target x y)) (op.apply m n)
      ∧ ∀ cell, cell ≠ target → (∀ k, cell ≠ ⟨block, .constant k⟩) →
        (b.executeAll id (combineCommands block op target x y)).read id cell
          = b.read id cell := by
  cases x with
  | undefined _ => exact hx.elim
  | function _ => exact hx.elim
  | constant c =>
    obtain rfl : c = m := hx
    cases y with
    | undefined _ => exact hy.elim
    | function _ => exact hy.elim
    | constant d =>
      obtain rfl : d = n := hy
      refine ⟨?_, fun cell _ _ => rfl⟩
      have hne : ¬(op = .divide ∧ d = 0) := fun ⟨hop, hd⟩ => hdivisor c d rfl rfl hop hd
      exact (Operator.apply_eq_fold hne).symm
    | stored source =>
      obtain rfl : b.read id source = n := hy
      -- the target is set to the constant first, so the second operand must be elsewhere
      have hsource : source ≠ target := fun h => hdistinct (by rw [h])
      simp only [combineCommands, Board.executeAll_cons, Board.executeAll_nil, Board.execute]
      refine ⟨?_, fun cell hcell _ => ?_⟩
      · show Board.read id target _ = _
        rw [Board.read_write_same, Board.read_write_same, Board.read_write_of_ne hsource]
      · rw [Board.read_write_of_ne hcell, Board.read_write_of_ne hcell]
  | stored first =>
    obtain rfl : b.read id first = m := hx
    cases y with
    | undefined _ => exact hy.elim
    | function _ => exact hy.elim
    | constant d =>
      obtain rfl : d = n := hy
      rw [combineCommands, Board.executeAll_append, executeAll_copyCommands]
      obtain ⟨hread, hframe⟩ := executeAll_constantCommands op (Cell.apart_id.2 (htarget d))
        (b.write id target (b.read id first))
      refine ⟨?_, fun cell hcell hslots => ?_⟩
      · show Board.read id target _ = _
        rw [hread, Board.read_write_same]
      · rw [hframe cell (Cell.apart_id.2 hcell) (Cell.apart_id.2 (hslots d)),
          Board.read_write_of_ne hcell]
    | stored second =>
      obtain rfl : b.read id second = n := hy
      -- the first operand is copied to the target before the second is read
      have hsecond : second ≠ target := fun h => hdistinct (by rw [h])
      rw [combineCommands, Board.executeAll_append, executeAll_copyCommands]
      simp only [Board.executeAll_cons, Board.executeAll_nil, Board.execute]
      refine ⟨?_, fun cell hcell _ => ?_⟩
      · show Board.read id target _ = _
        rw [Board.read_write_same, Board.read_write_same, Board.read_write_of_ne hsecond]
      · rw [Board.read_write_of_ne hcell, Board.read_write_of_ne hcell]

end Generate

/-! ## What an expression leaves alone -/

namespace Node

mutual

/-- What an expression writes it also references. -/
theorem references_of_assigns {x : String} :
    (e : Node α) → e.assigns x = true → e.references x = true
  | define _ _ value _, h => references_of_assigns value h
  | assign target value _, h => by
    rw [assigns, Bool.or_eq_true] at h
    rw [references, Bool.or_eq_true]
    exact h.imp_right (references_of_assigns value)
  | call _ arguments _, h => anyReferences_of_anyAssigns arguments h
  | binary _ left right _, h => by
    rw [assigns, Bool.or_eq_true] at h
    rw [references, Bool.or_eq_true]
    exact h.imp (references_of_assigns left) (references_of_assigns right)

theorem anyReferences_of_anyAssigns {x : String} :
    (nodes : List (Node α)) → anyAssigns x nodes = true → anyReferences x nodes = true
  | node :: rest, h => by
    rw [anyAssigns, Bool.or_eq_true] at h
    rw [anyReferences, Bool.or_eq_true]
    exact h.imp (references_of_assigns node) (anyReferences_of_anyAssigns rest)

end

theorem references_of_storedVariable? {e : Node α} {x : String}
    (h : e.storedVariable? = some x) : e.references x = true := by
  cases e with
  | assign name value m =>
    obtain rfl : name = x := by simpa [storedVariable?] using h
    simp [references]
  | access name m =>
    obtain rfl : name = x := by simpa [storedVariable?] using h
    simp [references]
  | _ => simp [storedVariable?] at h

/-- An expression that leaves variables alone. -/
def Spares (e : Node α) (hidden : List String) : Prop :=
  ∀ x ∈ hidden, e.references x = false ∧ x ∉ e.introduced

theorem Spares.left {op : Operator} {left right : Node α} {m : α} {hidden : List String}
    (h : (binary op left right m).Spares hidden) : left.Spares hidden := by
  intro x hx
  obtain ⟨hreferences, hintroduced⟩ := h x hx
  rw [references, Bool.or_eq_false_iff] at hreferences
  rw [introduced_binary, List.mem_append, not_or] at hintroduced
  exact ⟨hreferences.1, hintroduced.1⟩

theorem Spares.right {op : Operator} {left right : Node α} {m : α} {hidden : List String}
    (h : (binary op left right m).Spares hidden) : right.Spares hidden := by
  intro x hx
  obtain ⟨hreferences, hintroduced⟩ := h x hx
  rw [references, Bool.or_eq_false_iff] at hreferences
  rw [introduced_binary, List.mem_append, not_or] at hintroduced
  exact ⟨hreferences.2, hintroduced.2⟩

/-- The cells that an expression of a block may change, apart from its destination. -/
def Writes (e : Node α) (block : Text) (depth : Int) (cell : Cell) : Prop :=
  cell.objective = block ∧ match cell.slot with
    | .variable x => e.assigns x = true ∨ x ∈ e.introduced
    | .scratch k => depth ≤ k
    | .constant _ => True
    | .rawResult => False
    | .holder _ => False

theorem Writes.mono {e e' : Node α} {block : Text} {d d' : Int} {cell : Cell}
    (h : e.Writes block d cell) (hassigns : ∀ x, e.assigns x = true → e'.assigns x = true)
    (hintroduced : e.introduced ⊆ e'.introduced) (hdepth : d' ≤ d) :
    e'.Writes block d' cell := by
  refine ⟨h.1, ?_⟩
  have hslot := h.2
  cases hcell : cell.slot with
  | «variable» x =>
    rw [hcell] at hslot
    exact hslot.imp (hassigns x) (@hintroduced x)
  | scratch k =>
    rw [hcell] at hslot
    exact hdepth.trans hslot
  | constant k => trivial
  | rawResult => rw [hcell] at hslot; exact hslot
  | holder text => rw [hcell] at hslot; exact hslot

theorem Spares.cons {e : Node α} {hidden : List String} {x : String} (h : e.Spares hidden)
    (hreferences : e.references x = false) (hintroduced : x ∉ e.introduced) :
    e.Spares (x :: hidden) :=
  List.forall_mem_cons.2 ⟨⟨hreferences, hintroduced⟩, h⟩

/-- A form of node whose compilation is right: an operand defines nothing itself, and a value
does not define the variable it is for. -/
def Regular : Node α → Prop
  | define name _ value _ => name ∉ value.introduced
  | binary _ left right _ => left.isDefinition = false ∧ right.isDefinition = false
  | _ => True

end Node

/-- A context whose destination, if it is in the block, is a hidden variable. -/
def Context.Fits (context : Context) (block : Text) (hidden : List String) : Prop :=
  ∀ cell, context.destination = some cell →
    ∃ x, cell.slot = .variable x ∧ (cell.objective = block → x ∈ hidden)

/-- A frame and a board that agree on the variables of a scope, up to the hidden ones. -/
structure Agrees (scope : Scope) (hidden : List String) (f : Frame) (b : Board Slot) :
    Prop where
  declared : ∀ x ∈ scope.names, scope.isFunction x = false → ∃ n, f.value x = some n
  holds : ∀ x n, f.value x = some n → x ∉ hidden → b.read id (scope.cell x) = n

/-- The commands `cs` of a compiled expression do on a board what the interpreter does in its
frame. -/
structure Simulates (e : Node α) (context : Context) (w w' : Workspace) (v : Value)
    (hidden : List String) (f : Frame) (b b' : Board Slot) (n : Int) (f' : Frame) :
    Prop where
  evaluates : e.evaluate f = some (some n, f')
  denotes : v.Denotes b' n
  agrees : Agrees w'.scope hidden f' b'
  unchanged : ∀ cell, ¬e.Writes w.block.name context.depth cell →
    context.destination ≠ some cell → b'.read id cell = b.read id cell
  functions : f'.functions = f.functions
  ended : f'.ended = f.ended

namespace Agrees

variable {scope : Scope} {hidden : List String} {f : Frame} {b b' : Board Slot}

/-- More variables may be hidden. -/
theorem hide (h : Agrees scope hidden f b) (x : String) : Agrees scope (x :: hidden) f b :=
  ⟨h.declared, fun y n hy hhidden => h.holds y n hy (List.not_mem_of_not_mem_cons hhidden)⟩

/-- Changes outside the variables do not count. -/
theorem congr (h : Agrees scope hidden f b)
    (hb : ∀ x, x ∉ hidden → b'.read id (scope.cell x) = b.read id (scope.cell x)) :
    Agrees scope hidden f b' :=
  ⟨h.declared, fun x n hx hhidden => by rw [hb x hhidden, h.holds x n hx hhidden]⟩

theorem cell_ne {x y : String} (h : x ≠ y) : scope.cell x ≠ scope.cell y := by
  intro heq
  apply h
  injection heq with _ hslot
  injection hslot

/-- Storing the value of a variable makes it agree. -/
theorem write {x : String} (h : Agrees scope (x :: hidden) f b) (n : Int) :
    Agrees scope hidden (f.assign x n) (b.write id (scope.cell x) n) := by
  refine ⟨fun y hy hvariable => ?_, fun y k hk hhidden => ?_⟩
  · by_cases hyx : y = x
    · exact ⟨n, by rw [hyx, Frame.assign_value_self]⟩
    · rw [Frame.assign_value_of_ne hyx]
      exact h.declared y hy hvariable
  · by_cases hyx : y = x
    · subst hyx
      rw [Frame.assign_value_self] at hk
      rw [Board.read_write_same, Option.some.inj hk]
    · rw [Frame.assign_value_of_ne hyx] at hk
      rw [Board.read_write_of_ne (cell_ne hyx)]
      exact h.holds y k hk (by simp [hyx, hhidden])

/-- A variable with a value may be declared. -/
theorem declare {x : String} {n : Int} (h : Agrees scope hidden f b)
    (hx : f.value x = some n) : Agrees (scope.declareVariable x) hidden f b := by
  refine ⟨fun y hy hvariable => ?_, h.holds⟩
  rcases Scope.mem_declareVariable.1 hy with rfl | hy
  · exact ⟨n, hx⟩
  · exact h.declared y hy hvariable

/-- A function may be declared: it is no variable. -/
theorem declareFunction {name : String} {parameters : List String} {closure : Closure}
    (h : Agrees scope hidden f b) :
    Agrees (scope.declareFunction name parameters) hidden (f.bind name closure) b := by
  refine ⟨fun x hx hvariable => ?_, h.holds⟩
  rw [Scope.isFunction, Scope.parameters?_declareFunction] at hvariable
  by_cases hxname : x = name
  · rw [if_pos hxname] at hvariable
    cases hvariable
  · rw [if_neg hxname] at hvariable
    have hx' : x ∈ scope.names := (List.mem_insert_iff.1 hx).resolve_left hxname
    exact h.declared x hx' hvariable

end Agrees

namespace Generate

/-! ## Targets -/

section
variable {context : Context} {block : Text} {hidden : List String} {e : Node α} {cell : Cell}

theorem rightContext_destination : (rightContext context).destination = none := by
  unfold rightContext
  split <;> rfl

/-- A right operand leaves the scratch slot of the operation alone, if that is its target. -/
theorem depth_le_rightContext : context.depth ≤ (rightContext context).depth := by
  unfold rightContext
  split
  · exact le_refl _
  · show context.depth ≤ context.depth + 1
    omega

/-- The target of an operation is the scratch slot of its depth or a variable. -/
theorem target_cases (hfits : context.Fits block hidden) :
    (context.destination = none ∧ target context block = ⟨block, .scratch context.depth⟩
        ∧ (rightContext context).depth = context.depth + 1)
      ∨ ∃ objective x, context.destination = some ⟨objective, .variable x⟩
        ∧ target context block = ⟨objective, .variable x⟩
        ∧ (objective = block → x ∈ hidden) := by
  cases hd : context.destination with
  | none => simp [target, hd, rightContext, Context.scratch, Context.deeper]
  | some cell =>
    obtain ⟨x, hx, hhidden⟩ := hfits cell hd
    right
    obtain ⟨objective, slot⟩ := cell
    obtain rfl : slot = .variable x := hx
    exact ⟨objective, x, rfl, by simp [target, hd], hhidden⟩

theorem fits_withDestination {name : String} :
    (context.withDestination ⟨block, .variable name⟩).Fits block (name :: hidden) := by
  intro cell hd
  cases hd
  exact ⟨name, rfl, fun _ => List.mem_cons_self⟩

theorem target_ne_constant (hfits : context.Fits block hidden) (k : Int) :
    target context block ≠ ⟨block, .constant k⟩ := by
  rcases target_cases hfits with ⟨-, htarget, -⟩ | ⟨_, _, -, htarget, -⟩ <;> simp [htarget]

theorem variable_ne_target (hfits : context.Fits block hidden) {x : String}
    (hx : x ∉ hidden) : (⟨block, .variable x⟩ : Cell) ≠ target context block := by
  rcases target_cases hfits with ⟨-, htarget, -⟩ | ⟨objective, y, -, htarget, hhidden⟩
  · simp [htarget]
  · rw [htarget]
    intro heq
    injection heq with hobjective hslot
    injection hslot with hxy
    exact hx (hxy ▸ hhidden hobjective.symm)

/-- The right operand writes its own result elsewhere. -/
theorem right_target_ne (hfits : context.Fits block hidden) :
    target (rightContext context) block ≠ target context block := by
  have hright : target (rightContext context) block
      = ⟨block, .scratch (rightContext context).depth⟩ := by
    unfold target Context.scratch
    rw [rightContext_destination]
    rfl
  rw [hright]
  rcases target_cases hfits with ⟨-, htarget, hdepth⟩ | ⟨_, _, -, htarget, -⟩
  · simp [htarget, hdepth]
  · simp [htarget]

/-- An expression that spares the hidden variables leaves the target of the operation around
it alone. -/
theorem not_writes_target (hfits : context.Fits block hidden) (hspares : e.Spares hidden) :
    ¬e.Writes block (rightContext context).depth (target context block) := by
  rintro ⟨hobjective, hslot⟩
  rcases target_cases hfits with ⟨-, htarget, hdepth⟩ | ⟨objective, x, -, htarget, hhidden⟩
  · rw [htarget, hdepth] at hslot
    have : context.depth + 1 ≤ context.depth := hslot
    omega
  · rw [htarget] at hobjective hslot
    obtain ⟨hreferences, hintroduced⟩ := hspares x (hhidden hobjective)
    rcases hslot with hassigns | hmem
    · rw [e.references_of_assigns hassigns] at hreferences
      cases hreferences
    · exact hintroduced hmem

/-- What an operation leaves alone is not its target. -/
theorem ne_target_of_not_writes (h : ¬e.Writes block context.depth cell)
    (hd : context.destination ≠ some cell) : cell ≠ target context block := by
  rintro rfl
  unfold target at h hd
  cases hdestination : context.destination with
  | none =>
    rw [hdestination] at h
    exact h ⟨rfl, le_refl _⟩
  | some other =>
    rw [hdestination] at hd
    exact hd rfl

theorem ne_constant_of_not_writes {depth : Int} (h : ¬e.Writes block depth cell) (k : Int) :
    cell ≠ ⟨block, .constant k⟩ := by
  rintro rfl
  exact h ⟨rfl, trivial⟩

end

/-! ## One lemma for each form -/

/-- The commands of a compiled expression are right from every board that agrees with the
frame, whatever is hidden. -/
def Correct (e : Node α) (context : Context) (w w' : Workspace) (v : Value)
    (cs : List Command) : Prop :=
  ∀ hidden f b, e.Spares hidden → context.Fits w.block.name hidden →
    Agrees w.scope hidden f b →
    ∃ n f', Simulates e context w w' v hidden f b (b.executeAll id cs) n f'

section
variable {context : Context} {w w₁ w₂ : Workspace} {name : String} {m : α}

theorem correct_integer {n : Int} :
    Correct (.integer n m) context w w (.constant n) [] := by
  intro hidden f b _ _ hagrees
  exact ⟨n, f, rfl, rfl, hagrees, fun _ _ _ => rfl, rfl, rfl⟩

theorem correct_access (hdeclared : name ∈ w.scope.names)
    (hvariable : w.scope.isFunction name = false) :
    Correct (.access name m) context w w (.stored (w.scope.cell name)) [] := by
  intro hidden f b hspares _ hagrees
  obtain ⟨n, hn⟩ := hagrees.declared name hdeclared hvariable
  have hvisible : name ∉ hidden := by
    intro hmem
    have := (hspares name hmem).1
    simp [Node.references] at this
  exact ⟨n, f, Node.evaluate_access hn, hagrees.holds name n hn hvisible, hagrees,
    fun _ _ _ => rfl, rfl, rfl⟩

/-- Storing the value of an expression in a variable: what is left to show for an assignment
and for a definition. -/
theorem simulates_store {e value : Node α} {inner : Context} {r : Value}
    {hidden hidden' : List String} {f f₁ : Frame} {b b₁ : Board Slot} {n : Int}
    (h : Simulates value inner w w₁ r hidden' f b b₁ n f₁)
    (hhidden : hidden' = hidden ∨ hidden' = name :: hidden)
    (hobjective : w₁.scope.objective = w.block.name)
    (hinner : inner.depth = context.depth)
    (hdestination : inner.destination = none
      ∨ inner.destination = some ⟨w.block.name, .variable name⟩)
    (hwrites : ∀ cell, value.Writes w.block.name context.depth cell →
      e.Writes w.block.name context.depth cell)
    (hname : e.Writes w.block.name context.depth ⟨w.block.name, .variable name⟩)
    (hevaluates : e.evaluate f = some (some n, f₁.assign name n)) :
    Simulates e context w (w₁.emit (storeCommands ⟨w.block.name, .variable name⟩ r))
      (.stored ⟨w.block.name, .variable name⟩) hidden f b
      (b₁.executeAll id (storeCommands ⟨w.block.name, .variable name⟩ r)) n
      (f₁.assign name n) := by
  have hcell : w₁.scope.cell name = ⟨w.block.name, .variable name⟩ := by
    rw [Scope.cell, hobjective]
  have hagrees : Agrees w₁.scope (name :: hidden) f₁ b₁ := by
    rcases hhidden with rfl | rfl
    · exact h.agrees.hide name
    · exact h.agrees
  rw [executeAll_storeCommands h.denotes]
  refine ⟨hevaluates, Board.read_write_same _ _ _, ?_, ?_, h.functions, h.ended⟩
  · rw [← hcell]
    exact hagrees.write n
  · intro cell hcellWrites _
    have hne : cell ≠ ⟨w.block.name, .variable name⟩ := by
      rintro rfl
      exact hcellWrites hname
    rw [Board.read_write_of_ne hne]
    refine h.unchanged cell (fun hw => hcellWrites (hwrites cell ?_)) ?_
    · rw [← hinner]
      exact hw
    · rcases hdestination with hd | hd <;> rw [hd] <;> simp [hne.symm]

/-- A value that reads the variable it is for is computed elsewhere, and nothing more is
hidden; any other one is computed in the cell of the variable, which is hidden meanwhile. -/
theorem assignContext_cases (context : Context) (block : Text) {value : Node α}
    {hidden : List String} (hspares : value.Spares hidden)
    (hname : name ∉ value.introduced) :
    ∃ hidden', (hidden' = hidden ∨ hidden' = name :: hidden) ∧ value.Spares hidden'
      ∧ (assignContext context ⟨block, .variable name⟩ name value).Fits block hidden'
      ∧ (assignContext context ⟨block, .variable name⟩ name value).depth = context.depth
      ∧ ((assignContext context ⟨block, .variable name⟩ name value).destination = none
        ∨ (assignContext context ⟨block, .variable name⟩ name value).destination
          = some ⟨block, .variable name⟩) := by
  unfold assignContext
  by_cases hreads : value.references name = true
  · rw [if_pos hreads]
    exact ⟨hidden, .inl rfl, hspares, (fun cell hd => by cases hd), rfl, .inl rfl⟩
  · rw [if_neg hreads]
    have hspares' := hspares.cons (by simpa using hreads) hname
    exact ⟨name :: hidden, .inr rfl, hspares', fits_withDestination, rfl, .inr rfl⟩

theorem correct_assign {value : Node α} {r : Value} {cs : List Command}
    (hdeclared : name ∈ w.scope.names) (hvariable : w.scope.isFunction name = false)
    (hobjective : w.scope.objective = w.block.name) (hemits : Emits w cs w₁)
    (hnew : name ∉ value.introduced)
    (ih : Correct value (assignContext context (w.scope.cell name) name value) w w₁ r cs) :
    Correct (.assign name value m) context w (w₁.emit (storeCommands (w.scope.cell name) r))
      (.stored (w.scope.cell name)) (cs ++ storeCommands (w.scope.cell name) r) := by
  intro hidden f b hspares _ hagrees
  have hcell : w.scope.cell name = ⟨w.block.name, .variable name⟩ := by
    rw [Scope.cell, hobjective]
  rw [hcell] at ih ⊢
  have hspares' : value.Spares hidden := by
    intro x hx
    obtain ⟨hreferences, hintroduced⟩ := hspares x hx
    rw [Node.references, Bool.or_eq_false_iff] at hreferences
    exact ⟨hreferences.2, hintroduced⟩
  obtain ⟨hidden', hhidden, hspares'', hfits, hdepth, hdestination⟩ :=
    assignContext_cases context w.block.name hspares' hnew
  have hagrees' : Agrees w.scope hidden' f b := by
    rcases hhidden with rfl | rfl
    · exact hagrees
    · exact hagrees.hide name
  obtain ⟨n, f₁, h⟩ := ih hidden' f b hspares'' hfits hagrees'
  obtain ⟨old, hold⟩ := hagrees.declared name hdeclared hvariable
  rw [Board.executeAll_append]
  refine ⟨n, _, simulates_store h hhidden (hemits.objective.trans hobjective) hdepth
    hdestination (fun cell hw => hw.mono ?_ (fun _ hx => hx) (le_refl _)) ?_
    (Node.evaluate_assign hold h.evaluates)⟩
  · intro x hx
    rw [Node.assigns, hx, Bool.or_true]
  · exact ⟨rfl, .inl (by simp [Node.assigns])⟩

theorem correct_define {type : Option String} {value : Node α} {r : Value}
    {cs : List Command} (hobjective : w.scope.objective = w.block.name)
    (hemits : Emits w cs w₁) (hnew : name ∉ value.introduced)
    (hreferences : value.references name = false)
    (ih : Correct value (context.withDestination (w.scope.cell name)) w w₁ r cs) :
    Correct (.define name type value m) context w
      ((w₁.emit (storeCommands (w.scope.cell name) r)).declareVariable name)
      (.stored (w.scope.cell name)) (cs ++ storeCommands (w.scope.cell name) r) := by
  intro hidden f b hspares _ hagrees
  have hcell : w.scope.cell name = ⟨w.block.name, .variable name⟩ := by
    rw [Scope.cell, hobjective]
  rw [hcell] at ih ⊢
  have hspares' : value.Spares hidden := by
    intro x hx
    obtain ⟨href, hintroduced⟩ := hspares x hx
    rw [Node.introduced_define, List.mem_cons, not_or] at hintroduced
    exact ⟨href, hintroduced.2⟩
  obtain ⟨n, f₁, h⟩ := ih (name :: hidden) f b (hspares'.cons hreferences hnew)
    fits_withDestination (hagrees.hide name)
  rw [Board.executeAll_append]
  have hstore : Simulates (.define name type value m) context w
      (w₁.emit (storeCommands ⟨w.block.name, .variable name⟩ r)) _ hidden f b _ n
      (f₁.assign name n) :=
    simulates_store h (.inr rfl) (hemits.objective.trans hobjective) rfl (.inr rfl)
      (fun cell hw => hw.mono (fun x hx => hx) (by simp) (le_refl _))
      ⟨rfl, .inr (by simp)⟩ (Node.evaluate_define h.evaluates)
  exact ⟨n, _, hstore.evaluates, hstore.denotes,
    hstore.agrees.declare (Frame.assign_value_self ..), hstore.unchanged, hstore.functions,
    hstore.ended⟩

/-- A left operand that is kept still stands for its number, and only the target of the
operation may have changed. -/
theorem Kept.denotes {t : Cell} {left right : Node α} {a a' : Value} {kept : List Command}
    {b : Board Slot} {n : Int} (h : Kept t left right a a' kept) (ha : a.Denotes b n) :
    a'.Denotes (b.executeAll id kept) n
      ∧ ∀ cell, cell ≠ t → (b.executeAll id kept).read id cell = b.read id cell := by
  cases h with
  | stays _ => exact ⟨ha, fun _ _ => rfl⟩
  | copied source =>
    rw [executeAll_copyCommands]
    obtain rfl : b.read id source = n := ha
    exact ⟨Board.read_write_same _ _ _, fun cell hcell => Board.read_write_of_ne hcell _ _⟩

/-- The right operand does not change the cell that a left operand is kept in. -/
theorem Kept.not_writes {left right : Node α} {a a' : Value} {kept : List Command}
    {hidden : List String} {cell : Cell}
    (h : Kept (target context w.block.name) left right a a' kept)
    (first : Lowering context left w a w₁) (hleft : left.isDefinition = false)
    (hfits : context.Fits w.block.name hidden) (hspares : right.Spares hidden)
    (hnew : ∀ x ∈ right.introduced, x ∉ w₁.scope.names) (ha' : a' = .stored cell) :
    ¬right.Writes w.block.name (rightContext context).depth cell := by
  cases h with
  | copied source =>
    obtain rfl : target context w.block.name = cell := by simpa using ha'
    exact not_writes_target hfits hspares
  | stays hassigns =>
    rcases first.place hleft ha' with rfl | ⟨x, hx, hdeclared, rfl⟩
    · exact not_writes_target hfits hspares
    · rintro ⟨-, hassigned | hintroduced⟩
      · rw [hassigns x _ hx ha'] at hassigned
        cases hassigned
      · exact hnew x hintroduced hdeclared

/-- The value of the right operand is not in the target of the operation. -/
theorem right_ne_target {right : Node α} {c : Value} {hidden : List String}
    (second : Lowering (rightContext context) right w c w₂)
    (hright : right.isDefinition = false) (hobjective : w.scope.objective = w.block.name)
    (hfits : context.Fits w.block.name hidden) (hspares : right.Spares hidden) :
    c ≠ .stored (target context w.block.name) := by
  intro hc
  rcases second.place hright hc with heq | ⟨x, hx, -, heq⟩
  · exact right_target_ne hfits heq.symm
  · have hvisible : x ∉ hidden := by
      intro hmem
      have hreferences := (hspares x hmem).1
      rw [Node.references_of_storedVariable? hx] at hreferences
      cases hreferences
    rw [Scope.cell, hobjective] at heq
    exact variable_ne_target hfits hvisible heq.symm

theorem correct_binary {op : Operator} {left right : Node α} {a a' c : Value}
    {cs₁ kept cs₂ : List Command} (hobjective : w.scope.objective = w.block.name)
    (hleft : left.isDefinition = false) (hright : right.isDefinition = false)
    (first : Lowering context left w a w₁) (hemits₁ : Emits w cs₁ w₁)
    (keep : Kept (target context w.block.name) left right a a' kept)
    (second : Lowering (rightContext context) right (w₁.emit kept) c w₂)
    (hemits₂ : Emits (w₁.emit kept) cs₂ w₂)
    (hdivisor : ∀ x y, a' = .constant x → c = .constant y → op = .divide → y ≠ 0)
    (ih₁ : Correct left context w w₁ a cs₁)
    (ih₂ : Correct right (rightContext context) (w₁.emit kept) w₂ c cs₂) :
    Correct (.binary op left right m) context w
      (w₂.emit (combineCommands w₂.block.name op (target context w.block.name) a' c))
      (combined op (target context w.block.name) a' c)
      (((cs₁ ++ kept) ++ cs₂)
        ++ combineCommands w₂.block.name op (target context w.block.name) a' c) := by
  intro hidden f b hspares hfits hagrees
  have hblock₁ : (w₁.emit kept).block.name = w.block.name := hemits₁.block_name
  have hblock₂ : w₂.block.name = w.block.name := hemits₂.block_name.trans hblock₁
  have hobjective₁ : (w₁.emit kept).scope.objective = (w₁.emit kept).block.name := by
    rw [hblock₁, ← hobjective]
    exact hemits₁.objective
  rw [Board.executeAll_append, Board.executeAll_append, Board.executeAll_append]
  -- the left operand, which may be copied away
  obtain ⟨n₁, f₁, h₁⟩ := ih₁ hidden f b hspares.left hfits hagrees
  set b₁ := b.executeAll id cs₁
  obtain ⟨hkept, hkeptFrame⟩ := keep.denotes h₁.denotes
  set b₂ := b₁.executeAll id kept
  have hagrees₁ : Agrees (w₁.emit kept).scope hidden f₁ b₂ := by
    refine h₁.agrees.congr fun x hx => hkeptFrame _ ?_
    rw [Scope.cell, hemits₁.objective, hobjective]
    exact variable_ne_target hfits hx
  -- the right operand, which leaves the left one where it is
  have hnone : (rightContext context).Fits (w₁.emit kept).block.name hidden := by
    intro cell hd
    rw [rightContext_destination] at hd
    cases hd
  obtain ⟨n₂, f₂, h₂⟩ := ih₂ hidden f₁ b₂ hspares.right hnone hagrees₁
  set b₃ := b₂.executeAll id cs₂
  have hunchanged : ∀ cell, ¬right.Writes w.block.name (rightContext context).depth cell →
      b₃.read id cell = b₂.read id cell := by
    intro cell hcell
    refine h₂.unchanged cell (by rwa [hblock₁]) ?_
    rw [rightContext_destination]
    simp
  have hkept₂ : a'.Denotes b₃ n₁ := by
    cases a' with
    | constant x => exact hkept
    | stored cell =>
      have hcell := keep.not_writes first hleft hfits hspares.right second.grows.new rfl
      exact (hunchanged cell hcell).trans hkept
    | undefined _ => exact hkept
    | function _ => exact hkept
  have hdistinct : c ≠ .stored (target context w.block.name) := by
    rw [← hblock₁] at hfits ⊢
    exact right_ne_target second hright hobjective₁ hfits hspares.right
  -- and the operation itself
  rw [hblock₂]
  have hcombined := executeAll_combineCommands hkept₂ h₂.denotes (target_ne_constant hfits)
    hdistinct hdivisor
  set b₄ := b₃.executeAll id
    (combineCommands w.block.name op (target context w.block.name) a' c)
  obtain ⟨hdenotes, hframe⟩ := hcombined
  refine ⟨op.apply n₁ n₂, f₂, Node.evaluate_binary h₁.evaluates h₂.evaluates, hdenotes, ?_, ?_,
    h₂.functions.trans h₁.functions, h₂.ended.trans h₁.ended⟩
  · refine h₂.agrees.congr fun x hx => hframe _ ?_ fun k => ?_
    · rw [Scope.cell, hemits₂.objective, hobjective₁, hblock₁]
      exact variable_ne_target hfits hx
    · rw [Scope.cell]
      simp
  · intro cell hcell hd
    have htarget := ne_target_of_not_writes hcell hd
    have hcell₁ : ¬left.Writes w.block.name context.depth cell := by
      refine fun hw => hcell (hw.mono (fun x hx => ?_) (by simp) (le_refl _))
      rw [Node.assigns, hx, Bool.true_or]
    have hcell₂ : ¬right.Writes w.block.name (rightContext context).depth cell := by
      refine fun hw => hcell (hw.mono (fun x hx => ?_) (by simp) depth_le_rightContext)
      rw [Node.assigns, hx, Bool.or_true]
    calc b₄.read id cell = b₃.read id cell :=
          hframe cell htarget (ne_constant_of_not_writes hcell)
      _ = b₂.read id cell := hunchanged cell hcell₂
      _ = b₁.read id cell := hkeptFrame cell htarget
      _ = b.read id cell := h₁.unchanged cell hcell₁ hd

end

/-! ## Every expression -/

/-- The commands of a compiled expression compute what the interpreter computes. -/
theorem Lowering.exists_correct {context : Context} {e : Node α} {w w' : Workspace}
    {v : Value} (h : Lowering context e w v w') (hobjective : w.scope.objective = w.block.name)
    (hregular : ∀ x ∈ e.tree, x.Regular) :
    ∃ cs, Emits w cs w' ∧ Correct e context w w' v cs := by
  induction h with
  | integer => exact ⟨[], .refl _, correct_integer⟩
  | access declared isVariable => exact ⟨[], .refl _, correct_access declared isVariable⟩
  | @assign context name value m w w₁ r declared isVariable inner ih =>
    obtain ⟨cs, hemits, hcorrect⟩ := ih hobjective fun x hx =>
      hregular x (Node.mem_tree_of_child (by simp [Node.children]) hx)
    have hnew : name ∉ value.introduced := fun hmem => inner.grows.new name hmem declared
    exact ⟨_, hemits.trans (.emit _ _),
      correct_assign declared isVariable hobjective hemits hnew hcorrect⟩
  | @define context name type value m w w₁ r new inner ih =>
    obtain ⟨cs, hemits, hcorrect⟩ := ih hobjective fun x hx =>
      hregular x (Node.mem_tree_of_child (by simp [Node.children]) hx)
    have hnew : name ∉ value.introduced := hregular _ (Node.self_mem_tree _)
    have hreferences : value.references name = false := by
      by_contra hreads
      rcases inner.references (by simpa using hreads) with hdeclared | hintroduced
      · exact new hdeclared
      · exact hnew hintroduced
    refine ⟨_, (hemits.trans (.emit _ _)).trans (.declareVariable _ _), ?_⟩
    rw [List.append_nil]
    exact correct_define hobjective hemits hnew hreferences hcorrect
  | @binary context op left right m w w₁ w₂ a a' c kept first keep second divisor ih₁ ih₂ =>
    obtain ⟨hleft, hright⟩ : left.isDefinition = false ∧ right.isDefinition = false :=
      hregular _ (Node.self_mem_tree _)
    obtain ⟨cs₁, hemits₁, hcorrect₁⟩ := ih₁ hobjective fun x hx =>
      hregular x (Node.mem_tree_of_child (by simp [Node.children]) hx)
    have hobjective₁ : (w₁.emit kept).scope.objective = (w₁.emit kept).block.name :=
      hemits₁.objective.trans (hobjective.trans hemits₁.block_name.symm)
    obtain ⟨cs₂, hemits₂, hcorrect₂⟩ := ih₂ hobjective₁ fun x hx =>
      hregular x (Node.mem_tree_of_child (by simp [Node.children]) hx)
    exact ⟨_, ((hemits₁.trans (.emit _ kept)).trans hemits₂).trans (.emit _ _),
      correct_binary hobjective hleft hright first hemits₁ keep second hemits₂ divisor hcorrect₁
        hcorrect₂⟩

/-- The same for the commands that are known to be those of the expression. -/
theorem Lowering.correct {context : Context} {e : Node α} {w w' : Workspace} {v : Value}
    {cs : List Command} (h : Lowering context e w v w')
    (hobjective : w.scope.objective = w.block.name) (hregular : ∀ x ∈ e.tree, x.Regular)
    (hcs : Emits w cs w') : Correct e context w w' v cs := by
  obtain ⟨ds, hds, hcorrect⟩ := h.exists_correct hobjective hregular
  rwa [hcs.unique hds]

end Generate

end Scoreboard
