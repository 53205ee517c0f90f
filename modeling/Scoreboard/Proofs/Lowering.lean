import Mathlib
import Scoreboard.Proofs.Declarations
import Scoreboard.Proofs.Generated
import Scoreboard.Proofs.Machine

/-!
# Compiled expressions

An expression with an integer value contains no call, no function and no raw command, so its
compilation is a matter of five forms. `Lowering` describes it as a derivation, one rule for
each form, with the workspaces in between; `lowering_of_compile` finds the derivation of a
compiled expression. All that is proved about compiled expressions goes by induction on it:

* it only adds simple commands to the block and names to the scope (`Lowering.emits`);
* it touches only variables that are declared by then (`Lowering.references`);
* its value is a constant, in the target of an operation, or in a variable
  (`Lowering.place`).

What has no integer value is compiled for its effect alone. There are five more forms of that
kind (`Effect`, `effect_of_compile`), so every successful compilation is one of ten cases.
-/

namespace Scoreboard

variable {α : Type}

/-! ## Growing workspaces -/

/-- A workspace that is left with more commands in its block and more variables in its
scope, and is otherwise the same. -/
structure Emits (w : Workspace) (commands : List Command) (w' : Workspace) : Prop where
  block : w'.block = ⟨w.block.name, w.block.commands ++ commands⟩
  finished : w'.finished = w.finished
  taken : w'.taken = w.taken
  objective : w'.scope.objective = w.scope.objective
  functions : w'.scope.functions = w.scope.functions

namespace Emits

variable {w w₁ w₂ : Workspace} {cs ds : List Command}

theorem refl (w : Workspace) : Emits w [] w :=
  ⟨by simp, rfl, rfl, rfl, rfl⟩

theorem emit (w : Workspace) (cs : List Command) : Emits w cs (w.emit cs) :=
  ⟨rfl, rfl, rfl, rfl, rfl⟩

/-- Declaring a variable emits nothing. -/
theorem declareVariable (w : Workspace) (name : String) :
    Emits w [] (w.declareVariable name) :=
  ⟨by simp [Workspace.declareVariable], rfl, rfl, rfl, rfl⟩

/-- Commands emitted one list after the other. -/
theorem trans (h₁ : Emits w cs w₁) (h₂ : Emits w₁ ds w₂) : Emits w (cs ++ ds) w₂ := by
  refine ⟨?_, h₂.finished.trans h₁.finished, h₂.taken.trans h₁.taken,
    h₂.objective.trans h₁.objective, h₂.functions.trans h₁.functions⟩
  rw [h₂.block, h₁.block, List.append_assoc]

/-- The commands are those that were added. -/
theorem unique (h₁ : Emits w cs w₁) (h₂ : Emits w ds w₁) : cs = ds := by
  have h := h₁.block.symm.trans h₂.block
  injection h with _ hcommands
  exact List.append_cancel_left hcommands

/-- The block stays the same. -/
theorem block_name (h : Emits w cs w₁) : w₁.block.name = w.block.name := by
  rw [h.block]

/-- The variables keep their cells. -/
theorem cell (h : Emits w cs w₁) (name : String) : w₁.scope.cell name = w.scope.cell name := by
  unfold Scope.cell
  rw [h.objective]

end Emits

namespace Generate

/-! ## Derivations -/

/-- What becomes of the value of a left operand, and the commands for it: it stays where it
is if the right operand does not assign to the variable it is in, or it is copied. -/
inductive Kept (target : Cell) (left right : Node α) : Value → Value → List Command → Prop
  | stays {value : Value} (h : ∀ name source, left.storedVariable? = some name →
      value = .stored source → right.assigns name = false) :
      Kept target left right value value []
  | copied (source : Cell) :
      Kept target left right (.stored source) (.stored target) (copyCommands target source)

/-- The compilation of an expression with an integer value. -/
inductive Lowering : Context → Node α → Workspace → Value → Workspace → Prop
  | integer {context : Context} {n : Int} {m : α} {w : Workspace}
      (range : inScoreRange n = true) :
      Lowering context (.integer n m) w (.constant n) w
  | access {context : Context} {name : String} {m : α} {w : Workspace}
      (declared : name ∈ w.scope.names) (isVariable : w.scope.isFunction name = false) :
      Lowering context (.access name m) w (.stored (w.scope.cell name)) w
  | assign {context : Context} {name : String} {value : Node α} {m : α} {w w₁ : Workspace}
      {r : Value} (declared : name ∈ w.scope.names)
      (isVariable : w.scope.isFunction name = false)
      (inner : Lowering (assignContext context (w.scope.cell name) name value) value w r w₁) :
      Lowering context (.assign name value m) w (.stored (w.scope.cell name))
        (w₁.emit (storeCommands (w.scope.cell name) r))
  | define {context : Context} {name : String} {type : Option String} {value : Node α} {m : α}
      {w w₁ : Workspace} {r : Value} (new : name ∉ w.scope.names)
      (inner : Lowering (context.withDestination (w.scope.cell name)) value w r w₁) :
      Lowering context (.define name type value m) w (.stored (w.scope.cell name))
        ((w₁.emit (storeCommands (w.scope.cell name) r)).declareVariable name)
  | binary {context : Context} {op : Operator} {left right : Node α} {m : α}
      {w w₁ w₂ : Workspace} {a a' b : Value} {kept : List Command}
      (first : Lowering context left w a w₁)
      (keep : Kept (target context w.block.name) left right a a' kept)
      (second : Lowering (rightContext context) right (w₁.emit kept) b w₂)
      (divisor : ∀ x y, a' = .constant x → b = .constant y → op = .divide → y ≠ 0) :
      Lowering context (.binary op left right m) w
        (combined op (target context w.block.name) a' b)
        (w₂.emit (combineCommands w₂.block.name op (target context w.block.name) a' b))

variable {space : Text} {context : Context} {w w' : Workspace} {v : Value} {e : Node α}

/-- The generator keeps a left operand in one of the two ways. -/
theorem kept_of_keepValue {target : Cell} {left right : Node α} {a a' : Value}
    (h : keepValue target left right a w = .ok a' w') :
    ∃ kept, Kept target left right a a' kept ∧ w' = w.emit kept := by
  rcases keepValue_ok h with ⟨rfl, rfl, hstays⟩ | ⟨source, rfl, rfl, rfl⟩
  · exact ⟨[], .stays hstays, (Workspace.emit_nil _).symm⟩
  · exact ⟨_, .copied source, rfl⟩

/-- A value that is kept is an integer if it was one. -/
theorem Kept.type_eq {target : Cell} {left right : Node α} {a a' : Value}
    {kept : List Command} (h : Kept target left right a a' kept) : a.type = a'.type := by
  cases h <;> rfl

/-- Combined values are integers. -/
theorem combined_type (op : Operator) (target : Cell) (a b : Value) :
    (combined op target a b).type = .int := by
  cases a <;> cases b <;> rfl

/-- A combined value that is stored is in the target. -/
theorem eq_of_combined_eq_stored {op : Operator} {target cell : Cell} {a b : Value}
    (h : combined op target a b = .stored cell) : cell = target := by
  unfold combined at h
  split at h
  · cases h
  · exact (Value.stored.inj h).symm

/-- An expression that compiles to an integer has a derivation. -/
theorem lowering_of_compile (h : compile space context e w = .ok v w') (hv : v.type = .int) :
    Lowering context e w v w' := by
  induction e using Node.induction generalizing context w v w' with
  | step e ih =>
    cases e with
    | declare name type m =>
      obtain ⟨-, rfl, -⟩ := compile_declare_ok h
      cases hv
    | define name type value m =>
      obtain ⟨hnew, rfl, r, w₁, hvalue, hr, rfl⟩ := compile_define_ok h
      have hinner := ih value (by simp [Node.children]) hvalue hr
      exact .define hnew hinner
    | assign name value m =>
      obtain ⟨hname, hvariable, rfl, r, w₁, hvalue, hr, rfl⟩ := compile_assign_ok h
      have hinner := ih value (by simp [Node.children]) hvalue hr
      exact .assign hname hvariable hinner
    | function name parameters result body m =>
      obtain ⟨-, -, rfl, -⟩ := compile_function_ok h
      cases hv
    | call name arguments m =>
      obtain ⟨-, rfl, -⟩ := compile_call_ok h
      cases hv
    | raw text m =>
      obtain ⟨rfl, -⟩ := compile_raw_ok h
      cases hv
    | binary op left right m =>
      obtain ⟨a, w₁, a', w₂, b, w₃, hleft, hkeep, hright, ha, hb, rfl, rfl, hdivisor⟩ :=
        compile_binary_ok h
      obtain ⟨kept, hkept, rfl⟩ := kept_of_keepValue hkeep
      have hfirst := ih left (by simp [Node.children]) hleft (hkept.type_eq.trans ha)
      have hsecond := ih right (by simp [Node.children]) hright hb
      exact .binary hfirst hkept hsecond hdivisor
    | integer n m =>
      obtain ⟨hrange, rfl, rfl⟩ := compile_integer_ok h
      exact .integer hrange
    | string text m => exact (compile_string_ne_ok h).elim
    | access name m =>
      obtain ⟨hname, rfl, rfl⟩ := compile_access_ok h
      by_cases hf : w'.scope.isFunction name = true
      · rw [if_pos hf] at hv
        cases hv
      · rw [if_neg hf]
        exact .access hname (by simpa using hf)

/-! ## Nodes without a value -/

/-- The compilation of a node that has no integer value: what it changes in the workspace. -/
inductive Effect (space : Text) (context : Context) : Node α → Workspace → Workspace → Prop
  | declare {name : String} {type : Option String} {m : α} {w : Workspace}
      (new : name ∉ w.scope.names) :
      Effect space context (.declare name type m) w (w.declareVariable name)
  | function {name : String} {parameters : List (Parameter α)} {result : Option String}
      {body : List (Node α)} {m : α} {w w₁ w₂ : Workspace} (free : (name : Text) ∉ w.taken)
      (new : name ∉ w.scope.names)
      (declared : declareParameters parameters (w.enter name) = .ok () w₁)
      (inner : compileBody space body w₁ = .ok () w₂) :
      Effect space context (.function name parameters result body m) w
        ((w.leave w₂.finish).declareFunction name (parameters.map (·.name)))
  | call {name : String} {arguments : List (Node α)} {m : α} {w w₁ : Workspace}
      {parameters : List String} (found : w.scope.parameters? name = some parameters)
      (length : parameters.length = arguments.length)
      (passed : compileArguments space context name parameters arguments
        (w.emit (openCommands name parameters)) = .ok () w₁) :
      Effect space context (.call name arguments m) w (w₁.emit [.call space name])
  | raw {text : String} {m : α} {w : Workspace} :
      Effect space context (.raw text m) w (w.emit [.raw text])
  | access {name : String} {m : α} {w : Workspace} (isFunction : w.scope.isFunction name = true) :
      Effect space context (.access name m) w w

/-- A node that compiles to no integer is compiled for its effect. -/
theorem effect_of_compile (h : compile space context e w = .ok v w') (hv : v.type ≠ .int) :
    Effect space context e w w' := by
  cases e with
  | declare name type m =>
    obtain ⟨hnew, -, rfl⟩ := compile_declare_ok h
    exact .declare hnew
  | define name type value m =>
    obtain ⟨-, rfl, -⟩ := compile_define_ok h
    exact (hv rfl).elim
  | assign name value m =>
    obtain ⟨-, -, rfl, -⟩ := compile_assign_ok h
    exact (hv rfl).elim
  | function name parameters result body m =>
    obtain ⟨hfree, hnew, -, w₁, w₂, hparameters, hbody, rfl⟩ := compile_function_ok h
    exact .function hfree hnew hparameters hbody
  | call name arguments m =>
    obtain ⟨-, -, parameters, w₁, hparameters, hlength, harguments, rfl⟩ := compile_call_ok h
    exact .call hparameters hlength harguments
  | raw text m =>
    obtain ⟨-, rfl⟩ := compile_raw_ok h
    exact .raw
  | binary op left right m =>
    obtain ⟨a, w₁, a', w₂, b, w₃, -, -, -, -, -, rfl, -⟩ := compile_binary_ok h
    exact (hv (combined_type ..)).elim
  | integer n m =>
    obtain ⟨-, rfl, -⟩ := compile_integer_ok h
    exact (hv rfl).elim
  | string text m => exact (compile_string_ne_ok h).elim
  | access name m =>
    obtain ⟨-, rfl, rfl⟩ := compile_access_ok h
    by_cases hf : w'.scope.isFunction name = true
    · exact .access hf
    · rw [if_neg hf] at hv
      exact (hv rfl).elim

/-! ## What a derivation adds -/

/-- What an expression may touch in a context: scratch slots and constants, the declared
variables, and the destination. -/
structure Allows (P : Cell → Prop) (context : Context) (w : Workspace) : Prop where
  constant : ∀ n, P ⟨w.block.name, .constant n⟩
  scratch : ∀ k, context.depth ≤ k → P ⟨w.block.name, .scratch k⟩
  names : ∀ x ∈ w.scope.names, P (w.scope.cell x)
  destination : ∀ cell, context.destination = some cell → P cell

section
variable {P : Cell → Prop}

/-- An expression may touch the cell it computes in. -/
theorem Allows.target (h : Allows P context w) : P (target context w.block.name) := by
  unfold Generate.target
  cases hd : context.destination with
  | none => exact h.scratch _ (le_refl _)
  | some cell => exact h.destination cell hd

theorem Allows.withDestination {cell : Cell} (h : Allows P context w) (hcell : P cell) :
    Allows P (context.withDestination cell) w :=
  ⟨h.constant, h.scratch, h.names, fun other hother => by cases hother; exact hcell⟩

theorem Allows.cleared (h : Allows P context w) : Allows P context.cleared w :=
  ⟨h.constant, h.scratch, h.names, fun cell hcell => by cases hcell⟩

/-- What the whole operation may touch the right operand may touch. -/
theorem Allows.right (h : Allows P context w) : Allows P (rightContext context) w := by
  unfold rightContext
  split
  · exact h.cleared
  · refine ⟨h.constant, fun k hk => h.scratch k ?_, h.names, fun cell hcell => by cases hcell⟩
    have hk : context.depth + 1 ≤ k := hk
    omega

theorem touches_copyCommands {target source : Cell} (ht : P target) (hs : P source) :
    ∀ c ∈ copyCommands target source, c.Touches P := by
  unfold copyCommands
  split
  · simp
  · simpa [Command.Touches] using ⟨ht, hs⟩

theorem touches_constantCommands {block : Text} {op : Operator} {target : Cell} {n : Int}
    (ht : P target) (hn : P ⟨block, .constant n⟩) :
    ∀ c ∈ constantCommands block op target n, c.Touches P := by
  have hvia : ∀ c ∈ ([.set ⟨block, .constant n⟩ n, .operate op target ⟨block, .constant n⟩] :
      List Command), c.Touches P := by
    simpa [Command.Touches] using ⟨hn, ht, hn⟩
  cases op <;> simp only [constantCommands] <;> (try split_ifs) <;>
    first | exact hvia | simpa [Command.Touches] using ht

/-- Storing a value touches its target and the cell the value is in. -/
theorem touches_storeCommands {target : Cell} {v : Value} (ht : P target)
    (hv : ∀ cell, v = .stored cell → P cell) :
    ∀ c ∈ storeCommands target v, c.Touches P := by
  cases v with
  | stored source => exact touches_copyCommands ht (hv source rfl)
  | constant n => simpa [storeCommands, Command.Touches] using ht
  | _ => simp [storeCommands]

/-- Combining values touches the target, constants and the cells of the values. -/
theorem touches_combineCommands {block : Text} {op : Operator} {target : Cell}
    {a b : Value} (ht : P target) (hconstant : ∀ n, P ⟨block, .constant n⟩)
    (ha : ∀ cell, a = .stored cell → P cell) (hb : ∀ cell, b = .stored cell → P cell) :
    ∀ c ∈ combineCommands block op target a b, c.Touches P := by
  cases a with
  | stored x =>
    have hcopy := touches_copyCommands ht (ha x rfl)
    cases b with
    | stored y =>
      rw [combineCommands, List.forall_mem_append]
      exact ⟨hcopy, by simpa [Command.Touches] using ⟨ht, hb y rfl⟩⟩
    | constant n =>
      rw [combineCommands, List.forall_mem_append]
      exact ⟨hcopy, touches_constantCommands ht (hconstant n)⟩
    | _ => simp [combineCommands]
  | constant n =>
    cases b with
    | stored y => simpa [combineCommands, Command.Touches] using ⟨ht, hb y rfl⟩
    | _ => simp [combineCommands]
  | _ => simp [combineCommands]

/-- Keeping a value touches the target and the cell the value is in, and leaves it in one of
them. -/
theorem Kept.touches {target : Cell} {left right : Node α} {a a' : Value}
    {kept : List Command} (h : Kept target left right a a' kept) (ht : P target)
    (ha : ∀ cell, a = .stored cell → P cell) :
    (∀ c ∈ kept, c.Touches P) ∧ ∀ cell, a' = .stored cell → P cell := by
  cases h with
  | stays h => exact ⟨by simp, ha⟩
  | copied source =>
    refine ⟨touches_copyCommands ht (ha source rfl), fun cell hcell => ?_⟩
    cases hcell
    exact ht

end

/-- A derivation adds exactly the names that the expression introduces. -/
theorem Lowering.grows (h : Lowering context e w v w') :
    Grows w.scope.names w'.scope.names e.introduced := by
  induction h with
  | integer => exact Grows.refl _
  | access => exact Grows.refl _
  | assign _ _ _ ih => exact ih
  | define new _ ih => exact ih.insert new
  | binary _ _ _ _ ih₁ ih₂ =>
    rw [Node.introduced_binary]
    exact ih₁.append ih₂

/-- A derivation only adds commands that change scores, and only in cells that the
expression may touch. -/
theorem Lowering.emits {P : Cell → Prop} (h : Lowering context e w v w')
    (hallows : Allows P context w) (hnew : ∀ x ∈ e.introduced, P (w.scope.cell x)) :
    ∃ cs, Emits w cs w' ∧ (∀ c ∈ cs, c.Touches P) ∧ ∀ cell, v = .stored cell → P cell := by
  induction h with
  | integer => exact ⟨[], .refl _, by simp, fun cell hcell => by cases hcell⟩
  | @access context name m w declared isVariable =>
    refine ⟨[], .refl _, by simp, fun cell hcell => ?_⟩
    cases hcell
    exact hallows.names name declared
  | @assign context name value m w w₁ r declared isVariable inner ih =>
    have hname : P (w.scope.cell name) := hallows.names name declared
    have hinner : Allows P (assignContext context (w.scope.cell name) name value) w := by
      unfold assignContext
      split
      · exact hallows.cleared
      · exact hallows.withDestination hname
    obtain ⟨cs, hemits, htouches, hplace⟩ := ih hinner hnew
    refine ⟨_, hemits.trans (.emit w₁ _), ?_, fun cell hcell => ?_⟩
    · exact List.forall_mem_append.2 ⟨htouches, touches_storeCommands hname hplace⟩
    · cases hcell
      exact hname
  | @define context name type value m w w₁ r new inner ih =>
    have hname : P (w.scope.cell name) := hnew name (by simp)
    obtain ⟨cs, hemits, htouches, hplace⟩ := ih (hallows.withDestination hname)
      fun x hx => hnew x (by simp [hx])
    refine ⟨_, (hemits.trans (.emit w₁ _)).trans (.declareVariable _ name), ?_,
      fun cell hcell => ?_⟩
    · rw [List.append_nil]
      exact List.forall_mem_append.2 ⟨htouches, touches_storeCommands hname hplace⟩
    · cases hcell
      exact hname
  | @binary context op left right m w w₁ w₂ a a' b kept first keep second divisor ih₁ ih₂ =>
    have htarget := hallows.target
    obtain ⟨cs₁, hemits₁, htouches₁, hplace₁⟩ := ih₁ hallows fun x hx => hnew x (by simp [hx])
    obtain ⟨htouchesKept, hplace'⟩ := keep.touches htarget hplace₁
    have hkept := hemits₁.trans (.emit w₁ kept)
    have hright : Allows P (rightContext context) (w₁.emit kept) := by
      have h₁ := hallows.right
      refine ⟨fun n => ?_, fun k hk => ?_, fun x hx => ?_, h₁.destination⟩
      · rw [hkept.block_name]
        exact h₁.constant n
      · rw [hkept.block_name]
        exact h₁.scratch k hk
      · rw [hkept.cell]
        -- what the left operand declared is there for the right one
        rcases (first.grows.mem x).1 hx with hx | hx
        · exact hnew x (by simp [hx])
        · exact hallows.names x hx
    obtain ⟨cs₂, hemits₂, htouches₂, hplace₂⟩ := ih₂ hright fun x hx => by
      rw [hkept.cell]
      exact hnew x (by simp [hx])
    have hblock := (hkept.trans hemits₂).block_name
    refine ⟨_, (hkept.trans hemits₂).trans (.emit w₂ _), ?_, fun cell hcell => ?_⟩
    · simp only [List.forall_mem_append]
      refine ⟨⟨⟨htouches₁, htouchesKept⟩, htouches₂⟩, ?_⟩
      rw [hblock]
      exact touches_combineCommands htarget hallows.constant hplace' hplace₂
    · rw [eq_of_combined_eq_stored hcell]
      exact htarget

/-- A derivation emits commands that touch cells only. -/
theorem Lowering.exists_emits (h : Lowering context e w v w') :
    ∃ cs, Emits w cs w' ∧ ∀ c ∈ cs, c.Touches fun _ => True := by
  obtain ⟨cs, hemits, htouches, -⟩ := h.emits (P := fun _ => True)
    ⟨fun _ => trivial, fun _ _ => trivial, fun _ _ => trivial, fun _ _ => trivial⟩
    fun _ _ => trivial
  exact ⟨cs, hemits, htouches⟩

/-- An expression touches only variables that are declared, or that it declares itself. -/
theorem Lowering.references (h : Lowering context e w v w') {x : String}
    (hx : e.references x = true) : x ∈ w.scope.names ∨ x ∈ e.introduced := by
  induction h with
  | integer => cases hx
  | access declared _ =>
    obtain rfl := eq_of_beq hx
    exact .inl declared
  | assign declared _ _ ih =>
    rw [Node.references, Bool.or_eq_true] at hx
    rcases hx with hx | hx
    · obtain rfl := eq_of_beq hx
      exact .inl declared
    · exact ih hx
  | define _ _ ih =>
    rw [Node.introduced_define, List.mem_cons]
    exact (ih hx).imp_right .inr
  | binary first _ _ _ ih₁ ih₂ =>
    rw [Node.references, Bool.or_eq_true] at hx
    rw [Node.introduced_binary, List.mem_append]
    rcases hx with hx | hx
    · exact (ih₁ hx).imp_right .inl
    · rcases ih₂ hx with hx | hx
      · rcases (first.grows.mem x).1 hx with hx | hx
        · exact .inr (.inl hx)
        · exact .inl hx
      · exact .inr (.inr hx)

/-- The value of an expression that defines nothing itself is a constant, in the target of
an operation, or in a variable that the expression names. -/
theorem Lowering.place {cell : Cell} (h : Lowering context e w v w')
    (he : e.isDefinition = false) (hv : v = .stored cell) :
    cell = target context w.block.name
      ∨ ∃ x, e.storedVariable? = some x ∧ x ∈ w'.scope.names ∧ cell = w.scope.cell x := by
  cases h with
  | integer => cases hv
  | @access _ name _ _ declared _ =>
    cases hv
    exact .inr ⟨name, rfl, declared, rfl⟩
  | @assign _ name _ _ _ w₁ _ declared _ inner =>
    cases hv
    exact .inr ⟨name, rfl, (inner.grows.mem name).2 (.inr declared), rfl⟩
  | define => cases he
  | binary => exact .inl (eq_of_combined_eq_stored hv)

end Generate

end Scoreboard
