import Mathlib
import Scoreboard.Compilation
import Scoreboard.Proofs.Steps
import Scoreboard.Proofs.Trees

/-!
# What a successful compilation did

The generator is a step on a workspace. This file takes each of its successful runs apart,
once for every form of node: which checks were passed, which parts were compiled in which
workspaces, and which commands were added. All that is proved about compiled scripts starts
from these lemmas and never opens the generator again.

The commands that a helper adds are functions of its arguments alone (`copyCommands`,
`storeCommands`, `combineCommands`), so a run is described by `Workspace.emit`.
-/

namespace Scoreboard

/-! ## Changes of a workspace -/

namespace Workspace

/-- The workspace with more commands in its block. -/
def emit (commands : List Command) (w : Workspace) : Workspace :=
  { w with block := { w.block with commands := w.block.commands ++ commands } }

/-- The workspace with one more variable in its scope. -/
def declareVariable (name : String) (w : Workspace) : Workspace :=
  { w with scope := w.scope.declareVariable name }

/-- The workspace with one more function in its scope. -/
def declareFunction (name : String) (parameters : List String) (w : Workspace) : Workspace :=
  { w with scope := w.scope.declareFunction name parameters }

@[simp] theorem emit_nil (w : Workspace) : w.emit [] = w := by
  simp [emit]

/-- Commands emitted one list after the other are emitted in that order. -/
@[simp] theorem emit_emit (cs ds : List Command) (w : Workspace) :
    (w.emit cs).emit ds = w.emit (cs ++ ds) := by
  simp [emit]

end Workspace

namespace Scope

/-- The scope with more variables. -/
def declareVariables (names : List String) (scope : Scope) : Scope :=
  names.foldl (fun scope name => scope.declareVariable name) scope

/-- A declared name is added to those of the scope. -/
theorem mem_declareVariable {x name : String} {scope : Scope} :
    x ∈ (scope.declareVariable name).names ↔ x = name ∨ x ∈ scope.names :=
  List.mem_insert_iff

/-- Declared names are added to those of the scope. -/
theorem mem_declareVariables {x : String} {names : List String} {scope : Scope} :
    x ∈ (scope.declareVariables names).names ↔ x ∈ names ∨ x ∈ scope.names := by
  induction names generalizing scope with
  | nil => simp [declareVariables]
  | cons name rest ih =>
    show x ∈ ((scope.declareVariable name).declareVariables rest).names ↔ _
    rw [ih, mem_declareVariable, List.mem_cons]
    tauto

@[simp] theorem declareVariables_functions (names : List String) (scope : Scope) :
    (scope.declareVariables names).functions = scope.functions := by
  induction names generalizing scope with
  | nil => rfl
  | cons name rest ih => exact ih (scope.declareVariable name)

@[simp] theorem declareVariables_objective (names : List String) (scope : Scope) :
    (scope.declareVariables names).objective = scope.objective := by
  induction names generalizing scope with
  | nil => rfl
  | cons name rest ih => exact ih (scope.declareVariable name)

/-- A declared function is found under its name. -/
theorem parameters?_declareFunction (x name : String) (parameters : List String)
    (scope : Scope) : (scope.declareFunction name parameters).parameters? x
      = if x = name then some parameters else scope.parameters? x := by
  unfold parameters? declareFunction
  by_cases h : x = name
  · rw [if_pos h, List.find?_cons_of_pos (by simp [h])]
    rfl
  · rw [if_neg h, List.find?_cons_of_neg (by simpa using Ne.symm h), List.find?_filter]
    congr 2
    funext entry
    by_cases hentry : entry.1 = x
    · simp [hentry, h]
    · simp [hentry]

end Scope

namespace Generate

variable {α : Type} {w w' : Workspace} {u : Unit}

/-! ## Helpers -/

/-- The commands that copy a cell into another one. -/
def copyCommands (target source : Cell) : List Command :=
  if source = target then [] else [.copy target source]

/-- The commands that write a value into a cell. -/
def storeCommands (target : Cell) : Value → List Command
  | .constant n => [.set target n]
  | .stored source => copyCommands target source
  | _ => []

/-- The commands that combine two operands into a cell of a block. -/
def combineCommands (block : Text) (op : Operator) (target : Cell) :
    Value → Value → List Command
  | .stored a, .constant b => copyCommands target a ++ constantCommands block op target b
  | .constant a, .stored b => [.set target a, .operate op target b]
  | .stored a, .stored b => copyCommands target a ++ [.operate op target b]
  | _, _ => []

/-- The value of two combined operands. -/
def combined (op : Operator) (target : Cell) : Value → Value → Value
  | .constant a, .constant b => .constant (op.fold a b)
  | _, _ => .stored target

theorem fail_ne_ok {β : Type} {cause : Cause} {m : α} {b : β} :
    (fail cause m : Generate α β) w = .ok b w' ↔ False := throw_ne_ok

theorem push_eq_ok {c : Command} :
    (push c : Generate α Unit) w = .ok u w' ↔ w.emit [c] = w' := modify_eq_ok

theorem modifyScope_eq_ok {f : Scope → Scope} :
    (modifyScope f : Generate α Unit) w = .ok u w' ↔ { w with scope := f w.scope } = w' :=
  modify_eq_ok

/-- A copy emits its commands and nothing else. -/
theorem copy_eq_ok {target source : Cell} :
    (copy target source : Generate α Unit) w = .ok u w'
      ↔ w.emit (copyCommands target source) = w' := by
  unfold copy copyCommands
  split
  · rw [pure_eq_ok, Workspace.emit_nil]; simp
  · rw [push_eq_ok]

/-- A check of a type leaves the workspace. -/
theorem checkType_ok {type : String} {m : α} (h : checkType type m w = .ok u w') : w' = w := by
  unfold checkType at h
  split at h
  · exact (pure_eq_ok.1 h).2.symm
  · exact (fail_ne_ok.1 h).elim

theorem checkOptionalType_ok {type : Option String} {m : α}
    (h : checkOptionalType type m w = .ok u w') : w' = w := by
  unfold checkOptionalType at h
  split at h
  · exact checkType_ok h
  · exact (pure_eq_ok.1 h).2.symm

theorem checkParameterTypes_ok {parameters : List (Parameter α)}
    (h : checkParameterTypes parameters w = .ok u w') : w' = w := by
  induction parameters generalizing w with
  | nil => exact (pure_eq_ok.1 h).2.symm
  | cons p rest ih =>
    rw [checkParameterTypes] at h
    obtain ⟨_, w₁, h₁, h₂⟩ := bind_eq_ok.1 h
    rw [ih h₂, checkType_ok h₁]

theorem requireInt_eq_ok {v : Value} {m : α} :
    requireInt v m w = .ok u w' ↔ v.type = .int ∧ w = w' := by
  cases v <;> simp [requireInt, pure_eq_ok, fail_ne_ok, Value.type]

/-- Storing a value succeeds exactly if it is an integer, and emits the commands for it. -/
theorem store_eq_ok {target : Cell} {v : Value} {m : α} :
    store target v m w = .ok u w' ↔ v.type = .int ∧ w.emit (storeCommands target v) = w' := by
  cases v <;>
    simp [store, storeCommands, push_eq_ok, copy_eq_ok, fail_ne_ok, Value.type]

/-- An operation with a constant emits the commands for it. -/
theorem applyConstant_eq_ok {op : Operator} {target : Cell} {n : Int} :
    (applyConstant op target n : Generate α Unit) w = .ok u w'
      ↔ w.emit (constantCommands w.block.name op target n) = w' := by
  unfold applyConstant pushAll
  rw [bind_eq_ok]
  constructor
  · rintro ⟨_, _, hget, h⟩
    obtain ⟨rfl, rfl⟩ := get_eq_ok.1 hget
    exact modify_eq_ok.1 h
  · intro h
    exact ⟨w, w, rfl, modify_eq_ok.2 h⟩

/-- A left operand either keeps its value, and then the right one does not assign to the
variable it is in, or it is copied into the target. -/
theorem keepValue_ok {target : Cell} {left right : Node α} {v v' : Value}
    (h : keepValue target left right v w = .ok v' w') :
    (v' = v ∧ w' = w ∧ ∀ name source, left.storedVariable? = some name →
        v = .stored source → right.assigns name = false)
      ∨ ∃ source, v = .stored source ∧ v' = .stored target
        ∧ w' = w.emit (copyCommands target source) := by
  have same : ∀ {x : Value}, (pure x : Generate α Value) w = .ok v' w' → v' = x ∧ w' = w :=
    fun hx => ⟨(pure_eq_ok.1 hx).1.symm, (pure_eq_ok.1 hx).2.symm⟩
  cases hname : left.storedVariable? with
  | none =>
    simp only [keepValue, hname] at h
    obtain ⟨rfl, rfl⟩ := same h
    exact .inl ⟨rfl, rfl, fun _ _ hnone => by cases hnone⟩
  | some name =>
    cases v with
    | stored source =>
      simp only [keepValue, hname] at h
      by_cases hassigns : right.assigns name = true
      · rw [if_pos hassigns] at h
        obtain ⟨_, w₁, h₁, h₂⟩ := bind_eq_ok.1 h
        obtain ⟨rfl, rfl⟩ := pure_eq_ok.1 h₂
        exact .inr ⟨source, rfl, rfl, (copy_eq_ok.1 h₁).symm⟩
      · rw [if_neg hassigns] at h
        obtain ⟨rfl, rfl⟩ := same h
        refine .inl ⟨rfl, rfl, fun other _ hother _ => ?_⟩
        rw [← Option.some.inj hother]
        simpa using hassigns
    | _ =>
      simp only [keepValue, hname] at h
      obtain ⟨rfl, rfl⟩ := same h
      exact .inl ⟨rfl, rfl, fun _ _ _ hv => by cases hv⟩

/-- Combined integers: the value, the commands, and the divisor that is not zero. -/
theorem combine_ok {op : Operator} {target : Cell} {a b v : Value} {m : α}
    (ha : a.type = .int) (hb : b.type = .int) (h : combine op target a b m w = .ok v w') :
    v = combined op target a b ∧ w' = w.emit (combineCommands w.block.name op target a b)
      ∧ ∀ x y, a = .constant x → b = .constant y → op = .divide → y ≠ 0 := by
  cases a with
  | constant x =>
    cases b with
    | constant y =>
      simp only [combine] at h
      by_cases hzero : op = .divide ∧ y = 0
      · rw [if_pos hzero] at h
        exact (fail_ne_ok.1 h).elim
      · rw [if_neg hzero] at h
        obtain ⟨rfl, rfl⟩ := pure_eq_ok.1 h
        refine ⟨rfl, (Workspace.emit_nil _).symm, fun x' y' hx hy hop hy0 => hzero ⟨hop, ?_⟩⟩
        rw [Value.constant.injEq] at hy
        rw [hy, hy0]
    | stored y =>
      simp only [combine, bind_eq_ok, push_eq_ok, pure_eq_ok] at h
      obtain ⟨_, _, rfl, _, _, rfl, rfl, rfl⟩ := h
      refine ⟨rfl, Workspace.emit_emit _ _ _, ?_⟩
      intro x' y' _ hy
      cases hy
    | undefined _ => cases hb
    | function _ => cases hb
  | stored x =>
    cases b with
    | constant y =>
      simp only [combine, bind_eq_ok, copy_eq_ok, applyConstant_eq_ok, pure_eq_ok] at h
      obtain ⟨_, _, rfl, _, _, rfl, rfl, rfl⟩ := h
      refine ⟨rfl, Workspace.emit_emit _ _ _, ?_⟩
      intro x' y' hx
      cases hx
    | stored y =>
      simp only [combine, bind_eq_ok, copy_eq_ok, push_eq_ok, pure_eq_ok] at h
      obtain ⟨_, _, rfl, _, _, rfl, rfl, rfl⟩ := h
      refine ⟨rfl, Workspace.emit_emit _ _ _, ?_⟩
      intro x' y' hx
      cases hx
    | undefined _ => cases hb
    | function _ => cases hb
  | undefined _ => cases ha
  | function _ => cases ha

/-! ## Functions -/

/-- Parameters that are declared differ from each other and from what the scope holds. -/
theorem declareParameters_ok {parameters : List (Parameter α)}
    (h : declareParameters parameters w = .ok u w') :
    (parameters.map (·.name)).Nodup ∧ (∀ p ∈ parameters, p.name ∉ w.scope.names)
      ∧ w' = { w with scope := w.scope.declareVariables (parameters.map (·.name)) } := by
  induction parameters generalizing w with
  | nil =>
    obtain ⟨-, rfl⟩ := pure_eq_ok.1 h
    exact ⟨List.nodup_nil, fun _ hp => (List.not_mem_nil hp).elim, rfl⟩
  | cons p rest ih =>
    simp only [declareParameters] at h
    obtain ⟨_, _, hget, h⟩ := bind_eq_ok.1 h
    obtain ⟨rfl, rfl⟩ := get_eq_ok.1 hget
    by_cases hp : w.scope.declares p.name = true
    · rw [if_pos hp] at h
      obtain ⟨_, _, hfail, -⟩ := bind_eq_ok.1 h
      exact (fail_ne_ok.1 hfail).elim
    · rw [if_neg hp] at h
      obtain ⟨_, w₁, h₁, h₂⟩ := bind_eq_ok.1 h
      obtain rfl := modifyScope_eq_ok.1 h₁
      obtain ⟨hnodup, hnew, rfl⟩ := ih h₂
      have hnot : p.name ∉ w.scope.names := by
        simpa [Scope.declares] using hp
      refine ⟨?_, ?_, rfl⟩
      · rw [List.map_cons, List.nodup_cons]
        refine ⟨fun hmem => ?_, hnodup⟩
        obtain ⟨q, hq, hqp⟩ := List.mem_map.1 hmem
        apply hnew q hq
        rw [hqp]
        exact Scope.mem_declareVariable.2 (.inl rfl)
      · intro q hq
        rcases List.mem_cons.1 hq with rfl | hq
        · exact hnot
        · exact fun hmem => hnew q hq (Scope.mem_declareVariable.2 (.inr hmem))

/-- A compiled function has a name that was free, and a body that was compiled in a
workspace of its own. -/
theorem compileFunction_ok {name : Text} {parameters : List (Parameter α)}
    {result : Option String} {m : α} {declared : Bool} {body : Generate α Unit}
    (h : compileFunction name parameters result m declared body w = .ok u w') :
    name ∉ w.taken ∧ declared = false ∧ ∃ w₁ w₂,
      declareParameters parameters (w.enter name) = .ok () w₁ ∧ body w₁ = .ok () w₂
        ∧ w' = w.leave w₂.finish := by
  unfold compileFunction at h
  obtain ⟨_, _, hget, hrest⟩ := bind_eq_ok.1 h
  obtain ⟨rfl, rfl⟩ := get_eq_ok.1 hget
  by_cases hfree : (w.taken.contains name || declared) = true
  · simp only [if_pos hfree] at hrest
    obtain ⟨_, _, hfail, -⟩ := bind_eq_ok.1 hrest
    exact (fail_ne_ok.1 hfail).elim
  · simp only [if_neg hfree] at hrest
    obtain ⟨_, w₁, h₁, hrest₁⟩ := bind_eq_ok.1 hrest
    obtain ⟨_, w₂, h₂, hwithin⟩ := bind_eq_ok.1 hrest₁
    rw [checkOptionalType_ok h₂, checkParameterTypes_ok h₁] at hwithin
    simp only [Bool.or_eq_true, not_or, List.contains_iff_mem, Bool.not_eq_true] at hfree
    refine ⟨hfree.1, hfree.2, ?_⟩
    unfold within at hwithin
    split at hwithin
    · rename_i w₃ hbody
      obtain ⟨_, w₄, hparameters, hbody⟩ := bind_eq_ok.1 hbody
      cases hwithin
      exact ⟨w₄, w₃, hparameters, hbody, rfl⟩
    · cases hwithin

/-- The function of a whole script passes every check: no name is taken yet, and it has no
parameters. -/
theorem compileFunction_ofName (name : Text) (mark : α) (body : Generate α Unit) :
    compileFunction name [] none mark false body (Workspace.ofName name)
      = within name body (Workspace.ofName name) := rfl

/-! ## Nodes

One lemma for each form of node: what held before, and what the workspace is afterwards. -/

variable {space : Text} {context : Context} {v : Value} {m : α} {name : String}

/-- A step behind a refused case: the case did not hold. -/
theorem unless_eq_ok {c : Prop} [Decidable c] {cause : Cause} {β : Type}
    {f : Unit → Generate α β} {b : β} :
    (if c then do let r ← fail cause m; f r else f ()) w = .ok b w'
      ↔ ¬c ∧ f () w = .ok b w' := by
  by_cases hc : c
  · rw [if_pos hc, bind_eq_ok]
    simp [hc, fail_ne_ok]
  · rw [if_neg hc]
    simp [hc]

/-- A declaration takes a new name and emits nothing. -/
theorem compile_declare_ok {type : Option String}
    (h : compile space context (.declare name type m) w = .ok v w') :
    name ∉ w.scope.names ∧ v = .undefined (w.scope.cell name)
      ∧ w' = w.declareVariable name := by
  simp only [compile] at h
  obtain ⟨_, _, hget, h₁⟩ := bind_eq_ok.1 h
  obtain ⟨rfl, rfl⟩ := get_eq_ok.1 hget
  obtain ⟨hnew, h₂⟩ := unless_eq_ok.1 h₁
  obtain ⟨_, w₁, htype, h₃⟩ := bind_eq_ok.1 h₂
  rw [checkOptionalType_ok htype] at h₃
  obtain ⟨_, _, hget', h₄⟩ := bind_eq_ok.1 h₃
  obtain ⟨rfl, rfl⟩ := get_eq_ok.1 hget'
  obtain ⟨_, w₂, hscope, h₅⟩ := bind_eq_ok.1 h₄
  obtain rfl := modifyScope_eq_ok.1 hscope
  obtain ⟨rfl, rfl⟩ := pure_eq_ok.1 h₅
  exact ⟨by simpa [Scope.declares] using hnew, rfl, rfl⟩

/-- A definition takes a new name, compiles its value with the variable as the destination and
stores it. -/
theorem compile_define_ok {type : Option String} {value : Node α}
    (h : compile space context (.define name type value m) w = .ok v w') :
    name ∉ w.scope.names ∧ v = .stored (w.scope.cell name) ∧ ∃ r w₁,
      compile space (context.withDestination (w.scope.cell name)) value w = .ok r w₁
        ∧ r.type = .int
        ∧ w' = (w₁.emit (storeCommands (w.scope.cell name) r)).declareVariable name := by
  simp only [compile] at h
  obtain ⟨_, _, hget, h₁⟩ := bind_eq_ok.1 h
  obtain ⟨rfl, rfl⟩ := get_eq_ok.1 hget
  obtain ⟨hnew, h₂⟩ := unless_eq_ok.1 h₁
  obtain ⟨_, w₁, htype, h₃⟩ := bind_eq_ok.1 h₂
  rw [checkOptionalType_ok htype] at h₃
  obtain ⟨_, _, hget', h₄⟩ := bind_eq_ok.1 h₃
  obtain ⟨rfl, rfl⟩ := get_eq_ok.1 hget'
  obtain ⟨r, w₂, hvalue, h₅⟩ := bind_eq_ok.1 h₄
  obtain ⟨_, w₃, hstore, h₆⟩ := bind_eq_ok.1 h₅
  obtain ⟨hint, rfl⟩ := store_eq_ok.1 hstore
  obtain ⟨_, w₄, hscope, h₇⟩ := bind_eq_ok.1 h₆
  obtain rfl := modifyScope_eq_ok.1 hscope
  obtain ⟨rfl, rfl⟩ := pure_eq_ok.1 h₇
  exact ⟨by simpa [Scope.declares] using hnew, rfl, r, w₂, hvalue, hint, rfl⟩

/-- Where the new value of a variable should go: into the variable itself, unless it still
reads it. -/
def assignContext (context : Context) (cell : Cell) (name : String) (value : Node α) :
    Context :=
  if value.references name then context.cleared else context.withDestination cell

/-- An assignment needs a declared variable, compiles its value and stores it. -/
theorem compile_assign_ok {value : Node α}
    (h : compile space context (.assign name value m) w = .ok v w') :
    name ∈ w.scope.names ∧ w.scope.isFunction name = false
      ∧ v = .stored (w.scope.cell name) ∧ ∃ r w₁,
      compile space (assignContext context (w.scope.cell name) name value) value w = .ok r w₁
        ∧ r.type = .int ∧ w' = w₁.emit (storeCommands (w.scope.cell name) r) := by
  simp only [compile] at h
  obtain ⟨_, _, hget, h₁⟩ := bind_eq_ok.1 h
  obtain ⟨rfl, rfl⟩ := get_eq_ok.1 hget
  obtain ⟨hdeclared, h₂⟩ := unless_eq_ok.1 h₁
  obtain ⟨hvariable, h₃⟩ := unless_eq_ok.1 h₂
  obtain ⟨r, w₁, hvalue, h₄⟩ := bind_eq_ok.1 h₃
  obtain ⟨_, w₂, hstore, h₅⟩ := bind_eq_ok.1 h₄
  obtain ⟨hint, rfl⟩ := store_eq_ok.1 hstore
  obtain ⟨rfl, rfl⟩ := pure_eq_ok.1 h₅
  refine ⟨by simpa [Scope.declares] using hdeclared, by simpa using hvariable, rfl,
    r, w₁, hvalue, hint, rfl⟩

/-- The body of a compiled function starts from its parameters. -/
theorem compile_function_ok {parameters : List (Parameter α)} {result : Option String}
    {body : List (Node α)}
    (h : compile space context (.function name parameters result body m) w = .ok v w') :
    (name : Text) ∉ w.taken ∧ name ∉ w.scope.names ∧ v = .function name ∧ ∃ w₁ w₂,
      declareParameters parameters (w.enter name) = .ok () w₁
        ∧ compileBody space body w₁ = .ok () w₂
        ∧ w' = (w.leave w₂.finish).declareFunction name (parameters.map (·.name)) := by
  simp only [compile] at h
  obtain ⟨_, _, hget, h₁⟩ := bind_eq_ok.1 h
  obtain ⟨rfl, rfl⟩ := get_eq_ok.1 hget
  obtain ⟨_, w₁, hfunction, h₂⟩ := bind_eq_ok.1 h₁
  obtain ⟨hfree, hnew, w₂, w₃, hparameters, hbody, rfl⟩ := compileFunction_ok hfunction
  obtain ⟨_, w₄, hscope, h₃⟩ := bind_eq_ok.1 h₂
  obtain rfl := modifyScope_eq_ok.1 hscope
  obtain ⟨rfl, rfl⟩ := pure_eq_ok.1 h₃
  exact ⟨hfree, by simpa [Scope.declares] using hnew, rfl, w₂, w₃, hparameters, hbody, rfl⟩

/-- The commands in front of the arguments of a call. -/
def openCommands (name : Text) (parameters : List String) : List Command :=
  if parameters.isEmpty then [] else [.addObjective name]

/-- A call needs a declared function with as many parameters as there are arguments; it opens
its objective, passes the arguments and calls. -/
theorem compile_call_ok {arguments : List (Node α)}
    (h : compile space context (.call name arguments m) w = .ok v w') :
    name ∈ w.scope.names ∧ v = .function name ∧ ∃ parameters w₁,
      w.scope.parameters? name = some parameters ∧ parameters.length = arguments.length
        ∧ compileArguments space context name parameters arguments
          (w.emit (openCommands name parameters)) = .ok () w₁
        ∧ w' = w₁.emit [.call space name] := by
  simp only [compile] at h
  obtain ⟨_, _, hget, h₁⟩ := bind_eq_ok.1 h
  obtain ⟨rfl, rfl⟩ := get_eq_ok.1 hget
  obtain ⟨hdeclared, h₂⟩ := unless_eq_ok.1 h₁
  have hname : name ∈ w.scope.names := by simpa [Scope.declares] using hdeclared
  cases hparameters : w.scope.parameters? name with
  | none =>
    rw [hparameters] at h₂
    exact (fail_ne_ok.1 h₂).elim
  | some parameters =>
    rw [hparameters] at h₂
    obtain ⟨hlength, h₃⟩ := unless_eq_ok.1 h₂
    have hopen : (do compileArguments space context name parameters arguments
                     push (.call space name)
                     pure (.function name) : Generate α Value)
        (w.emit (openCommands name parameters)) = .ok v w' := by
      unfold openCommands
      by_cases hempty : parameters.isEmpty = true
      · rw [if_pos hempty, Workspace.emit_nil]
        simpa [hempty] using h₃
      · simp only [hempty, Bool.not_false, if_true] at h₃
        obtain ⟨_, w₁, hpush, h₄⟩ := bind_eq_ok.1 h₃
        rw [if_neg hempty, push_eq_ok.1 hpush]
        exact h₄
    obtain ⟨_, w₁, harguments, h₄⟩ := bind_eq_ok.1 hopen
    obtain ⟨_, w₂, hcall, h₅⟩ := bind_eq_ok.1 h₄
    obtain rfl := push_eq_ok.1 hcall
    obtain ⟨rfl, rfl⟩ := pure_eq_ok.1 h₅
    exact ⟨hname, rfl, parameters, w₁, rfl, by simpa using hlength, harguments, rfl⟩

/-- A raw command is emitted as it is. -/
theorem compile_raw_ok {text : String}
    (h : compile space context (.raw text m) w = .ok v w') :
    v = .undefined ⟨w.block.name, .rawResult⟩ ∧ w' = w.emit [.raw text] := by
  simp only [compile] at h
  obtain ⟨_, w₁, hpush, h₁⟩ := bind_eq_ok.1 h
  obtain rfl := push_eq_ok.1 hpush
  obtain ⟨_, _, hget, h₂⟩ := bind_eq_ok.1 h₁
  obtain ⟨rfl, rfl⟩ := get_eq_ok.1 hget
  obtain ⟨rfl, rfl⟩ := pure_eq_ok.1 h₂
  exact ⟨rfl, rfl⟩

/-- The cell that an operation writes its result into. -/
def target (context : Context) (block : Text) : Cell :=
  context.destination.getD (context.scratch block)

/-- The context of a right operand. -/
def rightContext (context : Context) : Context :=
  if context.destination.isSome then context.cleared else context.deeper

/-- An operation compiles its left operand, keeps its value from the right one, compiles that
and combines both. -/
theorem compile_binary_ok {op : Operator} {left right : Node α}
    (h : compile space context (.binary op left right m) w = .ok v w') :
    ∃ a w₁ a' w₂ b w₃, compile space context left w = .ok a w₁
      ∧ keepValue (target context w.block.name) left right a w₁ = .ok a' w₂
      ∧ compile space (rightContext context) right w₂ = .ok b w₃
      ∧ a'.type = .int ∧ b.type = .int
      ∧ v = combined op (target context w.block.name) a' b
      ∧ w' = w₃.emit (combineCommands w₃.block.name op (target context w.block.name) a' b)
      ∧ ∀ x y, a' = .constant x → b = .constant y → op = .divide → y ≠ 0 := by
  simp only [compile] at h
  obtain ⟨_, _, hget, h₁⟩ := bind_eq_ok.1 h
  obtain ⟨rfl, rfl⟩ := get_eq_ok.1 hget
  obtain ⟨a, w₁, hleft, h₂⟩ := bind_eq_ok.1 h₁
  obtain ⟨a', w₂, hkeep, h₃⟩ := bind_eq_ok.1 h₂
  obtain ⟨b, w₃, hright, h₄⟩ := bind_eq_ok.1 h₃
  obtain ⟨_, w₄, hrequire, h₅⟩ := bind_eq_ok.1 h₄
  obtain ⟨ha, rfl⟩ := requireInt_eq_ok.1 hrequire
  obtain ⟨_, w₅, hrequire', h₆⟩ := bind_eq_ok.1 h₅
  obtain ⟨hb, rfl⟩ := requireInt_eq_ok.1 hrequire'
  obtain ⟨hv, hw, hzero⟩ := combine_ok ha hb h₆
  exact ⟨a, w₁, a', w₂, b, w₃, hleft, hkeep, hright, ha, hb, hv, hw, hzero⟩

/-- An integer has to be in range and emits nothing. -/
theorem compile_integer_ok {n : Int}
    (h : compile space context (.integer n m) w = .ok v w') :
    inScoreRange n = true ∧ v = .constant n ∧ w' = w := by
  simp only [compile] at h
  by_cases hn : inScoreRange n = true
  · rw [if_pos hn] at h
    obtain ⟨rfl, rfl⟩ := pure_eq_ok.1 h
    exact ⟨hn, rfl, rfl⟩
  · rw [if_neg hn] at h
    exact (fail_ne_ok.1 h).elim

/-- A text in quotes has no value. -/
theorem compile_string_ne_ok {text : String} :
    compile space context (.string text m) w ≠ .ok v w' := by
  intro h
  simp only [compile] at h
  exact fail_ne_ok.1 h

/-- A name has to be declared, and stands for its function or its variable. -/
theorem compile_access_ok
    (h : compile space context (.access name m) w = .ok v w') :
    name ∈ w.scope.names ∧ w' = w
      ∧ v = if w.scope.isFunction name then .function name else .stored (w.scope.cell name) := by
  simp only [compile] at h
  obtain ⟨_, _, hget, h₁⟩ := bind_eq_ok.1 h
  obtain ⟨rfl, rfl⟩ := get_eq_ok.1 hget
  obtain ⟨hdeclared, h₂⟩ := unless_eq_ok.1 h₁
  refine ⟨by simpa [Scope.declares] using hdeclared, ?_⟩
  by_cases hf : w.scope.isFunction name = true
  · rw [if_pos hf] at h₂
    obtain ⟨rfl, rfl⟩ := pure_eq_ok.1 h₂
    exact ⟨rfl, (if_pos hf).symm⟩
  · rw [if_neg hf] at h₂
    obtain ⟨rfl, rfl⟩ := pure_eq_ok.1 h₂
    exact ⟨rfl, (if_neg hf).symm⟩

/-! ## Lists of nodes -/

theorem compileBody_nil_ok (h : compileBody space ([] : List (Node α)) w = .ok u w') :
    w' = w := (pure_eq_ok.1 h).2.symm

/-- Statements are compiled one after the other. -/
theorem compileBody_cons_ok {node : Node α} {rest : List (Node α)}
    (h : compileBody space (node :: rest) w = .ok u w') :
    ∃ v w₁, compile space {} node w = .ok v w₁ ∧ compileBody space rest w₁ = .ok () w' := by
  simp only [compileBody] at h
  obtain ⟨v, w₁, hnode, hrest⟩ := bind_eq_ok.1 h
  exact ⟨v, w₁, hnode, hrest⟩

/-- What every statement of a body keeps, the body keeps. -/
theorem compileBody_keeps {P : Workspace → Prop} {nodes : List (Node α)}
    (hkeeps : ∀ node ∈ nodes, ∀ {w v w'}, compile space {} node w = .ok v w' → P w → P w')
    (h : compileBody space nodes w = .ok u w') (hw : P w) : P w' := by
  induction nodes generalizing w with
  | nil =>
    rw [compileBody_nil_ok h]
    exact hw
  | cons node rest ih =>
    obtain ⟨v, w₁, hnode, hrest⟩ := compileBody_cons_ok h
    have hw₁ := hkeeps node List.mem_cons_self hnode hw
    exact ih (fun x hx => hkeeps x (List.mem_cons_of_mem _ hx)) hrest hw₁

theorem compileArguments_nil_ok {name : Text} {parameters : List String}
    (h : compileArguments space context name parameters ([] : List (Node α)) w = .ok u w') :
    w' = w := by
  cases parameters <;> exact (pure_eq_ok.1 h).2.symm

/-- An argument is compiled with its parameter as the destination and stored there, in front of
the others. -/
theorem compileArguments_cons_ok {name : Text} {parameter : String} {parameters : List String}
    {argument : Node α} {arguments : List (Node α)}
    (h : compileArguments space context name (parameter :: parameters)
      (argument :: arguments) w = .ok u w') :
    ∃ r w₁, compile space (context.withDestination ⟨name, .variable parameter⟩) argument w
        = .ok r w₁
      ∧ r.type = .int
      ∧ compileArguments space context name parameters arguments
        (w₁.emit (storeCommands ⟨name, .variable parameter⟩ r)) = .ok () w' := by
  simp only [compileArguments] at h
  obtain ⟨r, w₁, hargument, h₁⟩ := bind_eq_ok.1 h
  obtain ⟨_, w₂, hstore, hrest⟩ := bind_eq_ok.1 h₁
  obtain ⟨hint, rfl⟩ := store_eq_ok.1 hstore
  exact ⟨r, w₁, hargument, hint, hrest⟩

/-- The run over the arguments of a call. Each argument is compiled to an integer, which is
stored for its parameter before the next one is compiled. -/
inductive Passing (space : Text) (context : Context) (name : Text) :
    List String → List (Node α) → Workspace → Workspace → Prop
  | nil {w : Workspace} : Passing space context name [] [] w w
  | cons {parameter : String} {parameters : List String} {argument : Node α}
      {arguments : List (Node α)} {w w₁ w' : Workspace} {r : Value}
      (first : compile space (context.withDestination ⟨name, .variable parameter⟩) argument w
        = .ok r w₁)
      (isInt : r.type = .int)
      (rest : Passing space context name parameters arguments
        (w₁.emit (storeCommands ⟨name, .variable parameter⟩ r)) w') :
      Passing space context name (parameter :: parameters) (argument :: arguments) w w'

/-- Compiled arguments, as many as there are parameters, are passed one by one. -/
theorem passing_of_compileArguments {name : Text} {parameters : List String}
    {arguments : List (Node α)}
    (hlength : parameters.length = arguments.length)
    (h : compileArguments space context name parameters arguments w = .ok u w') :
    Passing space context name parameters arguments w w' := by
  induction arguments generalizing parameters w with
  | nil =>
    obtain rfl := List.length_eq_zero_iff.1 hlength
    rw [compileArguments_nil_ok h]
    exact .nil
  | cons argument rest ih =>
    obtain _ | ⟨parameter, parameters⟩ := parameters
    · cases hlength
    · obtain ⟨r, w₁, hargument, hr, hrest⟩ := compileArguments_cons_ok h
      exact .cons hargument hr (ih (Nat.succ.inj hlength) hrest)

/-! ## Everything below a node -/

theorem compileBody_mem_ok {nodes : List (Node α)} (h : compileBody space nodes w = .ok u w')
    {node : Node α} (hnode : node ∈ nodes) :
    ∃ v w₁ w₂, compile space {} node w₁ = .ok v w₂ := by
  induction nodes generalizing w with
  | nil => cases hnode
  | cons first rest ih =>
    obtain ⟨v, w₁, hfirst, hrest⟩ := compileBody_cons_ok h
    rcases List.mem_cons.1 hnode with rfl | hnode
    · exact ⟨v, w, w₁, hfirst⟩
    · exact ih hrest hnode

theorem Passing.mem_ok {name : Text} {parameters : List String} {arguments : List (Node α)}
    (h : Passing space context name parameters arguments w w')
    {node : Node α} (hnode : node ∈ arguments) :
    ∃ context v w₁ w₂, compile space context node w₁ = .ok v w₂ ∧ v.type = .int := by
  induction h with
  | nil => cases hnode
  | @cons _ _ _ _ w w₁ _ r first isInt _ ih =>
    rcases List.mem_cons.1 hnode with rfl | hnode
    · exact ⟨_, r, w, w₁, first, isInt⟩
    · exact ih hnode

/-- What a compiled node takes the value of was compiled too, and has an integer value. -/
theorem compile_inputs_ok {node input : Node α} (h : compile space context node w = .ok v w')
    (hinput : input ∈ node.inputs) :
    ∃ context r w₁ w₂, compile space context input w₁ = .ok r w₂ ∧ r.type = .int := by
  cases node with
  | define name type value m =>
    obtain ⟨-, -, r, w₁, hvalue, hr, -⟩ := compile_define_ok h
    rw [List.mem_singleton.1 hinput]
    exact ⟨_, r, w, w₁, hvalue, hr⟩
  | assign name value m =>
    obtain ⟨-, -, -, r, w₁, hvalue, hr, -⟩ := compile_assign_ok h
    rw [List.mem_singleton.1 hinput]
    exact ⟨_, r, w, w₁, hvalue, hr⟩
  | call name arguments m =>
    obtain ⟨-, -, parameters, w₁, -, hlength, harguments, -⟩ := compile_call_ok h
    exact (passing_of_compileArguments hlength harguments).mem_ok hinput
  | binary op left right m =>
    obtain ⟨a, w₁, a', w₂, b, w₃, hleft, hkeep, hright, ha', hb, -⟩ := compile_binary_ok h
    have ha : a.type = .int := by
      rcases keepValue_ok hkeep with ⟨rfl, -, -⟩ | ⟨source, rfl, -, -⟩
      · exact ha'
      · rfl
    rcases List.mem_cons.1 hinput with rfl | hinput
    · exact ⟨_, a, w, w₁, hleft, ha⟩
    · rw [List.mem_singleton.1 hinput]
      exact ⟨_, b, w₂, w₃, hright, hb⟩
  | _ => cases hinput

/-- The children of a compiled node were compiled too. -/
theorem compile_children_ok {node child : Node α}
    (h : compile space context node w = .ok v w') (hchild : child ∈ node.children) :
    ∃ context v w₁ w₂, compile space context child w₁ = .ok v w₂ := by
  rcases Node.mem_children hchild with ⟨body, hbody, hstatement⟩ | hinput
  · cases node with
    | function name parameters result statements m =>
      cases hbody
      obtain ⟨-, -, -, w₁, w₂, -, hcompiled, -⟩ := compile_function_ok h
      exact ⟨{}, compileBody_mem_ok hcompiled hstatement⟩
    | _ => cases hbody
  · obtain ⟨context, r, w₁, w₂, hcompiled, -⟩ := compile_inputs_ok h hinput
    exact ⟨context, r, w₁, w₂, hcompiled⟩

/-- Every node below a compiled node was compiled too. -/
theorem compile_tree_ok {node x : Node α} (h : compile space context node w = .ok v w')
    (hx : x ∈ node.tree) : ∃ context v w₁ w₂, compile space context x w₁ = .ok v w₂ := by
  induction node using Node.induction generalizing context w v w' with
  | step node ih =>
    rw [Node.tree_eq] at hx
    rcases List.mem_cons.1 hx with rfl | hx
    · exact ⟨context, v, w, w', h⟩
    · obtain ⟨child, hchild, hx⟩ := Node.mem_trees.1 hx
      obtain ⟨context₁, v₁, w₁, w₂, h₁⟩ := compile_children_ok h hchild
      exact ih child hchild h₁ hx

/-- Every node of a compiled body was compiled, at any depth. -/
theorem compileBody_trees_ok {nodes : List (Node α)}
    (h : compileBody space nodes w = .ok u w') {x : Node α} (hx : x ∈ Node.trees nodes) :
    ∃ context v w₁ w₂, compile space context x w₁ = .ok v w₂ := by
  obtain ⟨node, hnode, hx⟩ := Node.mem_trees.1 hx
  obtain ⟨v, w₁, w₂, h₁⟩ := compileBody_mem_ok h hnode
  exact compile_tree_ok h₁ hx

end Generate

/-! ## Whole sources -/

/-- A script without a fault was compiled as the body of the main function. -/
theorem generate_ok {α : Type} {space name : Text} {mark : α} {script : Script α}
    (h : (generate space name mark script).fault = none) :
    ∃ w, Generate.compileBody space script ((Workspace.ofName name).enter name) = .ok () w
      ∧ (generate space name mark script).finished = w.finish.finished
      ∧ (generate space name mark script).taken = w.taken := by
  unfold generate at h ⊢
  simp only at h ⊢
  split at h
  · rename_i w hrun
    obtain ⟨-, -, w₁, w₂, hparameters, hbody, rfl⟩ := Generate.compileFunction_ok hrun
    obtain rfl := (pure_eq_ok.1 hparameters).2
    exact ⟨w₂, hbody, rfl, rfl⟩
  · cases h

/-- A compiled source was read into a script, and the script is the body of the block that
was finished last. -/
theorem Source.compile_ok {space name : Text} {source : Source} {build : Build}
    (h : (source.compile space name).result = .ok build) :
    source.parse = .ok build.script ∧ ∃ w,
      Generate.compileBody space build.script ((Workspace.ofName name).enter name) = .ok () w
        ∧ build.program = ⟨space, w.finish.finished⟩ := by
  unfold Source.compile at h
  split at h
  · cases h
  · rename_i script hparse
    simp only at h
    split at h
    · cases h
    · rename_i hfault
      cases h
      obtain ⟨w, hbody, hfinished, -⟩ := generate_ok hfault
      exact ⟨hparse, w, hbody, by rw [hfinished]⟩

end Scoreboard
