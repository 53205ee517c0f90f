import Mathlib
import Scoreboard.Proofs.Generated
import Scoreboard.Proofs.Lowering
import Scoreboard.Proofs.Trees

/-!
# Effects stand at statements

The grammar lets a statement of any kind be the value of a variable, at any depth: a call, a
function, a raw command. None of these gets through. Whatever takes a value refuses one that
is no integer, and what compiles to an integer is built of integers, variables, assignments,
definitions and operations alone. So commands that leave the block, and declarations, come only
between statements, never while an operation is under way.
-/

namespace Scoreboard

variable {α : Type}

namespace Node

/-- Whether a node has an effect and no value: it declares a variable or a function, calls one,
or is a raw command. -/
def isEffect : Node α → Bool
  | declare _ _ _ => true
  | function _ _ _ _ _ => true
  | call _ _ _ => true
  | raw _ _ => true
  | _ => false

/-- Whether a node is a string. -/
def isString : Node α → Bool
  | string _ _ => true
  | _ => false

/-- What holds of a node and of everything below the nodes whose values it takes holds of
everything below it, unless it is a function. -/
theorem forall_mem_tree_of_inputs {P : Node α → Prop} {node : Node α} (hbody : node.body? = none)
    (hself : P node) (hinputs : ∀ input ∈ node.inputs, ∀ y ∈ input.tree, P y) :
    ∀ y ∈ node.tree, P y := by
  intro y hy
  rw [tree_eq] at hy
  rcases List.mem_cons.1 hy with rfl | hy
  · exact hself
  · obtain ⟨child, hchild, hy⟩ := mem_trees.1 hy
    rcases mem_children hchild with ⟨body, hsome, -⟩ | hinput
    · rw [hbody] at hsome
      cases hsome
    · exact hinputs child hinput y hy

end Node

namespace Generate

variable {space : Text} {context : Context} {w w' : Workspace} {v : Value} {e : Node α}

/-- An expression with an integer value holds no effect and no string, at any depth. -/
theorem Lowering.pure_tree (h : Lowering context e w v w') :
    ∀ y ∈ e.tree, y.isEffect = false ∧ y.isString = false := by
  induction h with
  | integer => exact Node.forall_mem_tree_of_inputs rfl ⟨rfl, rfl⟩ (List.forall_mem_nil _)
  | access => exact Node.forall_mem_tree_of_inputs rfl ⟨rfl, rfl⟩ (List.forall_mem_nil _)
  | assign _ _ _ ih =>
    exact Node.forall_mem_tree_of_inputs rfl ⟨rfl, rfl⟩ (List.forall_mem_singleton.2 ih)
  | define _ _ ih =>
    exact Node.forall_mem_tree_of_inputs rfl ⟨rfl, rfl⟩ (List.forall_mem_singleton.2 ih)
  | binary _ _ _ _ ih₁ ih₂ =>
    refine Node.forall_mem_tree_of_inputs rfl ⟨rfl, rfl⟩ ?_
    exact List.forall_mem_cons.2 ⟨ih₁, List.forall_mem_singleton.2 ih₂⟩

/-- What a compiled node takes the value of holds no effect and no string, at any depth. -/
theorem compile_inputs_pure {node input : Node α} (h : compile space context node w = .ok v w')
    (hinput : input ∈ node.inputs) :
    ∀ y ∈ input.tree, y.isEffect = false ∧ y.isString = false := by
  obtain ⟨context', r, w₁, w₂, hcompile, hr⟩ := compile_inputs_ok h hinput
  exact (lowering_of_compile hcompile hr).pure_tree

end Generate

/-- A node of a script stands as a statement of one of its bodies, or some node takes its
value. -/
theorem Script.statement_or_input {script : Script α} {x : Node α} (h : x ∈ Node.trees script) :
    (∃ body ∈ Script.bodies script, x ∈ body.statements)
      ∨ ∃ parent ∈ Node.trees script, x ∈ parent.inputs := by
  obtain ⟨node, hnode, hx⟩ := Node.mem_trees.1 h
  rcases Node.eq_or_child_of_mem_tree hx with rfl | ⟨parent, hparent, hchild⟩
  · exact .inl ⟨⟨[], script⟩, List.mem_cons_self, hnode⟩
  · have hscript : parent ∈ Node.trees script := Node.mem_trees.2 ⟨node, hnode, hparent⟩
    rcases Node.mem_children hchild with ⟨body, hbody, hstatement⟩ | hinput
    · refine .inl ⟨body, List.mem_cons_of_mem _ ?_, hstatement⟩
      exact List.mem_filterMap.2 ⟨parent, hscript, hbody⟩
    · exact .inr ⟨parent, hscript, hinput⟩

/-- In a compiled source, calls, functions, raw commands and variables without a first value
stand only as statements, of the script or of the body of a function. Nothing that another node
takes the value of, be it an operand, an argument, a first or an assigned value, holds any of
them at any depth, nor a string; and no string is a statement either, so there is none. -/
theorem compile_effects_at_statements {space name : Text} {source : Source}
    {build : Build} (h : (source.compile space name).result = .ok build) :
    (∀ x ∈ Node.trees build.script, x.isEffect = true →
        ∃ body ∈ Script.bodies build.script, x ∈ body.statements)
      ∧ (∀ x ∈ Node.trees build.script, ∀ input ∈ x.inputs, ∀ y ∈ input.tree,
        y.isEffect = false ∧ y.isString = false)
      ∧ ∀ x ∈ Node.trees build.script, x.isString = false := by
  obtain ⟨-, w, hbody, -⟩ := Source.compile_ok h
  have hinputs : ∀ x ∈ Node.trees build.script, ∀ input ∈ x.inputs, ∀ y ∈ input.tree,
      y.isEffect = false ∧ y.isString = false := by
    intro x hx input hinput
    obtain ⟨context, v, w₁, w₂, hcompile⟩ := Generate.compileBody_trees_ok hbody hx
    exact Generate.compile_inputs_pure hcompile hinput
  refine ⟨fun x hx heffect => ?_, hinputs, fun x hx => ?_⟩
  · rcases Script.statement_or_input hx with hstatement | ⟨parent, hparent, hinput⟩
    · exact hstatement
    · -- no effect is an input
      have hpure := (hinputs parent hparent x hinput x x.self_mem_tree).1
      rw [heffect] at hpure
      cases hpure
  · obtain ⟨context, v, w₁, w₂, hcompile⟩ := Generate.compileBody_trees_ok hbody hx
    cases x with
    | string text m => exact (Generate.compile_string_ne_ok hcompile).elim
    | _ => rfl

/-- Five effects, two of them in a body, around an argument that assigns and defines. -/
theorem compile_effects_at_statements_nested :
    ∃ build, (Source.compile defaultSpace mainName ⟨"nested", ("let x: int\n"
        ++ "function f(p: int) \x7b\n raw \"say hi\"\n let y: int\n\x7d\n"
        ++ "f(x = let z = 3 * (x = 4))").toList⟩).result = .ok build
      ∧ (Node.trees build.script).countP Node.isEffect = 5
      ∧ (∀ x ∈ Node.trees build.script, x.isEffect = true →
        ∃ body ∈ Script.bodies build.script, x ∈ body.statements)
      ∧ (∀ x ∈ Node.trees build.script, ∀ input ∈ x.inputs, ∀ y ∈ input.tree,
        y.isEffect = false ∧ y.isString = false)
      ∧ ∀ x ∈ Node.trees build.script, x.isString = false := by
  obtain ⟨build, hbuild, hcount⟩ := exists_ok_of_any
    (p := fun build => (Node.trees build.script).countP Node.isEffect == 5)
    (x := (Source.compile defaultSpace mainName ⟨"nested", ("let x: int\n"
      ++ "function f(p: int) \x7b\n raw \"say hi\"\n let y: int\n\x7d\n"
      ++ "f(x = let z = 3 * (x = 4))").toList⟩).result) (by decide +kernel)
  exact ⟨build, hbuild, eq_of_beq hcount, compile_effects_at_statements hbuild⟩

end Scoreboard
