import Mathlib
import Scoreboard.Proofs.Lines
import Scoreboard.Proofs.Preservation

/-!
# Generating from trees with other names

The generator compares names and copies them, and does nothing else with them. If the names of
a script are changed by a map that keeps different names apart, the same commands are generated
with the names changed, or the same fault is found with its name changed (`generate_rename`).

The map need only be given on identifiers and lead to identifiers. The change it makes
(`Identifier.change`) leaves every other text alone, so it keeps all texts apart. That names
stay names is what keeps the slots of variables apart from those that the generator makes up.
-/

namespace Scoreboard

/-! ## Maps of names -/

/-- A word that a script may use as a name. -/
def Identifier : Type := { name : String // isName name = true }

instance : DecidableEq Identifier :=
  inferInstanceAs (DecidableEq { name : String // isName name = true })

namespace Identifier

variable {r : Identifier → Identifier}

/-- The change of texts that a map of identifiers makes: a text that is none stays as it
is. -/
def change (r : Identifier → Identifier) (name : String) : String :=
  if h : isName name = true then (r ⟨name, h⟩).val else name

/-- An identifier is changed to an identifier. -/
theorem isName_change {name : String} (h : isName name = true) :
    isName (change r name) = true := by
  unfold change
  rw [dif_pos h]
  exact (r ⟨name, h⟩).property

/-- A text that is no identifier is left alone. -/
theorem change_of_not_isName {name : String} (h : isName name ≠ true) : change r name = name :=
  dif_neg h

/-- Identifiers stay apart because the map keeps them apart, and no identifier becomes a text
that is none. -/
theorem change_injective (hr : Function.Injective r) : Function.Injective (change r) := by
  intro x y hxy
  by_cases hx : isName x = true
  · have hy : isName y = true := by
      by_contra hy
      rw [change_of_not_isName hy] at hxy
      exact hy (hxy ▸ isName_change hx)
    unfold change at hxy
    rw [dif_pos hx, dif_pos hy] at hxy
    exact congrArg Subtype.val (hr (Subtype.ext hxy))
  · have hy : isName y ≠ true := by
      intro hy
      rw [change_of_not_isName hx] at hxy
      exact hx (hxy ▸ isName_change hy)
    rwa [change_of_not_isName hx, change_of_not_isName hy] at hxy

end Identifier

/-! ## Changing names -/

variable {α β : Type}

/-- A parameter of another name. -/
def Parameter.rename (f : String → String) (p : Parameter α) : Parameter α :=
  ⟨f p.name, p.type, p.mark⟩

namespace Node

mutual

/-- The same tree with other names of variables, parameters and functions. Types and raw
commands are no such names. -/
def rename (f : String → String) : Node α → Node α
  | declare name type m => declare (f name) type m
  | define name type value m => define (f name) type (value.rename f) m
  | assign name value m => assign (f name) (value.rename f) m
  | function name parameters result body m =>
    function (f name) (parameters.map (Parameter.rename f)) result (renameAll f body) m
  | call name arguments m => call (f name) (renameAll f arguments) m
  | raw text m => raw text m
  | binary op left right m => binary op (left.rename f) (right.rename f) m
  | integer value m => integer value m
  | string value m => string value m
  | access name m => access (f name) m

/-- The same trees with other names. -/
def renameAll (f : String → String) : List (Node α) → List (Node α)
  | [] => []
  | node :: rest => node.rename f :: renameAll f rest

end

end Node

/-- A text with another name in it, if it is a name; one that is no string stays as it is. -/
def Text.rename (f : String → String) (text : Text) : Text :=
  match text.string? with
  | some name => f name
  | none => text

/-- Only the slot of a variable has a name of the script in it. -/
def Slot.rename (f : String → String) : Slot → Slot
  | «variable» name => «variable» (f name)
  | other => other

/-- Objectives are named after functions. -/
def Cell.rename (f : String → String) (cell : Cell) : Cell :=
  ⟨cell.objective.rename f, cell.slot.rename f⟩

/-- A command with other names. Numbers, the namespace and raw commands stay. -/
def Command.rename (f : String → String) : Command → Command
  | addObjective objective => addObjective (objective.rename f)
  | removeObjective objective => removeObjective (objective.rename f)
  | set target value => set (target.rename f) value
  | add target amount => add (target.rename f) amount
  | remove target amount => remove (target.rename f) amount
  | copy target source => copy (target.rename f) (source.rename f)
  | operate op target source => operate op (target.rename f) (source.rename f)
  | call space name => call space (name.rename f)
  | raw text => raw text

def Block.rename (f : String → String) (block : Block) : Block :=
  ⟨block.name.rename f, block.commands.map (Command.rename f)⟩

/-- The causes that the generator finds, about other names. -/
def Cause.rename (f : String → String) : Cause → Cause
  | unknownMember role name => unknownMember role (f name)
  | redeclared role name => redeclared role (f name)
  | argumentCount name expected got => argumentCount (f name) expected got
  | other => other

def Diagnostic.rename (f : String → String) (d : Diagnostic α) : Diagnostic α :=
  ⟨d.cause.rename f, d.place⟩

/-- What is left of generating commands, with other names. -/
def Generation.rename (f : String → String) (g : Generation α) : Generation α :=
  ⟨g.finished.map (Block.rename f), g.taken.map (Text.rename f), g.fault.map (Diagnostic.rename f)⟩

def Value.rename (f : String → String) : Value → Value
  | constant value => constant value
  | stored cell => stored (cell.rename f)
  | undefined cell => undefined (cell.rename f)
  | function name => function (f name)

def Context.rename (f : String → String) (context : Context) : Context :=
  ⟨context.destination.map (Cell.rename f), context.depth⟩

def Scope.rename (f : String → String) (scope : Scope) : Scope :=
  ⟨scope.objective.rename f, scope.names.map f, scope.functions.map (Prod.map f (List.map f))⟩

def Workspace.rename (f : String → String) (w : Workspace) : Workspace :=
  ⟨w.block.rename f, w.scope.rename f, w.finished.map (Block.rename f),
    w.taken.map (Text.rename f)⟩

section
variable {f : String → String}

/-! ## Trees -/

namespace Node

theorem renameAll_eq_map (nodes : List (Node α)) : renameAll f nodes = nodes.map (rename f) := by
  induction nodes with
  | nil => rfl
  | cons node rest ih => rw [renameAll, ih, List.map_cons]

theorem rename_function (name : String) (parameters : List (Parameter α))
    (result : Option String) (body : List (Node α)) (m : α) :
    (function name parameters result body m).rename f
      = function (f name) (parameters.map (Parameter.rename f)) result (body.map (rename f)) m := by
  rw [rename, renameAll_eq_map]

theorem rename_call (name : String) (arguments : List (Node α)) (m : α) :
    (call name arguments m).rename f = call (f name) (arguments.map (rename f)) m := by
  rw [rename, renameAll_eq_map]

@[simp] theorem mark_rename (node : Node α) : (node.rename f).mark = node.mark := by
  cases node <;> rfl

/-- The children of a renamed node are its children renamed. -/
theorem children_rename (node : Node α) :
    (node.rename f).children = node.children.map (rename f) := by
  cases node with
  | function name parameters result body m =>
    rw [rename_function]
    rfl
  | call name arguments m =>
    rw [rename_call]
    rfl
  | _ => rfl

/-- The nodes below a renamed one are renamed. -/
theorem exists_of_mem_tree_rename {node y : Node α} (h : y ∈ (node.rename f).tree) :
    ∃ x ∈ node.tree, y = x.rename f := by
  induction node using Node.induction with
  | step node ih =>
    rw [tree_eq, children_rename] at h
    rcases List.mem_cons.1 h with rfl | h
    · exact ⟨node, node.self_mem_tree, rfl⟩
    · obtain ⟨child', hchild', hy⟩ := mem_trees.1 h
      obtain ⟨child, hchild, rfl⟩ := List.mem_map.1 hchild'
      obtain ⟨x, hx, rfl⟩ := ih child hchild hy
      exact ⟨x, mem_tree_of_child hchild hx, rfl⟩

/-- Names stay names. -/
theorem IsNamed.rename (hf : ∀ name, isName name = true → isName (f name) = true) {x : Node α}
    (h : x.IsNamed) : (x.rename f).IsNamed := by
  cases x with
  | declare name type m => exact hf name h
  | define name type value m => exact hf name h
  | function name parameters result body m =>
    refine ⟨hf name h.1, fun p hp => ?_⟩
    obtain ⟨q, hq, rfl⟩ := List.mem_map.1 hp
    exact hf q.name (h.2 q hq)
  | _ => trivial

/-- A node is a mere variable before and after. -/
theorem storedVariable?_rename (node : Node α) :
    (node.rename f).storedVariable? = node.storedVariable?.map f := by
  cases node <;> rfl

/-- Names are compared before and after with the same answer. -/
theorem beq_rename (hf : Function.Injective f) (x y : String) : (f x == f y) = (x == y) := by
  rw [Bool.eq_iff_iff, beq_iff_eq, beq_iff_eq, hf.eq_iff]

mutual

/-- A renamed node reads a renamed name exactly if the node reads the name. -/
theorem references_rename (hf : Function.Injective f) {name : String} :
    (node : Node α) → (node.rename f).references (f name) = node.references name
  | define _ _ value _ => references_rename hf value
  | assign target value _ =>
    congrArg₂ (· || ·) (beq_rename hf target name) (references_rename hf value)
  | call _ arguments _ => anyReferences_renameAll hf arguments
  | binary _ left right _ =>
    congrArg₂ (· || ·) (references_rename hf left) (references_rename hf right)
  | access target _ => beq_rename hf target name
  | declare _ _ _ => rfl
  | function _ _ _ _ _ => rfl
  | raw _ _ => rfl
  | integer _ _ => rfl
  | string _ _ => rfl

theorem anyReferences_renameAll (hf : Function.Injective f) {name : String} :
    (nodes : List (Node α)) → anyReferences (f name) (renameAll f nodes) = anyReferences name nodes
  | [] => rfl
  | node :: rest => congrArg₂ (· || ·) (references_rename hf node) (anyReferences_renameAll hf rest)

end

mutual

/-- A renamed node assigns to a renamed name exactly if the node assigns to the name. -/
theorem assigns_rename (hf : Function.Injective f) {name : String} :
    (node : Node α) → (node.rename f).assigns (f name) = node.assigns name
  | define _ _ value _ => assigns_rename hf value
  | assign target value _ =>
    congrArg₂ (· || ·) (beq_rename hf target name) (assigns_rename hf value)
  | call _ arguments _ => anyAssigns_renameAll hf arguments
  | binary _ left right _ => congrArg₂ (· || ·) (assigns_rename hf left) (assigns_rename hf right)
  | access _ _ => rfl
  | declare _ _ _ => rfl
  | function _ _ _ _ _ => rfl
  | raw _ _ => rfl
  | integer _ _ => rfl
  | string _ _ => rfl

theorem anyAssigns_renameAll (hf : Function.Injective f) {name : String} :
    (nodes : List (Node α)) → anyAssigns (f name) (renameAll f nodes) = anyAssigns name nodes
  | [] => rfl
  | node :: rest => congrArg₂ (· || ·) (assigns_rename hf node) (anyAssigns_renameAll hf rest)

end

end Node

/-! ## Cells and scopes -/

/-- The name of a function is changed like any other name. -/
theorem Text.rename_ofString (name : String) : (ofString name).rename f = ofString (f name) := by
  rw [rename, string?_ofString]

/-- A fault about another name is of the same kind. -/
@[simp] theorem Cause.kind_rename (cause : Cause) : (cause.rename f).kind = cause.kind := by
  cases cause <;> rfl

theorem Block.rename_push (command : Command) (block : Block) :
    (block.push command).rename f = (block.rename f).push (command.rename f) := by
  show Block.mk _ ((block.commands ++ [command]).map (Command.rename f)) = _
  rw [List.map_append]
  rfl

/-- Where an operation writes. -/
theorem Context.target_rename (block : Text) (context : Context) :
    (context.rename f).destination.getD ((context.rename f).scratch (block.rename f))
      = (context.destination.getD (context.scratch block)).rename f := by
  obtain ⟨_ | cell, depth⟩ := context <;> rfl

/-- The context of the right operand of an operation. -/
theorem Context.right_rename (context : Context) :
    (if (context.rename f).destination.isSome then (context.rename f).cleared
        else (context.rename f).deeper)
      = (if context.destination.isSome then context.cleared else context.deeper).rename f := by
  obtain ⟨_ | cell, depth⟩ := context <;> rfl

section
variable (hf : Function.Injective f)
include hf

/-- A text that is no string stays apart from every name. -/
theorem Text.rename_injective : Function.Injective (Text.rename f) := by
  have hnone : ∀ {text : Text} {name : String}, text.string? = none → ofString name ≠ text := by
    intro text name htext heq
    rw [← heq, string?_ofString] at htext
    cases htext
  intro s t h
  unfold rename at h
  cases hs : s.string? with
  | some x =>
    cases ht : t.string? with
    | some y =>
      rw [hs, ht] at h
      rw [string?_eq_some_iff.1 hs, string?_eq_some_iff.1 ht, hf (ofString_injective h)]
    | none =>
      rw [hs, ht] at h
      exact (hnone ht h).elim
  | none =>
    cases ht : t.string? with
    | some y =>
      rw [hs, ht] at h
      exact (hnone hs h.symm).elim
    | none => rwa [hs, ht] at h

/-- Slots of different variables stay apart, and apart from all other slots. -/
theorem Slot.rename_injective : Function.Injective (Slot.rename f) := by
  intro s t h
  cases s with
  | «variable» x =>
    cases t with
    | «variable» y => exact congrArg Slot.variable (hf (Slot.variable.inj h))
    | _ => cases h
  | _ =>
    cases t with
    | «variable» y => cases h
    | _ => exact h

theorem Cell.rename_injective : Function.Injective (Cell.rename f) := by
  intro ⟨o, s⟩ ⟨o', s'⟩ h
  have hobjective : o = o' := Text.rename_injective hf (congrArg Cell.objective h)
  have hslot : s = s' := Slot.rename_injective hf (congrArg Cell.slot h)
  rw [hobjective, hslot]

section
omit hf
variable {γ : Type} [DecidableEq γ] {g : γ → γ} (hg : Function.Injective g)
include hg

/-- A list of names holds a renamed name exactly if it held the name. -/
theorem contains_rename (names : List γ) (name : γ) :
    (names.map g).contains (g name) = names.contains name := by
  rw [Bool.eq_iff_iff, List.contains_iff_mem, List.contains_iff_mem, List.mem_map_of_injective hg]

/-- Names are inserted at the same place. -/
theorem insert_rename (names : List γ) (name : γ) :
    (names.map g).insert (g name) = (names.insert name).map g := by
  by_cases hname : name ∈ names
  · rw [List.insert_of_mem hname, List.insert_of_mem (List.mem_map_of_mem hname)]
  · have hmap : g name ∉ names.map g := fun h => hname ((List.mem_map_of_injective hg).1 h)
    rw [List.insert_of_not_mem hname, List.insert_of_not_mem hmap, List.map_cons]

end

namespace Scope

variable (scope : Scope) (name : String)

theorem declares_rename : (scope.rename f).declares (f name) = scope.declares name :=
  contains_rename hf scope.names name

/-- A renamed function is found under its new name with its parameters renamed. -/
theorem parameters?_rename :
    (scope.rename f).parameters? (f name) = (scope.parameters? name).map (List.map f) := by
  unfold parameters?
  show Option.map _ ((scope.functions.map (Prod.map f (List.map f))).find? _) = _
  rw [List.find?_map, Option.map_map, Option.map_map]
  have htest : ((fun entry : String × List String => entry.1 == f name) ∘ Prod.map f (List.map f))
      = fun entry => entry.1 == name := by
    funext entry
    exact Node.beq_rename hf entry.1 name
  rw [htest]
  rfl

theorem isFunction_rename : (scope.rename f).isFunction (f name) = scope.isFunction name := by
  unfold isFunction
  rw [parameters?_rename hf, Option.isSome_map]

theorem declareVariable_rename :
    (scope.rename f).declareVariable (f name) = (scope.declareVariable name).rename f := by
  unfold declareVariable rename
  simp only [insert_rename hf]

/-- A function takes the place of an earlier one of its name before and after. -/
theorem declareFunction_rename (parameters : List String) :
    (scope.rename f).declareFunction (f name) (parameters.map f)
      = (scope.declareFunction name parameters).rename f := by
  have htest : ((fun entry : String × List String => entry.1 != f name) ∘ Prod.map f (List.map f))
      = fun entry => entry.1 != name := by
    funext entry
    exact congrArg not (Node.beq_rename hf entry.1 name)
  unfold declareFunction rename
  simp only [insert_rename hf, List.map_cons, List.filter_map, htest]
  rfl

end Scope

namespace Workspace

omit hf in
@[simp] theorem scope_rename (w : Workspace) : (w.rename f).scope = w.scope.rename f := rfl

/-- The body of a renamed function starts in the renamed workspace. -/
theorem enter_rename (name : Text) (w : Workspace) :
    (w.rename f).enter (name.rename f) = (w.enter name).rename f := by
  unfold enter rename
  simp only [insert_rename (Text.rename_injective hf)]
  rfl

omit hf in
/-- A finished block is renamed as a whole. -/
theorem finish_rename (w : Workspace) : (w.rename f).finish = w.finish.rename f := by
  unfold finish rename
  simp only [List.map_append, List.map_cons, List.map_nil, Block.rename_push]
  rfl

end Workspace

/-! ## Checks and single commands -/

namespace Generate

/-- A step does the same for other names: what it gives, leaves and finds wrong is the same
with the names changed. -/
def Renames (f : String → String) (onResult : β → β) (follower step : Generate α β) : Prop :=
  Follows (Diagnostic.rename f) (Workspace.rename f) onResult follower step

section
omit hf
variable {onResult : β → β} {m : α}

/-- A fault is told with the changed name. -/
theorem renames_fail {cause cause' : Cause} (h : cause' = cause.rename f) :
    Renames f onResult (fail cause' m) (fail cause m) :=
  follows_throw (by rw [h]; rfl)

theorem renames_push (command : Command) :
    Renames f id (push (command.rename f) : Generate α Unit) (push command) := by
  refine follows_modify fun w => ?_
  unfold Workspace.rename
  simp only [Block.rename_push]

theorem renames_pushAll {commands commands' : List Command}
    (h : commands' = commands.map (Command.rename f)) :
    Renames f id (pushAll commands' : Generate α Unit) (pushAll commands) := by
  refine follows_modify fun w => ?_
  unfold Workspace.rename Block.rename
  simp only [h, List.map_append]

/-- A change of the scope that goes along with renaming. -/
theorem renames_modifyScope {change change' : Scope → Scope}
    (h : ∀ scope, change' (scope.rename f) = (change scope).rename f) :
    Renames f id (modifyScope change' : Generate α Unit) (modifyScope change) := by
  refine follows_modify fun w => ?_
  unfold Workspace.rename
  simp only [h]

/-- Types are no names of the script, and stay. -/
theorem renames_checkType {type : String} :
    Renames f id (checkType type m) (checkType type m) :=
  Follows.ite (follows_pure rfl) (renames_fail rfl)

theorem renames_checkOptionalType {type : Option String} :
    Renames f id (checkOptionalType type m) (checkOptionalType type m) := by
  cases type with
  | none => exact follows_pure rfl
  | some type => exact renames_checkType

/-- Whether a value is an integer does not depend on names. -/
theorem renames_requireInt {value : Value} :
    Renames f id (requireInt (value.rename f) m) (requireInt value m) := by
  cases value with
  | constant n => exact follows_pure rfl
  | stored cell => exact follows_pure rfl
  | _ => exact renames_fail rfl

/-- An operation with a constant needs the same commands, on the renamed cell. -/
theorem constantCommands_rename (block : Text) (op : Operator) (target : Cell) (n : Int) :
    constantCommands (block.rename f) op (target.rename f) n
      = (constantCommands block op target n).map (Command.rename f) := by
  unfold constantCommands
  -- which commands are used depends on the number only
  have hshift : ∀ amount : Int, ∀ via via' : List Command, via' = via.map (Command.rename f) →
      (if 0 ≤ amount ∧ amount ≤ scoreMax then [.add (target.rename f) amount]
        else if 0 < -amount ∧ -amount ≤ scoreMax then [.remove (target.rename f) (-amount)]
        else via')
      = (if 0 ≤ amount ∧ amount ≤ scoreMax then [.add target amount]
        else if 0 < -amount ∧ -amount ≤ scoreMax then [.remove target (-amount)]
        else via).map (Command.rename f) := by
    intro amount via via' hvia
    split
    · rfl
    · split
      · rfl
      · exact hvia
  cases op with
  | add => exact hshift _ _ _ rfl
  | subtract => exact hshift _ _ _ rfl
  | multiply => rfl
  | divide => rfl

theorem renames_applyConstant {op : Operator} {target : Cell} {n : Int} :
    Renames f id (applyConstant op (target.rename f) n : Generate α Unit)
      (applyConstant op target n) :=
  follows_get.bind fun w => renames_pushAll (constantCommands_rename w.block.name op target n)

end

section
variable {m : α}

/-- A copy is left out for the same cells, since different ones stay apart. -/
theorem renames_copy {target source : Cell} :
    Renames f id (copy (target.rename f) (source.rename f) : Generate α Unit)
      (copy target source) := by
  unfold copy
  simp only [(Cell.rename_injective hf).eq_iff]
  exact Follows.ite (follows_pure rfl) (renames_push (.copy target source))

/-- Storing a value fails for the same kinds of value. -/
theorem renames_store (target : Cell) (value : Value) :
    Renames f id (store (target.rename f) (value.rename f) m) (store target value m) := by
  cases value with
  | constant n => exact renames_push (.set target n)
  | stored source => exact renames_copy hf
  | _ => exact renames_fail rfl

/-- Constants are folded before and after to the same number. -/
theorem renames_combine {op : Operator} {target : Cell} {left right : Value} :
    Renames f (Value.rename f) (combine op (target.rename f) (left.rename f) (right.rename f) m)
      (combine op target left right m) := by
  cases left with
  | constant a =>
    cases right with
    | constant b => exact Follows.ite (renames_fail rfl) (follows_pure rfl)
    | stored b =>
      refine (renames_push (.set target a)).bind fun _ => ?_
      exact (renames_push (.operate op target b)).bind fun _ => follows_pure rfl
    | _ => exact follows_pure rfl
  | stored a =>
    cases right with
    | constant b =>
      exact (renames_copy hf).bind fun _ => renames_applyConstant.bind fun _ => follows_pure rfl
    | stored b =>
      refine (renames_copy hf).bind fun _ => ?_
      exact (renames_push (.operate op target b)).bind fun _ => follows_pure rfl
    | _ => exact follows_pure rfl
  | _ => exact follows_pure rfl

/-- A left operand is copied away before and after, or in neither case. -/
theorem renames_keepValue {target : Cell} {left right : Node α} {value : Value} :
    Renames f (Value.rename f)
      (keepValue (target.rename f) (left.rename f) (right.rename f) (value.rename f))
      (keepValue target left right value) := by
  unfold keepValue
  rw [Node.storedVariable?_rename]
  cases left.storedVariable? with
  | none => exact follows_pure rfl
  | some name =>
    cases value with
    | stored source =>
      show Renames f _ (if (right.rename f).assigns (f name) then _ else _) _
      rw [Node.assigns_rename hf]
      exact Follows.ite ((renames_copy hf).bind fun _ => follows_pure rfl) (follows_pure rfl)
    | _ => exact follows_pure rfl

/-! ## Functions -/

/-- A parameter that occurs twice occurs twice under its new name. -/
theorem renames_declareParameters (parameters : List (Parameter α)) :
    Renames f id (declareParameters (parameters.map (Parameter.rename f)))
      (declareParameters parameters) := by
  induction parameters with
  | nil => exact follows_pure rfl
  | cons parameter rest ih =>
    rw [List.map_cons, declareParameters, declareParameters]
    refine follows_get.bind fun w => ?_
    show Renames f id (if (w.scope.rename f).declares (f parameter.name) then _ else _) _
    rw [Scope.declares_rename hf]
    refine Follows.unless (renames_fail rfl) ?_
    refine (renames_modifyScope fun scope => ?_).bind fun _ => ih
    exact scope.declareVariable_rename hf parameter.name

omit hf in
theorem renames_checkParameterTypes (parameters : List (Parameter α)) :
    Renames f id (checkParameterTypes (parameters.map (Parameter.rename f)))
      (checkParameterTypes parameters) := by
  induction parameters with
  | nil => exact follows_pure rfl
  | cons parameter rest ih =>
    rw [List.map_cons, checkParameterTypes, checkParameterTypes]
    exact renames_checkType.bind fun _ => ih

/-- The steps of a body run in the renamed workspace of their own. -/
theorem renames_within {name : Text} {body body' : Generate α Unit} (h : Renames f id body' body) :
    Renames f id (within (name.rename f) body') (within name body) := by
  intro w
  have hbody : body' ((w.enter name).rename f) = _ := h (w.enter name)
  unfold within
  rw [Workspace.enter_rename hf, hbody]
  cases body (w.enter name) with
  | ok u inner =>
    show EStateM.Result.ok () (Workspace.leave _ (inner.rename f).finish) = _
    rw [Workspace.finish_rename]
    rfl
  | error e inner => rfl

/-- A function is refused before and after for the same reason. -/
theorem renames_compileFunction {name : String} (parameters : List (Parameter α))
    {result : Option String} {declared : Bool} {body body' : Generate α Unit}
    (h : Renames f id body' body) :
    Renames f id
      (compileFunction (f name) (parameters.map (Parameter.rename f)) result m declared body')
      (compileFunction name parameters result m declared body) := by
  rw [← Text.rename_ofString]
  refine follows_get.bind fun w => ?_
  show Renames f id
    (if ((w.taken.map (Text.rename f)).contains _ || declared) = true then _ else _) _
  rw [contains_rename (Text.rename_injective hf)]
  have hcause : Cause.redeclared .function ((Text.ofString name).rename f).plain
      = (Cause.redeclared .function (Text.ofString name).plain).rename f := by
    rw [Text.rename_ofString, Text.plain_ofString, Cause.rename, Text.plain_ofString]
  refine Follows.unless (renames_fail hcause) ?_
  refine (renames_checkParameterTypes parameters).bind fun _ => ?_
  refine renames_checkOptionalType.bind fun _ => renames_within hf ?_
  exact (renames_declareParameters hf parameters).bind fun _ => h

end

/-! ## Statements and expressions -/

section
variable {space : Text}

omit hf in
theorem renames_compileBody {nodes : List (Node α)}
    (h : ∀ node ∈ nodes, ∀ context, Renames f (Value.rename f)
      (compile space (context.rename f) (node.rename f)) (compile space context node)) :
    Renames f id (compileBody space (nodes.map (Node.rename f))) (compileBody space nodes) := by
  induction nodes with
  | nil => exact follows_pure rfl
  | cons node rest ih =>
    rw [List.map_cons, compileBody, compileBody]
    refine (h node List.mem_cons_self {}).bind fun _ => ?_
    exact ih fun x hx => h x (List.mem_cons_of_mem node hx)

/-- The arguments of a call go into the renamed parameters. -/
theorem renames_compileArguments {context : Context} {name : Text} {parameters : List String}
    {nodes : List (Node α)}
    (h : ∀ node ∈ nodes, ∀ context, Renames f (Value.rename f)
      (compile space (context.rename f) (node.rename f)) (compile space context node)) :
    Renames f id
      (compileArguments space (context.rename f) (name.rename f) (parameters.map f)
        (nodes.map (Node.rename f)))
      (compileArguments space context name parameters nodes) := by
  induction nodes generalizing parameters with
  | nil => cases parameters <;> exact follows_pure rfl
  | cons node rest ih =>
    cases parameters with
    | nil => exact follows_pure rfl
    | cons parameter parameters =>
      rw [List.map_cons, List.map_cons, compileArguments, compileArguments, Node.mark_rename]
      refine (h node List.mem_cons_self (context.withDestination ⟨name, .variable parameter⟩)).bind
        fun value => ?_
      refine (renames_store hf ⟨name, .variable parameter⟩ value).bind fun _ => ?_
      exact ih fun x hx => h x (List.mem_cons_of_mem node hx)

/-- By induction on the node, one case for each form. -/
theorem renames_compile (context : Context) (node : Node α) :
    Renames f (Value.rename f) (compile space (context.rename f) (node.rename f))
      (compile space context node) := by
  induction node using Node.induction generalizing context with
  | step node ih =>
    cases node with
    | declare name type m =>
      rw [Node.rename, compile, compile]
      refine follows_get.bind fun w => ?_
      show Renames f _ (if (w.scope.rename f).declares (f name) then _ else _) _
      rw [Scope.declares_rename hf]
      refine Follows.unless (renames_fail rfl) ?_
      refine renames_checkOptionalType.bind fun _ => follows_get.bind fun w => ?_
      refine (renames_modifyScope fun scope => ?_).bind fun _ => follows_pure rfl
      exact scope.declareVariable_rename hf name
    | define name type value m =>
      rw [Node.rename, compile, compile]
      refine follows_get.bind fun w => ?_
      show Renames f _ (if (w.scope.rename f).declares (f name) then _ else _) _
      rw [Scope.declares_rename hf]
      refine Follows.unless (renames_fail rfl) ?_
      refine renames_checkOptionalType.bind fun _ => follows_get.bind fun w => ?_
      refine (ih value (by simp [Node.children]) (context.withDestination (w.scope.cell name))).bind
        fun result => ?_
      refine (renames_store hf (w.scope.cell name) result).bind fun _ => ?_
      refine (renames_modifyScope fun scope => ?_).bind fun _ => follows_pure rfl
      exact scope.declareVariable_rename hf name
    | assign name value m =>
      rw [Node.rename, compile, compile]
      refine follows_get.bind fun w => ?_
      simp only [Workspace.scope_rename, Scope.declares_rename hf, Scope.isFunction_rename hf,
        Node.references_rename hf]
      refine Follows.unless (renames_fail rfl) (Follows.unless (renames_fail rfl) ?_)
      -- where the value goes depends on the names in it
      have hinner : (if value.references name then (context.rename f).cleared
            else (context.rename f).withDestination ((w.scope.rename f).cell (f name)))
          = (if value.references name then context.cleared
            else context.withDestination (w.scope.cell name)).rename f := by
        split <;> rfl
      rw [hinner]
      refine (ih value (by simp [Node.children]) _).bind fun result => ?_
      exact (renames_store hf (w.scope.cell name) result).bind fun _ => follows_pure rfl
    | function name parameters result body m =>
      rw [Node.rename_function, compile, compile]
      refine follows_get.bind fun w => ?_
      rw [Workspace.scope_rename, Scope.declares_rename hf]
      have hbody : Renames f id (compileBody space (body.map (Node.rename f)))
          (compileBody space body) := renames_compileBody ih
      refine (renames_compileFunction hf parameters hbody).bind fun _ => ?_
      refine (renames_modifyScope fun scope => ?_).bind fun _ => follows_pure rfl
      -- the scope keeps the changed names of the parameters
      rw [List.map_map, ← scope.declareFunction_rename hf, List.map_map]
      rfl
    | call name arguments m =>
      rw [Node.rename_call, compile, compile]
      refine follows_get.bind fun w => ?_
      simp only [Workspace.scope_rename, Scope.declares_rename hf, Scope.parameters?_rename hf]
      refine Follows.unless (renames_fail rfl) ?_
      cases w.scope.parameters? name with
      | none => exact renames_fail rfl
      | some parameters =>
        simp only [Option.map_some, List.length_map, List.isEmpty_map, ← Text.rename_ofString]
        refine Follows.unless (renames_fail rfl) ?_
        refine Follows.unless (renames_push (.addObjective name)) ?_
        refine (renames_compileArguments hf ih).bind fun _ => ?_
        exact (renames_push (.call space name)).bind fun _ => follows_pure rfl
    | raw text m =>
      rw [Node.rename, compile, compile]
      refine (renames_push (.raw text)).bind fun _ => ?_
      exact follows_get.bind fun w => follows_pure rfl
    | binary op left right m =>
      rw [Node.rename, compile, compile, Node.mark_rename, Node.mark_rename]
      refine follows_get.bind fun w => ?_
      have hblock : (w.rename f).block.name = w.block.name.rename f := rfl
      simp only [hblock, Context.target_rename, Context.right_rename]
      refine (ih left (by simp [Node.children]) _).bind fun first => ?_
      refine (renames_keepValue hf).bind fun first => ?_
      refine (ih right (by simp [Node.children]) _).bind fun second => ?_
      refine renames_requireInt.bind fun _ => renames_requireInt.bind fun _ => ?_
      exact renames_combine hf
    | integer value m =>
      rw [Node.rename, compile, compile]
      exact Follows.ite (follows_pure rfl) (renames_fail rfl)
    | string value m =>
      rw [Node.rename, compile, compile]
      exact renames_fail rfl
    | access name m =>
      rw [Node.rename, compile, compile]
      refine follows_get.bind fun w => ?_
      simp only [Workspace.scope_rename, Scope.declares_rename hf, Scope.isFunction_rename hf]
      refine Follows.unless (renames_fail rfl) ?_
      exact Follows.ite (follows_pure rfl) (follows_pure rfl)

end

end Generate

/-! ## Scripts -/

/-- A map that keeps names apart renames what is generated. The name of the script itself need
not be a string. -/
theorem generate_of_injective (space name : Text) (mark : α) (script : Script α) :
    generate space (name.rename f) mark (script.map (Node.rename f))
      = (generate space name mark script).rename f := by
  have hbody : Generate.Renames f id (Generate.compileBody space (script.map (Node.rename f)))
      (Generate.compileBody space script) :=
    Generate.renames_compileBody fun node _ context => Generate.renames_compile hf context node
  have hrun : Generate.within (name.rename f)
      (Generate.compileBody space (script.map (Node.rename f)))
      (Workspace.ofName (name.rename f)) = _ :=
    Generate.renames_within hf hbody (Workspace.ofName name)
  unfold generate
  simp only [Generate.compileFunction_ofName, hrun]
  cases Generate.within name (Generate.compileBody space script) (Workspace.ofName name) <;> rfl

end

end

/-- The slots that a command speaks of. -/
def Command.slots : Command → List Slot
  | set target _ => [target.slot]
  | add target _ => [target.slot]
  | remove target _ => [target.slot]
  | copy target source => [target.slot, source.slot]
  | operate _ target source => [target.slot, source.slot]
  | _ => []

/-- The slots that finished blocks speak of. -/
def Generation.slots (g : Generation α) : List Slot :=
  g.finished.flatMap fun block => block.commands.flatMap Command.slots

theorem Command.IsPlain.slots {c : Command} (h : c.IsPlain) : ∀ slot ∈ c.slots, slot.IsPlain := by
  cases c with
  | set target value => exact List.forall_mem_singleton.2 h
  | add target amount => exact List.forall_mem_singleton.2 h
  | remove target amount => exact List.forall_mem_singleton.2 h
  | copy target source => exact List.forall_mem_cons.2 ⟨h.1, List.forall_mem_singleton.2 h.2⟩
  | operate op target source =>
    exact List.forall_mem_cons.2 ⟨h.1, List.forall_mem_singleton.2 h.2⟩
  | _ =>
    intro slot hslot
    cases hslot

/-- What is generated from names keeps to slots that differ in their texts. -/
theorem generate_isPlain {space name : Text} {mark : α} {script : Script α}
    (hnamed : ∀ x ∈ Node.trees script, x.IsNamed)
    (h : (generate space name mark script).fault = none) :
    ∀ slot ∈ (generate space name mark script).slots, slot.IsPlain := by
  obtain ⟨w, hbody, hfinished, -⟩ := generate_ok h
  have hnone : ∀ x ∈ ([] : List String), isName x = true := fun x hx => by cases hx
  have hclean : w.Clean := Generate.compileBody_clean hnamed hbody
    ((Workspace.clean_ofName name).enter name hnone)
  have hcommands : ∀ block ∈ w.finish.finished, ∀ c ∈ block.commands, c.IsPlain := by
    refine List.forall_mem_append.2 ⟨hclean.finished, List.forall_mem_singleton.2 ?_⟩
    exact List.forall_mem_append.2 ⟨hclean.commands, List.forall_mem_singleton.2 trivial⟩
  intro slot hslot
  obtain ⟨block, hblock, hslot⟩ := List.mem_flatMap.1 hslot
  obtain ⟨c, hc, hslot⟩ := List.mem_flatMap.1 hslot
  rw [hfinished] at hblock
  exact (hcommands block hblock c hc).slots slot hslot

/-- Names that are changed in a script are changed in what is generated from it, and nothing
else is. Generating succeeds for both scripts or for none, a fault is of the same kind at the
same place and told with the changed name, and two slots of the renamed program have different
texts. -/
theorem generate_rename {r : Identifier → Identifier} (hr : Function.Injective r)
    (space name : Text) (mark : α) {script : Script α}
    (hnamed : ∀ x ∈ Node.trees script, x.IsNamed) :
    let f := Identifier.change r
    let original := generate space name mark script
    let renamed := generate space (name.rename f) mark (script.map (Node.rename f))
    renamed = original.rename f
      ∧ (renamed.fault = none ↔ original.fault = none)
      ∧ (∀ d ∈ original.fault, ∃ d' ∈ renamed.fault,
        d'.kind = d.kind ∧ d'.details = (d.cause.rename f).details ∧ d'.place = d.place)
      ∧ (renamed.fault = none → ∀ s ∈ renamed.slots, ∀ t ∈ renamed.slots,
        s.text = t.text → s = t) := by
  intro f original renamed
  have heq : renamed = original.rename f :=
    generate_of_injective (Identifier.change_injective hr) space name mark script
  have hfault : renamed.fault = original.fault.map (Diagnostic.rename f) :=
    congrArg Generation.fault heq
  refine ⟨heq, ?_, fun d hd => ?_, fun hnone s hs t ht hst => ?_⟩
  · rw [hfault, Option.map_eq_none_iff]
  · rw [Option.mem_def.1 hd] at hfault
    exact ⟨d.rename f, hfault, Cause.kind_rename d.cause, rfl, rfl⟩
  · have hnamed' : ∀ y ∈ Node.trees (script.map (Node.rename f)), y.IsNamed := by
      intro y hy
      obtain ⟨node', hnode', hy⟩ := Node.mem_trees.1 hy
      obtain ⟨node, hnode, rfl⟩ := List.mem_map.1 hnode'
      obtain ⟨x, hx, rfl⟩ := Node.exists_of_mem_tree_rename hy
      exact (hnamed x (Node.mem_trees.2 ⟨node, hnode, hx⟩)).rename
        fun _ => Identifier.isName_change
    have hplain := generate_isPlain hnamed' hnone
    exact Slot.text_injective (hplain s hs) (hplain t ht) hst

/-- Two names that change places. -/
theorem generate_rename_swap :
    ∃ r : Identifier → Identifier, Function.Injective r
      ∧ Identifier.change r "x" = "y" ∧ Identifier.change r "y" = "x"
      ∧ (generate "pack" "main" ()
          [.define "x" none (.integer 3 ()) (), .define "y" none (.access "x" ()) ()]).fault = none
      ∧ (generate "pack" (Identifier.change r "main") ()
          ([.define "x" none (.integer 3 ()) (), .define "y" none (.access "x" ()) ()].map
            (Node.rename (Identifier.change r)))).finished
        = [⟨"main", [.addObjective "main", .set ⟨"main", .variable "y"⟩ 3,
            .copy ⟨"main", .variable "x"⟩ ⟨"main", .variable "y"⟩, .removeObjective "main"]⟩] := by
  have hx : isName "x" = true := by decide
  have hy : isName "y" = true := by decide
  refine ⟨Equiv.swap ⟨"x", hx⟩ ⟨"y", hy⟩, Equiv.injective _, by decide +revert,
    by decide +revert, by decide, ?_⟩
  have hnamed : ∀ x ∈ Node.trees
      [.define "x" none (.integer 3 ()) (), .define "y" none (.access "x" ()) ()],
      x.IsNamed := by
    simp only [Node.trees, Node.tree, List.cons_append, List.nil_append, List.append_nil,
      List.forall_mem_cons]
    exact ⟨hx, trivial, hy, trivial, fun x hx => by cases hx⟩
  rw [← Text.rename_ofString, (generate_rename (Equiv.injective _) "pack" "main" () hnamed).1]
  decide +revert

end Scoreboard
