import Mathlib
import Scoreboard.Generator
import Scoreboard.Proofs.Steps
import Scoreboard.Proofs.Trees

/-!
# Generating from trees with other marks

The marks of a script are carried along by the generator and never looked at. If all marks are
changed by a function, the same commands are generated, and a fault is the same one with its
place changed (`generate_mapMark`). Marks may be of any type, so this includes that they are
left out altogether.
-/

namespace Scoreboard

variable {α β γ : Type} {f : α → β}

/-! ## Trees -/

namespace Node

mutual

/-- A node reads the same names whatever its marks are. -/
theorem references_mapMark {name : String} :
    (node : Node α) → (node.mapMark f).references name = node.references name
  | define _ _ value _ => references_mapMark value
  | assign target value _ => congrArg (target == name || ·) (references_mapMark value)
  | call _ arguments _ => anyReferences_mapMarks arguments
  | binary _ left right _ => congrArg₂ (· || ·) (references_mapMark left) (references_mapMark right)
  | declare _ _ _ => rfl
  | function _ _ _ _ _ => rfl
  | raw _ _ => rfl
  | integer _ _ => rfl
  | string _ _ => rfl
  | access _ _ => rfl

theorem anyReferences_mapMarks {name : String} :
    (nodes : List (Node α)) → anyReferences name (mapMarks f nodes) = anyReferences name nodes
  | [] => rfl
  | node :: rest => congrArg₂ (· || ·) (references_mapMark node) (anyReferences_mapMarks rest)

end

mutual

/-- A node assigns to the same names whatever its marks are. -/
theorem assigns_mapMark {name : String} :
    (node : Node α) → (node.mapMark f).assigns name = node.assigns name
  | define _ _ value _ => assigns_mapMark value
  | assign target value _ => congrArg (target == name || ·) (assigns_mapMark value)
  | call _ arguments _ => anyAssigns_mapMarks arguments
  | binary _ left right _ => congrArg₂ (· || ·) (assigns_mapMark left) (assigns_mapMark right)
  | declare _ _ _ => rfl
  | function _ _ _ _ _ => rfl
  | raw _ _ => rfl
  | integer _ _ => rfl
  | string _ _ => rfl
  | access _ _ => rfl

theorem anyAssigns_mapMarks {name : String} :
    (nodes : List (Node α)) → anyAssigns name (mapMarks f nodes) = anyAssigns name nodes
  | [] => rfl
  | node :: rest => congrArg₂ (· || ·) (assigns_mapMark node) (anyAssigns_mapMarks rest)

end

/-- Whether a node is a mere variable does not depend on its mark. -/
theorem storedVariable?_mapMark (node : Node α) :
    (node.mapMark f).storedVariable? = node.storedVariable? := by
  cases node <;> rfl

end Node

/-! ## Checks and single commands -/

namespace Generate

/-- A step does the same for other marks: what it gives and leaves is the same, and its fault
is at the changed place. -/
def Carries (f : α → β) (follower : Generate β γ) (step : Generate α γ) : Prop :=
  Follows (Diagnostic.mapPlace f) id id follower step

/-- A failure is reported at the changed mark. -/
theorem carries_fail {cause : Cause} {m : α} :
    Carries f (fail cause (f m) : Generate β γ) (fail cause m) :=
  follows_throw rfl

/-- A change of the workspace sees no marks. -/
theorem carries_modify {change : Workspace → Workspace} :
    Carries f (modify change : Generate β Unit) (modify change) :=
  follows_modify fun _ => rfl

theorem carries_push {command : Command} : Carries f (push command) (push command) :=
  carries_modify

/-- An unknown type is reported at the changed mark. -/
theorem carries_checkType {type : String} {m : α} :
    Carries f (checkType type (f m)) (checkType type m) :=
  Follows.ite (follows_pure rfl) carries_fail

theorem carries_checkOptionalType {type : Option String} {m : α} :
    Carries f (checkOptionalType type (f m)) (checkOptionalType type m) := by
  cases type with
  | none => exact follows_pure rfl
  | some type => exact carries_checkType

/-- A value that is no integer is reported at the changed mark. -/
theorem carries_requireInt {value : Value} {m : α} :
    Carries f (requireInt value (f m)) (requireInt value m) := by
  cases value with
  | constant n => exact follows_pure rfl
  | stored cell => exact follows_pure rfl
  | _ => exact carries_fail

theorem carries_copy {target source : Cell} :
    Carries f (copy target source) (copy target source) :=
  Follows.ite (follows_pure rfl) carries_push

/-- Storing fails for the same values, at the changed mark. -/
theorem carries_store {target : Cell} {value : Value} {m : α} :
    Carries f (store target value (f m)) (store target value m) := by
  cases value with
  | constant n => exact carries_push
  | stored source => exact carries_copy
  | _ => exact carries_fail

theorem carries_applyConstant {op : Operator} {target : Cell} {n : Int} :
    Carries f (applyConstant op target n) (applyConstant op target n) :=
  follows_get.bind fun _ => carries_modify

/-- Two operands are combined by the same commands, and a quotient of constants by zero is
reported at the changed mark. -/
theorem carries_combine {op : Operator} {target : Cell} {left right : Value} {m : α} :
    Carries f (combine op target left right (f m)) (combine op target left right m) := by
  cases left with
  | constant a =>
    cases right with
    | constant b => exact Follows.ite carries_fail (follows_pure rfl)
    | stored b => exact carries_push.bind fun _ => carries_push.bind fun _ => follows_pure rfl
    | _ => exact follows_pure rfl
  | stored a =>
    cases right with
    | constant b =>
      exact carries_copy.bind fun _ => carries_applyConstant.bind fun _ => follows_pure rfl
    | stored b => exact carries_copy.bind fun _ => carries_push.bind fun _ => follows_pure rfl
    | _ => exact follows_pure rfl
  | _ => exact follows_pure rfl

/-- Whether a left operand is copied away depends on the names in the right one only. -/
theorem carries_keepValue {target : Cell} {left right : Node α} {value : Value} :
    Carries f (keepValue target (left.mapMark f) (right.mapMark f) value)
      (keepValue target left right value) := by
  unfold keepValue
  rw [Node.storedVariable?_mapMark]
  cases left.storedVariable? with
  | none => exact follows_pure rfl
  | some name =>
    cases value with
    | stored source =>
      show Carries f (if (right.mapMark f).assigns name then _ else _) _
      rw [Node.assigns_mapMark]
      exact Follows.ite (carries_copy.bind fun _ => follows_pure rfl) (follows_pure rfl)
    | _ => exact follows_pure rfl

/-! ## Functions -/

/-- A parameter that occurs twice is reported at its own changed mark. -/
theorem carries_declareParameters (parameters : List (Parameter α)) :
    Carries f (declareParameters (parameters.map (·.mapMark f))) (declareParameters parameters) := by
  induction parameters with
  | nil => exact follows_pure rfl
  | cons parameter rest ih =>
    rw [List.map_cons, declareParameters, declareParameters]
    refine follows_get.bind fun w => Follows.unless carries_fail ?_
    exact carries_modify.bind fun _ => ih

theorem carries_checkParameterTypes (parameters : List (Parameter α)) :
    Carries f (checkParameterTypes (parameters.map (·.mapMark f)))
      (checkParameterTypes parameters) := by
  induction parameters with
  | nil => exact follows_pure rfl
  | cons parameter rest ih =>
    rw [List.map_cons, checkParameterTypes, checkParameterTypes]
    exact carries_checkType.bind fun _ => ih

/-- The steps of a body run in the same workspace of their own. -/
theorem carries_within {name : Text} {body : Generate α Unit} {body' : Generate β Unit}
    (h : Carries f body' body) : Carries f (within name body') (within name body) := by
  intro w
  have hbody : body' (w.enter name) = _ := h (w.enter name)
  unfold within
  rw [id, hbody]
  cases body (w.enter name) <;> rfl

/-- A function is refused for the same reasons, at the changed marks. -/
theorem carries_compileFunction {name : Text} (parameters : List (Parameter α))
    {result : Option String} {m : α} {declared : Bool} {body : Generate α Unit}
    {body' : Generate β Unit} (h : Carries f body' body) :
    Carries f
      (compileFunction name (parameters.map (·.mapMark f)) result (f m) declared body')
      (compileFunction name parameters result m declared body) := by
  refine follows_get.bind fun w => Follows.unless carries_fail ?_
  refine (carries_checkParameterTypes parameters).bind fun _ => ?_
  refine carries_checkOptionalType.bind fun _ => carries_within ?_
  exact (carries_declareParameters parameters).bind fun _ => h

/-! ## Statements and expressions -/

section
variable {space : Text}

/-- The statements of a body, from what is known of each of them. -/
theorem carries_compileBody {nodes : List (Node α)}
    (h : ∀ node ∈ nodes, ∀ context,
      Carries f (compile space context (node.mapMark f)) (compile space context node)) :
    Carries f (compileBody space (nodes.map (Node.mapMark f))) (compileBody space nodes) := by
  induction nodes with
  | nil => exact follows_pure rfl
  | cons node rest ih =>
    rw [List.map_cons, compileBody, compileBody]
    refine (h node List.mem_cons_self {}).bind fun _ => ?_
    exact ih fun x hx => h x (List.mem_cons_of_mem node hx)

/-- The arguments of a call, from what is known of each of them. -/
theorem carries_compileArguments {context : Context} {name : Text} {parameters : List String}
    {nodes : List (Node α)}
    (h : ∀ node ∈ nodes, ∀ context,
      Carries f (compile space context (node.mapMark f)) (compile space context node)) :
    Carries f (compileArguments space context name parameters (nodes.map (Node.mapMark f)))
      (compileArguments space context name parameters nodes) := by
  induction nodes generalizing parameters with
  | nil => cases parameters <;> exact follows_pure rfl
  | cons node rest ih =>
    cases parameters with
    | nil => exact follows_pure rfl
    | cons parameter parameters =>
      rw [List.map_cons, compileArguments, compileArguments, Node.mark_mapMark]
      refine (h node List.mem_cons_self _).bind fun value => carries_store.bind fun _ => ?_
      exact ih fun x hx => h x (List.mem_cons_of_mem node hx)

/-- By induction on the node: each step of its form carries the marks, and so do its children.
-/
theorem carries_compile (context : Context) (node : Node α) :
    Carries f (compile space context (node.mapMark f)) (compile space context node) := by
  induction node using Node.induction generalizing context with
  | step node ih =>
    cases node with
    | declare name type m =>
      rw [Node.mapMark, compile, compile]
      refine follows_get.bind fun w => Follows.unless carries_fail ?_
      refine carries_checkOptionalType.bind fun _ => follows_get.bind fun w => ?_
      exact carries_modify.bind fun _ => follows_pure rfl
    | define name type value m =>
      rw [Node.mapMark, compile, compile]
      refine follows_get.bind fun w => Follows.unless carries_fail ?_
      refine carries_checkOptionalType.bind fun _ => follows_get.bind fun w => ?_
      refine (ih value (by simp [Node.children]) _).bind fun result => ?_
      exact carries_store.bind fun _ => carries_modify.bind fun _ => follows_pure rfl
    | assign name value m =>
      rw [Node.mapMark, compile, compile]
      refine follows_get.bind fun w => ?_
      refine Follows.unless carries_fail (Follows.unless carries_fail ?_)
      -- where the value goes depends on the names in it
      rw [Node.references_mapMark]
      refine (ih value (by simp [Node.children]) _).bind fun result => ?_
      exact carries_store.bind fun _ => follows_pure rfl
    | function name parameters result body m =>
      -- the names of the parameters, which the scope keeps, have no marks
      rw [Node.mapMark_function, compile, compile, List.map_map]
      refine follows_get.bind fun w => ?_
      refine (carries_compileFunction parameters (carries_compileBody ih)).bind fun _ => ?_
      exact carries_modify.bind fun _ => follows_pure rfl
    | call name arguments m =>
      rw [Node.mapMark_call, compile, compile]
      refine follows_get.bind fun w => Follows.unless carries_fail ?_
      rw [id]
      cases w.scope.parameters? name with
      | none => exact carries_fail
      | some parameters =>
        -- the check of the number of arguments counts the same ones
        simp only [List.length_map]
        refine Follows.unless carries_fail (Follows.unless carries_push ?_)
        refine (carries_compileArguments ih).bind fun _ => ?_
        exact carries_push.bind fun _ => follows_pure rfl
    | raw text m =>
      rw [Node.mapMark, compile, compile]
      exact carries_push.bind fun _ => follows_get.bind fun w => follows_pure rfl
    | binary op left right m =>
      rw [Node.mapMark, compile, compile, Node.mark_mapMark, Node.mark_mapMark]
      refine follows_get.bind fun w => ?_
      refine (ih left (by simp [Node.children]) _).bind fun first => ?_
      refine carries_keepValue.bind fun first => ?_
      refine (ih right (by simp [Node.children]) _).bind fun second => ?_
      refine carries_requireInt.bind fun _ => carries_requireInt.bind fun _ => ?_
      exact carries_combine
    | integer value m =>
      rw [Node.mapMark, compile, compile]
      exact Follows.ite (follows_pure rfl) carries_fail
    | string value m =>
      rw [Node.mapMark, compile, compile]
      exact carries_fail
    | access name m =>
      rw [Node.mapMark, compile, compile]
      refine follows_get.bind fun w => Follows.unless carries_fail ?_
      exact Follows.ite (follows_pure rfl) (follows_pure rfl)

end

end Generate

/-! ## Scripts -/

/-- What is left of generating commands, with another mark of its fault. -/
def Generation.mapMark (f : α → β) (g : Generation α) : Generation β :=
  ⟨g.finished, g.taken, g.fault.map (Diagnostic.mapPlace f)⟩

/-- Changing the marks of a script changes nothing but the place of the fault. -/
theorem generate_mapMark (space name : Text) (mark : α) (script : Script α) :
    generate space name (f mark) (script.map (Node.mapMark f))
      = (generate space name mark script).mapMark f := by
  have hbody : Generate.Carries f (Generate.compileBody space (script.map (Node.mapMark f)))
      (Generate.compileBody space script) :=
    Generate.carries_compileBody fun node _ context => Generate.carries_compile context node
  have hrun : Generate.compileFunction name [] none (f mark) false
      (Generate.compileBody space (script.map (Node.mapMark f))) (Workspace.ofName name) = _ :=
    Generate.carries_compileFunction [] hbody (Workspace.ofName name)
  unfold generate
  simp only [hrun]
  cases Generate.compileFunction name [] none mark false (Generate.compileBody space script)
    (Workspace.ofName name) <;> rfl

end Scoreboard
