import Mathlib
import Scoreboard.Proofs.Bodies
import Scoreboard.Proofs.Interpreter
import Scoreboard.Proofs.Trees

/-!
# The variables of activations

An activation gives a value to exactly the variables of its function: the parameters, and
what the statements of the body declare outside nested functions. Evaluating a node adds the
variables that the node declares, an assignment adds none, and a call leaves the variables of
its caller alone (`Node.fills`).
-/

namespace Scoreboard

variable {α : Type}

/-! ## Variables of a scope -/

/-- The variable that a node declares, if it declares one. -/
def Node.declares? : Node α → Option String
  | declare name _ _ => some name
  | define name _ _ _ => some name
  | _ => none

/-- The variables that expressions declare in their scope. -/
def Node.declared (nodes : List (Node α)) : List String :=
  (scopeTrees nodes).filterMap declares?

/-- The variables of a body: its parameters and what its statements declare. -/
def Body.declared (body : Body α) : List String :=
  body.parameters ++ Node.declared body.statements

/-- The name of a function with its body. -/
def Node.scope? : Node α → Option (Text × Body α)
  | function name parameters _ statements _ =>
    some (name, ⟨parameters.map (·.name), statements⟩)
  | _ => none

/-- The functions of a script with their bodies, the implicit main function first. -/
def Script.scopes (name : Text) (script : Script α) : List (Text × Body α) :=
  (name, ⟨[], script⟩) :: (Node.trees script).filterMap Node.scope?

namespace Node

@[simp] theorem declared_nil : declared ([] : List (Node α)) = [] := rfl

/-- A list declares what its first node declares, and then what the others declare. -/
theorem declared_cons (node : Node α) (rest : List (Node α)) :
    declared (node :: rest) = declared [node] ++ declared rest := by
  simp [declared, scopeTrees]

/-- A node declares its own variable and those of its children, unless it is a function. -/
theorem declared_of_scope? {node : Node α} (h : node.scope? = none) :
    declared [node] = node.declares?.toList ++ declared node.children := by
  cases node with
  | function name parameters result body m => cases h
  | _ => simp [declared, scopeTrees, scopeTree, declares?, children, List.filterMap_cons]

end Node

/-! ## Values of variables -/

/-- An activation of one of the functions, with a value for exactly its variables. -/
def Activation.Covers (scopes : List (Text × Body α)) (a : Activation) : Prop :=
  ∃ body, (a.function, body) ∈ scopes ∧ ∀ x, (a.value x).isSome = true ↔ x ∈ body.declared

/-- A frame with a value for exactly the given names. What its functions do, and what has
ended in it, are activations of the functions of a script. -/
structure Frame.Covers (scopes : List (Text × Body α)) (names : List String) (f : Frame) :
    Prop where
  value : ∀ x, (f.value x).isSome = true ↔ x ∈ names
  functions : ∀ name closure, f.functions name = some closure →
    ∀ values activations, closure values = some activations → ∀ a ∈ activations, a.Covers scopes
  ended : ∀ a ∈ f.ended, a.Covers scopes

namespace Frame

variable {scopes : List (Text × Body α)} {names : List String} {f : Frame}

theorem Covers.congr {names' : List String} (hf : f.Covers scopes names)
    (h : ∀ x, x ∈ names ↔ x ∈ names') : f.Covers scopes names' :=
  ⟨fun x => (hf.value x).trans (h x), hf.functions, hf.ended⟩

/-- A frame covers a variable it has assigned to. -/
theorem Covers.assign (hf : f.Covers scopes names) (name : String) (n : Int) :
    (f.assign name n).Covers scopes (name :: names) := by
  refine ⟨fun x => ?_, hf.functions, hf.ended⟩
  by_cases hx : x = name
  · rw [hx, assign_value_self]
    simp
  · rw [assign_value_of_ne hx, hf.value, List.mem_cons]
    simp [hx]

/-- A call starts with values for its parameters. -/
theorem covers_start {parameters : List String} {values : List Int}
    (hlength : values.length = parameters.length) :
    (start parameters values).Covers scopes parameters := by
  refine ⟨fun x => ?_, (fun _ _ h => by cases h), (fun _ h => by cases h)⟩
  show ((parameters.zip values).lookup x).isSome = true ↔ x ∈ parameters
  by_cases hx : x ∈ parameters
  · obtain ⟨n, hn⟩ := Generate.lookup_zip_of_mem hlength hx
    rw [hn]
    simp [hx]
  · rw [Generate.lookup_zip_of_notMem hx]
    simp [hx]

/-- A frame that covers the variables of a body closes with activations that cover theirs. -/
theorem Covers.close (hf : f.Covers scopes names) {function : Text} {body : Body α}
    (hbody : (function, body) ∈ scopes) (hnames : ∀ x, x ∈ names ↔ x ∈ body.declared) :
    ∀ a ∈ f.close function, a.Covers scopes :=
  List.forall_mem_append.2 ⟨hf.ended, List.forall_mem_singleton.2
    ⟨body, hbody, fun x => (hf.value x).trans (hnames x)⟩⟩

end Frame

namespace Node

variable {scopes : List (Text × Body α)}

/-- Evaluating a node adds the variables that it declares. -/
def Fills (scopes : List (Text × Body α)) (node : Node α) : Prop :=
  ∀ {names f value f'}, node.evaluate f = some (value, f') → f.Covers scopes names →
    f'.Covers scopes (names ++ declared [node])

/-- Statements leave a frame that covers what they declare. -/
theorem evaluateBody_covers {nodes : List (Node α)} (h : ∀ node ∈ nodes, node.Fills scopes)
    {names : List String} {f f' : Frame} (hbody : evaluateBody nodes f = some f')
    (hf : f.Covers scopes names) : f'.Covers scopes (names ++ declared nodes) := by
  induction nodes generalizing f names with
  | nil =>
    cases hbody
    simpa using hf
  | cons node rest ih =>
    obtain ⟨⟨value, f₁⟩, hnode, hrest⟩ := Option.bind_eq_some_iff.1 hbody
    obtain ⟨hfills, h⟩ := List.forall_mem_cons.1 h
    rw [declared_cons, ← List.append_assoc]
    exact ih h hrest (hfills hnode hf)

/-- Arguments leave a frame that covers what they declare. -/
theorem evaluateArguments_covers {nodes : List (Node α)}
    (h : ∀ node ∈ nodes, node.Fills scopes) {names : List String} {f f' : Frame}
    {values : List Int} (hnodes : evaluateArguments nodes f = some (values, f'))
    (hf : f.Covers scopes names) : f'.Covers scopes (names ++ declared nodes) := by
  induction nodes generalizing f names values with
  | nil =>
    cases hnodes
    simpa using hf
  | cons node rest ih =>
    obtain ⟨hfills, h⟩ := List.forall_mem_cons.1 h
    obtain ⟨⟨value, f₁⟩, hnode, hrest⟩ := Option.bind_eq_some_iff.1 hnodes
    cases value with
    | none => cases hrest
    | some n =>
      obtain ⟨⟨more, f₂⟩, hmore, hlast⟩ := Option.bind_eq_some_iff.1 hrest
      cases hlast
      rw [declared_cons, ← List.append_assoc]
      exact ih h hmore (hfills hnode hf)

/-- Every activation of a call covers the variables of its function. -/
theorem closure_covers {name : Text} {parameters : List String} {body : List (Node α)}
    (hscope : (name, ⟨parameters, body⟩) ∈ scopes) (hbody : ∀ node ∈ body, node.Fills scopes)
    {values : List Int} {activations : List Activation}
    (h : closure name parameters body values = some activations) :
    ∀ a ∈ activations, a.Covers scopes := by
  unfold closure at h
  split at h
  · rename_i hlength
    obtain ⟨f, hf, rfl⟩ := Option.map_eq_some_iff.1 h
    exact (evaluateBody_covers hbody hf (Frame.covers_start hlength)).close hscope fun _ => Iff.rfl
  · cases h

/-- Evaluating adds exactly the variables that are declared, if all functions are known. -/
theorem fills {node : Node α} (hscopes : ∀ x ∈ node.tree, ∀ s, x.scope? = some s → s ∈ scopes) :
    node.Fills scopes := by
  induction node using Node.induction with
  | step node ih =>
    have hchildren : ∀ child ∈ node.children, child.Fills scopes := fun child hchild =>
      ih child hchild fun x hx => hscopes x (mem_tree_of_child hchild hx)
    intro names f value f' h hf
    cases node with
    | declare name type m =>
      cases h
      refine (hf.assign name 0).congr fun x => ?_
      rw [declared_of_scope? rfl]
      simp [declares?, children, or_comm]
    | define name type e m =>
      simp only [evaluate] at h
      obtain ⟨⟨n, f₁⟩, he, h⟩ := Option.bind_eq_some_iff.1 h
      cases n with
      | none => cases h
      | some n =>
        cases h
        have hself : declared [define name type e m] = name :: declared [e] :=
          declared_of_scope? rfl
        refine ((hchildren e List.mem_cons_self he hf).assign name n).congr fun x => ?_
        rw [hself]
        simp [or_left_comm]
    | assign name e m =>
      simp only [evaluate] at h
      obtain ⟨old, hold, h⟩ := Option.bind_eq_some_iff.1 h
      obtain ⟨⟨n, f₁⟩, he, h⟩ := Option.bind_eq_some_iff.1 h
      cases n with
      | none => cases h
      | some n =>
        cases h
        -- only a variable that has a value can be assigned to
        have hname : name ∈ names := (hf.value name).1 (by rw [hold]; rfl)
        have hself : declared [assign name e m] = declared [e] := declared_of_scope? rfl
        refine ((hchildren e List.mem_cons_self he hf).assign name n).congr fun x => ?_
        rw [hself, List.mem_cons, List.mem_append]
        constructor
        · rintro (rfl | hx)
          · exact .inl hname
          · exact hx
        · exact .inr
    | function name parameters result body m =>
      rw [evaluate_function] at h
      cases h
      have hscope := hscopes _ (self_mem_tree _) _ rfl
      have hnone : declared [function name parameters result body m] = [] := rfl
      rw [hnone, List.append_nil]
      -- no variable is added; what the new function runs covers its own scope
      refine ⟨hf.value, fun g run hg values activations hrun => ?_, hf.ended⟩
      by_cases hname : g = name
      · rw [hname, Frame.bind_functions_self] at hg
        cases hg
        exact closure_covers hscope hchildren hrun
      · rw [Frame.bind_functions_of_ne hname] at hg
        exact hf.functions g run hg values activations hrun
    | call name arguments m =>
      simp only [evaluate] at h
      obtain ⟨run, hrun, h⟩ := Option.bind_eq_some_iff.1 h
      obtain ⟨⟨values, f₁⟩, harguments, h⟩ := Option.bind_eq_some_iff.1 h
      obtain ⟨activations, hactivations, h⟩ := Option.bind_eq_some_iff.1 h
      cases h
      have hf₁ := evaluateArguments_covers hchildren harguments hf
      rw [declared_of_scope? rfl]
      refine ⟨hf₁.value, hf₁.functions, List.forall_mem_append.2 ⟨hf₁.ended, ?_⟩⟩
      -- the function is the one bound before its arguments were evaluated
      exact hf.functions name run hrun values activations hactivations
    | raw text m => cases h
    | binary op left right m =>
      simp only [evaluate] at h
      obtain ⟨⟨a, f₁⟩, hleft, h⟩ := Option.bind_eq_some_iff.1 h
      cases a with
      | none => cases h
      | some a =>
        obtain ⟨⟨b, f₂⟩, hright, h⟩ := Option.bind_eq_some_iff.1 h
        cases b with
        | none => cases h
        | some b =>
          cases h
          have hf₂ := hchildren right (List.mem_cons_of_mem _ List.mem_cons_self) hright
            (hchildren left List.mem_cons_self hleft hf)
          have hself : declared [binary op left right m] = declared [left, right] :=
            declared_of_scope? rfl
          rw [hself, declared_cons, ← List.append_assoc]
          exact hf₂
    | integer n m =>
      cases h
      rw [declared_of_scope? rfl]
      simpa [declares?, children] using hf
    | string text m => cases h
    | access name m =>
      simp only [evaluate] at h
      rw [declared_of_scope? rfl]
      split at h
      · cases h
        simpa [declares?, children] using hf
      · obtain ⟨run, -, h⟩ := Option.map_eq_some_iff.1 h
        cases h
        simpa [declares?, children] using hf

end Node

/-- The activations of a script give a value to exactly the variables of their functions. -/
theorem Script.evaluate_covers {name : Text} {script : Script α}
    {activations : List Activation} (h : Script.evaluate name script = some activations) :
    ∀ a ∈ activations, a.Covers (Script.scopes name script) := by
  refine Node.closure_covers List.mem_cons_self (fun node hnode => Node.fills ?_) h
  intro x hx s hs
  refine List.mem_cons_of_mem _ (List.mem_filterMap.2 ⟨x, ?_, hs⟩)
  exact Node.mem_trees.2 ⟨node, hnode, hx⟩

end Scoreboard
