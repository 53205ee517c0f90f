import Mathlib
import Scoreboard.Script

/-!
# The nodes of a script

A node with everything below it, and the part of it that belongs to one scope: the body of a
nested function has a scope of its own. Properties of a script "at any depth" are stated as
properties of the nodes of these lists.

* `Node.induction`: a property that passes from the children of a node to the node holds of
  every node;
* `Script.bodies`: the bodies of a script, that of the implicit main function first;
* `Node.introduced`: the names that an expression introduces into its scope.
-/

namespace Scoreboard

/-- A parameter with another mark. -/
def Parameter.mapMark {α β : Type} (f : α → β) (p : Parameter α) : Parameter β :=
  ⟨p.name, p.type, f p.mark⟩

namespace Node

variable {α : Type}

/-! ## Everything below a node -/

mutual

/-- A node and all nodes below it. -/
def tree : Node α → List (Node α)
  | declare name type m => [declare name type m]
  | define name type value m => define name type value m :: value.tree
  | assign name value m => assign name value m :: value.tree
  | function name parameters result body m =>
    function name parameters result body m :: trees body
  | call name arguments m => call name arguments m :: trees arguments
  | raw text m => [raw text m]
  | binary op left right m => binary op left right m :: (left.tree ++ right.tree)
  | integer value m => [integer value m]
  | string value m => [string value m]
  | access name m => [access name m]

/-- The nodes of a list and all nodes below them. -/
def trees : List (Node α) → List (Node α)
  | [] => []
  | node :: rest => node.tree ++ trees rest

end

mutual

/-- The nodes of an expression that belong to its scope: all but those in the bodies of
nested functions. -/
def scopeTree : Node α → List (Node α)
  | declare name type m => [declare name type m]
  | define name type value m => define name type value m :: value.scopeTree
  | assign name value m => assign name value m :: value.scopeTree
  | function name parameters result body m => [function name parameters result body m]
  | call name arguments m => call name arguments m :: scopeTrees arguments
  | raw text m => [raw text m]
  | binary op left right m => binary op left right m :: (left.scopeTree ++ right.scopeTree)
  | integer value m => [integer value m]
  | string value m => [string value m]
  | access name m => [access name m]

/-- The nodes of a list of expressions that belong to their scope. -/
def scopeTrees : List (Node α) → List (Node α)
  | [] => []
  | node :: rest => node.scopeTree ++ scopeTrees rest

end

/-- A node is below a list if it is below one of its nodes. -/
theorem mem_trees {x : Node α} {nodes : List (Node α)} :
    x ∈ trees nodes ↔ ∃ node ∈ nodes, x ∈ node.tree := by
  induction nodes with
  | nil => simp [trees]
  | cons node rest ih => simp [trees, ih]

/-- Below a node are the node and what is below its children. -/
theorem tree_eq (node : Node α) : node.tree = node :: trees node.children := by
  cases node <;> simp [tree, trees, children]

theorem self_mem_tree (node : Node α) : node ∈ node.tree := by
  rw [tree_eq]
  exact List.mem_cons_self

/-- What is below a child is below the node. -/
theorem mem_tree_of_child {node child x : Node α} (hchild : child ∈ node.children)
    (hx : x ∈ child.tree) : x ∈ node.tree := by
  rw [tree_eq]
  exact List.mem_cons_of_mem _ (mem_trees.2 ⟨child, hchild, hx⟩)

/-- The nodes whose values a node takes: the first value of a variable, the value assigned to
one, the arguments of a call and the operands of an operation. -/
def inputs : Node α → List (Node α)
  | define _ _ value _ => [value]
  | assign _ value _ => [value]
  | call _ arguments _ => arguments
  | binary _ left right _ => [left, right]
  | _ => []

/-! ## Induction -/

/-- A child is smaller than its node. -/
theorem sizeOf_child_lt {node child : Node α} (h : child ∈ node.children) :
    sizeOf child < sizeOf node := by
  cases node with
  | define name type value m => simp [children] at h; subst h; simp
  | assign name value m => simp [children] at h; subst h; simp
  | function name parameters result body m =>
    have hlt : sizeOf child < sizeOf body := List.sizeOf_lt_of_mem h
    simp; omega
  | call name arguments m =>
    have hlt : sizeOf child < sizeOf arguments := List.sizeOf_lt_of_mem h
    simp; omega
  | binary op left right m =>
    simp [children] at h
    rcases h with h | h
    · subst h; simp; omega
    · subst h; simp
  | _ => simp [children] at h

/-- A property that passes from the children of a node to the node holds of every node. -/
@[elab_as_elim]
theorem induction {P : Node α → Prop}
    (step : ∀ node, (∀ child ∈ node.children, P child) → P node) (node : Node α) : P node :=
  step node fun child _ => induction step child
termination_by sizeOf node
decreasing_by exact sizeOf_child_lt ‹_›

/-- A node below another one is that one, or a child of a node below it. -/
theorem eq_or_child_of_mem_tree {node x : Node α} (h : x ∈ node.tree) :
    x = node ∨ ∃ parent ∈ node.tree, x ∈ parent.children := by
  induction node using Node.induction with
  | step node ih =>
    rw [tree_eq] at h
    rcases List.mem_cons.1 h with h | h
    · exact .inl h
    · obtain ⟨child, hchild, hx⟩ := mem_trees.1 h
      rcases ih child hchild hx with rfl | ⟨parent, hparent, hx⟩
      · exact .inr ⟨node, node.self_mem_tree, hchild⟩
      · exact .inr ⟨parent, mem_tree_of_child hchild hparent, hx⟩

/-- What is below a node below another one is below that one. -/
theorem mem_tree_trans {node y x : Node α} (hy : y ∈ node.tree) (hx : x ∈ y.tree) :
    x ∈ node.tree := by
  induction node using Node.induction with
  | step node ih =>
    rw [tree_eq] at hy
    obtain rfl | hy := List.mem_cons.1 hy
    · exact hx
    · obtain ⟨child, hchild, hy⟩ := mem_trees.1 hy
      exact mem_tree_of_child hchild (ih child hchild hy)

/-! ## Other marks -/

section
variable {β γ : Type}

theorem mapMarks_eq_map (f : α → β) (nodes : List (Node α)) :
    mapMarks f nodes = nodes.map (mapMark f) := by
  induction nodes with
  | nil => rfl
  | cons node rest ih => rw [mapMarks, ih, List.map_cons]

theorem mapMark_function (f : α → β) (name : String) (parameters : List (Parameter α))
    (result : Option String) (body : List (Node α)) (m : α) :
    (function name parameters result body m).mapMark f
      = function name (parameters.map (·.mapMark f)) result (body.map (mapMark f)) (f m) := by
  rw [mapMark, mapMarks_eq_map]
  rfl

theorem mapMark_call (f : α → β) (name : String) (arguments : List (Node α)) (m : α) :
    (call name arguments m).mapMark f = call name (arguments.map (mapMark f)) (f m) := by
  rw [mapMark, mapMarks_eq_map]

/-- The mark of the node itself is changed, too. -/
@[simp] theorem mark_mapMark (f : α → β) (node : Node α) : (node.mapMark f).mark = f node.mark := by
  cases node <;> rfl

/-- Marks changed twice are changed by both maps together. -/
theorem mapMark_mapMark (f : α → β) (g : β → γ) (node : Node α) :
    (node.mapMark f).mapMark g = node.mapMark (g ∘ f) := by
  induction node using Node.induction with
  | step node ih =>
    have hnodes : ∀ nodes : List (Node α), (∀ x ∈ nodes, x ∈ node.children) →
        (nodes.map (mapMark f)).map (mapMark g) = nodes.map (mapMark (g ∘ f)) := by
      intro nodes hsub
      rw [List.map_map]
      exact List.map_congr_left fun x hx => ih x (hsub x hx)
    cases node with
    | define name type value m =>
      rw [mapMark, mapMark, mapMark, ih value (by simp [children])]
      rfl
    | assign name value m =>
      rw [mapMark, mapMark, mapMark, ih value (by simp [children])]
      rfl
    | function name parameters result body m =>
      rw [mapMark_function, mapMark_function, mapMark_function, hnodes body fun x hx => hx,
        List.map_map]
      rfl
    | call name arguments m =>
      rw [mapMark_call, mapMark_call, mapMark_call, hnodes arguments fun x hx => hx]
      rfl
    | binary op left right m =>
      rw [mapMark, mapMark, mapMark, ih left (by simp [children]), ih right (by simp [children])]
      rfl
    | _ => rfl

/-- Other marks are erased like the first ones. -/
@[simp] theorem erase_mapMark (f : α → β) (node : Node α) : (node.mapMark f).erase = node.erase :=
  mapMark_mapMark f _ node

end

/-! ## Names of a scope -/

/-- The name that a node introduces into its scope, if it introduces one. -/
def introduces? : Node α → Option String
  | declare name _ _ => some name
  | define name _ _ _ => some name
  | function name _ _ _ _ => some name
  | _ => none

/-- Whether a node is a raw command. -/
def isRaw : Node α → Bool
  | raw _ _ => true
  | _ => false

/-- Whether a node is a variable with its first value. -/
def isDefinition : Node α → Bool
  | define _ _ _ _ => true
  | _ => false

/-- The names that an expression introduces into its scope. -/
def introduced (node : Node α) : List String := node.scopeTree.filterMap introduces?

/-- The names that a list of expressions introduces into their scope. -/
def introducedAll (nodes : List (Node α)) : List String :=
  (scopeTrees nodes).filterMap introduces?

@[simp] theorem introduced_declare (name : String) (type : Option String) (m : α) :
    (declare name type m).introduced = [name] := rfl

@[simp] theorem introduced_define (name : String) (type : Option String) (value : Node α)
    (m : α) : (define name type value m).introduced = name :: value.introduced := rfl

@[simp] theorem introduced_assign (name : String) (value : Node α) (m : α) :
    (assign name value m).introduced = value.introduced := rfl

@[simp] theorem introduced_function (name : String) (parameters : List (Parameter α))
    (result : Option String) (body : List (Node α)) (m : α) :
    (function name parameters result body m).introduced = [name] := rfl

@[simp] theorem introduced_call (name : String) (arguments : List (Node α)) (m : α) :
    (call name arguments m).introduced = introducedAll arguments := rfl

@[simp] theorem introduced_raw (text : String) (m : α) :
    (raw text m).introduced = [] := rfl

@[simp] theorem introduced_binary (op : Operator) (left right : Node α) (m : α) :
    (binary op left right m).introduced = left.introduced ++ right.introduced := by
  show (left.scopeTree ++ right.scopeTree).filterMap introduces? = _
  rw [List.filterMap_append]
  rfl

@[simp] theorem introduced_integer (value : Int) (m : α) :
    (integer value m).introduced = [] := rfl

@[simp] theorem introduced_string (value : String) (m : α) :
    (string value m).introduced = [] := rfl

@[simp] theorem introduced_access (name : String) (m : α) :
    (access name m).introduced = [] := rfl

@[simp] theorem introducedAll_nil : introducedAll ([] : List (Node α)) = [] := rfl

/-- A list introduces what its first node introduces, and then what the others introduce. -/
@[simp] theorem introducedAll_cons (node : Node α) (rest : List (Node α)) :
    introducedAll (node :: rest) = node.introduced ++ introducedAll rest := by
  simp [introducedAll, introduced, scopeTrees]

/-- A node belongs to the scope of a list if it belongs to that of one of its nodes. -/
theorem mem_scopeTrees {x : Node α} {nodes : List (Node α)} :
    x ∈ scopeTrees nodes ↔ ∃ node ∈ nodes, x ∈ node.scopeTree := by
  induction nodes with
  | nil => simp [scopeTrees]
  | cons node rest ih => simp [scopeTrees, ih]

/-- The nodes of one expression come in their order among those of the list. -/
theorem scopeTree_sublist_scopeTrees {node : Node α} {nodes : List (Node α)}
    (h : node ∈ nodes) : node.scopeTree.Sublist (scopeTrees nodes) := by
  obtain ⟨before, after, rfl⟩ := List.append_of_mem h
  induction before with
  | nil => exact List.sublist_append_left _ _
  | cons first before ih =>
    exact (ih (by simp)).trans (List.sublist_append_right _ _)

/-- The nodes of a part of a scope stand in the scope in the same order. -/
theorem scopeTree_sublist {node x : Node α} (h : x ∈ node.scopeTree) :
    x.scopeTree.Sublist node.scopeTree := by
  induction node using Node.induction with
  | step node ih =>
    cases node with
    | define name type value m =>
      obtain rfl | h := List.mem_cons.1 h
      · exact List.Sublist.refl _
      · exact (ih value List.mem_cons_self h).cons _
    | assign name value m =>
      obtain rfl | h := List.mem_cons.1 h
      · exact List.Sublist.refl _
      · exact (ih value List.mem_cons_self h).cons _
    | call name arguments m =>
      obtain rfl | h := List.mem_cons.1 h
      · exact List.Sublist.refl _
      · obtain ⟨argument, hargument, h⟩ := mem_scopeTrees.1 h
        exact ((ih argument hargument h).trans (scopeTree_sublist_scopeTrees hargument)).cons _
    | binary op left right m =>
      obtain rfl | h := List.mem_cons.1 h
      · exact List.Sublist.refl _
      · obtain h | h := List.mem_append.1 h
        · exact ((ih left List.mem_cons_self h).trans (List.sublist_append_left _ _)).cons _
        · have hright := ih right (List.mem_cons_of_mem _ List.mem_cons_self) h
          exact (hright.trans (List.sublist_append_right _ _)).cons _
    | _ =>
      rw [List.mem_singleton.1 h]

/-- What a node of a scope introduces comes in its order among what the scope introduces. -/
theorem introduced_sublist {x : Node α} {nodes : List (Node α)} (h : x ∈ scopeTrees nodes) :
    x.introduced.Sublist (introducedAll nodes) := by
  obtain ⟨node, hnode, hx⟩ := mem_scopeTrees.1 h
  exact ((scopeTree_sublist hx).trans (scopeTree_sublist_scopeTrees hnode)).filterMap _

/-- What belongs to the scope of a node is below it. -/
theorem mem_tree_of_mem_scopeTree {node x : Node α} (h : x ∈ node.scopeTree) :
    x ∈ node.tree := by
  induction node using Node.induction with
  | step node ih =>
    have hself := node.self_mem_tree
    cases node with
    | define name type value m =>
      obtain rfl | h := List.mem_cons.1 h
      · exact hself
      · exact mem_tree_of_child List.mem_cons_self (ih value List.mem_cons_self h)
    | assign name value m =>
      obtain rfl | h := List.mem_cons.1 h
      · exact hself
      · exact mem_tree_of_child List.mem_cons_self (ih value List.mem_cons_self h)
    | call name arguments m =>
      obtain rfl | h := List.mem_cons.1 h
      · exact hself
      · obtain ⟨argument, hargument, h⟩ := mem_scopeTrees.1 h
        exact mem_tree_of_child hargument (ih argument hargument h)
    | binary op left right m =>
      obtain rfl | h := List.mem_cons.1 h
      · exact hself
      · have hright : right ∈ (binary op left right m).children :=
          List.mem_cons_of_mem _ List.mem_cons_self
        obtain h | h := List.mem_append.1 h
        · exact mem_tree_of_child List.mem_cons_self (ih left List.mem_cons_self h)
        · exact mem_tree_of_child hright (ih right hright h)
    | _ =>
      rw [List.mem_singleton.1 h]
      exact hself

end Node

/-! ## Bodies of a script -/

/-- The parameters of a function and the statements of its body. -/
structure Body (α : Type) where
  parameters : List String
  statements : List (Node α)

/-- The names that a body introduces: its parameters, and what its statements introduce
outside the bodies of nested functions. -/
def Body.introduced {α : Type} (body : Body α) : List String :=
  body.parameters ++ Node.introducedAll body.statements

/-- The body of a function. -/
def Node.body? {α : Type} : Node α → Option (Body α)
  | .function _ parameters _ statements _ => some ⟨parameters.map (·.name), statements⟩
  | _ => none

/-- The children of a node are the statements of its body, if it is a function, and else the
nodes whose values it takes. -/
theorem Node.mem_children {α : Type} {node child : Node α} (h : child ∈ node.children) :
    (∃ body, node.body? = some body ∧ child ∈ body.statements) ∨ child ∈ node.inputs := by
  cases node with
  | function name parameters result body m => exact .inl ⟨_, rfl, h⟩
  | _ => exact .inr h

/-- All bodies of a script: that of its implicit main function, and those of the functions
declared anywhere in it. -/
def Script.bodies {α : Type} (script : Script α) : List (Body α) :=
  ⟨[], script⟩ :: (Node.trees script).filterMap Node.body?

/-- A node belongs to the scope of the expression it is in, or to that of a function inside. -/
theorem Node.mem_scope_of_mem_tree {α : Type} {node x : Node α} (h : x ∈ node.tree) :
    x ∈ node.scopeTree
      ∨ ∃ g ∈ node.tree, ∃ body, g.body? = some body ∧ x ∈ scopeTrees body.statements := by
  induction node using Node.induction with
  | step node ih =>
    -- what a child says holds of the node, unless the node is a function
    have hchild : ∀ child ∈ node.children, (child.scopeTree ⊆ node.scopeTree) → x ∈ child.tree →
        x ∈ node.scopeTree
          ∨ ∃ g ∈ node.tree, ∃ body, g.body? = some body ∧ x ∈ scopeTrees body.statements := by
      intro child hmem hsubset hx
      obtain hx | ⟨g, hg, hbody⟩ := ih child hmem hx
      · exact .inl (hsubset hx)
      · exact .inr ⟨g, mem_tree_of_child hmem hg, hbody⟩
    cases node with
    | define name type value m =>
      obtain rfl | h := List.mem_cons.1 h
      · exact .inl List.mem_cons_self
      · exact hchild value List.mem_cons_self (List.subset_cons_self _ _) h
    | assign name value m =>
      obtain rfl | h := List.mem_cons.1 h
      · exact .inl List.mem_cons_self
      · exact hchild value List.mem_cons_self (List.subset_cons_self _ _) h
    | function name parameters result body m =>
      obtain rfl | h := List.mem_cons.1 h
      · exact .inl List.mem_cons_self
      · obtain ⟨child, hmem, hx⟩ := mem_trees.1 h
        obtain hx | ⟨g, hg, hbody⟩ := ih child hmem hx
        · exact .inr ⟨_, self_mem_tree _, _, rfl, mem_scopeTrees.2 ⟨child, hmem, hx⟩⟩
        · exact .inr ⟨g, mem_tree_of_child hmem hg, hbody⟩
    | call name arguments m =>
      obtain rfl | h := List.mem_cons.1 h
      · exact .inl List.mem_cons_self
      · obtain ⟨child, hmem, hx⟩ := mem_trees.1 h
        refine hchild child hmem (fun y hy => ?_) hx
        exact List.mem_cons_of_mem _ (mem_scopeTrees.2 ⟨child, hmem, hy⟩)
    | binary op left right m =>
      obtain rfl | h := List.mem_cons.1 h
      · exact .inl List.mem_cons_self
      · obtain h | h := List.mem_append.1 h
        · refine hchild left List.mem_cons_self (fun y hy => ?_) h
          exact List.mem_cons_of_mem _ (List.mem_append_left _ hy)
        · refine hchild right (List.mem_cons_of_mem _ List.mem_cons_self) (fun y hy => ?_) h
          exact List.mem_cons_of_mem _ (List.mem_append_right _ hy)
    | _ => exact .inl h

/-- Every node of a script belongs to one of its bodies. -/
theorem Script.exists_body {α : Type} {script : Script α} {x : Node α}
    (h : x ∈ Node.trees script) :
    ∃ body ∈ Script.bodies script, x ∈ Node.scopeTrees body.statements := by
  obtain ⟨node, hnode, hx⟩ := Node.mem_trees.1 h
  obtain hx | ⟨g, hg, body, hbody, hx⟩ := Node.mem_scope_of_mem_tree hx
  · exact ⟨⟨[], script⟩, List.mem_cons_self, Node.mem_scopeTrees.2 ⟨node, hnode, hx⟩⟩
  · refine ⟨body, List.mem_cons_of_mem _ (List.mem_filterMap.2 ⟨g, ?_, hbody⟩), hx⟩
    exact Node.mem_trees.2 ⟨node, hnode, hg⟩

end Scoreboard
