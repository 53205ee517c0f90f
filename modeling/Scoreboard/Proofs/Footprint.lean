import Mathlib
import Scoreboard.Proofs.Activations
import Scoreboard.Proofs.Discipline
import Scoreboard.Proofs.Expressions
import Scoreboard.Proofs.Lowering

/-!
# What the commands of an expression read and write

The generator decides from the names in an expression where its result may be put: `references`
and `assigns` stand for what the commands of the expression are going to touch. This file shows
that they do. The commands write the destination, slots of the block that belong to the
expression, and, for a call, the parameters of the function (`compile_footprint`). They take
scores only from slots of their own block, and whatever they read was written by one of them
before, unless it is a variable that the expression names.

A `Footprint` bounds what commands write, what they take scores from, and what they find
already written; footprints of commands in sequence add up.
-/

namespace Scoreboard

variable {α : Type}

/-! ## Commands -/

namespace Command

/-- The cells that a command may change; nobody knows which these are for a raw command. What
a called function changes is a matter of its own commands. -/
def Changes (cell : Cell) : Command → Prop
  | addObjective _ => False
  | removeObjective objective => cell.objective = objective
  | set target _ => cell = target
  | add target _ => cell = target
  | remove target _ => cell = target
  | copy target _ => cell = target
  | operate _ target _ => cell = target
  | call _ _ => False
  | raw _ => True

/-- The cell that a command gives a score. -/
def written? : Command → Option Cell
  | set target _ => some target
  | add target _ => some target
  | remove target _ => some target
  | copy target _ => some target
  | operate _ target _ => some target
  | _ => none

/-- The cell that an operation combines its target with. -/
def source? : Command → Option Cell
  | copy _ source => some source
  | operate _ _ source => some source
  | _ => none

/-- The cells whose scores a command reads; all operations but a copy read their target too. -/
def reads : Command → List Cell
  | add target _ => [target]
  | remove target _ => [target]
  | copy _ source => [source]
  | operate _ target source => [target, source]
  | _ => []

end Command

/-- A cell that one of the commands gives a score. -/
def Written (cs : List Command) (cell : Cell) : Prop := ∃ c ∈ cs, c.written? = some cell

theorem Written.append_left {cs : List Command} {cell : Cell} (h : Written cs cell)
    (ds : List Command) : Written (cs ++ ds) cell := by
  obtain ⟨c, hc, hcell⟩ := h
  exact ⟨c, List.mem_append_left ds hc, hcell⟩

theorem Written.append_right {ds : List Command} {cell : Cell} (h : Written ds cell)
    (cs : List Command) : Written (cs ++ ds) cell := by
  obtain ⟨c, hc, hcell⟩ := h
  exact ⟨c, List.mem_append_right cs hc, hcell⟩

/-- Commands that change only some cells, take scores only from some cells, and read a cell
only if it is known or one of the commands before has written it. -/
structure Footprint (writes sources known : Cell → Prop) (cs : List Command) : Prop where
  writes : ∀ c ∈ cs, ∀ cell, c.Changes cell → writes cell
  sources : ∀ c ∈ cs, ∀ cell, c.source? = some cell → sources cell
  reads : ∀ before c after, cs = before ++ c :: after →
    ∀ cell ∈ c.reads, known cell ∨ Written before cell

namespace Footprint

variable {W S K W' S' K' : Cell → Prop} {cs ds : List Command}

theorem nil : Footprint W S K [] where
  writes := fun c hc => by cases hc
  sources := fun c hc => by cases hc
  reads := fun before c after h => by cases before <;> cases h

theorem mono (h : Footprint W S K cs) (hW : ∀ cell, W cell → W' cell)
    (hS : ∀ cell, S cell → S' cell) (hK : ∀ cell, K cell → K' cell) :
    Footprint W' S' K' cs where
  writes := fun c hc cell hcell => hW cell (h.writes c hc cell hcell)
  sources := fun c hc cell hcell => hS cell (h.sources c hc cell hcell)
  reads := fun before c after hcs cell hcell =>
    (h.reads before c after hcs cell hcell).imp_left (hK cell)

/-- What the first commands write is known to those behind them. -/
theorem append (h₁ : Footprint W S K cs)
    (h₂ : Footprint W S (fun cell => K cell ∨ Written cs cell) ds) :
    Footprint W S K (cs ++ ds) where
  writes := List.forall_mem_append.2 ⟨h₁.writes, h₂.writes⟩
  sources := List.forall_mem_append.2 ⟨h₁.sources, h₂.sources⟩
  reads := by
    intro before c after hsplit cell hcell
    rcases List.append_eq_append_iff.1 hsplit with ⟨middle, rfl, hds⟩ | ⟨middle, rfl, hafter⟩
    · -- the command is one of the later ones
      rcases h₂.reads middle c after hds cell hcell with (hknown | hwritten) | hwritten
      · exact .inl hknown
      · exact .inr (hwritten.append_left middle)
      · exact .inr (hwritten.append_right cs)
    · cases middle with
      | nil =>
        rw [List.append_nil] at h₂
        rcases h₂.reads [] c after hafter.symm cell hcell with hknown | ⟨_, hnone, _⟩
        · exact hknown
        · cases hnone
      | cons d middle =>
        obtain ⟨rfl, rfl⟩ := List.cons.inj hafter
        exact h₁.reads before c middle rfl cell hcell

/-- One command. -/
theorem single {c : Command} (hwrites : ∀ cell, c.Changes cell → W cell)
    (hsources : ∀ cell, c.source? = some cell → S cell) (hreads : ∀ cell ∈ c.reads, K cell) :
    Footprint W S K [c] where
  writes := List.forall_mem_singleton.2 hwrites
  sources := List.forall_mem_singleton.2 hsources
  reads := by
    intro before d after hsplit cell hcell
    obtain rfl : c = d := by
      cases before with
      | nil => exact (List.cons.inj hsplit).1
      | cons first before =>
        have hnil := (List.cons.inj hsplit).2
        cases before <;> cases hnil
    exact .inl (hreads cell hcell)

end Footprint

namespace Generate

/-! ## Commands of the helpers -/

section
variable {W S K : Cell → Prop} {block : Text} {op : Operator} {target source : Cell}

theorem footprint_set {n : Int} (ht : W target) : Footprint W S K [.set target n] :=
  .single (fun cell hcell => by cases hcell; exact ht) (fun cell hcell => by cases hcell)
    (fun cell hcell => by cases hcell)

theorem footprint_operate (ht : W target) (hs : S source) (hkt : K target) (hks : K source) :
    Footprint W S K [.operate op target source] := by
  refine .single (fun cell hcell => ?_) (fun cell hcell => ?_) ?_
  · cases hcell
    exact ht
  · cases hcell
    exact hs
  · exact List.forall_mem_cons.2 ⟨hkt, List.forall_mem_singleton.2 hks⟩

theorem footprint_call (space name : Text) : Footprint W S K [.call space name] :=
  .single (fun _ hcell => hcell.elim) (fun _ hcell => by cases hcell)
    (fun _ hcell => by cases hcell)

theorem footprint_openCommands (name : Text) (parameters : List String) :
    Footprint W S K (openCommands name parameters) := by
  unfold openCommands
  split
  · exact .nil
  · exact .single (fun _ hcell => hcell.elim) (fun _ hcell => by cases hcell)
      (fun _ hcell => by cases hcell)

/-- A cell that is copied has to be one to take scores from only if it is another one. -/
theorem footprint_copyCommands (ht : W target) (hs : source ≠ target → S source)
    (hk : K source) : Footprint W S K (copyCommands target source) := by
  unfold copyCommands
  split
  · exact .nil
  · rename_i hne
    refine .single (fun cell hcell => ?_) (fun cell hcell => ?_) (List.forall_mem_singleton.2 hk)
    · cases hcell
      exact ht
    · cases hcell
      exact hs hne

/-- A copied cell is written, or it was there already. -/
theorem known_copyCommands (target : Cell) (hk : K source) :
    K target ∨ Written (copyCommands target source) target := by
  unfold copyCommands
  split
  · rename_i heq
    exact .inl (heq ▸ hk)
  · exact .inr ⟨_, List.mem_singleton_self _, rfl⟩

theorem footprint_storeCommands {v : Value} (ht : W target)
    (hs : ∀ cell, v = .stored cell → cell ≠ target → S cell)
    (hk : ∀ cell, v = .stored cell → K cell) :
    Footprint W S K (storeCommands target v) := by
  cases v with
  | constant n => exact footprint_set ht
  | stored source => exact footprint_copyCommands ht (hs source rfl) (hk source rfl)
  | _ => exact .nil

theorem footprint_constantCommands {n : Int} (ht : W target) (hk : K target)
    (hwrites : W ⟨block, .constant n⟩) (hsources : S ⟨block, .constant n⟩) :
    Footprint W S K (constantCommands block op target n) := by
  -- a constant that gets a slot of its own is written there first
  have hvia : Footprint W S K [.set ⟨block, .constant n⟩ n,
      .operate op target ⟨block, .constant n⟩] := by
    refine (footprint_set hwrites).append (footprint_operate ht hsources (.inl hk) (.inr ?_))
    exact ⟨_, List.mem_singleton_self _, rfl⟩
  have hadd : ∀ amount, Footprint W S K [.add target amount] := fun amount =>
    .single (fun cell hcell => by cases hcell; exact ht) (fun cell hcell => by cases hcell)
      (List.forall_mem_singleton.2 hk)
  have hremove : ∀ amount, Footprint W S K [.remove target amount] := fun amount =>
    .single (fun cell hcell => by cases hcell; exact ht) (fun cell hcell => by cases hcell)
      (List.forall_mem_singleton.2 hk)
  cases op with
  | multiply => exact hvia
  | divide => exact hvia
  | _ =>
    simp only [constantCommands]
    split_ifs
    · exact hadd _
    · exact hremove _
    · exact hvia

theorem footprint_combineCommands {a b : Value} (ht : W target)
    (hconstant : ∀ n, W ⟨block, .constant n⟩ ∧ S ⟨block, .constant n⟩)
    (ha : ∀ cell, a = .stored cell → K cell ∧ (cell ≠ target → S cell))
    (hb : ∀ cell, b = .stored cell → K cell ∧ S cell) :
    Footprint W S K (combineCommands block op target a b) := by
  cases a with
  | stored x =>
    obtain ⟨hx, hsx⟩ := ha x rfl
    have hcopy : Footprint W S K (copyCommands target x) := footprint_copyCommands ht hsx hx
    cases b with
    | stored y =>
      obtain ⟨hy, hsy⟩ := hb y rfl
      exact hcopy.append (footprint_operate ht hsy (known_copyCommands target hx) (.inl hy))
    | constant n =>
      exact hcopy.append (footprint_constantCommands ht (known_copyCommands target hx)
        (hconstant n).1 (hconstant n).2)
    | _ => exact .nil
  | constant n =>
    cases b with
    | stored y =>
      obtain ⟨hy, hsy⟩ := hb y rfl
      have hset : Footprint W S K [.set target n] := footprint_set ht
      refine hset.append (footprint_operate ht hsy (.inr ?_) (.inl hy))
      exact ⟨_, List.mem_singleton_self _, rfl⟩
    | _ => exact .nil
  | _ => exact .nil

/-- Two operands are combined to a constant, or into the target, which is written then. -/
theorem written_combineCommands (block : Text) {a b : Value} {cell : Cell} (ha : a.type = .int)
    (hb : b.type = .int) (hcell : combined op target a b = .stored cell) :
    cell = target ∧ Written (combineCommands block op target a b) cell := by
  have hoperate : ∀ source cs, Written (cs ++ [.operate op target source]) target :=
    fun source cs => ⟨_, List.mem_append_right cs (List.mem_singleton_self _), rfl⟩
  cases a with
  | stored x =>
    cases b with
    | stored y =>
      cases hcell
      exact ⟨rfl, hoperate y _⟩
    | constant n =>
      cases hcell
      have hconstant : Written (constantCommands block op target n) target := by
        cases op with
        | multiply => exact hoperate _ [_]
        | divide => exact hoperate _ [_]
        | _ =>
          simp only [constantCommands]
          split_ifs
          · exact ⟨_, List.mem_singleton_self _, rfl⟩
          · exact ⟨_, List.mem_singleton_self _, rfl⟩
          · exact hoperate _ [_]
      exact ⟨rfl, hconstant.append_right _⟩
    | undefined _ => cases hb
    | function _ => cases hb
  | constant n =>
    cases b with
    | stored y =>
      cases hcell
      exact ⟨rfl, hoperate y [_]⟩
    | constant k => cases hcell
    | undefined _ => cases hb
    | function _ => cases hb
  | undefined _ => cases ha
  | function _ => cases ha

end

end Generate

/-! ## Names of an expression -/

/-- The cells of a block for variables with a property, for intermediate results from a depth
on, and for constants. -/
def Cell.Reach (block : Text) (depth : Int) (names : String → Prop) (cell : Cell) : Prop :=
  cell.objective = block ∧ match cell.slot with
    | .variable x => names x
    | .scratch k => depth ≤ k
    | .constant _ => True
    | .rawResult => False
    | .holder _ => False

theorem Cell.Reach.mono {block : Text} {d d' : Int} {names names' : String → Prop} {cell : Cell}
    (h : cell.Reach block d names) (hnames : ∀ x, names x → names' x) (hdepth : d' ≤ d) :
    cell.Reach block d' names' := by
  obtain ⟨objective, slot⟩ := cell
  obtain ⟨hobjective, hslot⟩ := h
  refine ⟨hobjective, ?_⟩
  cases slot with
  | «variable» x => exact hnames x hslot
  | scratch k => exact hdepth.trans hslot
  | constant k => trivial
  | rawResult => exact hslot
  | holder text => exact hslot

namespace Node

/-- The variable that a node assigns to. -/
def assigned? : Node α → Option String
  | assign name _ _ => some name
  | _ => none

/-- The variables that an expression gives a value: it assigns to them or declares them outside
nested functions. -/
def Sets (e : Node α) (x : String) : Prop := e.assigns x = true ∨ x ∈ declared [e]

/-- The variables that an expression names: it references them or declares them outside nested
functions. -/
def Mentions (e : Node α) (x : String) : Prop := e.references x = true ∨ x ∈ declared [e]

/-- The cells of the variables that an expression of a block names. -/
def Owns (e : Node α) (block : Text) (cell : Cell) : Prop :=
  ∃ x, e.Mentions x ∧ cell = ⟨block, .variable x⟩

mutual

/-- The variables that an expression references are those that a node of its scope stands for. -/
theorem references_iff {x : String} : (e : Node α) →
    (e.references x = true ↔ ∃ y ∈ e.scopeTree, y.storedVariable? = some x)
  | define _ _ value _ => by simp [references, scopeTree, storedVariable?, references_iff value]
  | assign target value _ => by simp [references, scopeTree, storedVariable?, references_iff value]
  | call _ arguments _ => by
    simp [references, scopeTree, storedVariable?, anyReferences_iff arguments]
  | binary _ left right _ => by
    simp [references, scopeTree, storedVariable?, references_iff left, references_iff right,
      or_and_right, exists_or]
  | access target _ => by simp [references, scopeTree, storedVariable?]
  | declare _ _ _ => by simp [references, scopeTree, storedVariable?]
  | function _ _ _ _ _ => by simp [references, scopeTree, storedVariable?]
  | raw _ _ => by simp [references, scopeTree, storedVariable?]
  | integer _ _ => by simp [references, scopeTree, storedVariable?]
  | string _ _ => by simp [references, scopeTree, storedVariable?]

theorem anyReferences_iff {x : String} : (nodes : List (Node α)) →
    (anyReferences x nodes = true ↔ ∃ y ∈ scopeTrees nodes, y.storedVariable? = some x)
  | [] => by simp [anyReferences, scopeTrees]
  | node :: rest => by
    simp [anyReferences, scopeTrees, references_iff node, anyReferences_iff rest, or_and_right,
      exists_or]

end

mutual

/-- The variables that an expression assigns to are those that a node of its scope assigns
to. -/
theorem assigns_iff {x : String} : (e : Node α) →
    (e.assigns x = true ↔ ∃ y ∈ e.scopeTree, y.assigned? = some x)
  | define _ _ value _ => by simp [assigns, scopeTree, assigned?, assigns_iff value]
  | assign target value _ => by simp [assigns, scopeTree, assigned?, assigns_iff value]
  | call _ arguments _ => by simp [assigns, scopeTree, assigned?, anyAssigns_iff arguments]
  | binary _ left right _ => by
    simp [assigns, scopeTree, assigned?, assigns_iff left, assigns_iff right, or_and_right,
      exists_or]
  | access target _ => by simp [assigns, scopeTree, assigned?]
  | declare _ _ _ => by simp [assigns, scopeTree, assigned?]
  | function _ _ _ _ _ => by simp [assigns, scopeTree, assigned?]
  | raw _ _ => by simp [assigns, scopeTree, assigned?]
  | integer _ _ => by simp [assigns, scopeTree, assigned?]
  | string _ _ => by simp [assigns, scopeTree, assigned?]

theorem anyAssigns_iff {x : String} : (nodes : List (Node α)) →
    (anyAssigns x nodes = true ↔ ∃ y ∈ scopeTrees nodes, y.assigned? = some x)
  | [] => by simp [anyAssigns, scopeTrees]
  | node :: rest => by
    simp [anyAssigns, scopeTrees, assigns_iff node, anyAssigns_iff rest, or_and_right, exists_or]

end

/-- What a child names its node names, unless the node is a function. -/
theorem mentions_of_child {node child : Node α} (hnode : node.body? = none)
    (hchild : child ∈ node.children) :
    (∀ x, child.Sets x → node.Sets x) ∧ ∀ x, child.Mentions x → node.Mentions x := by
  have hscope : child.scopeTree ⊆ node.scopeTree := by
    have hsubset := scopeTrees_child_subset hnode hchild
    rwa [scopeTrees, scopeTrees, scopeTrees, scopeTrees, List.append_nil, List.append_nil]
      at hsubset
  have hdeclared : declared [child] ⊆ declared [node] :=
    List.filterMap_subset _ (scopeTrees_child_subset hnode hchild)
  refine ⟨fun x h => h.imp (fun h => ?_) fun h => hdeclared h,
    fun x h => h.imp (fun h => ?_) fun h => hdeclared h⟩
  · obtain ⟨y, hy, hx⟩ := (assigns_iff child).1 h
    exact (assigns_iff node).2 ⟨y, hscope hy, hx⟩
  · obtain ⟨y, hy, hx⟩ := (references_iff child).1 h
    exact (references_iff node).2 ⟨y, hscope hy, hx⟩

/-- A variable that an expression sets is one that it names. -/
theorem Sets.mentions {e : Node α} {x : String} (h : e.Sets x) : e.Mentions x :=
  h.imp_left e.references_of_assigns

theorem Owns.reach {e : Node α} {block : Text} {cell : Cell} (h : e.Owns block cell)
    (depth : Int) : cell.Reach block depth e.Mentions := by
  obtain ⟨x, hx, rfl⟩ := h
  exact ⟨rfl, hx⟩

end Node

/-! ## Expressions -/

namespace Generate

/-- The footprint of the commands of an expression, with further cells that they may write. -/
def Leaves (e : Node α) (block : Text) (depth : Int) (further : Cell → Prop)
    (cs : List Command) : Prop :=
  Footprint (fun cell => further cell ∨ cell.Reach block depth e.Sets)
    (Cell.Reach block depth e.Mentions) (e.Owns block) cs

/-- What is known of the value of an expression: if it is in a cell, that is the target of an
operation or the cell of a variable, and the commands have written it, unless it is a variable
that the expression names. -/
def Settles (e : Node α) (context : Context) (block : Text) (cs : List Command) (v : Value) :
    Prop :=
  ∀ cell, v = .stored cell → (cell = target context block ∨ e.Owns block cell)
    ∧ (e.Owns block cell ∨ Written cs cell)

section
variable {e child : Node α} {block : Text} {depth depth' : Int} {further further' : Cell → Prop}
  {context : Context} {cs : List Command} {v : Value}

/-- The commands of a child belong to its node, if that is no function. -/
theorem Leaves.of_child (h : Leaves child block depth' further' cs) (hnode : e.body? = none)
    (hchild : child ∈ e.children) (hdepth : depth ≤ depth')
    (hfurther : ∀ cell, further' cell → further cell ∨ cell.Reach block depth e.Sets) :
    Leaves e block depth further cs := by
  obtain ⟨hsets, hmentions⟩ := Node.mentions_of_child hnode hchild
  refine h.mono (fun cell hcell => ?_) (fun cell hcell => hcell.mono hmentions hdepth)
    fun cell hcell => ?_
  · rcases hcell with hcell | hcell
    · exact hfurther cell hcell
    · exact .inr (hcell.mono hsets hdepth)
  · obtain ⟨x, hx, rfl⟩ := hcell
    exact ⟨x, hmentions x hx, rfl⟩

/-- The target of an operation is the destination or a scratch slot. -/
theorem target_reach (context : Context) (block : Text) (names : String → Prop) :
    context.destination = some (target context block)
      ∨ (target context block).Reach block context.depth names := by
  unfold target
  cases context.destination with
  | none => exact .inr ⟨rfl, le_refl _⟩
  | some cell => exact .inl rfl

/-- What is settled for a child is settled for its node. -/
theorem Settles.of_child (hv : Settles child context block cs v) (hnode : e.body? = none)
    (hchild : child ∈ e.children) : Settles e context block cs v := by
  obtain ⟨-, hmentions⟩ := Node.mentions_of_child hnode hchild
  have howns : ∀ cell, child.Owns block cell → e.Owns block cell := by
    rintro cell ⟨x, hx, rfl⟩
    exact ⟨x, hmentions x hx, rfl⟩
  intro cell hcell
  obtain ⟨hplace, hknown⟩ := hv cell hcell
  exact ⟨hplace.imp_right (howns cell), hknown.imp_left (howns cell)⟩

theorem Settles.append (hv : Settles e context block cs v) (ds : List Command) :
    Settles e context block (cs ++ ds) v := fun cell hcell =>
  ⟨(hv cell hcell).1, (hv cell hcell).2.imp_right fun h => h.append_left ds⟩

/-- A variable that the expression names is settled. -/
theorem settles_variable {x : String} (hx : e.Mentions x) :
    Settles e context block cs (.stored ⟨block, .variable x⟩) := by
  intro cell hcell
  cases hcell
  exact ⟨.inr ⟨x, hx, rfl⟩, .inl ⟨x, hx, rfl⟩⟩

theorem settles_constant {n : Int} : Settles e context block cs (.constant n) :=
  fun cell hcell => by cases hcell

/-- Storing the value of a child in a cell that was its destination, if it had one. -/
theorem leaves_store {inner : Context} {cell : Cell} (hcs : Leaves e block depth further cs)
    (hv : Settles e inner block cs v)
    (hinner : inner.destination = some cell ∨ inner.destination = none)
    (hdepth : depth ≤ inner.depth) (hcell : further cell ∨ cell.Reach block depth e.Sets) :
    Leaves e block depth further (cs ++ storeCommands cell v) := by
  refine hcs.append (footprint_storeCommands hcell (fun source hsource hne => ?_)
    fun source hsource => (hv source hsource).2)
  rcases (hv source hsource).1 with htarget | hown
  · rcases target_reach inner block e.Mentions with hd | hreach
    · rcases hinner with h | h
      · rw [h, ← htarget] at hd
        exact (hne (Option.some.inj hd).symm).elim
      · rw [h] at hd
        cases hd
    · rw [htarget]
      exact hreach.mono (fun x hx => hx) hdepth
  · exact hown.reach depth

/-- The value of a variable: an assignment and a definition store it in the same way. -/
theorem leaves_variable {inner : Context} {name : String}
    (h : Leaves child block inner.depth (inner.destination = some ·) cs)
    (hv : Settles child inner block cs v) (hnode : e.body? = none) (hchild : child ∈ e.children)
    (hinner : inner.destination = some ⟨block, .variable name⟩ ∨ inner.destination = none)
    (hdepth : inner.depth = depth) (hsets : e.Sets name) :
    Leaves e block depth further (cs ++ storeCommands ⟨block, .variable name⟩ v) := by
  refine leaves_store (h.of_child hnode hchild hdepth.ge fun cell hd => .inr ?_)
    (hv.of_child hnode hchild) hinner hdepth.ge (.inr ⟨rfl, hsets⟩)
  rcases hinner with h | h
  · rw [h] at hd
    cases hd
    exact ⟨rfl, hsets⟩
  · rw [h] at hd
    cases hd

/-- A left operand that is kept: if it is copied, the target is written. -/
theorem Kept.leaves {left right : Node α} {a a' : Value} {kept : List Command}
    (h : Kept (target context block) left right a a' kept)
    (hcs : Leaves e block context.depth (context.destination = some ·) cs)
    (ha : Settles e context block cs a) :
    Leaves e block context.depth (context.destination = some ·) (cs ++ kept)
      ∧ Settles e context block (cs ++ kept) a' := by
  cases h with
  | stays _ =>
    rw [List.append_nil]
    exact ⟨hcs, ha⟩
  | copied source =>
    obtain ⟨hplace, hknown⟩ := ha source rfl
    refine ⟨hcs.append (footprint_copyCommands (target_reach _ _ _) (fun hne => ?_) hknown), ?_⟩
    · exact (hplace.resolve_left hne).reach context.depth
    · intro cell hcell
      cases hcell
      refine ⟨.inl rfl, ?_⟩
      rcases known_copyCommands (K := fun cell => e.Owns block cell ∨ Written cs cell)
        (target context block) hknown with (hown | hwritten) | hwritten
      · exact .inl hown
      · exact .inr (hwritten.append_left _)
      · exact .inr (hwritten.append_right _)

/-- Both operands and the operation itself. -/
theorem leaves_binary {op : Operator} {left right : Node α} {m : α} {a a' b : Value}
    {cs₁ kept cs₂ : List Command} (ha : a'.type = .int) (hb : b.type = .int)
    (h₁ : Leaves left block context.depth (context.destination = some ·) cs₁)
    (hv₁ : Settles left context block cs₁ a)
    (keep : Kept (target context block) left right a a' kept)
    (h₂ : Leaves right block (rightContext context).depth
      ((rightContext context).destination = some ·) cs₂)
    (hv₂ : Settles right (rightContext context) block cs₂ b) :
    Leaves (.binary op left right m) block context.depth (context.destination = some ·)
        (cs₁ ++ kept ++ cs₂ ++ combineCommands block op (target context block) a' b)
      ∧ Settles (.binary op left right m) context block
        (cs₁ ++ kept ++ cs₂ ++ combineCommands block op (target context block) a' b)
        (combined op (target context block) a' b) := by
  have hleft : left ∈ (Node.binary op left right m).children := List.mem_cons_self
  have hright : right ∈ (Node.binary op left right m).children :=
    List.mem_cons_of_mem _ List.mem_cons_self
  obtain ⟨hkept, hv'⟩ := keep.leaves (h₁.of_child (e := .binary op left right m) rfl hleft
    (le_refl _) fun _ h => .inl h) (hv₁.of_child rfl hleft)
  -- the right operand has no destination
  have hnone : ∀ cell, ¬(rightContext context).destination = some cell := by
    intro cell hcell
    rw [rightContext_destination] at hcell
    cases hcell
  have h₂' : Leaves (.binary op left right m) block context.depth (context.destination = some ·)
      cs₂ := h₂.of_child rfl hright depth_le_rightContext fun cell hcell => (hnone cell hcell).elim
  have hoperands := hkept.append (h₂'.mono (fun _ h => h) (fun _ h => h) fun _ h => .inl h)
  have hv₂' := hv₂.of_child (e := .binary op left right m) rfl hright
  refine ⟨hoperands.append (footprint_combineCommands (target_reach _ _ _) (fun n => ?_) ?_ ?_), ?_⟩
  · exact ⟨.inr ⟨rfl, trivial⟩, rfl, trivial⟩
  · intro cell hcell
    obtain ⟨hplace, hknown⟩ := hv'.append cs₂ cell hcell
    exact ⟨hknown, fun hne => (hplace.resolve_left hne).reach _⟩
  · intro cell hcell
    obtain ⟨hplace, hknown⟩ := hv₂' cell hcell
    refine ⟨hknown.imp_right fun h => h.append_right _, ?_⟩
    rcases hplace with rfl | hown
    · have hreach := (target_reach (rightContext context) block
        (Node.binary op left right m).Mentions).resolve_left (hnone _)
      exact hreach.mono (fun x hx => hx) depth_le_rightContext
    · exact hown.reach _
  · intro cell hcell
    obtain ⟨rfl, hwritten⟩ := written_combineCommands block ha hb hcell
    exact ⟨.inl rfl, .inr (hwritten.append_right _)⟩

end

theorem Lowering.type_eq {context : Context} {e : Node α} {w w' : Workspace} {v : Value}
    (h : Lowering context e w v w') : v.type = .int := by
  cases h with
  | binary => exact combined_type _ _ _ _
  | _ => rfl

/-- Compiling an expression adds commands whose footprint belongs to it. -/
theorem Lowering.leaves {context : Context} {e : Node α} {w w' : Workspace} {v : Value}
    (h : Lowering context e w v w') (hobjective : w.scope.objective = w.block.name) :
    ∃ cs, Emits w cs w' ∧ Leaves e w.block.name context.depth (context.destination = some ·) cs
      ∧ Settles e context w.block.name cs v := by
  induction h with
  | integer => exact ⟨[], .refl _, .nil, settles_constant⟩
  | @access context name m w declared isVariable =>
    refine ⟨[], .refl _, .nil, ?_⟩
    rw [Scope.cell, hobjective]
    exact settles_variable (.inl (by simp [Node.references]))
  | @assign context name value m w w₁ r declared isVariable inner ih =>
    obtain ⟨cs, hemits, hleaves, hsettles⟩ := ih hobjective
    rw [Scope.cell, hobjective] at hleaves hsettles ⊢
    have hsets : (Node.assign name value m).Sets name := .inl (by simp [Node.assigns])
    refine ⟨_, hemits.trans (.emit w₁ _), ?_, settles_variable hsets.mentions⟩
    refine leaves_variable hleaves hsettles rfl List.mem_cons_self ?_ ?_ hsets
    · unfold assignContext
      split
      · exact .inr rfl
      · exact .inl rfl
    · unfold assignContext
      split <;> rfl
  | @define context name type value m w w₁ r new inner ih =>
    obtain ⟨cs, hemits, hleaves, hsettles⟩ := ih hobjective
    rw [Scope.cell, hobjective] at hleaves hsettles ⊢
    have hsets : (Node.define name type value m).Sets name := .inr List.mem_cons_self
    refine ⟨_, (hemits.trans (.emit w₁ _)).trans (.declareVariable _ name), ?_,
      settles_variable hsets.mentions⟩
    rw [List.append_nil]
    exact leaves_variable hleaves hsettles rfl List.mem_cons_self (.inl rfl) rfl hsets
  | @binary context op left right m w w₁ w₂ a a' b kept first keep second divisor ih₁ ih₂ =>
    obtain ⟨cs₁, hemits₁, hleaves₁, hsettles₁⟩ := ih₁ hobjective
    have hkept := hemits₁.trans (.emit w₁ kept)
    obtain ⟨cs₂, hemits₂, hleaves₂, hsettles₂⟩ := ih₂ (by
      rw [hkept.objective, hkept.block_name, hobjective])
    have hblock := (hkept.trans hemits₂).block_name
    rw [hkept.block_name] at hleaves₂ hsettles₂
    refine ⟨_, (hkept.trans hemits₂).trans (.emit w₂ _), ?_⟩
    rw [hblock]
    exact leaves_binary (keep.type_eq.symm.trans first.type_eq) second.type_eq hleaves₁ hsettles₁
      keep hleaves₂ hsettles₂

/-! ## Calls -/

/-- The arguments of a call: besides what belongs to the call, the parameters are written. -/
theorem leaves_arguments {space : Text} {context : Context} {name : Text} {e : Node α}
    (he : e.body? = none) {arguments : List (Node α)} (hsub : ∀ x ∈ arguments, x ∈ e.children)
    {parameters : List String} (hlength : parameters.length = arguments.length)
    {w w' : Workspace} {u : Unit}
    (h : compileArguments space context name parameters arguments w = .ok u w')
    (hobjective : w.scope.objective = w.block.name) :
    ∃ cs, Emits w cs w' ∧ Leaves e w.block.name context.depth
      (fun cell => ∃ p ∈ parameters, cell = ⟨name, .variable p⟩) cs := by
  replace h := passing_of_compileArguments hlength h
  clear hlength
  induction h with
  | @nil w => exact ⟨[], .refl w, .nil⟩
  | @cons parameter parameters _ _ w w₁ _ r first isInt _ ih =>
    obtain ⟨hchild, hsub⟩ := List.forall_mem_cons.1 hsub
    obtain ⟨cs, hemits, hleaves, hsettles⟩ := (lowering_of_compile first isInt).leaves hobjective
    have hstored := hemits.trans (.emit w₁ (storeCommands ⟨name, .variable parameter⟩ r))
    obtain ⟨ds, hemits', hleaves'⟩ := ih hsub (by
      rw [hstored.objective, hstored.block_name, hobjective])
    rw [hstored.block_name] at hleaves'
    refine ⟨_, hstored.trans hemits', ?_⟩
    have hfirst : Leaves e w.block.name context.depth
        (fun cell => ∃ p ∈ parameter :: parameters, cell = ⟨name, .variable p⟩)
        (cs ++ storeCommands ⟨name, .variable parameter⟩ r) := by
      have hparameter : ∃ p ∈ parameter :: parameters,
          (⟨name, .variable parameter⟩ : Cell) = ⟨name, .variable p⟩ :=
        ⟨parameter, List.mem_cons_self, rfl⟩
      refine leaves_store (hleaves.of_child he hchild (le_refl _) fun cell hd => .inl ?_)
        (hsettles.of_child he hchild) (.inl rfl) (le_refl _) (.inl hparameter)
      cases hd
      exact hparameter
    refine hfirst.append (hleaves'.mono (fun cell hcell => ?_) (fun _ h => h) fun _ h => .inl h)
    rcases hcell with ⟨p, hp, hcell⟩ | hcell
    · exact .inl ⟨p, List.mem_cons_of_mem _ hp, hcell⟩
    · exact .inr hcell

end Generate

/-- The cells in which a call passes its arguments. -/
def Node.Passes (scope : Scope) (cell : Cell) : Node α → Prop
  | call name _ _ => ∃ parameters, scope.parameters? name = some parameters
      ∧ ∃ p ∈ parameters, cell = ⟨name, .variable p⟩
  | _ => False

theorem footprint_of_block {W S K : Cell → Prop} {w w' : Workspace} (h : w'.block = w.block) :
    ∃ cs, w'.block = ⟨w.block.name, w.block.commands ++ cs⟩ ∧ Footprint W S K cs :=
  ⟨[], by rw [h, List.append_nil], .nil⟩

/-- What the commands of a compiled node touch, whatever the destination and the depth of its
context. They change only the destination, the variables that the node assigns or declares, the
scratch slots of its block from the depth on, the slots of constants, and the parameters of the
function if the node is a call. They take scores only from variables of the block that the node
references or declares, from such scratch slots and from constants. And every cell they read,
be it a scratch slot, a constant or the destination, has been written by one of the commands
before, unless it is a variable that the node references or declares. -/
theorem compile_footprint {space : Text} {context : Context} {e : Node α} {w w' : Workspace}
    {v : Value} (h : Generate.compile space context e w = .ok v w')
    (hobjective : w.scope.objective = w.block.name) (hraw : e.isRaw = false) :
    ∃ cs, w'.block = ⟨w.block.name, w.block.commands ++ cs⟩
      ∧ Footprint
        (fun cell => context.destination = some cell ∨ e.Passes w.scope cell
          ∨ cell.Reach w.block.name context.depth e.Sets)
        (Cell.Reach w.block.name context.depth e.Mentions) (e.Owns w.block.name) cs := by
  by_cases hv : v.type = .int
  · obtain ⟨cs, hemits, hleaves, -⟩ := (Generate.lowering_of_compile h hv).leaves hobjective
    refine ⟨cs, hemits.block, hleaves.mono (fun cell hcell => ?_) (fun _ h => h) fun _ h => h⟩
    exact hcell.imp_right .inr
  -- a node without a number is a statement of its own
  cases Generate.effect_of_compile h hv with
  | declare => exact footprint_of_block rfl
  | function => exact footprint_of_block rfl
  | @call name arguments m _ w₁ parameters found length passed =>
    have hopen : Emits w (Generate.openCommands name parameters)
        (w.emit (Generate.openCommands name parameters)) := .emit w _
    obtain ⟨cs, hemits, hleaves⟩ := Generate.leaves_arguments (e := .call name arguments m) rfl
      (fun x hx => hx) length passed hobjective
    refine ⟨_, ((hopen.trans hemits).trans (.emit w₁ [.call space name])).block, ?_⟩
    refine ((Generate.footprint_openCommands name parameters).append
      (hleaves.mono (fun cell hcell => ?_) (fun _ h => h) fun _ h => .inl h)).append
      (Generate.footprint_call space name)
    rcases hcell with hcell | hcell
    · exact .inr (.inl ⟨parameters, found, hcell⟩)
    · exact .inr (.inr hcell)
  | raw => cases hraw
  | access => exact footprint_of_block rfl

/-- A call whose argument assigns to a variable that it has read, and defines another one. -/
theorem compile_footprint_call :
    let context : Context := { destination := some ⟨"main", .variable "d"⟩, depth := 2 }
    let w : Workspace :=
      { block := ⟨"main", []⟩, scope := ⟨"main", ["a", "f"], [("f", ["p"])]⟩, taken := ["f"] }
    let e : Node Unit := .call "f" [.binary .subtract (.access "a" ())
      (.binary .multiply (.assign "a" (.define "b" none (.integer 7 ()) ()) ())
        (.binary .add (.access "a" ()) (.access "b" ()) ()) ()) ()] ()
    ∃ v w', Generate.compile "pack" context e w = .ok v w'
      ∧ ∃ cs, w'.block = ⟨"main", cs⟩
        ∧ Footprint
          (fun cell => context.destination = some cell ∨ e.Passes w.scope cell
            ∨ cell.Reach "main" 2 e.Sets)
          (Cell.Reach "main" 2 e.Mentions) (e.Owns "main") cs := by
  intro context w e
  have hcompile : ∃ v w', Generate.compile "pack" context e w = .ok v w' := ⟨_, _, rfl⟩
  obtain ⟨v, w', hcompile⟩ := hcompile
  exact ⟨v, w', hcompile, compile_footprint hcompile rfl rfl⟩

end Scoreboard
