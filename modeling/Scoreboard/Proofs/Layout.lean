import Mathlib
import Scoreboard.Proofs.Activations
import Scoreboard.Proofs.Blocks

/-!
# The layout of compiled programs

What the blocks of a compiled script look like, without running them.

* The blocks come in post-order of the functions: a function behind those declared in it, and
  the main function last (`Node.postorder`).
* A block creates its objective, then come the commands of its statements, and at the end it
  removes its objective (`Block.IsLaid`). A statement changes scores of the block's own
  objective, or it is a raw command, or it calls a function that the body of the block
  declares directly; then the arguments go into the objective of that function, which is
  created first (`Laid`).
* The functions that a block can call come before it (`LaidOut`).
-/

namespace Scoreboard

variable {α : Type}

/-! ## Functions of a script -/

namespace Node

/-- The name of a function. -/
def functionName? : Node α → Option Text
  | function name _ _ _ _ => some name
  | _ => none

/-- The functions that statements declare directly. -/
def functions (nodes : List (Node α)) : List Text := nodes.filterMap functionName?

mutual

/-- The functions declared in a node, at any depth, each behind those inside it. -/
def postorder : Node α → List Text
  | declare _ _ _ => []
  | define _ _ value _ => value.postorder
  | assign _ value _ => value.postorder
  | function name _ _ body _ => postorders body ++ [(name : Text)]
  | call _ arguments _ => postorders arguments
  | raw _ _ => []
  | binary _ left right _ => left.postorder ++ right.postorder
  | integer _ _ => []
  | string _ _ => []
  | access _ _ => []

/-- The functions declared in nodes, at any depth, each behind those inside it. -/
def postorders : List (Node α) → List Text
  | [] => []
  | node :: rest => node.postorder ++ postorders rest

end

theorem mem_functions {name : Text} {nodes : List (Node α)} {node : Node α}
    (hnode : node ∈ nodes) (hname : node.functionName? = some name) : name ∈ functions nodes :=
  List.mem_filterMap.2 ⟨node, hnode, hname⟩

theorem functions_subset_postorders (nodes : List (Node α)) :
    functions nodes ⊆ postorders nodes := by
  intro f hf
  obtain ⟨node, hnode, hname⟩ := List.mem_filterMap.1 hf
  induction nodes with
  | nil => cases hnode
  | cons first rest ih =>
    rw [postorders, List.mem_append]
    rcases List.mem_cons.1 hnode with rfl | hnode
    · left
      cases node with
      | function name parameters result body m =>
        cases hname
        rw [postorder]
        exact List.mem_append_right _ List.mem_cons_self
      | _ => cases hname
    · right
      exact ih (mem_functions hnode hname) hnode

end Node

/-- An expression with an integer value declares no function. -/
theorem Generate.Lowering.postorder {context : Context} {e : Node α} {w w' : Workspace}
    {v : Value} (h : Generate.Lowering context e w v w') : e.postorder = [] := by
  induction h with
  | integer => rw [Node.postorder]
  | access => rw [Node.postorder]
  | assign _ _ _ ih => rwa [Node.postorder]
  | define _ _ ih => rwa [Node.postorder]
  | binary _ _ _ _ ih₁ ih₂ => rw [Node.postorder, ih₁, ih₂, List.append_nil]

/-! ## Commands of a body -/

/-- The commands of a block for some of the statements of its body `nodes`. -/
inductive Laid (space : Text) (block : Text) (nodes : List (Node α)) : List Command → Prop
  | nil : Laid space block nodes []
  | scores {cs ds : List Command} (h : ∀ c ∈ cs, c.Touches (·.objective = block))
      (hrest : Laid space block nodes ds) : Laid space block nodes (cs ++ ds)
  | raw {text : String} {m : α} {ds : List Command} (h : Node.raw text m ∈ nodes)
      (hrest : Laid space block nodes ds) : Laid space block nodes (.raw text :: ds)
  | call {f : Text} {ds : List Command} (hf : f ∈ Node.functions nodes)
      (hrest : Laid space block nodes ds) : Laid space block nodes (.call space f :: ds)
  | callWith {f : Text} {cs ds : List Command} (hf : f ∈ Node.functions nodes)
      (h : ∀ c ∈ cs, c.Touches fun cell => cell.objective = block ∨ cell.objective = f)
      (hrest : Laid space block nodes ds) :
      Laid space block nodes (.addObjective f :: (cs ++ .call space f :: ds))

namespace Laid

variable {space block : Text} {nodes : List (Node α)} {cs ds : List Command}

theorem append (h : Laid space block nodes cs) (hds : Laid space block nodes ds) :
    Laid space block nodes (cs ++ ds) := by
  induction h with
  | nil => exact hds
  | scores h _ ih =>
    rw [List.append_assoc]
    exact .scores h ih
  | raw h _ ih => exact .raw h ih
  | call hf _ ih => exact .call hf ih
  | callWith hf h _ ih =>
    rw [List.cons_append, List.append_assoc]
    exact .callWith hf h ih

/-- A call names a function that the body declares directly. -/
theorem mem_functions (h : Laid space block nodes cs) {space' f : Text}
    (hcall : .call space' f ∈ cs) : space' = space ∧ f ∈ Node.functions nodes := by
  induction h with
  | nil => cases hcall
  | scores h _ ih =>
    rcases List.mem_append.1 hcall with hcall | hcall
    · exact (h _ hcall).elim
    · exact ih hcall
  | raw _ _ ih =>
    rcases List.mem_cons.1 hcall with hcall | hcall
    · cases hcall
    · exact ih hcall
  | call hf _ ih =>
    rcases List.mem_cons.1 hcall with hcall | hcall
    · cases hcall
      exact ⟨rfl, hf⟩
    · exact ih hcall
  | callWith hf h _ ih =>
    rcases List.mem_cons.1 hcall with hcall | hcall
    · cases hcall
    · rcases List.mem_append.1 hcall with hcall | hcall
      · exact (h _ hcall).elim
      · rcases List.mem_cons.1 hcall with hcall | hcall
        · cases hcall
          exact ⟨rfl, hf⟩
        · exact ih hcall

end Laid

/-! ## Blocks of functions -/

/-- A block whose commands are those of a body, between the creation and the removal of its
objective. -/
def Block.IsLaid (space : Text) (nodes : List (Node α)) (block : Block) : Prop :=
  ∃ cs, Laid space block.name nodes cs
    ∧ block.commands = .addObjective block.name :: (cs ++ [.removeObjective block.name])

theorem Block.IsLaid.mem_functions {space : Text} {nodes : List (Node α)} {block : Block}
    (h : block.IsLaid space nodes) {space' f : Text}
    (hcall : .call space' f ∈ block.commands) :
    space' = space ∧ f ∈ Node.functions nodes := by
  obtain ⟨cs, hlaid, hcommands⟩ := h
  rw [hcommands] at hcall
  have hcs : .call space' f ∈ cs := by simpa using hcall
  exact hlaid.mem_functions hcs

/-- Blocks in an order in which every block is that of one of the functions, and comes behind
the functions that its body declares. -/
def LaidOut (space : Text) (scopes : List (Text × Body α)) (blocks : List Block) : Prop :=
  ∀ before block after, blocks = before ++ block :: after →
    ∃ body, (block.name, body) ∈ scopes ∧ block.IsLaid space body.statements
      ∧ ∀ f ∈ Node.functions body.statements, f ∈ before.map (·.name)

namespace LaidOut

variable {space : Text} {scopes more : List (Text × Body α)} {blocks others : List Block}

theorem nil : LaidOut space scopes [] := by
  intro before block after heq
  exact absurd heq (by simp)

theorem mono (h : LaidOut space scopes blocks) (hscopes : scopes ⊆ more) :
    LaidOut space more blocks := by
  intro before block after heq
  obtain ⟨body, hbody, hblock⟩ := h before block after heq
  exact ⟨body, hscopes hbody, hblock⟩

theorem append (h : LaidOut space scopes blocks) (hothers : LaidOut space scopes others) :
    LaidOut space scopes (blocks ++ others) := by
  intro before block after heq
  -- the block is one of the first, or all of the first stand before it
  rcases List.append_eq_append_iff.1 heq with ⟨middle, rfl, hmore⟩ | ⟨middle, hfirst, hmore⟩
  · obtain ⟨body, hbody, hlaid, hcalls⟩ := hothers middle block after hmore
    refine ⟨body, hbody, hlaid, fun f hf => ?_⟩
    rw [List.map_append]
    exact List.mem_append_right _ (hcalls f hf)
  · cases middle with
    | nil =>
      rw [List.append_nil] at hfirst
      obtain ⟨body, hbody, hlaid, hcalls⟩ := hothers [] block after hmore.symm
      exact ⟨body, hbody, hlaid, fun f hf => by cases hcalls f hf⟩
    | cons next middle =>
      obtain ⟨rfl, -⟩ := List.cons.inj hmore
      exact h before block middle hfirst

/-- One more block at the end. -/
theorem concat {block : Block} {body : Body α} (h : LaidOut space scopes blocks)
    (hbody : (block.name, body) ∈ scopes) (hlaid : block.IsLaid space body.statements)
    (hcalls : ∀ f ∈ Node.functions body.statements, f ∈ blocks.map (·.name)) :
    LaidOut space scopes (blocks ++ [block]) := by
  intro before other after heq
  rcases List.eq_nil_or_concat after with rfl | ⟨rest, last, rfl⟩
  · obtain ⟨rfl, hlast⟩ := List.append_inj' heq rfl
    cases hlast
    exact ⟨body, hbody, hlaid, hcalls⟩
  · rw [List.concat_eq_append, ← List.cons_append, ← List.append_assoc] at heq
    exact h before other rest (List.append_inj' heq rfl).1

end LaidOut

/-! ## Compiled bodies -/

/-- A workspace in a body: variables are kept in the objective of the block, and the functions
that can be called are those that the body declares. -/
structure Workspace.InBody (nodes : List (Node α)) (w : Workspace) : Prop where
  objective : w.scope.objective = w.block.name
  known : ∀ f ps, w.scope.parameters? f = some ps → (f : Text) ∈ Node.functions nodes

/-- A part of a body was compiled: its functions are finished as `new`, its commands `cs` were
added to the block, and the functions that can be called are those of the body. -/
structure Lays (space : Text) (nodes : List (Node α)) (scopes : List (Text × Body α))
    (w : Workspace) (new : List Block) (cs : List Command) (w' : Workspace) : Prop
    extends Finishes w new w' where
  laidOut : LaidOut space scopes new
  block : w'.block = ⟨w.block.name, w.block.commands ++ cs⟩
  laid : Laid space w.block.name nodes cs
  known : ∀ f ps, w'.scope.parameters? f = some ps → (f : Text) ∈ Node.functions nodes

namespace Lays

variable {space : Text} {nodes : List (Node α)} {scopes more : List (Text × Body α)}
  {w w₁ w₂ : Workspace} {new others : List Block} {cs ds : List Command}

theorem of_emits (h : Emits w cs w₁) (hlaid : Laid space w.block.name nodes cs)
    (hw : w.InBody nodes) : Lays space nodes scopes w [] cs w₁ := by
  refine ⟨.of_emits h, .nil, h.block, hlaid, fun f ps hf => hw.known f ps ?_⟩
  unfold Scope.parameters? at hf ⊢
  rwa [h.functions] at hf

theorem trans (h₁ : Lays space nodes scopes w new cs w₁)
    (h₂ : Lays space nodes scopes w₁ others ds w₂) :
    Lays space nodes scopes w (new ++ others) (cs ++ ds) w₂ := by
  have hlaid := h₂.laid
  rw [h₁.name] at hlaid
  refine ⟨h₁.toFinishes.trans h₂.toFinishes, h₁.laidOut.append h₂.laidOut, ?_,
    h₁.laid.append hlaid, h₂.known⟩
  rw [h₂.block, h₁.block, List.append_assoc]

theorem mono (h : Lays space nodes scopes w new cs w₁) (hscopes : scopes ⊆ more) :
    Lays space nodes more w new cs w₁ :=
  ⟨h.toFinishes, h.laidOut.mono hscopes, h.block, h.laid, h.known⟩

theorem inBody (h : Lays space nodes scopes w new cs w₁) (hw : w.InBody nodes) :
    w₁.InBody nodes :=
  ⟨h.objective.trans (hw.objective.trans h.name.symm), h.known⟩

end Lays

namespace Generate

variable {space : Text} {w w' : Workspace} {v : Value} {u : Unit}

/-- The cells of an expression that is a statement, or an argument for a function `f`, are in
the objective of the block, or that of the function. -/
theorem allows_objective (P : Text → Prop) (context : Context)
    (hobjective : w.scope.objective = w.block.name) (hblock : P w.block.name)
    (hdestination : ∀ cell, context.destination = some cell → P cell.objective) :
    Allows (fun cell => P cell.objective) context w := by
  refine ⟨fun _ => hblock, fun _ _ => hblock, fun x _ => ?_, hdestination⟩
  show P w.scope.objective
  rwa [hobjective]

/-- The arguments of a call go into the objectives of the block and of the function. -/
theorem Passing.touches {name : Text} {parameters : List String} {arguments : List (Node α)}
    (h : Passing space {} name parameters arguments w w')
    (hobjective : w.scope.objective = w.block.name) :
    ∃ cs, Emits w cs w' ∧ ∀ c ∈ cs, c.Touches fun cell =>
      cell.objective = w.block.name ∨ cell.objective = name := by
  induction h with
  | @nil w => exact ⟨[], .refl w, by simp⟩
  | @cons parameter _ _ _ w w₁ _ r first isInt _ ih =>
    have hallows := allows_objective (fun o => o = w.block.name ∨ o = name)
      (Context.withDestination ⟨name, .variable parameter⟩ {}) hobjective (.inl rfl)
      (fun cell hcell => by cases hcell; exact .inr rfl)
    obtain ⟨cs, hcs, htouches, hplace⟩ := (lowering_of_compile first isInt).emits hallows
      fun x _ => .inl hobjective
    have hstore := hcs.trans (.emit w₁ (storeCommands ⟨name, .variable parameter⟩ r))
    have hobjective' := hstore.objective.trans (hobjective.trans hstore.block_name.symm)
    obtain ⟨ds, hds, htouches'⟩ := ih hobjective'
    rw [hstore.block_name] at htouches'
    refine ⟨_, hstore.trans hds, List.forall_mem_append.2 ⟨?_, htouches'⟩⟩
    exact List.forall_mem_append.2 ⟨htouches, touches_storeCommands (.inr rfl) hplace⟩

/-- There are no functions in arguments, which have integer values. -/
theorem Passing.postorders {name : Text} {parameters : List String}
    {arguments : List (Node α)} (h : Passing space {} name parameters arguments w w') :
    Node.postorders arguments = [] := by
  induction h with
  | nil => rw [Node.postorders]
  | cons first isInt _ ih =>
    rw [Node.postorders, (lowering_of_compile first isInt).postorder, ih, List.append_nil]

/-- The commands of a call. -/
theorem lays_call {nodes : List (Node α)} {scopes : List (Text × Body α)} {name : String}
    {arguments : List (Node α)} {m : α} (hw : w.InBody nodes)
    (h : compile space {} (.call name arguments m) w = .ok v w') :
    ∃ cs, Lays space nodes scopes w [] cs w' := by
  obtain ⟨-, -, parameters, w₁, hparameters, hlength, harguments, rfl⟩ := compile_call_ok h
  have hname := hw.known name parameters hparameters
  cases parameters with
  | nil =>
    -- without parameters there are no arguments, and no objective is needed for them
    obtain rfl := List.length_eq_zero_iff.1 hlength.symm
    rw [compileArguments_nil_ok harguments]
    refine ⟨[.call space name], .of_emits ?_ (.call hname .nil) hw⟩
    show Emits w [.call space name] ((w.emit []).emit [.call space name])
    rw [Workspace.emit_nil]
    exact .emit w _
  | cons parameter parameters =>
    obtain ⟨cs, hcs, htouches⟩ :=
      (passing_of_compileArguments hlength harguments).touches hw.objective
    have hemits := ((Emits.emit w [.addObjective name]).trans hcs).trans
      (.emit w₁ [.call space name])
    rw [List.append_assoc] at hemits
    exact ⟨_, .of_emits hemits (.callWith hname htouches .nil) hw⟩

/-- The block of a function, behind the blocks of the functions inside it. -/
theorem lays_function {nodes body : List (Node α)} {scopes : List (Text × Body α)}
    {name : String} {parameters : List (Parameter α)} {result : Option String} {m : α}
    {w₂ : Workspace} {new : List Block} {cs : List Command} {scope : Scope}
    (hname : (name : Text) ∉ w.taken)
    (hscopes : ((name : Text), ⟨parameters.map (·.name), body⟩) ∈ scopes)
    (hmem : .function name parameters result body m ∈ nodes) (hw : w.InBody nodes)
    (h : Lays space body scopes { w.enter name with scope := scope } new cs w₂)
    (hnames : new.map (·.name) = Node.postorders body) :
    Lays space nodes scopes w (new ++ [w₂.block.push (.removeObjective w₂.block.name)]) []
      ((w.leave w₂.finish).declareFunction name (parameters.map (·.name))) := by
  have hblock : w₂.block = ⟨name, .addObjective name :: cs⟩ := h.block
  refine ⟨finishes_function hname h.toFinishes, ?_, ?_, .nil, ?_⟩
  · rw [hblock]
    refine h.laidOut.concat hscopes ⟨cs, h.laid, rfl⟩ fun f hf => ?_
    rw [hnames]
    exact Node.functions_subset_postorders body hf
  · show w.block = _
    rw [List.append_nil]
  · intro f ps hf
    change (w.scope.declareFunction name (parameters.map (·.name))).parameters? f = some ps at hf
    rw [Scope.parameters?_declareFunction] at hf
    split at hf
    · rename_i heq
      rw [heq]
      exact Node.mem_functions hmem rfl
    · exact hw.known f ps hf

/-- Compiling a node in a body lays it out, with one block for each function in it. -/
def CompilesLaid (space : Text) (nodes : List (Node α)) (scopes : List (Text × Body α))
    (node : Node α) : Prop :=
  ∀ {w v w'}, compile space {} node w = .ok v w' → w.InBody nodes →
    ∃ new cs, Lays space nodes scopes w new cs w' ∧ new.map (·.name) = node.postorder

/-- A body from its statements. -/
theorem compileBody_lays_of {nodes body : List (Node α)} {scopes : List (Text × Body α)}
    (ih : ∀ node ∈ body, CompilesLaid space nodes scopes node)
    (h : compileBody space body w = .ok u w') (hw : w.InBody nodes) :
    ∃ new cs, Lays space nodes scopes w new cs w' ∧ new.map (·.name) = Node.postorders body := by
  induction body generalizing w with
  | nil =>
    rw [compileBody_nil_ok h]
    exact ⟨[], [], .of_emits (.refl w) .nil hw, rfl⟩
  | cons node rest ihrest =>
    obtain ⟨v, w₁, hnode, hrest⟩ := compileBody_cons_ok h
    obtain ⟨new, cs, hlays, hnames⟩ := ih node List.mem_cons_self hnode hw
    obtain ⟨more, ds, hlays', hnames'⟩ := ihrest
      (fun x hx => ih x (List.mem_cons_of_mem _ hx)) hrest (hlays.inBody hw)
    refine ⟨new ++ more, cs ++ ds, hlays.trans hlays', ?_⟩
    rw [List.map_append, hnames, hnames', Node.postorders]

/-- An expression with an integer value changes scores of the objective of the block. -/
theorem lays_expression {nodes : List (Node α)} {scopes : List (Text × Body α)} {e : Node α}
    (h : Lowering {} e w v w') (hw : w.InBody nodes) :
    ∃ cs, Lays space nodes scopes w [] cs w' := by
  have hallows := allows_objective (fun o => o = w.block.name) {} hw.objective rfl
    (fun cell hcell => by cases hcell)
  obtain ⟨cs, hcs, htouches, -⟩ := h.emits hallows fun x _ => hw.objective
  have hlaid : Laid space w.block.name nodes (cs ++ []) := .scores htouches .nil
  rw [List.append_nil] at hlaid
  exact ⟨cs, .of_emits hcs hlaid hw⟩

/-- A function from the statements of its body, for which nothing is declared yet but the
parameters. -/
theorem compilesLaid_function {nodes body : List (Node α)} {name : String}
    {parameters : List (Parameter α)} {result : Option String} {m : α}
    (hnode : .function name parameters result body m ∈ nodes)
    (ih : ∀ x ∈ body, CompilesLaid space body (x.tree.filterMap Node.scope?) x) :
    CompilesLaid space nodes
      ((Node.function name parameters result body m).tree.filterMap Node.scope?)
      (.function name parameters result body m) := by
  intro w v w' h hw
  obtain ⟨hname, -, -, w₁, w₂, hparameters, hbody, rfl⟩ := compile_function_ok h
  obtain ⟨-, -, rfl⟩ := declareParameters_ok hparameters
  set scopes := (Node.function name parameters result body m).tree.filterMap Node.scope?
  have hstart : Workspace.InBody body { w.enter name with
      scope := (w.enter name).scope.declareVariables (parameters.map (·.name)) } := by
    refine ⟨Scope.declareVariables_objective _ _, fun f ps hf => ?_⟩
    unfold Scope.parameters? at hf
    rw [Scope.declareVariables_functions] at hf
    cases hf
  have hinner : ∀ x ∈ body, CompilesLaid space body scopes x := by
    intro x hx w v w' hcompile hw'
    obtain ⟨new, cs, hlays, hnames⟩ := ih x hx hcompile hw'
    refine ⟨new, cs, hlays.mono ?_, hnames⟩
    apply List.filterMap_subset
    intro y hy
    exact Node.mem_tree_of_child hx hy
  obtain ⟨new, cs, hlays, hnames⟩ := compileBody_lays_of hinner hbody hstart
  have hself : ((name : Text), (⟨parameters.map (·.name), body⟩ : Body α)) ∈ scopes :=
    List.mem_filterMap.2 ⟨_, Node.self_mem_tree _, rfl⟩
  refine ⟨_, [], lays_function hname hself hnode hw hlays hnames, ?_⟩
  have hblock : w₂.block.name = name := hlays.name
  rw [List.map_append, hnames, Node.postorder]
  simp [Block.push, hblock]

/-- Every statement of a body is laid out. -/
theorem compile_lays {nodes : List (Node α)} {node : Node α} (hnode : node ∈ nodes) :
    CompilesLaid space nodes (node.tree.filterMap Node.scope?) node := by
  induction node using Node.induction generalizing nodes with
  | step node ih =>
    intro w v w' h hw
    by_cases hv : v.type = .int
    · have hlowering := lowering_of_compile h hv
      obtain ⟨cs, hlays⟩ := lays_expression hlowering hw
      exact ⟨[], cs, hlays, hlowering.postorder.symm⟩
    · cases effect_of_compile h hv with
      | declare =>
        refine ⟨[], [], .of_emits (.declareVariable w _) .nil hw, ?_⟩
        rw [Node.postorder, List.map_nil]
      | function => exact compilesLaid_function hnode (fun x hx => ih x hx hx) h hw
      | call _ length passed =>
        obtain ⟨cs, hlays⟩ := lays_call hw h
        refine ⟨[], cs, hlays, ?_⟩
        rw [Node.postorder, (passing_of_compileArguments length passed).postorders, List.map_nil]
      | @raw text =>
        refine ⟨[], [.raw text], .of_emits (.emit w _) (.raw hnode .nil) hw, ?_⟩
        rw [Node.postorder, List.map_nil]
      | access =>
        refine ⟨[], [], .of_emits (.refl _) .nil hw, ?_⟩
        rw [Node.postorder, List.map_nil]

theorem compileBody_lays {nodes : List (Node α)} (h : compileBody space nodes w = .ok u w')
    (hw : w.InBody nodes) :
    ∃ new cs, Lays space nodes ((Node.trees nodes).filterMap Node.scope?) w new cs w'
      ∧ new.map (·.name) = Node.postorders nodes := by
  refine compileBody_lays_of (fun x hx => ?_) h hw
  intro w v w' hcompile hw'
  obtain ⟨new, cs, hlays, hnames⟩ := compile_lays hx hcompile hw'
  refine ⟨new, cs, hlays.mono ?_, hnames⟩
  apply List.filterMap_subset
  intro y hy
  exact Node.mem_trees.2 ⟨x, hx, hy⟩

end Generate

/-! ## Compiled scripts -/

/-- The statements of a function are nodes of the script. -/
theorem Script.mem_trees_of_scope {name function : Text} {script : Script α} {body : Body α}
    (h : (function, body) ∈ Script.scopes name script) {x : Node α} (hx : x ∈ body.statements) :
    x ∈ Node.trees script := by
  rcases List.mem_cons.1 h with heq | hscope
  · cases heq
    exact Node.mem_trees.2 ⟨x, hx, x.self_mem_tree⟩
  · obtain ⟨g, hg, hbody⟩ := List.mem_filterMap.1 hscope
    obtain ⟨node, hnode, hgnode⟩ := Node.mem_trees.1 hg
    cases g with
    | function _ _ _ statements _ =>
      cases hbody
      refine Node.mem_trees.2 ⟨node, hnode, Node.mem_tree_trans hgnode ?_⟩
      exact Node.mem_tree_of_child hx x.self_mem_tree
    | _ => cases hbody

/-- The blocks of a compiled script with their names. -/
structure Layout (space name : Text) (script : Script α) (blocks : List Block) :
    Prop where
  names : blocks.map (·.name) = Node.postorders script ++ [name]
  nodup : (blocks.map (·.name)).Nodup
  laidOut : LaidOut space (Script.scopes name script) blocks

/-- A compiled script is laid out, and the names taken are those of its blocks. -/
theorem Generate.layout_of_compileBody {space name : Text} {script : Script α}
    {w : Workspace}
    (h : compileBody space script ((Workspace.ofName name).enter name) = .ok () w) :
    Layout space name script w.finish.finished
      ∧ ∀ x, x ∈ w.taken ↔ x ∈ w.finish.finished.map (·.name) := by
  obtain ⟨new, cs, hlays, hnames⟩ := compileBody_lays h ⟨rfl, fun f ps hf => by cases hf⟩
  have hfinish : Finishes (Workspace.ofName name)
      (new ++ [w.block.push (.removeObjective w.block.name)])
      ((Workspace.ofName name).leave w.finish) :=
    finishes_leave (fun hmem => by cases hmem) hlays.toFinishes
  have hblock : w.block = ⟨name, .addObjective name :: cs⟩ := hlays.block
  have hfinished : w.finish.finished = new ++ [w.block.push (.removeObjective w.block.name)] :=
    hfinish.finished
  have hscopes : (Node.trees script).filterMap Node.scope? ⊆ Script.scopes name script :=
    List.subset_cons_self _ _
  have hmain : (name, (⟨[], script⟩ : Body α)) ∈ Script.scopes name script := List.mem_cons_self
  refine ⟨⟨?_, ?_, ?_⟩, fun x => ?_⟩
  · rw [hfinished, List.map_append, hnames, hblock]
    rfl
  · rw [hfinished]
    exact hfinish.nodup
  · rw [hfinished, hblock]
    refine (hlays.laidOut.mono hscopes).concat hmain ⟨cs, hlays.laid, rfl⟩ fun f hf => ?_
    rw [hnames]
    exact Node.functions_subset_postorders script hf
  · rw [hfinished]
    have htaken : x ∈ w.taken ↔ x ∈ [] ∨ _ := hfinish.taken x
    rwa [List.mem_nil_iff, false_or] at htaken

end Scoreboard
