import Mathlib
import Scoreboard.Generator
import Scoreboard.Proofs.Generated

/-!
# What the generator does to its workspace

A step of the generator may fail between any two changes it makes, and what it has done up to
then stays. `Evolves` says what can have happened to a workspace, after a success and after a
fault alike: the open block and the finished blocks have only become longer, the scope has
only grown, and the names that were taken are those of the blocks that were finished and, after
a fault, of the functions around it.

Which functions these are can be read off the script and the fault (`OpenAt`): the fault lies
in the body of the innermost one, or is about one of its parameters.

A generator that is used again starts from nothing, so a run does not depend on the runs
before it (`Generator.run_eq`).
-/

namespace Scoreboard

variable {α β γ : Type}

/-! ## Workspaces -/

/-- The block of a function whose body is compiled. -/
def Block.IsFramed (block : Block) : Prop :=
  ∃ cs, block.commands = .addObjective block.name :: (cs ++ [.removeObjective block.name])

/-- Every function of a scope is one of its names. -/
def Scope.CoversFunctions (scope : Scope) : Prop :=
  ∀ f, scope.isFunction f = true → f ∈ scope.names

/-- What steps of the generator do to a workspace: `new` are the blocks they finish, `opened`
the functions that they start and do not finish, from the outside to the inside. -/
structure Evolves (w : Workspace) (new : List Block) (opened : List Text) (w' : Workspace) :
    Prop where
  name : w'.block.name = w.block.name
  commands : w.block.commands <+: w'.block.commands
  finished : w'.finished = w.finished ++ new
  framed : ∀ block ∈ new, block.IsFramed
  objective : w'.scope.objective = w.scope.objective
  names : w.scope.names ⊆ w'.scope.names
  functions : ∀ f, w.scope.isFunction f = true → w'.scope.isFunction f = true
  /-- A name that is declared keeps its meaning. -/
  parameters : ∀ f ∈ w.scope.names, w'.scope.parameters? f = w.scope.parameters? f
  covers : w.scope.CoversFunctions → w'.scope.CoversFunctions
  taken : ∀ x, x ∈ w'.taken ↔ x ∈ w.taken ∨ x ∈ new.map (·.name) ∨ x ∈ opened
  fresh : ∀ x ∈ new.map (·.name) ++ opened, x ∉ w.taken
  nodup : (new.map (·.name) ++ opened).Nodup

namespace Evolves

variable {w w₁ w₂ : Workspace} {new more : List Block} {opened : List Text}

/-- Steps that finish nothing and keep the scope. -/
theorem of_block {block : Block} (hname : block.name = w.block.name)
    (hcommands : w.block.commands <+: block.commands) :
    Evolves w [] [] { w with block := block } where
  name := hname
  commands := hcommands
  finished := (List.append_nil _).symm
  framed := fun block hblock => by cases hblock
  objective := rfl
  names := List.Subset.refl _
  functions := fun f hf => hf
  parameters := fun f _ => rfl
  covers := fun h => h
  taken := fun x => by simp
  fresh := fun x hx => by cases hx
  nodup := List.nodup_nil

theorem refl (w : Workspace) : Evolves w [] [] w :=
  of_block rfl (List.prefix_refl _)

/-- Steps that only declare a name, which must be a new one if it is that of a function. -/
theorem of_scope {scope : Scope} (hobjective : scope.objective = w.scope.objective)
    (hnames : w.scope.names ⊆ scope.names)
    (hfunctions : ∀ f, w.scope.isFunction f = true → scope.isFunction f = true)
    (hparameters : ∀ f ∈ w.scope.names, scope.parameters? f = w.scope.parameters? f)
    (hcovers : w.scope.CoversFunctions → scope.CoversFunctions) :
    Evolves w [] [] { w with scope := scope } where
  name := rfl
  commands := List.prefix_refl _
  finished := (List.append_nil _).symm
  framed := fun block hblock => by cases hblock
  objective := hobjective
  names := hnames
  functions := hfunctions
  parameters := hparameters
  covers := hcovers
  taken := fun x => by simp
  fresh := fun x hx => by cases hx
  nodup := List.nodup_nil

theorem declareVariable (w : Workspace) (name : String) :
    Evolves w [] [] { w with scope := w.scope.declareVariable name } := by
  have hnames : w.scope.names ⊆ (w.scope.declareVariable name).names :=
    fun x hx => List.mem_insert_of_mem hx
  refine of_scope rfl hnames (fun f hf => hf) (fun f _ => rfl) fun h f hf => ?_
  exact hnames (h f hf)

theorem declareFunction (w : Workspace) {name : String} (hname : name ∉ w.scope.names)
    (parameters : List String) :
    Evolves w [] [] { w with scope := w.scope.declareFunction name parameters } := by
  have hnames : w.scope.names ⊆ (w.scope.declareFunction name parameters).names :=
    fun x hx => List.mem_insert_of_mem hx
  have hother : ∀ f, f ≠ name →
      (w.scope.declareFunction name parameters).parameters? f = w.scope.parameters? f :=
    fun f hf => by rw [Scope.parameters?_declareFunction, if_neg hf]
  refine of_scope rfl hnames (fun f hf => ?_) (fun f hf => ?_) fun h f hf => ?_
  · unfold Scope.isFunction at hf ⊢
    rw [Scope.parameters?_declareFunction]
    split
    · rfl
    · exact hf
  · exact hother f fun heq => hname (heq ▸ hf)
  · by_cases heq : f = name
    · rw [heq]
      exact List.mem_insert_self
    · unfold Scope.isFunction at hf
      rw [hother f heq] at hf
      exact hnames (h f hf)

/-- One step after another. The first one has left no function open. -/
theorem trans (h₁ : Evolves w new [] w₁) (h₂ : Evolves w₁ more opened w₂) :
    Evolves w (new ++ more) opened w₂ where
  name := h₂.name.trans h₁.name
  commands := h₁.commands.trans h₂.commands
  finished := by rw [h₂.finished, h₁.finished, List.append_assoc]
  framed := List.forall_mem_append.2 ⟨h₁.framed, h₂.framed⟩
  objective := h₂.objective.trans h₁.objective
  names := List.Subset.trans h₁.names h₂.names
  functions := fun f hf => h₂.functions f (h₁.functions f hf)
  parameters := fun f hf => (h₂.parameters f (h₁.names hf)).trans (h₁.parameters f hf)
  covers := fun h => h₂.covers (h₁.covers h)
  taken := fun x => by
    rw [h₂.taken, h₁.taken, List.map_append, List.mem_append]
    simp only [List.not_mem_nil, or_false]
    tauto
  fresh := fun x hx htaken => by
    rw [List.map_append, List.append_assoc] at hx
    rcases List.mem_append.1 hx with hx | hx
    · exact h₁.fresh x (List.mem_append_left _ hx) htaken
    · exact h₂.fresh x hx ((h₁.taken x).2 (.inl htaken))
  nodup := by
    have hfirst : (new.map (·.name)).Nodup := by
      have := h₁.nodup
      rwa [List.append_nil] at this
    rw [List.map_append, List.append_assoc, List.nodup_append']
    refine ⟨hfirst, h₂.nodup, fun x hx hx' => h₂.fresh x hx' ?_⟩
    exact (h₁.taken x).2 (.inr (.inl hx))

/-- The names that the body of a function adds are free, and none of them is its own. -/
theorem fresh_enter {name : Text} (h : Evolves (w.enter name) new opened w₁) {x : Text}
    (hx : x ∈ new.map (·.name) ++ opened) : x ∉ w.taken ∧ x ≠ name := by
  have hfresh : x ∉ w.taken.insert name := h.fresh x hx
  rw [List.mem_insert_iff, not_or] at hfresh
  exact ⟨hfresh.2, hfresh.1⟩

/-- The body of a function that is compiled: its block is finished behind those of the
functions in it. -/
theorem finish {name : Text} (hname : name ∉ w.taken)
    (h : Evolves (w.enter name) new [] w₁) :
    Evolves w (new ++ [w₁.block.push (.removeObjective w₁.block.name)]) []
      (w.leave w₁.finish) where
  name := rfl
  commands := List.prefix_refl _
  finished := by
    show w₁.finished ++ _ = w.finished ++ _
    rw [h.finished, List.append_assoc]
    rfl
  framed := by
    refine List.forall_mem_append.2 ⟨h.framed, List.forall_mem_singleton.2 ?_⟩
    obtain ⟨cs, hcs⟩ := h.commands
    have hblock : w₁.block.name = name := h.name
    refine ⟨cs, ?_⟩
    show w₁.block.commands ++ [.removeObjective w₁.block.name]
      = .addObjective w₁.block.name :: (cs ++ [.removeObjective w₁.block.name])
    rw [hblock, ← hcs]
    rfl
  objective := rfl
  names := List.Subset.refl _
  functions := fun f hf => hf
  parameters := fun f _ => rfl
  covers := fun h => h
  taken := fun x => by
    have hblock : w₁.block.name = name := h.name
    show x ∈ w₁.taken ↔ _
    rw [h.taken]
    simp only [Workspace.enter, List.mem_insert_iff, List.map_append, List.mem_append,
      List.map_cons, List.map_nil, List.mem_singleton, Block.push, hblock, List.not_mem_nil]
    tauto
  fresh := fun x hx => by
    have hblock : w₁.block.name = name := h.name
    rw [List.append_nil, List.map_append] at hx
    rcases List.mem_append.1 hx with hx | hx
    · exact (h.fresh_enter (List.mem_append_left _ hx)).1
    · have hx : x = name := (List.mem_singleton.1 hx).trans hblock
      rwa [hx]
  nodup := by
    have hblock : w₁.block.name = name := h.name
    have hnew := h.nodup
    rw [List.append_nil] at hnew ⊢
    rw [List.map_append, List.nodup_append']
    refine ⟨hnew, List.nodup_singleton _, fun x hx hx' => ?_⟩
    exact (h.fresh_enter (List.mem_append_left _ hx)).2 ((List.mem_singleton.1 hx').trans hblock)

/-- The body of a function with a fault in it: the function stays open. -/
theorem abort {name : Text} (hname : name ∉ w.taken)
    (h : Evolves (w.enter name) new opened w₁) :
    Evolves w new (name :: opened) (w.leave w₁) where
  name := rfl
  commands := List.prefix_refl _
  finished := h.finished
  framed := h.framed
  objective := rfl
  names := List.Subset.refl _
  functions := fun f hf => hf
  parameters := fun f _ => rfl
  covers := fun h => h
  taken := fun x => by
    show x ∈ w₁.taken ↔ _
    rw [h.taken]
    simp only [Workspace.enter, List.mem_insert_iff, List.mem_cons]
    tauto
  fresh := fun x hx => by
    rcases List.mem_append.1 hx with hx | hx
    · exact (h.fresh_enter (List.mem_append_left _ hx)).1
    · rcases List.mem_cons.1 hx with rfl | hx
      · exact hname
      · exact (h.fresh_enter (List.mem_append_right _ hx)).1
  nodup := by
    refine (List.perm_middle.nodup_iff).2 (List.nodup_cons.2 ⟨fun hx => ?_, h.nodup⟩)
    exact (h.fresh_enter hx).2 rfl

end Evolves

/-! ## Faults and the functions around them -/

namespace Node

theorem self_mem_scopeTrees (node : Node α) : node ∈ scopeTrees [node] := by
  refine mem_scopeTrees.2 ⟨node, List.mem_cons_self, ?_⟩
  cases node <;> exact List.mem_cons_self

/-- A child belongs to the scope of its node, if that is no function. -/
theorem scopeTrees_child_subset {node child : Node α} (hnode : node.body? = none)
    (hchild : child ∈ node.children) : scopeTrees [child] ⊆ scopeTrees [node] := by
  intro x hx
  obtain ⟨y, hy, hx⟩ := mem_scopeTrees.1 hx
  rw [List.mem_singleton.1 hy] at hx
  refine mem_scopeTrees.2 ⟨node, List.mem_cons_self, ?_⟩
  cases node with
  | define name type value m =>
    rw [List.mem_singleton.1 hchild] at hx
    exact List.mem_cons_of_mem _ hx
  | assign name value m =>
    rw [List.mem_singleton.1 hchild] at hx
    exact List.mem_cons_of_mem _ hx
  | function name parameters result body m => cases hnode
  | call name arguments m =>
    exact List.mem_cons_of_mem _ (mem_scopeTrees.2 ⟨child, hchild, hx⟩)
  | binary op left right m =>
    refine List.mem_cons_of_mem _ (List.mem_append.2 ?_)
    rcases List.mem_cons.1 hchild with rfl | hchild
    · exact .inl hx
    · rw [List.mem_singleton.1 hchild] at hx
      exact .inr hx
  | _ => cases hchild

end Node

/-- A fault in the scope of some nodes, or in the body of a function there, with the names of
the functions that it lies in. -/
inductive OpenAt (fault : Diagnostic α) : List (Node α) → List Text → Prop
  /-- The fault is about a node of the scope itself. -/
  | node {nodes : List (Node α)} {x : Node α} (hx : x ∈ Node.scopeTrees nodes)
      (hplace : fault.place = x.mark) : OpenAt fault nodes []
  /-- The types of parameters are checked before the function is started. -/
  | type {nodes : List (Node α)} {name : String} {parameters : List (Parameter α)}
      {result : Option String} {body : List (Node α)} {m : α} {p : Parameter α}
      (hx : .function name parameters result body m ∈ Node.scopeTrees nodes)
      (hp : p ∈ parameters) (hfault : fault = ⟨.unknownType p.type, p.mark⟩) :
      OpenAt fault nodes []
  /-- The names of parameters are declared inside of it. -/
  | parameter {nodes : List (Node α)} {name : String} {parameters : List (Parameter α)}
      {result : Option String} {body : List (Node α)} {m : α} {p : Parameter α}
      (hx : .function name parameters result body m ∈ Node.scopeTrees nodes)
      (hp : p ∈ parameters) (hfault : fault = ⟨.redeclared .parameter p.name, p.mark⟩) :
      OpenAt fault nodes [name]
  /-- The fault is in the body of a function. -/
  | body {nodes : List (Node α)} {name : String} {parameters : List (Parameter α)}
      {result : Option String} {body : List (Node α)} {m : α} {opened : List Text}
      (hx : .function name parameters result body m ∈ Node.scopeTrees nodes)
      (h : OpenAt fault body opened) : OpenAt fault nodes (name :: opened)

namespace OpenAt

variable {fault : Diagnostic α} {nodes more : List (Node α)} {opened : List Text}

theorem mono (h : OpenAt fault nodes opened)
    (hmore : Node.scopeTrees nodes ⊆ Node.scopeTrees more) : OpenAt fault more opened := by
  cases h with
  | node hx hplace => exact .node (hmore hx) hplace
  | type hx hp hfault => exact .type (hmore hx) hp hfault
  | parameter hx hp hfault => exact .parameter (hmore hx) hp hfault
  | body hx h => exact .body (hmore hx) h

/-- One of the nodes. -/
theorem of_mem {x : Node α} (h : OpenAt fault [x] opened) (hx : x ∈ nodes) :
    OpenAt fault nodes opened := by
  refine h.mono fun y hy => ?_
  rw [Node.scopeTrees, Node.scopeTrees, List.append_nil] at hy
  exact Node.mem_scopeTrees.2 ⟨x, hx, hy⟩

end OpenAt

/-! ## Checks -/

namespace Generate

/-- A step that changes nothing, whether it succeeds or fails. -/
def Checks (step : Generate α β) (bad : Diagnostic α → Prop) : Prop :=
  ∀ w, Ensures step w (fun _ w' => w' = w) fun fault w' => w' = w ∧ bad fault

section
variable {bad : Diagnostic α → Prop} {m : α}

theorem checks_pure {x : β} : Checks (pure x : Generate α β) bad := fun _ => rfl

theorem checks_fail {cause : Cause} (h : bad ⟨cause, m⟩) :
    Checks (fail cause m : Generate α β) bad := fun _ => ⟨rfl, h⟩

theorem checks_bind {x : Generate α β} {f : β → Generate α γ} (hx : Checks x bad)
    (hf : ∀ b, Checks (f b) bad) : Checks (x >>= f) bad := by
  intro w
  refine (hx w).bind fun b w₁ h₁ => ?_
  rw [h₁]
  exact hf b w

theorem checks_checkType {type : String} (h : bad ⟨.unknownType type, m⟩) :
    Checks (checkType type m) bad := by
  unfold checkType
  split
  · exact checks_pure
  · exact checks_fail h

theorem checks_checkOptionalType {type : Option String}
    (h : ∀ t, bad ⟨.unknownType t, m⟩) : Checks (checkOptionalType type m) bad := by
  cases type with
  | none => exact checks_pure
  | some type => exact checks_checkType (h type)

theorem checks_requireInt {value : Value} (h : ∀ t, bad ⟨.typeMismatch .int t, m⟩) :
    Checks (requireInt value m) bad := by
  cases value with
  | constant n => exact checks_pure
  | stored cell => exact checks_pure
  | _ => exact checks_fail (h _)

theorem checks_checkParameterTypes {parameters : List (Parameter α)}
    (h : ∀ p ∈ parameters, bad ⟨.unknownType p.type, p.mark⟩) :
    Checks (checkParameterTypes parameters) bad := by
  induction parameters with
  | nil => exact checks_pure
  | cons p rest ih =>
    obtain ⟨hp, hrest⟩ := List.forall_mem_cons.1 h
    exact checks_bind (checks_checkType hp) fun _ => ih hrest

end

/-! ## Single commands -/

/-- What a step does to a workspace, whether it succeeds or fails. After a fault `lies` says
which functions may be open. -/
def Keeps (step : Generate α β) (lies : Diagnostic α → List Text → Prop) : Prop :=
  ∀ w, Ensures step w (fun _ w' => ∃ new, Evolves w new [] w')
    fun fault w' => ∃ new opened, Evolves w new opened w' ∧ lies fault opened

section
variable {lies : Diagnostic α → List Text → Prop} {m : α}

theorem keeps_pure {x : β} : Keeps (pure x : Generate α β) lies := fun w => ⟨[], .refl w⟩

theorem keeps_get : Keeps (get : Generate α Workspace) lies := fun w => ⟨[], .refl w⟩

theorem keeps_fail {cause : Cause} (h : lies ⟨cause, m⟩ []) :
    Keeps (fail cause m : Generate α β) lies := fun w => ⟨[], [], .refl w, h⟩

theorem keeps_bind {x : Generate α β} {f : β → Generate α γ} (hx : Keeps x lies)
    (hf : ∀ b, Keeps (f b) lies) : Keeps (x >>= f) lies := by
  intro w
  refine (hx w).bind fun b w₁ h₁ => ?_
  obtain ⟨new, h₁⟩ := h₁
  refine (hf b w₁).mono (fun c w₂ h₂ => ?_) fun fault w₂ h₂ => ?_
  · obtain ⟨more, h₂⟩ := h₂
    exact ⟨new ++ more, h₁.trans h₂⟩
  · obtain ⟨more, opened, h₂, hlies⟩ := h₂
    exact ⟨new ++ more, opened, h₁.trans h₂, hlies⟩

theorem keeps_ite {c : Prop} [Decidable c] {x y : Generate α β} (hx : Keeps x lies)
    (hy : Keeps y lies) : Keeps (if c then x else y) lies := by
  split
  · exact hx
  · exact hy

/-- A check in front of other steps. -/
theorem keeps_unless {c : Prop} [Decidable c] {cause : Cause} {f : PUnit → Generate α β}
    (h : lies ⟨cause, m⟩ []) (hf : Keeps (f ()) lies) :
    Keeps (if c then do let r ← fail cause m; f r else f ()) lies :=
  keeps_ite (keeps_bind (keeps_fail h) fun _ => hf) hf

theorem Keeps.mono {lies' : Diagnostic α → List Text → Prop} {x : Generate α β}
    (h : Keeps x lies) (hlies : ∀ fault opened, lies fault opened → lies' fault opened) :
    Keeps x lies' := by
  refine fun w => (h w).mono (fun _ _ h => h) fun fault w' h => ?_
  obtain ⟨new, opened, h, hfault⟩ := h
  exact ⟨new, opened, h, hlies fault opened hfault⟩

/-- A check leaves no function open. -/
theorem Checks.keeps {x : Generate α β} (h : Checks x (lies · [])) : Keeps x lies := by
  refine fun w => (h w).mono (fun b w' hw => ?_) fun fault w' hw => ?_
  · rw [hw]
    exact ⟨[], .refl w⟩
  · rw [hw.1]
    exact ⟨[], [], .refl w, hw.2⟩

/-- Steps behind a check start where the check did. -/
theorem Checks.bind_ensures {x : Generate α β} {f : β → Generate α γ} {w : Workspace}
    {good : γ → Workspace → Prop} (hx : Checks x (lies · []))
    (hf : ∀ b, Ensures (f b) w good fun fault w' =>
      ∃ new opened, Evolves w new opened w' ∧ lies fault opened) :
    Ensures (x >>= f) w good fun fault w' =>
      ∃ new opened, Evolves w new opened w' ∧ lies fault opened := by
  refine ensures_bind.2 ((hx w).mono (fun b w' hw => ?_) fun fault w' hw => ?_)
  · rw [hw]
    exact hf b
  · rw [hw.1]
    exact ⟨[], [], .refl w, hw.2⟩

theorem keeps_pushAll (commands : List Command) :
    Keeps (pushAll commands : Generate α Unit) lies :=
  fun _ => ⟨[], .of_block rfl (List.prefix_append _ _)⟩

theorem keeps_push (command : Command) : Keeps (push command : Generate α Unit) lies :=
  keeps_pushAll [command]

theorem keeps_declareVariable (name : String) :
    Keeps (modifyScope (Scope.declareVariable name) : Generate α Unit) lies :=
  fun w => ⟨[], .declareVariable w name⟩

theorem keeps_copy {target source : Cell} : Keeps (copy target source : Generate α Unit) lies :=
  keeps_ite keeps_pure (keeps_push _)

theorem keeps_store {target : Cell} {value : Value}
    (h : ∀ t, lies ⟨.typeMismatch .int t, m⟩ []) : Keeps (store target value m) lies := by
  cases value with
  | constant n => exact keeps_push _
  | stored source => exact keeps_copy
  | _ => exact keeps_fail (h _)

theorem keeps_applyConstant {op : Operator} {target : Cell} {n : Int} :
    Keeps (applyConstant op target n : Generate α Unit) lies :=
  keeps_bind keeps_get fun _ => keeps_pushAll _

theorem keeps_combine {op : Operator} {target : Cell} {left right : Value}
    (h : lies ⟨.divisionByZero, m⟩ []) : Keeps (combine op target left right m) lies := by
  unfold combine
  split
  · exact keeps_ite (keeps_fail h) keeps_pure
  · exact keeps_bind keeps_copy fun _ => keeps_bind keeps_applyConstant fun _ => keeps_pure
  · exact keeps_bind (keeps_push _) fun _ => keeps_bind (keeps_push _) fun _ => keeps_pure
  · exact keeps_bind keeps_copy fun _ => keeps_bind (keeps_push _) fun _ => keeps_pure
  · exact keeps_pure

theorem keeps_keepValue {target : Cell} {left right : Node α} {value : Value} :
    Keeps (keepValue target left right value) lies := by
  unfold keepValue
  split
  · exact keeps_ite (keeps_bind keeps_copy fun _ => keeps_pure) keeps_pure
  · exact keeps_pure

/-! ## Functions -/

theorem keeps_declareParameters {parameters : List (Parameter α)}
    (h : ∀ p ∈ parameters, lies ⟨.redeclared .parameter p.name, p.mark⟩ []) :
    Keeps (declareParameters parameters) lies := by
  induction parameters with
  | nil => exact keeps_pure
  | cons p rest ih =>
    obtain ⟨hp, hrest⟩ := List.forall_mem_cons.1 h
    refine keeps_bind keeps_get fun w => keeps_unless hp ?_
    exact keeps_bind (keeps_declareVariable p.name) fun _ => ih hrest

end

/-- A body in a workspace of its own. The block and the scope around it stay as they are. -/
theorem within_ensures {lies : Diagnostic α → List Text → Prop} {name : Text}
    {body : Generate α Unit} {w : Workspace} (hname : name ∉ w.taken) (h : Keeps body lies) :
    Ensures (within name body) w
      (fun _ w' => w'.scope = w.scope ∧ ∃ new, Evolves w new [] w')
      fun fault w' => ∃ new opened, Evolves w new (name :: opened) w' ∧ lies fault opened := by
  have hbody := h (w.enter name)
  unfold Ensures at hbody ⊢
  unfold within
  cases hrun : body (w.enter name) with
  | ok u inner =>
    rw [hrun] at hbody
    obtain ⟨new, hnew⟩ := hbody
    exact ⟨rfl, _, hnew.finish hname⟩
  | error fault inner =>
    rw [hrun] at hbody
    obtain ⟨new, opened, hnew, hlies⟩ := hbody
    exact ⟨new, opened, hnew.abort hname, hlies⟩

/-- A function is checked before its name is taken. If it is compiled, its name was free. -/
theorem compileFunction_ensures {lies : Diagnostic α → List Text → Prop} {name : Text}
    {parameters : List (Parameter α)} {result : Option String} {m : α} {declared : Bool}
    {body : Generate α Unit} {w : Workspace} (hself : ∀ cause, lies ⟨cause, m⟩ [])
    (htypes : ∀ p ∈ parameters, lies ⟨.unknownType p.type, p.mark⟩ [])
    (hbody : Keeps (do declareParameters parameters; body) fun fault opened =>
      lies fault (name :: opened)) :
    Ensures (compileFunction name parameters result m declared body) w
      (fun _ w' => declared = false ∧ w'.scope = w.scope ∧ ∃ new, Evolves w new [] w')
      fun fault w' => ∃ new opened, Evolves w new opened w' ∧ lies fault opened := by
  refine ensures_bind.2 ?_
  show Ensures (if (w.taken.contains name || declared) = true then _ else _) w _ _
  split
  · exact ⟨[], [], .refl w, hself _⟩
  · rename_i hfree
    rw [Bool.or_eq_true, not_or, List.contains_iff_mem, Bool.not_eq_true] at hfree
    refine (checks_checkParameterTypes htypes).bind_ensures fun _ => ?_
    refine (checks_checkOptionalType fun t => hself _).bind_ensures fun _ => ?_
    refine (within_ensures hfree.1 hbody).mono (fun _ w' h => ⟨hfree.2, h⟩) fun fault w' h => ?_
    obtain ⟨new, opened, hnew, hlies⟩ := h
    exact ⟨new, name :: opened, hnew, hlies⟩

/-! ## Statements and expressions -/

section
variable {space : Text}

theorem keeps_compileBody {nodes : List (Node α)}
    (h : ∀ x ∈ nodes, ∀ context, Keeps (compile space context x) fun fault opened =>
      OpenAt fault [x] opened) :
    Keeps (compileBody space nodes) fun fault opened => OpenAt fault nodes opened := by
  have hmem : ∀ rest, (∀ x ∈ rest, x ∈ nodes) →
      Keeps (compileBody space rest) fun fault opened => OpenAt fault nodes opened := by
    intro rest
    induction rest with
    | nil => exact fun _ => keeps_pure
    | cons x rest ih =>
      intro hrest
      obtain ⟨hx, hrest⟩ := List.forall_mem_cons.1 hrest
      have hfirst := (h x hx {}).mono fun fault opened hlies => hlies.of_mem hx
      exact keeps_bind hfirst fun _ => ih hrest
  exact hmem nodes fun x hx => hx

/-- A function is checked, started, compiled and declared, in this order. -/
theorem keeps_function {context : Context} {name : String} {parameters : List (Parameter α)}
    {result : Option String} {body : List (Node α)} {m : α}
    (h : ∀ x ∈ body, ∀ context, Keeps (compile space context x) fun fault opened =>
      OpenAt fault [x] opened) :
    Keeps (compile space context (.function name parameters result body m)) fun fault opened =>
      OpenAt fault [.function name parameters result body m] opened := by
  have hself : .function name parameters result body m
      ∈ Node.scopeTrees [Node.function name parameters result body m] := List.mem_cons_self
  have hsteps : Keeps (do declareParameters parameters; compileBody space body) fun fault opened =>
      OpenAt fault [.function name parameters result body m] (name :: opened) := by
    refine keeps_bind (keeps_declareParameters fun p hp => .parameter hself hp rfl) fun _ => ?_
    exact (keeps_compileBody h).mono fun fault opened hlies => .body hself hlies
  intro w
  rw [compile]
  refine ensures_bind.2 ?_
  refine Ensures.bind (compileFunction_ensures (fun cause => .node hself rfl)
    (fun p hp => .type hself hp rfl) hsteps) fun _ w₁ h₁ => ?_
  obtain ⟨hdeclared, hscope, new, hnew⟩ := h₁
  have hname : name ∉ w₁.scope.names := by
    rw [hscope]
    intro hmem
    have : w.scope.declares name = true := List.contains_iff_mem.2 hmem
    rw [this] at hdeclared
    cases hdeclared
  exact ⟨_, hnew.trans (.declareFunction w₁ hname _)⟩

theorem keeps_compileArguments {lies : Diagnostic α → List Text → Prop} {context : Context}
    {name : Text} {parameters : List String} {arguments : List (Node α)}
    (h : ∀ x ∈ arguments, ∀ context, Keeps (compile space context x) lies)
    (hmark : ∀ x ∈ arguments, ∀ cause, lies ⟨cause, x.mark⟩ []) :
    Keeps (compileArguments space context name parameters arguments) lies := by
  induction arguments generalizing parameters with
  | nil => cases parameters <;> exact keeps_pure
  | cons x rest ih =>
    obtain ⟨hx, hrest⟩ := List.forall_mem_cons.1 h
    obtain ⟨hmarkx, hmarkrest⟩ := List.forall_mem_cons.1 hmark
    cases parameters with
    | nil => exact keeps_pure
    | cons p parameters =>
      rw [compileArguments]
      refine keeps_bind (hx _) fun value => ?_
      exact keeps_bind (keeps_store fun t => hmarkx _) fun _ => ih hrest hmarkrest

/-- What compiling a node does to a workspace. -/
theorem keeps_compile (context : Context) (node : Node α) :
    Keeps (compile space context node) fun fault opened => OpenAt fault [node] opened := by
  induction node using Node.induction generalizing context with
  | step node ih =>
    have hself : ∀ cause : Cause, OpenAt ⟨cause, node.mark⟩ [node] [] :=
      fun cause => .node node.self_mem_scopeTrees rfl
    -- what is said of a child can be said of the node, unless it is a function
    have hchild : node.body? = none → ∀ x ∈ node.children, ∀ context,
        Keeps (compile space context x) fun fault opened => OpenAt fault [node] opened :=
      fun hnode x hx context => (ih x hx context).mono fun fault opened hlies =>
        hlies.mono (Node.scopeTrees_child_subset hnode hx)
    have hmark : node.body? = none → ∀ x ∈ node.children, ∀ cause : Cause,
        OpenAt ⟨cause, x.mark⟩ [node] [] :=
      fun hnode x hx cause =>
        .node (Node.scopeTrees_child_subset hnode hx x.self_mem_scopeTrees) rfl
    cases node with
    | declare name type m =>
      rw [compile]
      refine keeps_bind keeps_get fun w => keeps_unless (hself _) ?_
      refine keeps_bind (checks_checkOptionalType fun t => hself _).keeps fun _ => ?_
      refine keeps_bind keeps_get fun w => ?_
      exact keeps_bind (keeps_declareVariable name) fun _ => keeps_pure
    | define name type value m =>
      rw [compile]
      refine keeps_bind keeps_get fun w => keeps_unless (hself _) ?_
      refine keeps_bind (checks_checkOptionalType fun t => hself _).keeps fun _ => ?_
      refine keeps_bind keeps_get fun w => ?_
      refine keeps_bind (hchild rfl value List.mem_cons_self _) fun result => ?_
      refine keeps_bind (keeps_store fun t => hself _) fun _ => ?_
      exact keeps_bind (keeps_declareVariable name) fun _ => keeps_pure
    | assign name value m =>
      rw [compile]
      refine keeps_bind keeps_get fun w => ?_
      refine keeps_unless (hself _) (keeps_unless (hself _) ?_)
      refine keeps_bind (hchild rfl value List.mem_cons_self _) fun result => ?_
      exact keeps_bind (keeps_store fun t => hself _) fun _ => keeps_pure
    | function name parameters result body m => exact keeps_function ih
    | call name arguments m =>
      rw [compile]
      refine keeps_bind keeps_get fun w => keeps_unless (hself _) ?_
      split
      · exact keeps_fail (hself _)
      · rename_i parameters hparameters
        have hrest : Keeps (do
              compileArguments space context name parameters arguments
              push (.call space name)
              return Value.function name) fun fault opened =>
            OpenAt fault [.call name arguments m] opened := by
          refine keeps_bind (keeps_compileArguments (hchild rfl) (hmark rfl)) fun _ => ?_
          exact keeps_bind (keeps_push _) fun _ => keeps_pure
        refine keeps_unless (hself _) ?_
        exact keeps_ite (keeps_bind (keeps_push _) fun _ => hrest) hrest
    | raw text m =>
      rw [compile]
      exact keeps_bind (keeps_push _) fun _ => keeps_bind keeps_get fun _ => keeps_pure
    | binary op left right m =>
      have hleft : left ∈ (Node.binary op left right m).children := List.mem_cons_self
      have hright : right ∈ (Node.binary op left right m).children :=
        List.mem_cons_of_mem _ List.mem_cons_self
      rw [compile]
      refine keeps_bind keeps_get fun w => ?_
      refine keeps_bind (hchild rfl left hleft _) fun first => ?_
      refine keeps_bind keeps_keepValue fun first => ?_
      refine keeps_bind (hchild rfl right hright _) fun second => ?_
      refine keeps_bind (checks_requireInt fun t => hmark rfl left hleft _).keeps fun _ => ?_
      refine keeps_bind (checks_requireInt fun t => hmark rfl right hright _).keeps fun _ => ?_
      exact keeps_combine (hself _)
    | integer n m =>
      rw [compile]
      exact keeps_ite keeps_pure (keeps_fail (hself _))
    | string text m =>
      rw [compile]
      exact keeps_fail (hself _)
    | access name m =>
      rw [compile]
      refine keeps_bind keeps_get fun w => keeps_unless (hself _) ?_
      exact keeps_ite keeps_pure keeps_pure

end

end Generate

/-! ## Generators -/

namespace Generator

variable {name : Text} {mark : α} {script : Script α}

/-- What a run gives and leaves is what generating for the script gives, whatever the runs
before it have left. -/
theorem run_eq (g : Generator) :
    g.run name mark script = ((generate g.space name mark script).fault,
      ⟨g.space, (generate g.space name mark script).finished,
        (generate g.space name mark script).taken⟩) := by
  have hstart : g.reset.workspace name = Workspace.ofName name := rfl
  have hspace : g.reset.space = g.space := rfl
  unfold run generate
  simp only [hstart, hspace]
  cases Generate.compileFunction name [] none mark false (Generate.compileBody g.space script)
    (Workspace.ofName name) <;> rfl

/-- One run of a generator: the name of its main function, a mark for it, and a script. -/
structure Run (α : Type) where
  name : Text
  mark : α
  script : Script α

/-- The generator after some runs, whether they succeeded or not. -/
def after (g : Generator) (runs : List (Run α)) : Generator :=
  runs.foldl (fun g r => (g.run r.name r.mark r.script).2) g

theorem after_space (g : Generator) (runs : List (Run α)) : (g.after runs).space = g.space := by
  induction runs generalizing g with
  | nil => rfl
  | cons r runs ih =>
    have hrun : (g.run r.name r.mark r.script).2.space = g.space := by rw [run_eq]
    exact (ih _).trans hrun

end Generator

/-- The generator keeps what it has done. Compiling a node, from any workspace, leaves the
commands and blocks that were there, only adds to the scope, and takes the names of the blocks
it finishes and, after a fault, those of the functions that the fault lies in. And a generator
that has run before, on any scripts, gives the blocks or the fault that a new one gives. -/
theorem generator_keeps_state (space : Text) :
    (∀ (context : Context) (node : Node α) (w : Workspace),
      Ensures (Generate.compile space context node) w (fun _ w' => ∃ new, Evolves w new [] w')
        fun fault w' => ∃ new opened, Evolves w new opened w' ∧ OpenAt fault [node] opened)
      ∧ ∀ (g : Generator) (runs : List (Generator.Run α)) (name : Text) (mark : α)
        (script : Script α),
        (g.after runs).run name mark script
            = (Generator.mk g.space [] []).run name mark script
          ∧ (g.after runs).run name mark script
            = ((generate g.space name mark script).fault,
              ⟨g.space, (generate g.space name mark script).finished,
                (generate g.space name mark script).taken⟩) := by
  refine ⟨fun context node w => Generate.keeps_compile context node w,
    fun g runs name mark script => ?_⟩
  rw [Generator.run_eq, Generator.run_eq, Generator.after_space]
  exact ⟨rfl, rfl⟩

/-- A fault in the second of two functions inside of another one: the first is finished, and
the names of all of them stay taken. -/
example :
    let g := generate "pack" "main" () [.function "f" [] none
      [.function "g" [] none [] (), .function "h" [] none [.access "x" ()] ()] ()]
    g.fault = some ⟨.unknownMember .variable "x", ()⟩ ∧ g.finished.map (·.name) = ["g"]
      ∧ g.taken = ["h", "g", "f", "main"] := by
  decide

end Scoreboard
