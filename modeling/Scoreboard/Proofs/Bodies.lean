import Mathlib
import Scoreboard.Proofs.Blocks
import Scoreboard.Proofs.Expressions

/-!
# Running compiled bodies

The block of a function does on the board what the interpreter does with its body. The
invariant of a body that is being run (`Consistent`) says that the board agrees with the
frame, that variables which are not declared yet are unset, that the objectives of the
functions inside are unset between their calls, and that the block of each declared function
does what the function does in the frame (`Implements`).

Each statement takes the invariant to the next workspace (`Advances`); the body of a nested
function is a smaller list of statements, so the induction is on the tree of the script.
-/

namespace Scoreboard

variable {α : Type}

/-! ## Activations on the board -/

/-- A block that closes while the variables of an activation hold their values. -/
def Moment.Closes {κ : Type} (key : Slot → κ) (moment : Moment κ) (a : Activation) : Prop :=
  moment.block = a.function ∧ ∀ x n, a.value x = some n →
    moment.board.read key ⟨a.function, .variable x⟩ = n

/-- Scores of an objective with the values of arguments in the slots of the parameters. -/
def passScores (parameters : List String) (values : List Int) (scores : Slot → Int) :
    Slot → Int
  | .variable x => ((parameters.zip values).lookup x).getD (scores (.variable x))
  | slot => scores slot

/-- The scores in the objective of a function when it is called. -/
def argumentScores (parameters : List String) (values : List Int) : Slot → Int :=
  passScores parameters values fun _ => 0

/-- A function of a program that does what a closure does, from any board on which its
objective holds the arguments and the objectives of the functions inside are unset. -/
def Implements (p : Program) (name : Text) (parameters : List String) (closure : Closure)
    (inside : List Text) (depth : Nat) : Prop :=
  ∀ d values b, depth ≤ d → values.length = parameters.length →
    b.scores name = argumentScores parameters values →
    (∀ z ∈ inside, b.scores z = fun _ => 0) →
    ∃ trace activations, p.call id d p.space name b = some (trace, b.erase name)
      ∧ closure values = some activations
      ∧ List.Forall₂ (Moment.Closes id) (closings trace) activations

theorem Implements.mono {p : Program} {name : Text} {parameters : List String}
    {closure : Closure} {inside : List Text} {k k' : Nat}
    (h : Implements p name parameters closure inside k) (hk : k ≤ k') :
    Implements p name parameters closure inside k' :=
  fun d values b hd => h d values b (hk.trans hd)

/-- A body that is being run: `inside` are the functions that it declares, at any depth. -/
structure Consistent (p : Program) (inside : List Text) (w : Workspace) (f : Frame)
    (b : Board Slot) : Prop where
  objective : w.scope.objective = w.block.name
  agrees : Agrees w.scope [] f b
  unset : ∀ x, x ∉ w.scope.names → b.read id (w.scope.cell x) = 0
  functions : ∀ name parameters, w.scope.parameters? name = some parameters →
    parameters.Nodup ∧ (name : Text) ∈ inside ∧ ∃ closure names, f.functions name = some closure
      ∧ (name : Text) ∉ names ∧ names ⊆ inside
      ∧ Implements p name parameters closure names w.finished.length
  quiet : ∀ z ∈ inside, b.scores z = fun _ => 0
  outside : w.block.name ∉ inside

/-- What running the commands of compiled statements does. -/
structure Advances (p : Program) (inside : List Text) (d : Nat) (w w' : Workspace)
    (f f' : Frame) (b b' : Board Slot) (cs : List Command) (trace : List (Moment Slot)) :
    Prop where
  block : w'.block = ⟨w.block.name, w.block.commands ++ cs⟩
  runs : runCommands id (p.call id d) w.block.name cs b = some (trace, b')
  consistent : Consistent p inside w' f' b'
  closes : ∃ activations, f'.ended = f.ended ++ activations
    ∧ List.Forall₂ (Moment.Closes id) (closings trace) activations
  unchanged : ∀ o, o ≠ w.block.name → o ∉ inside → b'.scores o = b.scores o

section
variable {p : Program} {inside : List Text} {d : Nat} {w w₁ w₂ : Workspace}
  {f f₁ f₂ : Frame} {b b₁ b₂ : Board Slot}

theorem Advances.refl (h : Consistent p inside w f b) :
    Advances p inside d w w f f b b [] [] :=
  ⟨by simp, rfl, h, ⟨[], by simp, .nil⟩, fun _ _ _ => rfl⟩

theorem Advances.trans {cs ds : List Command} {s t : List (Moment Slot)}
    (h₁ : Advances p inside d w w₁ f f₁ b b₁ cs s)
    (h₂ : Advances p inside d w₁ w₂ f₁ f₂ b₁ b₂ ds t) :
    Advances p inside d w w₂ f f₂ b b₂ (cs ++ ds) (s ++ t) := by
  have hname : w₁.block.name = w.block.name := by rw [h₁.block]
  obtain ⟨as₁, hended₁, hcloses₁⟩ := h₁.closes
  obtain ⟨as₂, hended₂, hcloses₂⟩ := h₂.closes
  refine ⟨?_, ?_, h₂.consistent, ⟨as₁ ++ as₂, ?_, ?_⟩, fun o ho hinside => ?_⟩
  · rw [h₂.block, h₁.block, List.append_assoc]
  · refine runCommands_append h₁.runs ?_
    rw [← hname]
    exact h₂.runs
  · rw [hended₂, hended₁, List.append_assoc]
  · rw [closings_append]
    exact List.rel_append hcloses₁ hcloses₂
  · rw [h₂.unchanged o (by rwa [hname]) hinside, h₁.unchanged o ho hinside]

end

/-- A statement whose commands, run from a consistent board, do what the interpreter does. -/
def StepCorrect (p : Program) (node : Node α) : Prop :=
  ∀ {w v w' new inside f b d}, Generate.compile p.space {} node w = .ok v w' →
    Finishes w new w' → (∀ blk ∈ new, blk.name ∈ inside ∧ p.get? blk.name = some blk) →
    w'.finished.length ≤ d → Consistent p inside w f b →
    ∃ value f' b' cs trace, node.evaluate f = some (value, f')
      ∧ Advances p inside d w w' f f' b b' cs trace

namespace Generate

/-! ## Bodies -/

/-- A body runs as its statements do. -/
theorem compileBody_advances {p : Program} {nodes : List (Node α)}
    (hsteps : ∀ node ∈ nodes, StepCorrect p node) {w w' : Workspace} {u : Unit}
    {new : List Block} {inside : List Text} {f : Frame} {b : Board Slot} {d : Nat}
    (h : compileBody p.space nodes w = .ok u w') (hfinishes : Finishes w new w')
    (hnew : ∀ blk ∈ new, blk.name ∈ inside ∧ p.get? blk.name = some blk)
    (hd : w'.finished.length ≤ d) (hconsistent : Consistent p inside w f b) :
    ∃ f' b' cs trace, Node.evaluateBody nodes f = some f'
      ∧ Advances p inside d w w' f f' b b' cs trace := by
  induction nodes generalizing w f b new with
  | nil =>
    rw [compileBody_nil_ok h]
    exact ⟨f, b, [], [], rfl, .refl hconsistent⟩
  | cons node rest ih =>
    obtain ⟨v, w₁, hnode, hrest⟩ := compileBody_cons_ok h
    obtain ⟨new₁, hfinishes₁⟩ := compile_finishes hnode
    obtain ⟨new₂, hfinishes₂⟩ := compileBody_finishes hrest
    obtain rfl := hfinishes.unique (hfinishes₁.trans hfinishes₂)
    rw [List.forall_mem_append] at hnew
    obtain ⟨value, f₁, b₁, cs₁, s, hevaluate, hstep⟩ := hsteps node List.mem_cons_self hnode
      hfinishes₁ hnew.1 (hfinishes₂.length_le.trans hd) hconsistent
    obtain ⟨f₂, b₂, cs₂, t, hevaluates, hsteps₂⟩ := ih
      (fun x hx => hsteps x (List.mem_cons_of_mem _ hx)) hrest hfinishes₂ hnew.2
      hstep.consistent
    refine ⟨f₂, b₂, cs₁ ++ cs₂, s ++ t, ?_, hstep.trans hsteps₂⟩
    rw [Node.evaluateBody_cons hevaluate]
    exact hevaluates

/-! ## Functions -/

theorem lookup_zip_of_mem {parameters : List String} {values : List Int}
    (h : values.length = parameters.length) {x : String} (hx : x ∈ parameters) :
    ∃ n, (parameters.zip values).lookup x = some n := by
  induction parameters generalizing values with
  | nil => cases hx
  | cons parameter rest ih =>
    obtain _ | ⟨value, values⟩ := values
    · cases h
    · rw [List.zip_cons_cons, List.lookup_cons]
      by_cases heq : x = parameter
      · exact ⟨value, by simp [heq]⟩
      · rw [beq_false_of_ne heq]
        exact ih (Nat.succ.inj h) ((List.mem_cons.1 hx).resolve_left heq)

theorem lookup_zip_of_notMem {parameters : List String} {values : List Int} {x : String}
    (hx : x ∉ parameters) : (parameters.zip values).lookup x = none := by
  rw [List.lookup_eq_none_iff]
  rintro ⟨y, n⟩ hmem
  have hy := (List.of_mem_zip hmem).1
  exact bne_iff_ne.2 fun heq => hx (heq ▸ hy)

/-- The body of a function starts consistent with the frame of its arguments. -/
theorem consistent_start {p : Program} {name : Text} {parameters : List String}
    {values : List Int} {inside : List Text} {w : Workspace} {b : Board Slot}
    (hlength : values.length = parameters.length)
    (hscores : b.scores name = argumentScores parameters values)
    (hquiet : ∀ z ∈ inside, b.scores z = fun _ => 0) (hname : name ∉ inside) :
    Consistent p inside
      { w.enter name with scope := (w.enter name).scope.declareVariables parameters }
      (.start parameters values) b := by
  have hread : ∀ x, b.read id ⟨name, .variable x⟩
      = ((parameters.zip values).lookup x).getD 0 := by
    intro x
    show b.scores name (.variable x) = _
    rw [hscores]
    rfl
  have hnames : ∀ x, x ∈ ((w.enter name).scope.declareVariables parameters).names
      ↔ x ∈ parameters := by
    intro x
    rw [Scope.mem_declareVariables]
    simp [Workspace.enter]
  have hcell : ∀ x, ((w.enter name).scope.declareVariables parameters).cell x
      = ⟨name, .variable x⟩ := by
    intro x
    rw [Scope.cell, Scope.declareVariables_objective]
    rfl
  -- a parameter has its argument, any other slot is 0, and there are no functions yet
  refine ⟨?_, ⟨fun x hx _ => ?_, fun x n hn _ => ?_⟩, fun x hx => ?_, ?_, hquiet, hname⟩
  · exact Scope.declareVariables_objective _ _
  · exact lookup_zip_of_mem hlength ((hnames x).1 hx)
  · have hlookup : (parameters.zip values).lookup x = some n := hn
    rw [hcell, hread, hlookup]
    rfl
  · rw [hcell, hread, lookup_zip_of_notMem fun hmem => hx ((hnames x).2 hmem)]
    rfl
  · intro g ps hg
    unfold Scope.parameters? at hg
    rw [Scope.declareVariables_functions] at hg
    cases hg

/-- Running the block of a function: the blocks of its calls close as the interpreter says,
then its own, and all that is left is the board without its objective. -/
theorem run_function {p : Program} {body : List (Node α)}
    (hsteps : ∀ node ∈ body, StepCorrect p node) {name : Text} {parameters : List String}
    {values : List Int} {w w₂ : Workspace} {u : Unit} {new : List Block} {b : Board Slot}
    {d : Nat}
    (h : compileBody p.space body
      { w.enter name with scope := (w.enter name).scope.declareVariables parameters }
        = .ok u w₂)
    (hfinishes : Finishes
      { w.enter name with scope := (w.enter name).scope.declareVariables parameters } new w₂)
    (hnew : ∀ blk ∈ new, p.get? blk.name = some blk) (hd : w₂.finished.length ≤ d)
    (hlength : values.length = parameters.length)
    (hscores : b.scores name = argumentScores parameters values)
    (hquiet : ∀ z ∈ new.map (·.name), b.scores z = fun _ => 0) :
    ∃ trace activations,
      p.run id (d + 1) (w₂.block.push (.removeObjective w₂.block.name)) b
          = some (trace, b.erase name)
        ∧ Node.closure name parameters body values = some activations
        ∧ List.Forall₂ (Moment.Closes id) (closings trace) activations := by
  have hname : name ∉ new.map (·.name) := by
    intro hmem
    apply hfinishes.fresh name hmem
    exact List.mem_insert_self
  obtain ⟨f', b', cs, trace, hevaluates, hadvances⟩ := compileBody_advances hsteps h hfinishes
    (fun blk hblk => ⟨List.mem_map_of_mem hblk, hnew blk hblk⟩) hd
    (consistent_start hlength hscores hquiet hname)
  obtain ⟨activations, hended, hcloses⟩ := hadvances.closes
  have hblock : w₂.block = ⟨name, [.addObjective name] ++ cs⟩ := hadvances.block
  have hconsistent := hadvances.consistent
  -- outside its own objective the body has left everything as it was
  have herase : b'.erase name = b.erase name := by
    ext o slot
    by_cases ho : o = name
    · rw [ho, Board.erase_scores_same, Board.erase_scores_same]
    · rw [Board.erase_scores_of_ne ho, Board.erase_scores_of_ne ho]
      by_cases hinside : o ∈ new.map (·.name)
      · rw [hconsistent.quiet o hinside, hquiet o hinside]
      · rw [hadvances.unchanged o ho hinside]
  refine ⟨⟨name, .addObjective name, b⟩ :: (trace ++ [⟨name, .removeObjective name, b'⟩]),
    activations ++ [⟨name, f'.value⟩], ?_, ?_, ?_⟩
  · rw [Program.run_succ, hblock, ← herase]
    have hopen : runCommands id (p.call id d) name [.addObjective name] b
        = some ([⟨name, .addObjective name, b⟩], b) := rfl
    exact runCommands_append (runCommands_append hopen hadvances.runs) (runCommands_close b')
  · rw [Node.closure, if_pos hlength, hevaluates]
    show some (f'.ended ++ [_]) = _
    rw [hended]
    rfl
  · have hskip : closings (⟨name, .addObjective name, b⟩ ::
        (trace ++ [⟨name, .removeObjective name, b'⟩]))
        = closings (trace ++ [⟨name, .removeObjective name, b'⟩]) :=
      List.filter_cons_of_neg (by simp)
    have hlast : closings [(⟨name, .removeObjective name, b'⟩ : Moment Slot)]
        = [⟨name, .removeObjective name, b'⟩] := List.filter_cons_of_pos (by simp)
    rw [hskip, closings_append, hlast]
    refine List.rel_append hcloses (.cons ⟨rfl, fun x n hn => ?_⟩ .nil)
    have hcell : w₂.scope.cell x = ⟨name, .variable x⟩ := by
      rw [Scope.cell, hconsistent.objective, hblock]
    rw [← hcell]
    exact hconsistent.agrees.holds x n hn List.not_mem_nil

/-! ## Statements -/

section
variable {p : Program} {inside : List Text} {d : Nat} {w w' : Workspace} {f : Frame}
  {b : Board Slot}

/-- Functions stay what they are while commands and variables are added. -/
theorem functions_of_emits {cs : List Command} {f' : Frame}
    (h : Consistent p inside w f b) (hcs : Emits w cs w') (hf : f'.functions = f.functions) :
    ∀ name parameters, w'.scope.parameters? name = some parameters →
      parameters.Nodup ∧ (name : Text) ∈ inside ∧ ∃ closure names, f'.functions name = some closure
        ∧ (name : Text) ∉ names ∧ names ⊆ inside
        ∧ Implements p name parameters closure names w'.finished.length := by
  intro name parameters hname
  rw [hcs.finished, hf]
  refine h.functions name parameters ?_
  unfold Scope.parameters? at hname ⊢
  rw [← hcs.functions]
  exact hname

/-- A variable that is not declared behind an expression is none that it writes. -/
theorem Lowering.not_writes {context : Context} {e : Node α} {v : Value} {depth : Int}
    (h : Lowering context e w v w') {x : String} (hx : x ∉ w'.scope.names) :
    ¬e.Writes w.block.name depth (w.scope.cell x) := by
  rintro ⟨-, hassigns | hintroduced⟩
  · rcases h.references (e.references_of_assigns hassigns) with hdeclared | hintroduced
    · exact hx ((h.grows.mem x).2 (.inr hdeclared))
    · exact hx ((h.grows.mem x).2 (.inl hintroduced))
  · exact hx ((h.grows.mem x).2 (.inl hintroduced))

/-- An expression as a statement. -/
theorem advances_expression {e : Node α} {v : Value} (h : Lowering {} e w v w')
    (hregular : ∀ x ∈ e.tree, x.Regular) (hconsistent : Consistent p inside w f b) :
    ∃ value f' b' cs trace, e.evaluate f = some (value, f')
      ∧ Advances p inside d w w' f f' b b' cs trace := by
  obtain ⟨cs, hcs, htouches⟩ := h.exists_emits
  obtain ⟨n, f', hs⟩ := h.correct hconsistent.objective hregular hcs [] f b
    (fun x hx => by cases hx) (fun cell hd => by cases hd) hconsistent.agrees
  obtain ⟨trace, hruns, hclosings⟩ := runCommands_of_quiet (fun c hc => (htouches c hc).isQuiet) b
  have hframe : ∀ o, o ≠ w.block.name → (b.executeAll id cs).scores o = b.scores o := by
    intro o ho
    funext slot
    exact hs.unchanged ⟨o, slot⟩ (fun hw => ho hw.1) (fun hd => by cases hd)
  refine ⟨some n, f', b.executeAll id cs, cs, trace, hs.evaluates, hcs.block, hruns, ?_, ?_,
    fun o ho _ => hframe o ho⟩
  · refine ⟨?_, hs.agrees, fun x hx => ?_, functions_of_emits hconsistent hcs hs.functions,
      fun z hz => ?_, ?_⟩
    · rw [hcs.objective, hcs.block_name, hconsistent.objective]
    · rw [hcs.cell, hs.unchanged _ (h.not_writes hx) (fun hd => by cases hd)]
      exact hconsistent.unset x fun hx' => hx ((h.grows.mem x).2 (.inr hx'))
    · rw [hframe z fun heq => hconsistent.outside (heq ▸ hz)]
      exact hconsistent.quiet z hz
    · rw [hcs.block_name]
      exact hconsistent.outside
  · exact ⟨[], by rw [hs.ended, List.append_nil], by rw [hclosings]; exact .nil⟩

/-- A variable without a first value: its slot is unset, which reads 0. -/
theorem advances_declare {name : String} {type : Option String} {m : α}
    (hnew : name ∉ w.scope.names) (hconsistent : Consistent p inside w f b) :
    ∃ value f' b' cs trace, (Node.declare name type m).evaluate f = some (value, f')
      ∧ Advances p inside d w (w.declareVariable name) f f' b b' cs trace := by
  have hcs := Emits.declareVariable w name
  refine ⟨none, f.assign name 0, b, [], [], rfl, hcs.block, rfl, ?_, ⟨[], ?_, .nil⟩,
    fun _ _ _ => rfl⟩
  · have hzero : b.write id (w.scope.cell name) 0 = b := by
      rw [← hconsistent.unset name hnew, Board.write_read]
    have hagrees := (hconsistent.agrees.hide name).write 0
    rw [hzero] at hagrees
    refine ⟨hconsistent.objective, hagrees.declare (Frame.assign_value_self ..),
      fun x hx => ?_, functions_of_emits hconsistent hcs rfl, hconsistent.quiet,
      hconsistent.outside⟩
    exact hconsistent.unset x fun hx' => hx (Scope.mem_declareVariable.2 (.inr hx'))
  · exact (List.append_nil _).symm

/-- A function that is declared is implemented by the block that was finished for it. -/
theorem implements_function {body : List (Node α)} (hsteps : ∀ node ∈ body, StepCorrect p node)
    {name : Text} {parameters : List String} {w₂ : Workspace} {u : Unit} {new : List Block}
    (h : compileBody p.space body
      { w.enter name with scope := (w.enter name).scope.declareVariables parameters }
        = .ok u w₂)
    (hfinishes : Finishes
      { w.enter name with scope := (w.enter name).scope.declareVariables parameters } new w₂)
    (hnew : ∀ blk ∈ new, p.get? blk.name = some blk)
    (hown : p.get? name = some (w₂.block.push (.removeObjective w₂.block.name))) :
    Implements p name parameters (Node.closure name parameters body) (new.map (·.name))
      (w₂.finished.length + 1) := by
  intro d values b hd hlength hscores hquiet
  obtain ⟨d, rfl⟩ : ∃ d', d = d' + 1 := ⟨d - 1, by omega⟩
  have hd' : w₂.finished.length ≤ d := by omega
  obtain ⟨trace, activations, hrun, hclosure, hcloses⟩ := run_function hsteps h hfinishes hnew
    hd' hlength hscores hquiet
  refine ⟨trace, activations, ?_, hclosure, hcloses⟩
  unfold Program.call
  rw [if_pos rfl, hown]
  exact hrun

theorem advances_function {name : String} {parameters : List (Parameter α)}
    {result : Option String} {body : List (Node α)} {m : α} {v : Value} {new : List Block}
    (hsteps : ∀ node ∈ body, StepCorrect p node)
    (h : compile p.space {} (.function name parameters result body m) w = .ok v w')
    (hfinishes : Finishes w new w')
    (hnew : ∀ blk ∈ new, blk.name ∈ inside ∧ p.get? blk.name = some blk)
    (hconsistent : Consistent p inside w f b) :
    ∃ value f' b' cs trace,
      (Node.function name parameters result body m).evaluate f = some (value, f')
        ∧ Advances p inside d w w' f f' b b' cs trace := by
  obtain ⟨hname, hfree, -, w₁, w₂, hparameters, hbody, rfl⟩ := compile_function_ok h
  obtain ⟨hnodup, -, rfl⟩ := declareParameters_ok hparameters
  obtain ⟨inner, hinner⟩ := compileBody_finishes hbody
  obtain rfl := hfinishes.unique (finishes_function hname hinner)
  rw [List.forall_mem_append] at hnew
  have hblock : w₂.block.name = name := hinner.name
  obtain ⟨hinside, hown⟩ := hnew.2 _ (List.mem_singleton_self _)
  rw [show (w₂.block.push (.removeObjective w₂.block.name)).name = name from hblock]
    at hinside hown
  -- a declaration runs nothing; the block that was finished implements the closure it binds
  have himplements := implements_function hsteps hbody hinner
    (fun blk hblk => (hnew.1 blk hblk).2) hown
  refine ⟨none, f.bind name (Node.closure name (parameters.map (·.name)) body), b, [], [],
    Node.evaluate_function, ?_, rfl, ?_, ⟨[], ?_, .nil⟩, fun _ _ _ => rfl⟩
  · show w.block = ⟨w.block.name, w.block.commands ++ []⟩
    rw [List.append_nil]
  · refine ⟨hconsistent.objective, hconsistent.agrees.declareFunction, fun x hx => ?_,
      fun g ps hg => ?_, hconsistent.quiet, hconsistent.outside⟩
    · exact hconsistent.unset x fun hx' => hx (List.mem_insert_of_mem hx')
    · have hlength : ((w.leave w₂.finish).declareFunction name
          (parameters.map (·.name))).finished.length = w₂.finished.length + 1 := by
        show (w₂.finished ++ [_]).length = _
        rw [List.length_append, List.length_singleton]
      rw [hlength]
      change (w.scope.declareFunction name (parameters.map (·.name))).parameters? g = some ps
        at hg
      rw [Scope.parameters?_declareFunction] at hg
      -- the new function, and those that were there, with more blocks finished by now
      by_cases hgname : g = name
      · rw [if_pos hgname] at hg
        obtain rfl := hgname
        obtain rfl := Option.some.inj hg
        refine ⟨hnodup, hinside, _, _, Function.update_self .., ?_, ?_, himplements⟩
        · exact fun hmem => hinner.fresh _ hmem List.mem_insert_self
        intro x hx
        obtain ⟨blk, hblk, rfl⟩ := List.mem_map.1 hx
        exact (hnew.1 blk hblk).1
      · rw [if_neg hgname] at hg
        obtain ⟨hnodup', hinside', closure, names, hclosure, hself, hnames, himplements'⟩ :=
          hconsistent.functions g ps hg
        refine ⟨hnodup', hinside', closure, names, ?_, hself, hnames, himplements'.mono ?_⟩
        · exact (Function.update_of_ne hgname ..).trans hclosure
        · have hle := hfinishes.length_le
          rw [hlength] at hle
          exact hle
  · exact (List.append_nil _).symm

/-- What passing arguments to a function does: their values are in the slots of its
parameters, and the block around the call goes on as before. -/
structure Passes (name : Text) (parameters : List String) (arguments : List (Node α))
    (w w' : Workspace) (f f' : Frame) (b b' : Board Slot) (values : List Int) : Prop where
  evaluates : Node.evaluateArguments arguments f = some (values, f')
  length : values.length = parameters.length
  agrees : Agrees w'.scope [] f' b'
  functions : f'.functions = f.functions
  ended : f'.ended = f.ended
  passed : b'.scores name = passScores parameters values (b.scores name)
  unchanged : ∀ o, o ≠ name → o ≠ w.block.name → b'.scores o = b.scores o
  unset : ∀ x, x ∉ w'.scope.names → b'.read id (w.scope.cell x) = b.read id (w.scope.cell x)

theorem passes_nil {name : Text} (hagrees : Agrees w.scope [] f b) :
    Passes name [] ([] : List (Node α)) w w f f b b [] := by
  refine ⟨rfl, rfl, hagrees, rfl, rfl, ?_, fun _ _ _ => rfl, fun _ _ => rfl⟩
  funext slot
  cases slot <;> rfl

/-- One argument: its value is stored in the slot of its parameter. -/
theorem passes_argument {name : Text} {parameter : String} {argument : Node α} {w₁ : Workspace}
    {r : Value} {cs : List Command} {f₁ : Frame} {n : Int} (hname : name ≠ w.block.name)
    (hobjective : w.scope.objective = w.block.name)
    (hlowering : Lowering (Context.withDestination ⟨name, .variable parameter⟩ {}) argument
      w r w₁) (hcs : Emits w cs w₁)
    (hs : Simulates argument (Context.withDestination ⟨name, .variable parameter⟩ {}) w w₁ r []
      f b (b.executeAll id cs) n f₁) :
    Passes name [parameter] [argument] w
      (w₁.emit (storeCommands ⟨name, .variable parameter⟩ r)) f f₁ b
      ((b.executeAll id cs).write id ⟨name, .variable parameter⟩ n) [n] := by
  set target : Cell := ⟨name, .variable parameter⟩
  have hcell : ∀ x, w.scope.cell x ≠ target := by
    intro x heq
    injection heq with hscope
    exact hname (hscope.symm.trans hobjective)
  -- the argument is computed in the calling block, or straight in the slot of the parameter
  have hread : ∀ cell, cell ≠ target → cell.objective ≠ w.block.name →
      ((b.executeAll id cs).write id target n).read id cell = b.read id cell := by
    intro cell hne hblock
    rw [Board.read_write_of_ne hne]
    refine hs.unchanged cell (fun hw => hblock hw.1) ?_
    show some target ≠ some cell
    simpa using hne.symm
  refine ⟨Node.evaluateArguments_cons hs.evaluates rfl, rfl, ?_, hs.functions, hs.ended, ?_,
    fun o ho hblock => ?_, fun x hx => ?_⟩
  · refine hs.agrees.congr fun x _ => Board.read_write_of_ne ?_ _ _
    rw [hcs.cell]
    exact hcell x
  · funext slot
    by_cases hslot : slot = .variable parameter
    · subst hslot
      have hwritten : ((b.executeAll id cs).write id target n).read id target = n :=
        Board.read_write_same target n _
      refine hwritten.trans ?_
      simp [passScores]
    · have hkept := hread ⟨name, slot⟩ (fun heq => hslot (by injection heq)) hname
      refine hkept.trans ?_
      cases slot with
      | «variable» x =>
        have hx : x ≠ parameter := fun heq => hslot (by rw [heq])
        simp [passScores, Board.read, List.lookup_cons, beq_false_of_ne hx]
      | _ => rfl
  · funext slot
    refine hread ⟨o, slot⟩ (fun heq => ho ?_) hblock
    injection heq
  · rw [Board.read_write_of_ne (hcell x)]
    refine hs.unchanged _ (hlowering.not_writes hx) ?_
    show some target ≠ some _
    simpa using (hcell x).symm

/-- The first argument and the others. -/
theorem Passes.cons {name : Text} {parameter : String} {parameters : List String}
    {argument : Node α} {arguments : List (Node α)} {w₁ : Workspace} {cs : List Command} {f₁ f₂ : Frame}
    {b₁ b₂ : Board Slot} {values : List Int} {n : Int}
    (h₁ : Passes name [parameter] [argument] w w₁ f f₁ b b₁ [n])
    (h₂ : Passes name parameters arguments w₁ w' f₁ f₂ b₁ b₂ values)
    (hevaluates : argument.evaluate f = some (some n, f₁)) (hcs : Emits w cs w₁)
    (hgrows : ∀ x, x ∈ w₁.scope.names → x ∈ w'.scope.names)
    (hparameter : parameter ∉ parameters) :
    Passes name (parameter :: parameters) (argument :: arguments) w w' f f₂ b b₂
      (n :: values) := by
  refine ⟨Node.evaluateArguments_cons hevaluates h₂.evaluates, ?_, h₂.agrees,
    h₂.functions.trans h₁.functions, h₂.ended.trans h₁.ended, ?_, fun o ho hblock => ?_,
    fun x hx => ?_⟩
  · rw [List.length_cons, List.length_cons, h₂.length]
  · rw [h₂.passed, h₁.passed]
    funext slot
    cases slot with
    | «variable» x =>
      simp only [passScores, List.zip_cons_cons, List.zip_nil_left, List.lookup_cons,
        List.lookup_nil]
      by_cases hx : x = parameter
      · rw [hx, lookup_zip_of_notMem hparameter]
        simp
      · simp [beq_false_of_ne hx]
    | _ => rfl
  · rw [h₂.unchanged o ho (by rwa [hcs.block_name]), h₁.unchanged o ho hblock]
  · rw [← hcs.cell, h₂.unset x hx, hcs.cell]
    exact h₁.unset x fun hmem => hx (hgrows x hmem)

/-- The commands in front of a call pass its arguments. -/
theorem Passing.passes {space name : Text} {parameters : List String}
    {arguments : List (Node α)} (h : Passing space {} name parameters arguments w w')
    (hnodup : parameters.Nodup)
    (hregular : ∀ argument ∈ arguments, ∀ x ∈ argument.tree, x.Regular)
    (hname : name ≠ w.block.name) (hobjective : w.scope.objective = w.block.name)
    (hagrees : Agrees w.scope [] f b) :
    ∃ cs values f', Emits w cs w' ∧ (∀ c ∈ cs, c.Touches fun _ => True)
      ∧ Passes name parameters arguments w w' f f' b (b.executeAll id cs) values := by
  induction h generalizing f b with
  | @nil w => exact ⟨[], [], f, .refl w, by simp, passes_nil hagrees⟩
  | @cons parameter _ argument _ w w₁ _ r first isInt rest ih =>
    have hlowering := lowering_of_compile first isInt
    obtain ⟨cs, hcs, htouches⟩ := hlowering.exists_emits
    have hfits : (Context.withDestination ⟨name, .variable parameter⟩ {}).Fits
        w.block.name [] := by
      intro cell hd
      cases hd
      exact ⟨parameter, rfl, fun heq => (hname heq).elim⟩
    obtain ⟨n, f₁, hs⟩ := hlowering.correct hobjective
      (hregular argument List.mem_cons_self) hcs [] f b (fun x hx => by cases hx) hfits hagrees
    have hfirst := passes_argument hname hobjective hlowering hcs hs
    have hcs₁ := hcs.trans (.emit w₁ (storeCommands ⟨name, .variable parameter⟩ r))
    obtain ⟨ds, values, f₂, hds, htouches₂, hothers⟩ := ih (List.nodup_cons.1 hnodup).2
      (fun x hx => hregular x (List.mem_cons_of_mem _ hx)) (by rwa [hcs₁.block_name])
      (by rw [hcs₁.objective, hcs₁.block_name, hobjective]) hfirst.agrees
    have hgrows := rest.grows fun _ _ => compile_grows
    have hboard : b.executeAll id ((cs ++ storeCommands ⟨name, .variable parameter⟩ r) ++ ds)
        = ((b.executeAll id cs).write id ⟨name, .variable parameter⟩ n).executeAll id ds := by
      rw [Board.executeAll_append, Board.executeAll_append,
        executeAll_storeCommands hs.denotes]
    refine ⟨_, n :: values, f₂, hcs₁.trans hds, ?_, ?_⟩
    · rw [List.forall_mem_append, List.forall_mem_append]
      exact ⟨⟨htouches, touches_storeCommands trivial fun _ _ => trivial⟩, htouches₂⟩
    · rw [hboard]
      exact hfirst.cons hothers hs.evaluates hcs₁ (fun x hx => (hgrows.mem x).2 (.inr hx))
        (List.nodup_cons.1 hnodup).1

theorem isQuiet_openCommands {name : Text} {parameters : List String} :
    ∀ c ∈ openCommands name parameters, c.IsQuiet := by
  unfold openCommands
  split <;> simp [Command.IsQuiet]

/-- Creating an objective changes no score. -/
theorem executeAll_openCommands (name : Text) (parameters : List String) (b : Board Slot) :
    b.executeAll id (openCommands name parameters) = b := by
  unfold openCommands
  split <;> rfl

/-- A call: the arguments are passed, and the function runs. -/
theorem advances_call {name : String} {arguments : List (Node α)} {m : α} {v : Value}
    (hregular : ∀ argument ∈ arguments, ∀ x ∈ argument.tree, x.Regular)
    (h : compile p.space {} (.call name arguments m) w = .ok v w')
    (hd : w'.finished.length ≤ d) (hconsistent : Consistent p inside w f b) :
    ∃ value f' b' cs trace, (Node.call name arguments m).evaluate f = some (value, f')
      ∧ Advances p inside d w w' f f' b b' cs trace := by
  obtain ⟨-, -, parameters, w₁, hparameters, hlength, harguments, rfl⟩ := compile_call_ok h
  obtain ⟨hnodup, hinside, closure, names, hclosure, hself, hnames, himplements⟩ :=
    hconsistent.functions name parameters hparameters
  have hname : name ≠ w.block.name := fun heq => hconsistent.outside (heq ▸ hinside)
  have hpassing := passing_of_compileArguments hlength harguments
  obtain ⟨cs, values, f', hcs, htouches, hpasses⟩ :=
    hpassing.passes hnodup hregular hname hconsistent.objective hconsistent.agrees
  set b₁ := b.executeAll id cs
  have hemits := ((Emits.emit w (openCommands name parameters)).trans hcs).trans
    (.emit w₁ [.call p.space name])
  -- the objective of the function holds the arguments, those of the functions inside nothing
  have hscores : b₁.scores name = argumentScores parameters values := by
    rw [hpasses.passed, hconsistent.quiet name hinside]
    rfl
  have hquiet : ∀ z ∈ inside, z ≠ name → b₁.scores z = fun _ => 0 := by
    intro z hz hne
    have hblock : z ≠ w.block.name := fun heq => hconsistent.outside (heq ▸ hz)
    rw [hpasses.unchanged z hne hblock, hconsistent.quiet z hz]
  obtain ⟨trace, activations, hcall, hvalues, hcloses⟩ := himplements d values b₁
    (by rw [← hemits.finished]; exact hd) hpasses.length hscores fun z hz =>
      hquiet z (hnames hz) fun heq => hself (heq ▸ hz)
  have hopen : ∀ c ∈ openCommands name parameters ++ cs, c.IsQuiet :=
    List.forall_mem_append.2 ⟨isQuiet_openCommands, fun c hc => (htouches c hc).isQuiet⟩
  have hboard : b.executeAll id (openCommands name parameters ++ cs) = b₁ := by
    rw [Board.executeAll_append, executeAll_openCommands]
  obtain ⟨s, hs, hsclosings⟩ : ∃ s, runCommands id (p.call id d) w.block.name
      (openCommands name parameters ++ cs) b = some (s, b₁) ∧ closings s = [] := by
    rw [← hboard]
    exact runCommands_of_quiet hopen b
  have hruns := runCommands_append hs (runCommands_call hcall)
  refine ⟨none, f'.record activations, b₁.erase name, _, _,
    Node.evaluate_call hclosure hpasses.evaluates hvalues, hemits.block, hruns, ?_,
    ⟨activations, ?_, ?_⟩, fun o ho hnot => ?_⟩
  · have hread : ∀ x, (b₁.erase name).read id (w.scope.cell x) = b₁.read id (w.scope.cell x) := by
      intro x
      have hne : (w.scope.cell x).objective ≠ name := by
        rw [Scope.cell, hconsistent.objective]
        exact hname.symm
      unfold Board.read
      rw [Board.erase_scores_of_ne hne]
    refine ⟨?_, ?_, fun x hx => ?_, functions_of_emits hconsistent hemits hpasses.functions,
      fun z hz => ?_, ?_⟩
    · rw [hemits.objective, hemits.block_name, hconsistent.objective]
    · have hagrees := hpasses.agrees.congr fun x _ => (hcs.cell x).symm ▸ hread x
      exact ⟨hagrees.declared, hagrees.holds⟩
    · rw [hemits.cell, hread]
      refine (hpasses.unset x hx).trans (hconsistent.unset x fun hmem => hx ?_)
      exact ((hpassing.grows fun _ _ => compile_grows).mem x).2 (.inr hmem)
    · by_cases hz' : z = name
      · rw [hz', Board.erase_scores_same]
      · rw [Board.erase_scores_of_ne hz', hquiet z hz hz']
    · rw [hemits.block_name]
      exact hconsistent.outside
  · show f'.ended ++ activations = _
    rw [hpasses.ended]
  · rw [closings_append, hsclosings]
    exact hcloses
  · have hne : o ≠ name := fun heq => hnot (heq ▸ hinside)
    rw [Board.erase_scores_of_ne hne, hpasses.unchanged o hne ho]

end

/-- Every statement that is compiled does what the interpreter does, unless it holds a raw
command. -/
theorem stepCorrect {p : Program} (node : Node α) (hregular : ∀ x ∈ node.tree, x.Regular)
    (hraw : ∀ x ∈ node.tree, x.isRaw = false) : StepCorrect p node := by
  induction node using Node.induction with
  | step node ih =>
    have hchildren : ∀ child ∈ node.children, StepCorrect p child := fun child hchild =>
      ih child hchild (fun x hx => hregular x (Node.mem_tree_of_child hchild hx))
        fun x hx => hraw x (Node.mem_tree_of_child hchild hx)
    intro w v w' new inside f b d h hfinishes hnew hd hconsistent
    by_cases hv : v.type = .int
    · exact advances_expression (lowering_of_compile h hv) hregular hconsistent
    · cases effect_of_compile h hv with
      | declare new => exact advances_declare new hconsistent
      | function => exact advances_function hchildren h hfinishes hnew hconsistent
      | call =>
        refine advances_call (fun argument hargument x hx => ?_) h hd hconsistent
        exact hregular x (Node.mem_tree_of_child hargument hx)
      | raw => cases hraw _ (Node.self_mem_tree _)
      | @access name m _ isFunction =>
        -- a function that is only named
        obtain ⟨parameters, hparameters⟩ := Option.isSome_iff_exists.1 isFunction
        obtain ⟨-, -, closure, -, hclosure, -⟩ :=
          hconsistent.functions name parameters hparameters
        obtain ⟨value, hvalue⟩ := Node.evaluate_access_function (m := m) hclosure
        exact ⟨value, f, b, [], [], hvalue, .refl hconsistent⟩

end Generate

end Scoreboard
