import Mathlib
import Scoreboard.Proofs.Blocks
import Scoreboard.Proofs.Bodies
import Scoreboard.Proofs.Tokens

/-!
# Holders of scores

In the game a score belongs to a text. The slots of a compiled script are told apart by their
texts (`Slot.text_injective`): a name never starts with a dollar sign, so the slot of a
variable is none for intermediate results, and numbers differ in their digits.

So a run of a program on texts and a run on slots go the same way (`Program.run_same`), as
long as all commands keep to such slots. They do in a compiled program, because the names in
it are those that the tokens of its source spell (`Generate.compile_clean`).
-/

namespace Scoreboard

/-! ## Slots of a script -/

/-- The slots that commands of a script use. -/
def Slot.IsPlain : Slot → Prop
  | «variable» name => isName name = true
  | scratch depth => 0 ≤ depth
  | constant _ => True
  | rawResult => False
  | holder _ => False

/-- A name starts with a character that names start with. -/
theorem isName_startsName {name : String} (h : isName name = true) :
    ∃ c rest, name.toList = c :: rest ∧ Text.startsName c = true := by
  unfold isName at h
  rw [Bool.and_eq_true_iff] at h
  cases hlist : name.toList with
  | nil =>
    rw [hlist] at h
    cases h.1
  | cons c rest =>
    rw [hlist] at h
    exact ⟨c, rest, rfl, (Bool.and_eq_true_iff.1 h.1).1⟩

/-- The slot of a name is none for intermediate results. -/
theorem Slot.text_variable_ne_scratch {name : String} (h : isName name = true) (depth : Int) :
    (Slot.variable name).text ≠ (Slot.scratch depth).text := by
  intro heq
  obtain ⟨c, rest, hname, hc⟩ := isName_startsName h
  have hlist := congrArg String.toList heq
  unfold Slot.text at hlist
  rw [String.toList_append, String.toList_append, hname] at hlist
  have hfirst : c = '$' := by
    have hdollar : "$".toList = ['$'] := by decide
    have htemp : "$$temp".toList = ['$', '$', 't', 'e', 'm', 'p'] := by decide
    rw [hdollar, htemp] at hlist
    simp only [List.cons_append, List.nil_append, List.cons.injEq] at hlist
    exact hlist.2.1
  rw [hfirst] at hc
  revert hc
  decide

theorem toString_injective {m n : Int} (h : toString m = toString n) : m = n :=
  Int.repr_injective h

/-- Numbers in texts of intermediate results. -/
theorem Slot.text_scratch_injective {m n : Int} (h : (Slot.scratch m).text = (Slot.scratch n).text) :
    m = n := by
  have hrest : (if m = 0 then "" else toString m) = if n = 0 then "" else toString n :=
    String.append_right_inj _ |>.1 h
  have hne : ∀ k : Int, toString k ≠ "" := by
    intro k
    cases k with
    | ofNat k => exact Nat.repr_ne_empty
    | negSucc k =>
      intro heq
      have hlist : ("-" ++ (k + 1).repr).toList = [] := congrArg String.toList heq
      simp at hlist
  by_cases hm : m = 0
  · by_cases hn : n = 0
    · rw [hm, hn]
    · rw [if_pos hm, if_neg hn] at hrest
      exact (hne n hrest.symm).elim
  · by_cases hn : n = 0
    · rw [if_neg hm, if_pos hn] at hrest
      exact (hne m hrest).elim
    · rw [if_neg hm, if_neg hn] at hrest
      exact toString_injective hrest

/-- The slot of a constant is none of a variable. -/
theorem Slot.text_variable_ne_constant (name : String) (n : Int) :
    (Slot.variable name).text ≠ (Slot.constant n).text := by
  intro heq
  have := congrArg String.toList heq
  simp [Slot.text] at this

/-- The slot of a constant is none for intermediate results. -/
theorem Slot.text_scratch_ne_constant (depth n : Int) :
    (Slot.scratch depth).text ≠ (Slot.constant n).text := by
  intro heq
  have := congrArg String.toList heq
  simp [Slot.text] at this

/-- Different constants have different holders. -/
theorem Slot.text_constant_injective {m n : Int}
    (h : (Slot.constant m).text = (Slot.constant n).text) : m = n :=
  toString_injective ((String.append_right_inj "%").1 h)

/-- Slots of a script have different texts. -/
theorem Slot.text_injective {s t : Slot} (hs : s.IsPlain) (ht : t.IsPlain)
    (h : s.text = t.text) : s = t := by
  cases s with
  | «variable» x =>
    cases t with
    | «variable» y => rw [(String.append_right_inj "$").1 h]
    | scratch n => exact (text_variable_ne_scratch hs n h).elim
    | constant n => exact (text_variable_ne_constant x n h).elim
    | rawResult => exact ht.elim
    | holder _ => exact ht.elim
  | scratch m =>
    cases t with
    | «variable» y => exact (text_variable_ne_scratch ht m h.symm).elim
    | scratch n => rw [text_scratch_injective h]
    | constant n => exact (text_scratch_ne_constant m n h).elim
    | rawResult => exact ht.elim
    | holder _ => exact ht.elim
  | constant m =>
    cases t with
    | «variable» y => exact (text_variable_ne_constant y m h.symm).elim
    | scratch n => exact (text_scratch_ne_constant n m h.symm).elim
    | constant n => rw [text_constant_injective h]
    | rawResult => exact ht.elim
    | holder _ => exact ht.elim
  | rawResult => exact hs.elim
  | holder _ => exact hs.elim

/-! ## Runs on texts and on slots -/

/-- A command whose cells are slots of a script. -/
def Command.IsPlain : Command → Prop
  | set target _ => target.slot.IsPlain
  | add target _ => target.slot.IsPlain
  | remove target _ => target.slot.IsPlain
  | copy target source => target.slot.IsPlain ∧ source.slot.IsPlain
  | operate _ target source => target.slot.IsPlain ∧ source.slot.IsPlain
  | _ => True

theorem Command.Touches.isPlain {c : Command} (h : c.Touches (·.slot.IsPlain)) : c.IsPlain := by
  cases c <;> first | exact h | trivial

/-- A board of texts and a board of slots with the same scores. -/
def Board.Same (bt : Board String) (bs : Board Slot) : Prop :=
  ∀ objective slot, slot.IsPlain → bt.scores objective slot.text = bs.scores objective slot

section
variable {bt : Board String} {bs : Board Slot} {cell : Cell}

theorem Board.Same.read (h : bt.Same bs) (hcell : cell.slot.IsPlain) :
    bt.read Slot.text cell = bs.read id cell := h _ _ hcell

theorem Board.Same.erase (h : bt.Same bs) (objective : Text) :
    (bt.erase objective).Same (bs.erase objective) := by
  intro o slot hslot
  by_cases ho : o = objective
  · rw [ho, erase_scores_same, erase_scores_same]
  · rw [erase_scores_of_ne ho, erase_scores_of_ne ho]
    exact h o slot hslot

/-- Boards stay the same if the same score is written to both. -/
theorem Board.Same.write (h : bt.Same bs) (hcell : cell.slot.IsPlain) (n : Int) :
    (bt.write Slot.text cell n).Same (bs.write id cell n) := by
  intro o slot hslot
  unfold Board.write
  by_cases ho : o = cell.objective
  · simp only [ho, Function.update_self]
    by_cases hs : slot = cell.slot
    · show _ = Function.update (bs.scores cell.objective) cell.slot n slot
      rw [hs, Function.update_self, Function.update_self]
    · -- another slot has another text
      have htext : slot.text ≠ cell.slot.text := fun heq => hs (Slot.text_injective hslot hcell heq)
      show _ = Function.update (bs.scores cell.objective) cell.slot n slot
      rw [Function.update_of_ne htext, Function.update_of_ne hs]
      exact h _ _ hslot
  · simp only [Function.update_of_ne ho]
    exact h o slot hslot

/-- Boards stay the same if the same plain command is executed on both. -/
theorem Board.Same.execute (h : bt.Same bs) {c : Command} (hc : c.IsPlain) :
    (bt.execute Slot.text c).Same (bs.execute id c) := by
  cases c with
  | addObjective objective => exact h
  | removeObjective objective => exact h.erase objective
  | set target n => exact h.write hc n
  | add target n =>
    rw [Board.execute, Board.execute, h.read hc]
    exact h.write hc _
  | remove target n =>
    rw [Board.execute, Board.execute, h.read hc]
    exact h.write hc _
  | copy target source =>
    rw [Board.execute, Board.execute, h.read hc.2]
    exact h.write hc.1 _
  | operate op target source =>
    rw [Board.execute, Board.execute, h.read hc.1, h.read hc.2]
    exact h.write hc.1 _
  | call space name => exact h
  | raw text => exact h

end

/-- Moments of two runs that go the same way. -/
structure Moment.Same (mt : Moment String) (ms : Moment Slot) : Prop where
  block : mt.block = ms.block
  command : mt.command = ms.command
  board : mt.board.Same ms.board

/-- A step on texts that goes the same way as one on slots, from all boards with the same
scores. -/
def SameRuns (ft : Board String → Option (Outcome String))
    (fs : Board Slot → Option (Outcome Slot)) : Prop :=
  ∀ bt bs s b, bt.Same bs → fs bs = some (s, b) →
    ∃ t bt', ft bt = some (t, bt') ∧ bt'.Same b ∧ List.Forall₂ Moment.Same t s

section
variable {callt : Text → Text → Board String → Option (Outcome String)}
  {calls : Text → Text → Board Slot → Option (Outcome Slot)}

/-- A plain command runs in the same way on both boards. -/
theorem runCommand_same (hcall : ∀ space name, SameRuns (callt space name) (calls space name))
    {c : Command} (hc : c.IsPlain) :
    SameRuns (runCommand Slot.text callt c) (runCommand id calls c) := by
  intro bt bs s b h hrun
  have hstep : some ([], bs.execute id c) = some (s, b) →
      ∃ t bt', some ([], bt.execute Slot.text c) = some (t, bt') ∧ bt'.Same b
        ∧ List.Forall₂ Moment.Same t s := by
    intro heq
    cases heq
    exact ⟨[], _, rfl, h.execute hc, .nil⟩
  cases c with
  | call space name => exact hcall space name bt bs s b h hrun
  | raw text => cases hrun
  | _ => exact hstep hrun

/-- Plain commands run in the same way on both boards. -/
theorem runCommands_same (hcall : ∀ space name, SameRuns (callt space name) (calls space name))
    {cs : List Command} (hcs : ∀ c ∈ cs, c.IsPlain) (block : Text) :
    SameRuns (runCommands Slot.text callt block cs) (runCommands id calls block cs) := by
  induction cs with
  | nil =>
    intro bt bs s b h hrun
    cases hrun
    exact ⟨[], bt, rfl, h, .nil⟩
  | cons c cs ih =>
    intro bt bs s b h hrun
    obtain ⟨hc, hrest⟩ := List.forall_mem_cons.1 hcs
    obtain ⟨inner, b₁, more, hfirst, hmore, rfl⟩ := runCommands_cons_eq_some.1 hrun
    obtain ⟨innert, bt₁, hfirstt, h₁, hinner⟩ := runCommand_same hcall hc bt bs _ _ h hfirst
    obtain ⟨moret, bt₂, hmoret, h₂, hmoments⟩ := ih hrest bt₁ b₁ _ _ h₁ hmore
    refine ⟨_, bt₂, runCommands_cons_eq_some.2 ⟨innert, bt₁, moret, hfirstt, hmoret, rfl⟩, h₂, ?_⟩
    exact .cons ⟨rfl, rfl, h⟩ (List.rel_append hinner hmoments)

/-- A program whose commands keep to slots of a script runs on texts as on slots. -/
theorem Program.run_same {p : Program} (hp : ∀ blk ∈ p.blocks, ∀ c ∈ blk.commands, c.IsPlain)
    (depth : Nat) {block : Block} (hblock : ∀ c ∈ block.commands, c.IsPlain) :
    SameRuns (p.run Slot.text depth block) (p.run id depth block) := by
  induction depth generalizing block with
  | zero =>
    intro bt bs s b _ hrun
    cases hrun
  | succ depth ih =>
    refine runCommands_same (fun space name bt bs s b h hrun => ?_) hblock block.name
    -- a call runs a block of the program, with one level less
    split at hrun
    · rename_i hspace
      obtain ⟨callee, hcallee, hrun⟩ := Option.bind_eq_some_iff.1 hrun
      rw [if_pos hspace, hcallee]
      exact ih (hp callee (List.mem_of_find?_eq_some hcallee)) bt bs s b h hrun
    · cases hrun

end

/-- Blocks close at the same moments. -/
theorem closings_same {t : List (Moment String)} {s : List (Moment Slot)}
    (h : List.Forall₂ Moment.Same t s) : List.Forall₂ Moment.Same (closings t) (closings s) := by
  refine List.rel_filter ?_ h
  intro mt ms hsame
  show decide _ = true ↔ decide _ = true
  rw [hsame.command, hsame.block]

/-! ## The slots of a compiled script -/

/-- A node that introduces only names. -/
def Node.IsNamed {α : Type} : Node α → Prop
  | declare name _ _ => isName name = true
  | define name _ _ _ => isName name = true
  | function name parameters _ _ _ => isName name = true ∧ ∀ p ∈ parameters, isName p.name = true
  | _ => True

/-- What a node introduces is a name, if all names below it are. -/
theorem Node.isName_of_mem_introduced {α : Type} {node : Node α}
    (h : ∀ x ∈ node.tree, x.IsNamed) {name : String} (hname : name ∈ node.introduced) :
    isName name = true := by
  obtain ⟨x, hx, hintroduces⟩ := List.mem_filterMap.1 hname
  have hnamed := h x (mem_tree_of_mem_scopeTree hx)
  cases x with
  | declare y type m =>
    cases hintroduces
    exact hnamed
  | define y type value m =>
    cases hintroduces
    exact hnamed
  | function y parameters result body m =>
    cases hintroduces
    exact hnamed.1
  | _ => cases hintroduces

/-- A workspace that holds only names and slots of a script. -/
structure Workspace.Clean (w : Workspace) : Prop where
  names : ∀ x ∈ w.scope.names, isName x = true
  parameters : ∀ name parameters, w.scope.parameters? name = some parameters →
    ∀ x ∈ parameters, isName x = true
  commands : ∀ c ∈ w.block.commands, c.IsPlain
  finished : ∀ blk ∈ w.finished, ∀ c ∈ blk.commands, c.IsPlain

/-- A clean workspace stays clean under plain commands. -/
theorem Workspace.Clean.of_emits {w w' : Workspace} {cs : List Command} (h : w.Clean)
    (hcs : Emits w cs w') (hplain : ∀ c ∈ cs, c.IsPlain)
    (hnames : ∀ x ∈ w'.scope.names, isName x = true) : w'.Clean := by
  refine ⟨hnames, fun name parameters hparameters => ?_, ?_, ?_⟩
  · refine h.parameters name parameters ?_
    unfold Scope.parameters? at hparameters ⊢
    rw [← hcs.functions]
    exact hparameters
  · rw [hcs.block]
    exact List.forall_mem_append.2 ⟨h.commands, hplain⟩
  · rw [hcs.finished]
    exact h.finished

theorem Workspace.Clean.emit {w : Workspace} (h : w.Clean) {cs : List Command}
    (hcs : ∀ c ∈ cs, c.IsPlain) : (w.emit cs).Clean :=
  h.of_emits (.emit w cs) hcs h.names

/-- The workspace for the body of a function whose parameters are names. -/
theorem Workspace.Clean.enter {w : Workspace} (h : w.Clean) (name : Text)
    {parameters : List String} (hparameters : ∀ x ∈ parameters, isName x = true) :
    Workspace.Clean
      { w.enter name with scope := (w.enter name).scope.declareVariables parameters } := by
  refine ⟨fun x hx => ?_, fun g ps hg => ?_, fun c hc => ?_, h.finished⟩
  · obtain hx | hx := Scope.mem_declareVariables.1 hx
    · exact hparameters x hx
    · cases hx
  · unfold Scope.parameters? at hg
    rw [Scope.declareVariables_functions] at hg
    cases hg
  · rw [List.mem_singleton.1 hc]
    trivial

namespace Generate

variable {α : Type} {space : Text} {context : Context} {w w' : Workspace} {v : Value} {u : Unit}

/-- In a clean workspace an expression touches plain slots only. -/
theorem allows_of_clean (h : w.Clean) (hdepth : 0 ≤ context.depth)
    (hdestination : ∀ cell, context.destination = some cell → cell.slot.IsPlain) :
    Allows (·.slot.IsPlain) context w :=
  ⟨fun _ => trivial, fun _ hk => le_trans hdepth hk, h.names, hdestination⟩

/-- An expression keeps to slots of a script. -/
theorem Lowering.clean {e : Node α} (h : Lowering context e w v w') (hw : w.Clean)
    (hdepth : 0 ≤ context.depth)
    (hdestination : ∀ cell, context.destination = some cell → cell.slot.IsPlain)
    (hnamed : ∀ x ∈ e.tree, x.IsNamed) :
    w'.Clean ∧ ∀ cell, v = .stored cell → cell.slot.IsPlain := by
  obtain ⟨cs, hcs, htouches, hplace⟩ := h.emits (allows_of_clean hw hdepth hdestination)
    fun x hx => Node.isName_of_mem_introduced hnamed hx
  refine ⟨hw.of_emits hcs (fun c hc => (htouches c hc).isPlain) fun x hx => ?_, hplace⟩
  obtain hx | hx := (h.grows.mem x).1 hx
  · exact Node.isName_of_mem_introduced hnamed hx
  · exact hw.names x hx

/-- Passing arguments keeps a workspace clean. -/
theorem Passing.clean {name : Text} {parameters : List String} {arguments : List (Node α)}
    (h : Passing space context name parameters arguments w w') (hw : w.Clean)
    (hdepth : 0 ≤ context.depth) (hparameters : ∀ x ∈ parameters, isName x = true)
    (hnamed : ∀ argument ∈ arguments, ∀ x ∈ argument.tree, x.IsNamed) : w'.Clean := by
  induction h with
  | nil => exact hw
  | @cons parameter _ _ _ _ _ _ r first isInt _ ih =>
    obtain ⟨hparameter, hparameters⟩ := List.forall_mem_cons.1 hparameters
    obtain ⟨hfirst, hnamed⟩ := List.forall_mem_cons.1 hnamed
    obtain ⟨hw₁, hplace⟩ := (lowering_of_compile first isInt).clean hw hdepth
      (fun cell hcell => by cases hcell; exact hparameter) hfirst
    have hstore : ∀ c ∈ storeCommands ⟨name, .variable parameter⟩ r,
        c.Touches (·.slot.IsPlain) := touches_storeCommands hparameter hplace
    exact ih (hw₁.emit fun c hc => (hstore c hc).isPlain) hparameters hnamed

/-- A statement keeps to names and slots of a script. -/
theorem compile_clean {node : Node α} (hnamed : ∀ x ∈ node.tree, x.IsNamed)
    (h : compile space {} node w = .ok v w') (hw : w.Clean) : w'.Clean := by
  induction node using Node.induction generalizing w v w' with
  | step node ih =>
    have hself := hnamed node node.self_mem_tree
    have hchildren : ∀ child ∈ node.children, ∀ x ∈ child.tree, x.IsNamed :=
      fun child hchild x hx => hnamed x (Node.mem_tree_of_child hchild hx)
    by_cases hv : v.type = .int
    · exact ((lowering_of_compile h hv).clean hw (le_refl _) (fun cell hcell => by cases hcell)
        hnamed).1
    · cases effect_of_compile h hv with
      | @declare name =>
        refine hw.of_emits (.declareVariable w name) (fun c hc => by cases hc) fun x hx => ?_
        obtain rfl | hx := Scope.mem_declareVariable.1 hx
        · exact hself
        · exact hw.names x hx
      | @function name parameters _ _ _ _ _ w₂ _ _ declared inner =>
        obtain ⟨-, -, rfl⟩ := declareParameters_ok declared
        -- the names of the parameters are names of the body, and stay with the function
        have hnames : ∀ x ∈ parameters.map (·.name), isName x = true := by
          intro x hx
          obtain ⟨p, hp, rfl⟩ := List.mem_map.1 hx
          exact hself.2 p hp
        have hw₂ := compileBody_keeps (fun child hchild => ih child hchild
          (hchildren child hchild)) inner (hw.enter name hnames)
        refine ⟨fun x hx => ?_, fun g ps hg => ?_, hw.commands, ?_⟩
        · obtain rfl | hx := List.mem_insert_iff.1 hx
          · exact hself.1
          · exact hw.names x hx
        · change (w.scope.declareFunction name (parameters.map (·.name))).parameters? g = some ps
            at hg
          rw [Scope.parameters?_declareFunction] at hg
          split at hg
          · cases hg
            exact hnames
          · exact hw.parameters g ps hg
        · -- the block of the function is finished behind those of its body
          show ∀ blk ∈ w₂.finished ++ [_], _
          rw [List.forall_mem_append, List.forall_mem_singleton]
          refine ⟨hw₂.finished, ?_⟩
          show ∀ c ∈ w₂.block.commands ++ [_], _
          rw [List.forall_mem_append, List.forall_mem_singleton]
          exact ⟨hw₂.commands, trivial⟩
      | @call name _ _ _ _ parameters found length passed =>
        have hopen : (w.emit (openCommands name parameters)).Clean := by
          refine hw.emit fun c hc => ?_
          unfold openCommands at hc
          split at hc
          · cases hc
          · rw [List.mem_singleton.1 hc]
            trivial
        have hw₁ := (passing_of_compileArguments length passed).clean hopen (le_refl _)
          (hw.parameters name parameters found) hchildren
        exact hw₁.emit fun c hc => by rw [List.mem_singleton.1 hc]; trivial
      | raw => exact hw.emit fun c hc => by rw [List.mem_singleton.1 hc]; trivial
      | access => exact hw

/-- Compiling statements keeps a workspace clean. -/
theorem compileBody_clean {nodes : List (Node α)} (hnamed : ∀ x ∈ Node.trees nodes, x.IsNamed)
    (h : compileBody space nodes w = .ok u w') (hw : w.Clean) : w'.Clean := by
  refine compileBody_keeps (fun node hnode => compile_clean fun x hx => ?_) h hw
  exact hnamed x (Node.mem_trees.2 ⟨node, hnode, hx⟩)

end Generate

end Scoreboard
