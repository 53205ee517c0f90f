import Mathlib
import Scoreboard.Proofs.Expressions
import Scoreboard.Proofs.Holders
import Scoreboard.Proofs.Outcome

/-!
# Numbers in commands

A number gets into a command as the score of a cell, as the amount of a sum or difference, or
as the name of the slot of a constant. The integers of a script have no bound until they are
compiled, folding wraps around, and a difference may be written as a sum of the opposite
amount, which the smallest score does not have. This file follows the numbers through all of
that.

* `applyConstant_lowers`: whichever way an operation with a constant is written, the game
  computes what folding computes;
* `generate_inRange`: every number in the commands of a compiled script is one that the game
  takes.
-/

namespace Scoreboard

/-! ## Scores and exact results -/

/-- The result of an operation on integers without a bound; a quotient goes to the floor. -/
def Operator.exact : Operator → Int → Int → Int
  | add, a, b => a + b
  | subtract, a, b => a - b
  | multiply, a, b => a * b
  | divide, a, b => a.fdiv b

theorem wrapScore_modEq (n : Int) : wrapScore n ≡ n [ZMOD 4294967296] :=
  Int.bmod_emod

/-- A folded result is the exact one up to multiples of 2^32. -/
theorem Operator.fold_modEq {op : Operator} {a b : Int} (h : ¬(op = .divide ∧ b = 0)) :
    op.fold a b ≡ op.exact a b [ZMOD 4294967296] := by
  cases op with
  | divide =>
    have hb : b ≠ 0 := fun hb => h ⟨rfl, hb⟩
    rw [Operator.fold, if_neg hb]
    exact wrapScore_modEq (a.fdiv b)
  | _ => exact wrapScore_modEq _

/-! ## Numbers that the game takes -/

/-- A slot that is no slot of a constant, or that of a score. -/
def Slot.InRange (slot : Slot) : Prop :=
  ∀ n : Int, slot.text = (Slot.constant n).text → inScoreRange n = true

theorem Slot.inRange_variable (name : String) : (Slot.variable name).InRange :=
  fun n h => (text_variable_ne_constant name n h).elim

theorem Slot.inRange_scratch (depth : Int) : (Slot.scratch depth).InRange :=
  fun n h => (text_scratch_ne_constant depth n h).elim

theorem Slot.inRange_constant {n : Int} (hn : inScoreRange n = true) :
    (Slot.constant n).InRange := by
  intro m h
  rw [← text_constant_injective h]
  exact hn

namespace Command

/-- A command whose number is in range: a score, an amount that is not negative, or a positive
amount to take away. -/
def NumberFits : Command → Prop
  | set _ n => inScoreRange n = true
  | add _ n => 0 ≤ n ∧ n ≤ scoreMax
  | remove _ n => 1 ≤ n ∧ n ≤ scoreMax
  | _ => True

/-- The cells that a command names. -/
def cells : Command → List Cell
  | set target _ => [target]
  | add target _ => [target]
  | remove target _ => [target]
  | copy target source => [target, source]
  | operate _ target source => [target, source]
  | _ => []

/-- A command all of whose numbers are in range, those in the names of slots included. The
text of a raw command is not looked at. -/
def InRange (c : Command) : Prop :=
  c.NumberFits ∧ ∀ cell ∈ c.cells, cell.slot.InRange

theorem Touches.inRange {c : Command} (h : c.Touches (·.slot.InRange)) (hn : c.NumberFits) :
    c.InRange := by
  refine ⟨hn, ?_⟩
  cases c with
  | set target n => exact List.forall_mem_singleton.2 h
  | add target n => exact List.forall_mem_singleton.2 h
  | remove target n => exact List.forall_mem_singleton.2 h
  | copy target source => exact List.forall_mem_cons.2 ⟨h.1, List.forall_mem_singleton.2 h.2⟩
  | operate op target source => exact List.forall_mem_cons.2 ⟨h.1, List.forall_mem_singleton.2 h.2⟩
  | _ => exact h.elim

/-- A command that names no cell and has no number of its own. -/
theorem InRange.of_cells_eq_nil {c : Command} (hn : c.NumberFits) (hcells : c.cells = []) :
    c.InRange := by
  refine ⟨hn, ?_⟩
  rw [hcells]
  exact List.forall_mem_nil _

end Command

/-- A constant that is a score, or a cell whose slot is in range. -/
def Value.InRange : Value → Prop
  | constant n => inScoreRange n = true
  | stored cell => cell.slot.InRange
  | undefined _ => True
  | function _ => True

/-- A context whose destination, if there is one, is in range. -/
def Context.InRange (context : Context) : Prop :=
  ∀ cell, context.destination = some cell → cell.slot.InRange

/-- A workspace whose commands are all in range, those of the finished blocks included. -/
structure Workspace.InRange (w : Workspace) : Prop where
  commands : ∀ c ∈ w.block.commands, c.InRange
  finished : ∀ block ∈ w.finished, ∀ c ∈ block.commands, c.InRange

theorem Workspace.InRange.emit {w : Workspace} (h : w.InRange) {cs : List Command}
    (hcs : ∀ c ∈ cs, c.InRange) : (w.emit cs).InRange :=
  ⟨List.forall_mem_append.2 ⟨h.commands, hcs⟩, h.finished⟩

/-- The workspace for the body of a function. -/
theorem Workspace.InRange.enter {w : Workspace} (h : w.InRange) (name : Text) :
    (w.enter name).InRange :=
  ⟨List.forall_mem_singleton.2 (.of_cells_eq_nil trivial rfl), h.finished⟩

/-- A block that is finished stays in range. -/
theorem Workspace.InRange.finish {w : Workspace} (h : w.InRange) : w.finish.InRange := by
  refine ⟨h.commands, List.forall_mem_append.2 ⟨h.finished, List.forall_mem_singleton.2 ?_⟩⟩
  refine List.forall_mem_append.2 ⟨h.commands, List.forall_mem_singleton.2 ?_⟩
  exact .of_cells_eq_nil trivial rfl

namespace Generate

variable {α : Type} {space : Text} {context : Context} {w w' : Workspace} {v : Value} {u : Unit}

/-! ## Commands of the helpers -/

section
variable {block : Text} {op : Operator} {target source : Cell} {n : Int}

/-- An operation with a constant uses only amounts that the game takes: the one score whose
opposite is none gets a slot. -/
theorem numberFits_constantCommands (hn : inScoreRange n = true) :
    ∀ c ∈ constantCommands block op target n, c.NumberFits := by
  have hslot : ∀ c ∈ ([.set ⟨block, .constant n⟩ n, .operate op target ⟨block, .constant n⟩] :
      List Command), c.NumberFits := by
    intro c hc
    obtain rfl | hc := List.mem_cons.1 hc
    · exact hn
    · rw [List.mem_singleton.1 hc]
      trivial
  -- sums and differences are the same choice, by the sign of what is added in the end
  have hshift : ∀ amount : Int, ∀ c ∈ (if 0 ≤ amount ∧ amount ≤ scoreMax then [.add target amount]
      else if 0 < -amount ∧ -amount ≤ scoreMax then [.remove target (-amount)]
      else [.set ⟨block, .constant n⟩ n, .operate op target ⟨block, .constant n⟩] :
      List Command), c.NumberFits := by
    intro amount
    split_ifs with hadd hremove
    · exact List.forall_mem_singleton.2 hadd
    · exact List.forall_mem_singleton.2 hremove
    · exact hslot
  cases op with
  | add => exact hshift n
  | subtract => exact hshift (-n)
  | multiply => exact hslot
  | divide => exact hslot

theorem inRange_constantCommands (ht : target.slot.InRange) (hn : inScoreRange n = true) :
    ∀ c ∈ constantCommands block op target n, c.InRange := by
  intro c hc
  have hslot : Slot.InRange (Cell.slot ⟨block, .constant n⟩) := Slot.inRange_constant hn
  exact (touches_constantCommands ht hslot c hc).inRange (numberFits_constantCommands hn c hc)

theorem inRange_copyCommands (ht : target.slot.InRange) (hs : source.slot.InRange) :
    ∀ c ∈ copyCommands target source, c.InRange := by
  intro c hc
  refine (touches_copyCommands ht hs c hc).inRange ?_
  unfold copyCommands at hc
  split at hc
  · cases hc
  · rw [List.mem_singleton.1 hc]
    trivial

theorem inRange_set (ht : target.slot.InRange) (hn : inScoreRange n = true) :
    (Command.set target n).InRange :=
  ⟨hn, List.forall_mem_singleton.2 ht⟩

theorem inRange_operate (ht : target.slot.InRange) (hs : source.slot.InRange) :
    (Command.operate op target source).InRange :=
  ⟨trivial, List.forall_mem_cons.2 ⟨ht, List.forall_mem_singleton.2 hs⟩⟩

theorem inRange_storeCommands (ht : target.slot.InRange) (hv : v.InRange) :
    ∀ c ∈ storeCommands target v, c.InRange := by
  cases v with
  | constant n => exact List.forall_mem_singleton.2 (inRange_set ht hv)
  | stored source => exact inRange_copyCommands ht hv
  | _ => exact List.forall_mem_nil _

theorem inRange_combineCommands {a b : Value} (ht : target.slot.InRange) (ha : a.InRange)
    (hb : b.InRange) : ∀ c ∈ combineCommands block op target a b, c.InRange := by
  cases a with
  | stored x =>
    have hcopy := inRange_copyCommands ht ha
    cases b with
    | stored y =>
      exact List.forall_mem_append.2 ⟨hcopy, List.forall_mem_singleton.2 (inRange_operate ht hb)⟩
    | constant k =>
      exact List.forall_mem_append.2 ⟨hcopy, inRange_constantCommands ht hb⟩
    | _ => exact List.forall_mem_nil _
  | constant k =>
    cases b with
    | stored y =>
      refine List.forall_mem_cons.2 ⟨inRange_set ht ha, ?_⟩
      exact List.forall_mem_singleton.2 (inRange_operate ht hb)
    | _ => exact List.forall_mem_nil _
  | _ => exact List.forall_mem_nil _

theorem combined_inRange (ht : target.slot.InRange) (a b : Value) :
    (combined op target a b).InRange := by
  unfold combined
  split
  · exact inScoreRange_fold op _ _
  · exact ht

end

/-- An operation with a constant score `c` on a cell that holds the score `a`, in a block and on
a board of the game, where scores belong to texts. The commands for it run, and they leave in
the cell what folding gives, which is the exact result up to multiples of 2^32; only a quotient
by zero leaves `a`. No other score changes but that of the slot for `c` in the block, and amounts
to add or to take away are neither negative nor larger than the largest score. The cell must
not be that slot itself. -/
theorem applyConstant_lowers (op : Operator) {target : Cell} {a c : Int} (w : Workspace)
    (b : Board String) (call : Text → Text → Board String → Option (Outcome String))
    (ha : b.read Slot.text target = a) (harange : inScoreRange a = true)
    (hc : inScoreRange c = true) (htarget : target.Apart Slot.text ⟨w.block.name, .constant c⟩) :
    ∃ cs trace b', (applyConstant op target c : Generate α Unit) w = .ok () (w.emit cs)
      ∧ runCommands Slot.text call w.block.name cs b = some (trace, b')
      ∧ b'.read Slot.text target = (if op = .divide ∧ c = 0 then a else op.fold a c)
      ∧ inScoreRange (b'.read Slot.text target) = true
      ∧ (¬(op = .divide ∧ c = 0) →
        b'.read Slot.text target ≡ op.exact a c [ZMOD 4294967296])
      ∧ (∀ objective holder, (objective, holder) ≠ (target.objective, target.slot.text) →
        (objective, holder) ≠ (w.block.name, "%" ++ toString c) →
        b'.scores objective holder = b.scores objective holder)
      ∧ ∀ cell n, .add cell n ∈ cs ∨ .remove cell n ∈ cs → 0 ≤ n ∧ n ≤ 2147483647 := by
  set cs := constantCommands w.block.name op target c
  have hquiet : ∀ command ∈ cs, command.IsQuiet := fun command hcommand =>
    (touches_constantCommands (P := fun _ => True) trivial trivial command hcommand).isQuiet
  obtain ⟨trace, hrun, -⟩ : ∃ trace, runCommands Slot.text call w.block.name cs b
      = some (trace, b.executeAll Slot.text cs) ∧ closings trace = [] :=
    runCommands_of_quiet hquiet b
  obtain ⟨hread, hframe⟩ := executeAll_constantCommands op htarget b
  have hresult : (b.executeAll Slot.text cs).read Slot.text target
      = if op = .divide ∧ c = 0 then a else op.fold a c := by
    rw [hread, ha, Operator.apply_eq]
  refine ⟨cs, trace, _, applyConstant_eq_ok.2 rfl, hrun, hresult, ?_, fun hzero => ?_, ?_, ?_⟩
  · rw [hresult]
    split_ifs
    · exact harange
    · exact inScoreRange_fold op a c
  · rw [hresult, if_neg hzero]
    exact Operator.fold_modEq hzero
  · -- every text is the holder of a slot, so nothing is left out by speaking of cells
    intro objective holder hother hslot
    exact hframe ⟨objective, .holder holder⟩ hother hslot
  · intro cell n hmem
    have hfits : ∀ command ∈ cs, command.NumberFits := numberFits_constantCommands hc
    rcases hmem with hadd | hremove
    · exact hfits _ hadd
    · have hpositive : 1 ≤ n ∧ n ≤ scoreMax := hfits _ hremove
      exact ⟨by omega, hpositive.2⟩

/-- Adding the smallest score, which has no opposite: the sum wraps around. -/
theorem applyConstant_lowers_smallest :
    let target : Cell := ⟨"main", .variable "x"⟩
    let w := Workspace.ofName "main"
    let b := (Board.empty : Board String).write Slot.text target (-1)
    b.read Slot.text target = -1 ∧ inScoreRange (-1) = true
      ∧ inScoreRange (-2147483648) = true
      ∧ target.Apart Slot.text ⟨w.block.name, .constant (-2147483648)⟩
      ∧ ∃ cs trace b', (applyConstant .add target (-2147483648) : Generate Unit Unit) w
            = .ok () (w.emit cs)
          ∧ runCommands Slot.text (fun _ _ _ => none) "main" cs b = some (trace, b')
          ∧ b'.read Slot.text target = 2147483647
          ∧ b'.scores "main" "$y" = 0 := by
  intro target w b
  have hread : b.read Slot.text target = -1 := Board.read_write_same target (-1) _
  have htarget : target.Apart Slot.text ⟨w.block.name, .constant (-2147483648)⟩ := by
    intro h
    exact Slot.text_variable_ne_constant "x" (-2147483648) (Prod.mk.inj h).2
  obtain ⟨cs, trace, b', hstep, hrun, hresult, -, -, hframe, -⟩ :=
    applyConstant_lowers (α := Unit) .add w b (fun _ _ _ => none) hread (by decide) (by decide)
      htarget
  refine ⟨hread, by decide, by decide, htarget, cs, trace, b', hstep, hrun, ?_, ?_⟩
  · rw [hresult]
    decide
  · rw [hframe "main" "$y" (by decide) (by decide)]
    decide

/-! ## Compiled scripts -/

theorem target_inRange (h : context.InRange) (block : Text) :
    (target context block).slot.InRange := by
  unfold target
  cases hd : context.destination with
  | none => exact Slot.inRange_scratch context.depth
  | some cell => exact h cell hd

theorem inRange_withDestination (context : Context) {cell : Cell} (h : cell.slot.InRange) :
    (context.withDestination cell).InRange := by
  intro other hother
  cases hother
  exact h

theorem inRange_of_destination_eq_none (h : context.destination = none) : context.InRange := by
  intro cell hcell
  rw [h] at hcell
  cases hcell

/-- An expression in a context in range has a value in range and adds commands in range. -/
theorem Lowering.inRange {e : Node α} (h : Lowering context e w v w') (hcontext : context.InRange) :
    v.InRange ∧ (w.InRange → w'.InRange) := by
  induction h with
  | integer range => exact ⟨range, id⟩
  | @access _ name => exact ⟨Slot.inRange_variable name, id⟩
  | @assign context name value _ w _ _ _ _ _ ih =>
    have hcell : (w.scope.cell name).slot.InRange := Slot.inRange_variable name
    have hinner : (assignContext context (w.scope.cell name) name value).InRange := by
      unfold assignContext
      split
      · exact inRange_of_destination_eq_none rfl
      · exact inRange_withDestination context hcell
    obtain ⟨hr, hw₁⟩ := ih hinner
    exact ⟨hcell, fun hw => (hw₁ hw).emit (inRange_storeCommands hcell hr)⟩
  | @define context name _ _ _ w _ _ _ _ ih =>
    have hcell : (w.scope.cell name).slot.InRange := Slot.inRange_variable name
    obtain ⟨hr, hw₁⟩ := ih (inRange_withDestination context hcell)
    refine ⟨hcell, fun hw => ?_⟩
    have hstored := (hw₁ hw).emit (inRange_storeCommands hcell hr)
    exact ⟨hstored.commands, hstored.finished⟩
  | @binary context op _ _ _ w _ _ a a' b kept _ keep _ _ ih₁ ih₂ =>
    have htarget := target_inRange hcontext w.block.name
    obtain ⟨ha, hw₁⟩ := ih₁ hcontext
    obtain ⟨hb, hw₂⟩ := ih₂ (inRange_of_destination_eq_none rightContext_destination)
    -- a left operand that is kept stays in range, and so does the copy
    have hkept : a'.InRange ∧ ∀ c ∈ kept, c.InRange := by
      cases keep with
      | stays => exact ⟨ha, List.forall_mem_nil _⟩
      | copied source => exact ⟨htarget, inRange_copyCommands htarget ha⟩
    refine ⟨combined_inRange htarget a' b, fun hw => ?_⟩
    exact (hw₂ ((hw₁ hw).emit hkept.2)).emit (inRange_combineCommands htarget hkept.1 hb)

theorem Passing.inRange {name : Text} {parameters : List String}
    {arguments : List (Node α)} (h : Passing space context name parameters arguments w w')
    (hw : w.InRange) : w'.InRange := by
  induction h with
  | nil => exact hw
  | @cons parameter _ _ _ _ _ _ _ first isInt _ ih =>
    have hcell : Slot.InRange (Cell.slot ⟨name, .variable parameter⟩) :=
      Slot.inRange_variable parameter
    obtain ⟨hvalue, hw₁⟩ :=
      (lowering_of_compile first isInt).inRange (inRange_withDestination context hcell)
    exact ih ((hw₁ hw).emit (inRange_storeCommands hcell hvalue))

/-- A compiled statement keeps all commands in range. -/
theorem compile_inRange {node : Node α} (h : compile space {} node w = .ok v w')
    (hw : w.InRange) : w'.InRange := by
  induction node using Node.induction generalizing w v w' with
  | step node ih =>
    by_cases hv : v.type = .int
    · exact ((lowering_of_compile h hv).inRange (inRange_of_destination_eq_none rfl)).2 hw
    · cases effect_of_compile h hv with
      | declare => exact ⟨hw.commands, hw.finished⟩
      | @function name _ _ _ _ _ _ w₂ _ _ declared inner =>
        -- the body goes to a block of its own, which is finished before the outer one goes on
        obtain ⟨-, -, rfl⟩ := declareParameters_ok declared
        have hstart := hw.enter name
        have hw₂ : w₂.InRange :=
          compileBody_keeps (fun child hchild => ih child hchild) inner
            ⟨hstart.commands, hstart.finished⟩
        exact ⟨hw.commands, hw₂.finish.finished⟩
      | @call name _ _ _ _ parameters _ length passed =>
        have hopen : (w.emit (openCommands name parameters)).InRange := by
          apply hw.emit
          unfold openCommands
          split
          · exact List.forall_mem_nil _
          · exact List.forall_mem_singleton.2 (.of_cells_eq_nil trivial rfl)
        have hpassed := (passing_of_compileArguments length passed).inRange hopen
        exact hpassed.emit (List.forall_mem_singleton.2 (.of_cells_eq_nil trivial rfl))
      | raw => exact hw.emit (List.forall_mem_singleton.2 (.of_cells_eq_nil trivial rfl))
      | access => exact hw

end Generate

/-- Every number in the commands of a compiled script is in range, whatever its integers are and
however they were folded: scores that cells are set to, constants that name a slot, amounts to
add, which are not negative, and amounts to take away, which are positive. And a node never
compiles to a constant that is no score, in whatever state of the generator. -/
theorem generate_inRange {α : Type} {space name : Text} {mark : α} {script : Script α}
    (h : (generate space name mark script).fault = none) :
    (∀ block ∈ (generate space name mark script).finished, ∀ c ∈ block.commands, c.InRange)
      ∧ ∀ (context : Context) (node : Node α) (w w' : Workspace) (n : Int),
        Generate.compile space context node w = .ok (.constant n) w' → inScoreRange n = true := by
  obtain ⟨w, hbody, hfinished, -⟩ := generate_ok h
  have hstart : ((Workspace.ofName name).enter name).InRange :=
    Workspace.InRange.enter ⟨List.forall_mem_nil _, List.forall_mem_nil _⟩ name
  have hw : w.InRange :=
    Generate.compileBody_keeps (fun _ _ => Generate.compile_inRange) hbody hstart
  refine ⟨?_, fun context node w w' n hcompile => Generate.compile_constant_inScoreRange hcompile⟩
  rw [hfinished]
  exact hw.finish.finished

/-- The smallest score is set as it is, and gets a slot when it is to be added; a difference by
another score takes that score away. -/
theorem generate_inRange_smallest :
    let smallest : Node Unit := .integer (-2147483648) ()
    let script : Script Unit := [.define "x" none smallest (),
      .define "y" none (.binary .add (.access "x" ()) smallest ()) (),
      .define "z" none (.binary .subtract (.access "y" ()) (.integer 7 ()) ()) ()]
    let x : Cell := ⟨"main", .variable "x"⟩
    let y : Cell := ⟨"main", .variable "y"⟩
    let z : Cell := ⟨"main", .variable "z"⟩
    let slot : Cell := ⟨"main", .constant (-2147483648)⟩
    let generation := generate "pack" "main" () script
    generation.fault = none
      ∧ generation.finished = [⟨"main", [.addObjective "main", .set x (-2147483648),
        .copy y x, .set slot (-2147483648), .operate .add y slot,
        .copy z y, .remove z 7, .removeObjective "main"]⟩]
      ∧ ∀ block ∈ generation.finished, ∀ c ∈ block.commands, c.InRange := by
  intro smallest script x y z slot generation
  have hfault : generation.fault = none := by decide
  exact ⟨hfault, by decide, (generate_inRange hfault).1⟩

end Scoreboard
