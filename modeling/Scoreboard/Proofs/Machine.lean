import Mathlib
import Scoreboard.Program

/-!
# A machine that runs commands

The commands of a program change the scores of a board. A score that was never set is 0, sums
and products wrap around, a quotient goes to the floor, and a quotient by zero leaves its
target as it is. Removing an objective forgets all its scores.

A run records every command it executes together with the board in front of it, so that
statements about the moment at which something happens can be read off its trace. A call runs
another block of the program; the number of nested calls is bounded, and a run that would
need more has no result.

The holder of a score is the text of its slot. The machine is written for any way `key` to
tell slots apart: for `Slot.text`, which is the way of the game, and for the slots
themselves, which is easier to reason about.
-/

namespace Scoreboard

/-! ## Words

The scores of the game are words of 32 bits. What the machine makes of them is written here
without the arithmetic of the compiler, and shown to agree with it (`Operator.apply_eq`).
-/

/-- A quotient rounded down: the truncated one, and one less if the signs differ and there is
a remainder. -/
def floorQuotient (a b : Int) : Int :=
  if a.tmod b ≠ 0 ∧ ¬(a < 0 ↔ b < 0) then a.tdiv b - 1 else a.tdiv b

/-- The result of an operation on a board, in words of 32 bits. A quotient by zero keeps the
left operand. -/
def Operator.apply (op : Operator) (a b : Int) : Int :=
  match op with
  | .add => (BitVec.ofInt 32 a + BitVec.ofInt 32 b).toInt
  | .subtract => (BitVec.ofInt 32 a - BitVec.ofInt 32 b).toInt
  | .multiply => (BitVec.ofInt 32 a * BitVec.ofInt 32 b).toInt
  | .divide => if b = 0 then a else (BitVec.ofInt 32 (floorQuotient a b)).toInt

/-- The quotient from the truncated division is the floor of the fraction. -/
theorem floorQuotient_eq_fdiv {a b : Int} (hb : b ≠ 0) : floorQuotient a b = a.fdiv b := by
  unfold floorQuotient
  rw [Int.fdiv_eq_tdiv]
  by_cases hdvd : b ∣ a
  · have hmod : a.tmod b = 0 := Int.dvd_iff_tmod_eq_zero.1 hdvd
    rw [if_pos hdvd, if_neg fun h => h.1 hmod, sub_zero]
  · have hmod : a.tmod b ≠ 0 := mt Int.dvd_iff_tmod_eq_zero.2 hdvd
    rw [if_neg hdvd]
    -- with a remainder, the truncated quotient is too large by one exactly if it is negative
    obtain hneg | hpos := lt_or_gt_of_ne hb
    · rw [Int.sign_eq_neg_one_of_neg hneg]
      split_ifs <;> omega
    · rw [Int.sign_eq_one_of_pos hpos]
      split_ifs <;> omega

/-- A number cut to a word and read back is the number that the compiler wraps it to. -/
theorem toInt_ofInt_eq_wrapScore (n : Int) : (BitVec.ofInt 32 n).toInt = wrapScore n :=
  BitVec.toInt_ofInt n

namespace Operator

variable (a b : Int)

/-- Subtracting the opposite of a number adds the number. -/
theorem apply_subtract_neg : apply .subtract a (-b) = apply .add a b := by
  rw [apply, apply, BitVec.ofInt_neg, sub_neg_eq_add]

theorem apply_add_neg : apply .add a (-b) = apply .subtract a b := by
  rw [apply, apply, BitVec.ofInt_neg, ← sub_eq_add_neg]

/-- What the machine makes of two scores is what the compiler folds them to, except for a
quotient by zero. -/
theorem apply_eq (op : Operator) :
    op.apply a b = if op = .divide ∧ b = 0 then a else op.fold a b := by
  cases op with
  | add =>
    show (BitVec.ofInt 32 a + BitVec.ofInt 32 b).toInt = wrapScore (a + b)
    rw [← BitVec.ofInt_add, toInt_ofInt_eq_wrapScore]
  | subtract =>
    show (BitVec.ofInt 32 a - BitVec.ofInt 32 b).toInt = wrapScore (a - b)
    rw [sub_eq_add_neg, ← BitVec.ofInt_neg, ← BitVec.ofInt_add, toInt_ofInt_eq_wrapScore,
      sub_eq_add_neg]
  | multiply =>
    show (BitVec.ofInt 32 a * BitVec.ofInt 32 b).toInt = wrapScore (a * b)
    rw [← BitVec.ofInt_mul, toInt_ofInt_eq_wrapScore]
  | divide =>
    by_cases hb : b = 0
    · rw [if_pos ⟨rfl, hb⟩, apply, if_pos hb]
    · rw [if_neg fun h => hb h.2, apply, if_neg hb, fold, if_neg hb, toInt_ofInt_eq_wrapScore,
        floorQuotient_eq_fdiv hb]

variable {a b}

/-- The machine computes what the compiler folds, unless it divides by zero. -/
theorem apply_eq_fold {op : Operator} (h : ¬(op = .divide ∧ b = 0)) :
    op.apply a b = op.fold a b := by
  rw [apply_eq, if_neg h]

end Operator

/-! ## Boards -/

/-- The scores by objective and holder. -/
@[ext]
structure Board (κ : Type) where
  scores : Text → κ → Int

namespace Board

variable {κ : Type}

/-- The board on which no score was set. -/
def empty : Board κ := ⟨fun _ _ => 0⟩

/-- The board without the scores of an objective. -/
def erase (objective : Text) (b : Board κ) : Board κ :=
  ⟨Function.update b.scores objective fun _ => 0⟩

@[simp] theorem erase_scores_same (objective : Text) (b : Board κ) :
    (b.erase objective).scores objective = fun _ => 0 := Function.update_self ..

/-- The scores of the other objectives stay. -/
theorem erase_scores_of_ne {objective other : Text} (h : other ≠ objective) (b : Board κ) :
    (b.erase objective).scores other = b.scores other := Function.update_of_ne h ..

variable (key : Slot → κ)

/-- The score of a cell. -/
def read (cell : Cell) (b : Board κ) : Int :=
  b.scores cell.objective (key cell.slot)

variable [DecidableEq κ]

/-- The board with a new score of a cell. -/
def write (cell : Cell) (n : Int) (b : Board κ) : Board κ :=
  ⟨Function.update b.scores cell.objective
    (Function.update (b.scores cell.objective) (key cell.slot) n)⟩

/-- The board behind a command of the current block. -/
def execute (b : Board κ) : Command → Board κ
  | .addObjective _ => b
  | .removeObjective objective => b.erase objective
  | .set target n => b.write key target n
  | .add target n => b.write key target (Operator.add.apply (b.read key target) n)
  | .remove target n => b.write key target (Operator.subtract.apply (b.read key target) n)
  | .copy target source => b.write key target (b.read key source)
  | .operate op target source =>
    b.write key target (op.apply (b.read key target) (b.read key source))
  | .call _ _ => b
  | .raw _ => b

/-- The board behind commands of the current block. -/
def executeAll (b : Board κ) (commands : List Command) : Board κ :=
  commands.foldl (execute key) b

@[simp] theorem executeAll_nil (b : Board κ) : b.executeAll key [] = b := rfl

@[simp] theorem executeAll_cons (b : Board κ) (c : Command) (cs : List Command) :
    b.executeAll key (c :: cs) = (b.execute key c).executeAll key cs := rfl

@[simp] theorem executeAll_append (b : Board κ) (cs ds : List Command) :
    b.executeAll key (cs ++ ds) = (b.executeAll key cs).executeAll key ds :=
  List.foldl_append

end Board

/-! ## Runs -/

/-- A moment of a run: the block that is running, the command it comes to, and the board in
front of the command. -/
structure Moment (κ : Type) where
  block : Text
  command : Command
  board : Board κ

/-- The moments at which a block closes: the removal of its own objective is next. -/
def closings {κ : Type} (trace : List (Moment κ)) : List (Moment κ) :=
  trace.filter fun moment => moment.command = .removeObjective moment.block

/-- What a run has done, and the board it ends with. -/
abbrev Outcome (κ : Type) := List (Moment κ) × Board κ

section
variable {κ : Type} [DecidableEq κ] (key : Slot → κ)

/-- Run one command; `call` runs a function of a namespace. The machine knows nothing about
raw commands. -/
def runCommand (call : Text → Text → Board κ → Option (Outcome κ)) (command : Command)
    (b : Board κ) : Option (Outcome κ) :=
  match command with
  | .call space name => call space name b
  | .raw _ => none
  | command => some ([], b.execute key command)

/-- Run commands of a block. -/
def runCommands (call : Text → Text → Board κ → Option (Outcome κ)) (block : Text) :
    List Command → Board κ → Option (Outcome κ)
  | [], b => some ([], b)
  | command :: rest, b => do
    let (inner, b₁) ← runCommand key call command b
    let (more, b₂) ← runCommands call block rest b₁
    return (⟨block, command, b⟩ :: (inner ++ more), b₂)

/-- Run a block of a program, with a bound on the number of blocks that run inside each
other. -/
def Program.run (p : Program) : Nat → Block → Board κ → Option (Outcome κ)
  | 0, _, _ => none
  | depth + 1, block, b =>
    runCommands key (fun space name b =>
      if space = p.space then (p.get? name).bind fun callee => p.run depth callee b else none)
      block.name block.commands b

/-- Run a function of a program by its name. -/
def Program.call (p : Program) (depth : Nat) (space name : Text) (b : Board κ) :
    Option (Outcome κ) :=
  if space = p.space then (p.get? name).bind fun callee => p.run key depth callee b else none

end

/-! ## Parts of a run -/

/-- A command that changes a score, and touches only cells with a property. -/
def Command.Touches (P : Cell → Prop) : Command → Prop
  | set target _ => P target
  | add target _ => P target
  | remove target _ => P target
  | copy target source => P target ∧ P source
  | operate _ target source => P target ∧ P source
  | _ => False

/-- A command that stays in its block and closes nothing: it changes a score or creates an
objective. -/
def Command.IsQuiet : Command → Prop
  | removeObjective _ => False
  | call _ _ => False
  | raw _ => False
  | _ => True

/-- A command that touches cells only is quiet. -/
theorem Command.Touches.isQuiet {P : Cell → Prop} {c : Command} (h : c.Touches P) :
    c.IsQuiet := by
  cases c <;> trivial

@[simp] theorem closings_append {κ : Type} (s t : List (Moment κ)) :
    closings (s ++ t) = closings s ++ closings t := List.filter_append ..

section
variable {κ : Type} [DecidableEq κ] {key : Slot → κ}
  {call : Text → Text → Board κ → Option (Outcome κ)} {block : Text}

theorem Program.run_succ (p : Program) (depth : Nat) (block : Block) (b : Board κ) :
    p.run key (depth + 1) block b
      = runCommands key (p.call key depth) block.name block.commands b := rfl

/-- Commands run to an end exactly if the first one does and the rest do from there. -/
theorem runCommands_cons_eq_some {c : Command} {cs : List Command} {b b₂ : Board κ}
    {t : List (Moment κ)} :
    runCommands key call block (c :: cs) b = some (t, b₂) ↔ ∃ inner b₁ more,
      runCommand key call c b = some (inner, b₁)
        ∧ runCommands key call block cs b₁ = some (more, b₂)
        ∧ t = ⟨block, c, b⟩ :: (inner ++ more) := by
  simp only [runCommands, bind, pure, Option.bind_eq_some_iff, Prod.exists, Option.some.injEq,
    Prod.mk.injEq]
  constructor
  · rintro ⟨inner, b₁, hc, more, b', hcs, rfl, rfl⟩
    exact ⟨inner, b₁, more, hc, hcs, rfl⟩
  · rintro ⟨inner, b₁, more, hc, hcs, rfl⟩
    exact ⟨inner, b₁, hc, more, b₂, hcs, rfl, rfl⟩

/-- Commands in sequence run one after the other. -/
theorem runCommands_append {cs ds : List Command} {b b₁ b₂ : Board κ}
    {s t : List (Moment κ)} (h₁ : runCommands key call block cs b = some (s, b₁))
    (h₂ : runCommands key call block ds b₁ = some (t, b₂)) :
    runCommands key call block (cs ++ ds) b = some (s ++ t, b₂) := by
  induction cs generalizing b s with
  | nil =>
    cases h₁
    exact h₂
  | cons c cs ih =>
    obtain ⟨inner, b', more, hc, hrest, rfl⟩ := runCommands_cons_eq_some.1 h₁
    rw [List.cons_append]
    refine runCommands_cons_eq_some.2 ⟨inner, b', more ++ t, hc, ih hrest, ?_⟩
    rw [List.cons_append, List.append_assoc]

/-- A call runs the function that it names. -/
theorem runCommands_call {space name : Text} {b b' : Board κ}
    {s : List (Moment κ)} (h : call space name b = some (s, b')) :
    runCommands key call block [.call space name] b
      = some (⟨block, .call space name, b⟩ :: s, b') :=
  runCommands_cons_eq_some.2 ⟨s, b', [], h, rfl, by rw [List.append_nil]⟩

/-- A quiet command always runs, and adds no moments of its own. -/
theorem runCommand_of_quiet {c : Command} (h : c.IsQuiet) (b : Board κ) :
    runCommand key call c b = some ([], b.execute key c) := by
  cases c <;> first | rfl | cases h

/-- Quiet commands run one by one and close nothing. -/
theorem runCommands_of_quiet {cs : List Command} (h : ∀ c ∈ cs, c.IsQuiet) (b : Board κ) :
    ∃ s, runCommands key call block cs b = some (s, b.executeAll key cs)
      ∧ closings s = [] := by
  induction cs generalizing b with
  | nil => exact ⟨[], rfl, rfl⟩
  | cons c cs ih =>
    have hc := h c List.mem_cons_self
    obtain ⟨s, hs, hclosings⟩ := ih (fun d hd => h d (List.mem_cons_of_mem c hd))
      (b.execute key c)
    refine ⟨⟨block, c, b⟩ :: s, runCommands_cons_eq_some.2
      ⟨[], b.execute key c, s, runCommand_of_quiet hc b, hs, rfl⟩, ?_⟩
    have hne : c ≠ .removeObjective block := fun heq => by rw [heq] at hc; cases hc
    have hskip : closings (⟨block, c, b⟩ :: s) = closings s :=
      List.filter_cons_of_neg (by simpa using hne)
    rw [hskip, hclosings]

/-- The command that closes a block erases its scores. -/
theorem runCommands_close (b : Board κ) :
    runCommands key call block [.removeObjective block] b
      = some ([⟨block, .removeObjective block, b⟩], b.erase block) := rfl

end

/-! ## Cells of a board -/

/-- Two cells that `key` tells apart. -/
def Cell.Apart {κ : Type} (key : Slot → κ) (c d : Cell) : Prop :=
  (c.objective, key c.slot) ≠ (d.objective, key d.slot)

/-- Seen by their slots, cells are apart exactly if they differ. -/
theorem Cell.apart_id {c d : Cell} : c.Apart id d ↔ c ≠ d := by
  cases c
  cases d
  simp [Cell.Apart]

namespace Board

section
variable {κ : Type} [DecidableEq κ] {key : Slot → κ}

/-- A score that was written is read back. -/
theorem read_write_same (cell : Cell) (n : Int) (b : Board κ) :
    (b.write key cell n).read key cell = n := by
  simp [read, write]

/-- Writing a score leaves those of the cells apart from it. -/
theorem read_write_of_apart {cell other : Cell} (h : other.Apart key cell) (n : Int)
    (b : Board κ) : (b.write key cell n).read key other = b.read key other := by
  unfold read write
  by_cases ho : other.objective = cell.objective
  · have hs : key other.slot ≠ key cell.slot := fun hs => h (by rw [ho, hs])
    simp only [ho, Function.update_self]
    exact Function.update_of_ne hs ..
  · simp only [Function.update_of_ne ho]

end

theorem read_write_of_ne {cell other : Cell} (h : other ≠ cell) (n : Int) (b : Board Slot) :
    (b.write id cell n).read id other = b.read id other :=
  read_write_of_apart (Cell.apart_id.2 h) n b

/-- Writing the score that a cell has changes nothing. -/
theorem write_read (cell : Cell) (b : Board Slot) :
    b.write id cell (b.read id cell) = b := by
  simp [read, write]

end Board

end Scoreboard
