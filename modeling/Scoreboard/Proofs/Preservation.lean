import Mathlib
import Scoreboard.Compilation
import Scoreboard.Proofs.Activations
import Scoreboard.Proofs.Bodies
import Scoreboard.Proofs.Holders
import Scoreboard.Proofs.Reading
import Scoreboard.Proofs.Trees

/-!
# Programs do what their scripts say

A script that is compiled and the program it is compiled to agree: whenever a block of the
program is about to close, the slots of its variables hold what the interpreter gives them at
the end of that activation. This needs that no scope introduces a name twice, because the
generator accepts a variable that its own first value defines, and that there are no raw
commands.

The argument runs on boards of slots, where different cells never interfere, and is carried
over to the texts of slots at the end.
-/

namespace Scoreboard

variable {α : Type}

/-! ## Variables of activations -/

/-- An activation whose variables are names. -/
def Activation.IsNamed (a : Activation) : Prop := ∀ x n, a.value x = some n → isName x = true

/-- The variables of the functions of a script are names, if the script is spelled by names. -/
theorem Activation.Covers.isNamed {name : Text} {script : Script α} {a : Activation}
    (ha : a.Covers (Script.scopes name script)) (hnamed : ∀ x ∈ Node.trees script, x.IsNamed) :
    a.IsNamed := by
  intro x n hn
  obtain ⟨body, hbody, hvalue⟩ := ha
  have hx : x ∈ body.declared := (hvalue x).1 (by rw [hn]; rfl)
  have hscope : (∀ p ∈ body.parameters, isName p = true)
      ∧ ∀ y ∈ Node.trees body.statements, y.IsNamed := by
    obtain hmain | hmem := List.mem_cons.1 hbody
    · cases hmain
      exact ⟨List.forall_mem_nil _, hnamed⟩
    · obtain ⟨g, hg, hscope⟩ := List.mem_filterMap.1 hmem
      cases g with
      | function f parameters result statements m =>
        obtain ⟨-, rfl⟩ := Prod.mk.inj (Option.some.inj hscope)
        refine ⟨fun p hp => ?_, fun y hy => hnamed y ?_⟩
        · obtain ⟨q, hq, rfl⟩ := List.mem_map.1 hp
          exact (hnamed _ hg).2 q hq
        · obtain ⟨node, hnode, hg⟩ := Node.mem_trees.1 hg
          obtain ⟨child, hchild, hy⟩ := Node.mem_trees.1 hy
          exact Node.mem_trees.2
            ⟨node, hnode, Node.mem_tree_trans hg (Node.mem_tree_of_child hchild hy)⟩
      | _ => cases hscope
  obtain hx | hx := List.mem_append.1 hx
  · exact hscope.1 x hx
  · obtain ⟨y, hy, hdeclares⟩ := List.mem_filterMap.1 hx
    obtain ⟨node, hnode, hy⟩ := Node.mem_scopeTrees.1 hy
    have hname := hscope.2 y (Node.mem_trees.2 ⟨node, hnode, Node.mem_tree_of_mem_scopeTree hy⟩)
    cases y with
    | declare z type m =>
      cases hdeclares
      exact hname
    | define z type value m =>
      cases hdeclares
      exact hname
    | _ => cases hdeclares

/-! ## Scripts that are read -/

/-- What a script introduces are names. -/
theorem Source.isNamed_of_parse {source : Source} {script : Script Span}
    (h : source.parse = .ok script) : ∀ x ∈ Node.trees script, x.IsNamed := by
  obtain ⟨tokens, us, htokens, hinfix, hderives⟩ := Source.parse_ok h
  intro x hx
  have hspelled := (hderives.sound x hx).2.mono hinfix
  cases x with
  | declare name type m => exact isName_of_spells htokens hspelled.1
  | define name type value m => exact isName_of_spells htokens hspelled.1
  | function name parameters result body m =>
    refine ⟨isName_of_spells htokens hspelled.1, fun p hp => ?_⟩
    exact isName_of_spells htokens (hspelled.2.2 p hp).1
  | _ => trivial

theorem Node.isDefinition_of_isOperand {node : Node α} (h : node.isOperand = true) :
    node.isDefinition = false := by
  cases node <;> first | rfl | cases h

/-- A script whose scopes introduce no name twice has only regular nodes. -/
theorem Source.regular_of_parse {source : Source} {script : Script Span}
    (h : source.parse = .ok script)
    (hnodup : ∀ body ∈ Script.bodies script, body.introduced.Nodup) :
    ∀ x ∈ Node.trees script, x.Regular := by
  obtain ⟨tokens, us, -, -, hderives⟩ := Source.parse_ok h
  intro x hx
  cases x with
  | define name type value m =>
    obtain ⟨body, hbody, hmem⟩ := Script.exists_body hx
    have hintroduced := (List.nodup_append'.1 (hnodup body hbody)).2.1
    have hself := hintroduced.sublist (Node.introduced_sublist hmem)
    rw [Node.introduced_define, List.nodup_cons] at hself
    exact hself.1
  | binary op left right m =>
    obtain ⟨hleft, hright⟩ := (hderives.sound _ hx).2
    exact ⟨Node.isDefinition_of_isOperand hleft, Node.isDefinition_of_isOperand hright⟩
  | _ => trivial

/-! ## Preservation -/

theorem closes_of_same {t : List (Moment String)} {s : List (Moment Slot)}
    {activations : List Activation} (hsame : List.Forall₂ Moment.Same t s)
    (hcloses : List.Forall₂ (Moment.Closes id) s activations)
    (hnamed : ∀ a ∈ activations, a.IsNamed) :
    List.Forall₂ (Moment.Closes Slot.text) t activations := by
  induction hcloses generalizing t with
  | nil =>
    cases hsame
    exact .nil
  | cons hfirst _ ih =>
    obtain ⟨hname, hnamed⟩ := List.forall_mem_cons.1 hnamed
    cases hsame with
    | cons hmoment hsame =>
      refine .cons ⟨hmoment.block.trans hfirst.1, fun x n hn => ?_⟩ (ih hsame hnamed)
      have hplain : (Slot.variable x).IsPlain := hname x n hn
      exact (hmoment.board.read hplain).trans (hfirst.2 x n hn)

theorem Workspace.clean_ofName (name : Text) : (Workspace.ofName name).Clean := by
  refine ⟨?_, ?_, ?_, ?_⟩
  · intro x hx
    cases hx
  · intro g ps hg
    cases hg
  · intro c hc
    cases hc
  · intro blk hblk
    cases hblk

/-- The blocks of a program: those of its functions, each under its own name, and that of
the top-level statements last. -/
theorem Source.compile_blocks {space name : Text} {source : Source} {build : Build}
    (h : (source.compile space name).result = .ok build) :
    ∃ new w, Generate.compileBody space build.script ((Workspace.ofName name).enter name)
        = .ok () w
      ∧ Finishes ((Workspace.ofName name).enter name) new w ∧ w.finished = new
      ∧ build.program = ⟨space, new ++ [w.block.push (.removeObjective w.block.name)]⟩
      ∧ (build.program.blocks.map (·.name)).Nodup := by
  obtain ⟨-, w, hbody, hprogram⟩ := Source.compile_ok h
  obtain ⟨new, hnew⟩ := Generate.compileBody_finishes hbody
  have hfinished : w.finished = new := hnew.finished
  have hblocks : build.program = ⟨space, new ++ [w.block.push (.removeObjective w.block.name)]⟩ := by
    rw [hprogram, ← hfinished]
    rfl
  refine ⟨new, w, hbody, hnew, hfinished, hblocks, ?_⟩
  rw [hblocks, List.map_append, List.nodup_append']
  refine ⟨hnew.nodup, List.nodup_singleton _, fun x hx hx' => hnew.fresh x hx ?_⟩
  -- the name of the block that is open is taken from the start
  have hx'' : x = name := (List.mem_singleton.1 hx').trans hnew.name
  rw [hx'']
  show name ∈ List.insert name []
  exact List.mem_insert_self

theorem argumentScores_nil : argumentScores [] [] = fun _ => 0 := by
  funext slot
  cases slot <;> rfl

/-- A compiled program does what its script says. Run the last block of the program from a
board without scores, with room for as many nested calls as there are blocks: the run has a
result, the interpreter has one, and every block that closes, in the order of the run, does so
while the slots of its variables hold the values of the activation that the interpreter ends
there. An activation has a value for exactly the parameters and variables of its function. -/
theorem Source.compile_preserves {space name : Text} {source : Source} {build : Build}
    (h : (source.compile space name).result = .ok build)
    (hraw : ∀ x ∈ Node.trees build.script, x.isRaw = false)
    (hnodup : ∀ body ∈ Script.bodies build.script, body.introduced.Nodup) :
    ∃ main, build.program.main? = some main
      ∧ ∀ depth, build.program.blocks.length ≤ depth →
        ∃ trace board activations,
          build.program.run Slot.text depth main Board.empty = some (trace, board)
            ∧ Script.evaluate name build.script = some activations
            ∧ (∀ a ∈ activations, a.Covers (Script.scopes name build.script))
            ∧ List.Forall₂ (Moment.Closes Slot.text) (closings trace) activations := by
  obtain ⟨hparse, -⟩ := Source.compile_ok h
  obtain ⟨new, w, hbody, hnew, hfinished, hprogram, hnames⟩ := Source.compile_blocks h
  have hnamed := Source.isNamed_of_parse hparse
  have hregular := Source.regular_of_parse hparse hnodup
  set main := w.block.push (.removeObjective w.block.name)
  have hblocks : build.program.blocks = new ++ [main] := by rw [hprogram]
  have hspace : build.program.space = space := by rw [hprogram]
  refine ⟨main, ?_, fun depth hdepth => ?_⟩
  · unfold Program.main?
    rw [hblocks, List.getLast?_concat]
  -- the run on slots
  have hsteps : ∀ node ∈ build.script, StepCorrect build.program node := by
    intro node hnode
    refine Generate.stepCorrect node (fun x hx => hregular x ?_) fun x hx => hraw x ?_ <;>
      exact Node.mem_trees.2 ⟨node, hnode, hx⟩
  have hfound : ∀ blk ∈ new, build.program.get? blk.name = some blk := by
    intro blk hblk
    refine Program.get?_eq_some hnames ?_
    rw [hblocks]
    exact List.mem_append_left _ hblk
  obtain ⟨d, rfl⟩ : ∃ d, depth = d + 1 := by
    rw [hblocks, List.length_append, List.length_singleton] at hdepth
    exact ⟨depth - 1, by omega⟩
  have hd : w.finished.length ≤ d := by
    rw [hblocks, List.length_append, List.length_singleton] at hdepth
    rw [hfinished]
    omega
  rw [← hspace] at hbody
  -- the top-level statements are the body of a function without parameters
  let start : Workspace := { (Workspace.ofName name).enter name with
    scope := ((Workspace.ofName name).enter name).scope.declareVariables [] }
  have hstart : start = (Workspace.ofName name).enter name := rfl
  have hscores : (Board.empty : Board Slot).scores name = argumentScores [] [] :=
    argumentScores_nil.symm
  rw [← hstart] at hbody hnew
  obtain ⟨s, activations, hrun, hevaluates, hcloses⟩ :=
    Generate.run_function hsteps hbody hnew hfound hd rfl hscores fun _ _ => rfl
  -- and the same run on texts
  have hnone : ∀ x ∈ ([] : List String), isName x = true := fun x hx => by cases hx
  have hclean : w.Clean := Generate.compileBody_clean hnamed hbody
    ((Workspace.clean_ofName name).enter name hnone)
  have hmain : ∀ c ∈ main.commands, c.IsPlain :=
    List.forall_mem_append.2 ⟨hclean.commands, List.forall_mem_singleton.2 trivial⟩
  have hplain : ∀ blk ∈ build.program.blocks, ∀ c ∈ blk.commands, c.IsPlain := by
    rw [hblocks, List.forall_mem_append, List.forall_mem_singleton, ← hfinished]
    exact ⟨hclean.finished, hmain⟩
  obtain ⟨t, board, hrunt, -, hmoments⟩ := Program.run_same hplain (d + 1) hmain Board.empty
    Board.empty s _ (fun _ _ _ => rfl) hrun
  have hcovers := Script.evaluate_covers hevaluates
  exact ⟨t, board, activations, hrunt, hevaluates, hcovers,
    closes_of_same (closings_same hmoments) hcloses fun a ha => (hcovers a ha).isNamed hnamed⟩

/-- Nested calls, an assignment inside an operand, and a value that does not fit an add. -/
theorem Source.compile_preserves_nested :
    ∃ build, (Source.compile defaultSpace mainName ⟨"nested", ("let a = 3\n"
        ++ "function f(p: int) \x7b\n function g(q: int) \x7b\n q = q / (q - 2)\n \x7d\n"
        ++ " g(p + (p = p * 2147483647))\n let r = p - -2147483648\n\x7d\n"
        ++ "f(a - (a = let b = 7) * (a + b))").toList⟩).result = .ok build
      ∧ ∃ main, build.program.main? = some main
        ∧ ∀ depth, build.program.blocks.length ≤ depth →
          ∃ trace board activations,
            build.program.run Slot.text depth main Board.empty = some (trace, board)
              ∧ Script.evaluate mainName build.script = some activations
              ∧ (∀ a ∈ activations, a.Covers (Script.scopes mainName build.script))
              ∧ List.Forall₂ (Moment.Closes Slot.text) (closings trace) activations := by
  obtain ⟨build, hbuild, htest⟩ := exists_ok_of_any
    (p := fun build => (Node.trees build.script).all (!·.isRaw)
      && (Script.bodies build.script).all fun body => decide body.introduced.Nodup)
    (x := (Source.compile defaultSpace mainName ⟨"nested", ("let a = 3\n"
        ++ "function f(p: int) \x7b\n function g(q: int) \x7b\n q = q / (q - 2)\n \x7d\n"
        ++ " g(p + (p = p * 2147483647))\n let r = p - -2147483648\n\x7d\n"
        ++ "f(a - (a = let b = 7) * (a + b))").toList⟩).result) (by decide +kernel)
  rw [Bool.and_eq_true_iff, List.all_eq_true, List.all_eq_true] at htest
  refine ⟨build, hbuild, Source.compile_preserves hbuild (fun x hx => ?_) fun body hbody => ?_⟩
  · simpa using htest.1 x hx
  · exact of_decide_eq_true (htest.2 body hbody)

end Scoreboard
