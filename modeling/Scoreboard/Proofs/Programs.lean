import Mathlib
import Scoreboard.Proofs.Lifetimes

/-!
# The blocks of a program

A script without a fault gives one block for each of its functions and one for itself. The
names of the blocks are all different, so that a block and its text are found under its name.
The order of the blocks is that in which the functions end, and a block only calls functions
that its own body declares: they come before it, and so every run ends
(`generate_structured`).
-/

namespace Scoreboard

variable {α : Type}

/-! ## Blocks under their names -/

namespace Program

theorem put_of_notMem {key value : Text} {entries : List (Text × Text)}
    (h : key ∉ entries.map Prod.fst) : put key value entries = entries ++ [(key, value)] := by
  induction entries with
  | nil => rfl
  | cons entry rest ih =>
    rw [List.map_cons, List.mem_cons, not_or] at h
    rw [put, if_neg fun heq => h.1 heq.symm, ih h.2]
    rfl

/-- Blocks with different names all keep their texts. -/
theorem texts_eq {p : Program} (h : (p.blocks.map (·.name)).Nodup) :
    p.texts = p.blocks.map fun block => (block.name, block.text) := by
  have hfold : ∀ (blocks : List Block) (entries : List (Text × Text)),
      (entries.map Prod.fst ++ blocks.map (·.name)).Nodup →
      blocks.foldl (fun entries block => put block.name block.text entries) entries
        = entries ++ blocks.map fun block => (block.name, block.text) := by
    intro blocks
    induction blocks with
    | nil => simp
    | cons block rest ih =>
      intro entries hnodup
      have hnew : block.name ∉ entries.map Prod.fst := by
        intro hmem
        rw [List.nodup_append'] at hnodup
        exact hnodup.2.2 hmem List.mem_cons_self
      rw [List.foldl_cons, put_of_notMem hnew, ih _ (by simpa using hnodup), List.append_assoc]
      rfl
  exact hfold p.blocks [] h

theorem lookup_texts {p : Program} (h : (p.blocks.map (·.name)).Nodup) (n : Text) :
    p.texts.lookup n = (p.get? n).map Block.text := by
  rw [texts_eq h]
  unfold get?
  induction p.blocks with
  | nil => rfl
  | cons block rest ih =>
    rw [List.map_cons, List.lookup_cons]
    by_cases hn : block.name = n
    · rw [List.find?_cons_of_pos (by simpa using hn), hn]
      simp
    · rw [List.find?_cons_of_neg (by simpa using hn), ← ih, beq_false_of_ne (Ne.symm hn)]

theorem has_iff {p : Program} {n : Text} :
    p.has n = true ↔ n ∈ p.blocks.map (·.name) := by
  unfold has get?
  rw [List.find?_isSome]
  simp

end Program

/-! ## Whole programs -/

/-- What is known of the blocks of a script before they run, and that they end if they do. -/
structure Structured (space name : Text) (script : Script α) (taken : List Text)
    (p : Program) : Prop where
  /-- No two blocks have the same name. -/
  nodup : (p.blocks.map (·.name)).Nodup
  /-- There is a block for each function, at any depth, and the main block comes last. -/
  names : p.blocks.map (·.name) = Node.postorders script ++ [name]
  /-- The names taken are those of the blocks. -/
  taken_iff : ∀ n, n ∈ taken ↔ n ∈ p.blocks.map (·.name)
  /-- Every block is found under its name. -/
  found : ∀ n, p.has n = true ↔ n ∈ p.blocks.map (·.name)
  /-- The text under a name is that of the block that is found. -/
  texts : ∀ n, p.texts.lookup n = (p.get? n).map Block.text
  /-- A call names a function that the body of its block declares directly, and whose own
  block comes before. -/
  calls : ∀ before block after, p.blocks = before ++ block :: after →
    ∃ body, (block.name, body) ∈ Script.scopes name script
      ∧ ∀ space' f, .call space' f ∈ block.commands → space' = space
        ∧ f ∈ Node.functions body.statements ∧ f ∈ before.map (·.name)
  /-- Without raw commands every block runs to its end from every board, with the same run
  whatever the depth of calls allowed beyond the number of blocks. -/
  ends : (∀ x ∈ Node.trees script, x.isRaw = false) → ∀ block ∈ p.blocks,
    ∀ board : Board String, ∃ outcome, ∀ depth, p.blocks.length ≤ depth →
      p.run Slot.text depth block board = some outcome

/-- The blocks of a script that has no fault. -/
theorem generate_structured {space name : Text} {mark : α} {script : Script α}
    (h : (generate space name mark script).fault = none) :
    Structured space name script (generate space name mark script).taken
      ⟨space, (generate space name mark script).finished⟩ := by
  obtain ⟨w, hbody, hfinished, htaken⟩ := generate_ok h
  obtain ⟨hlayout, hnames⟩ := Generate.layout_of_compileBody hbody
  rw [hfinished, htaken]
  refine ⟨hlayout.nodup, hlayout.names, hnames, fun n => Program.has_iff,
    Program.lookup_texts hlayout.nodup, ?_, ?_⟩
  · intro before block after hblocks
    obtain ⟨body, hscope, hlaid, hbefore⟩ := hlayout.laidOut before block after hblocks
    refine ⟨body, hscope, fun space' f hcall => ?_⟩
    obtain ⟨hspace, hf⟩ := hlaid.mem_functions hcall
    exact ⟨hspace, hf, hbefore f hf⟩
  · intro hraw block hblock board
    set p : Program := ⟨space, w.finish.finished⟩
    have hlayout' : Layout p.space name script p.blocks := hlayout
    obtain ⟨trace, board', hrun, -⟩ := hlayout'.run_block hraw hblock board
    exact ⟨(trace, board'), hrun⟩

/-- A function with two functions inside that it calls, and one without parameters. -/
theorem generate_structured_nested :
    ∃ script : Script Unit, (generate "pack" "main" () script).fault = none
      ∧ (∀ x ∈ Node.trees script, x.isRaw = false)
      ∧ (generate "pack" "main" () script).finished.map (·.name) = ["a", "b", "f", "g", "main"]
      ∧ Structured "pack" "main" script (generate "pack" "main" () script).taken
        ⟨"pack", (generate "pack" "main" () script).finished⟩ := by
  exact ⟨
    [.function "f" [⟨"p", "int", ()⟩] none
        [.function "a" [⟨"q", "int", ()⟩] none [.define "r" none (.access "q" ()) ()] (),
          .function "b" [] none [] (),
          .call "a" [.binary .add (.access "p" ()) (.integer 1 ()) ()] (), .call "b" [] (),
          .call "a" [.assign "p" (.integer 2 ()) ()] ()] (),
      .function "g" [] none [] (), .call "g" [] (), .call "f" [.integer 3 ()] (),
      .call "g" [] ()],
    by decide +kernel, by decide +kernel, by decide +kernel,
    generate_structured (by decide +kernel)⟩

end Scoreboard
