import Mathlib
import Scoreboard.Proofs.Layout
import Scoreboard.Proofs.Machine

/-!
# Objectives while a program runs

A run creates and removes objectives. `standing` follows the set of those that exist, and a
trace is `Safe` if every command finds what it needs: a change of scores the objectives that
it names, a removal its objective, and a call its function.

A block that is laid out runs safely from every set in which the objectives of the functions
before it do not stand, and it leaves the same set without its own objective
(`Layout.runs_block`). Its own objective may stand already, because a caller with arguments
creates it first. The proof goes by induction on the place of the block in the program: the
functions that a block calls stand before it. With that every block ends, whatever the depth
of calls allowed beyond the number of blocks.
-/

namespace Scoreboard

variable {α κ : Type}

/-! ## Standing objectives -/

/-- The objectives that stand behind a command. -/
def Command.standing (objectives : Finset Text) : Command → Finset Text
  | addObjective objective => insert objective objectives
  | removeObjective objective => objectives.erase objective
  | _ => objectives

/-- The objectives that stand behind a trace. -/
def standing (trace : List (Moment κ)) (objectives : Finset Text) : Finset Text :=
  trace.foldl (fun objectives moment => moment.command.standing objectives) objectives

/-- A command finds what it needs: the objectives that it names, or the function that it
calls. -/
def Command.Supported (p : Program) (objectives : Finset Text) : Command → Prop
  | addObjective _ => True
  | removeObjective objective => objective ∈ objectives
  | set target _ => target.objective ∈ objectives
  | add target _ => target.objective ∈ objectives
  | remove target _ => target.objective ∈ objectives
  | copy target source => target.objective ∈ objectives ∧ source.objective ∈ objectives
  | operate _ target source => target.objective ∈ objectives ∧ source.objective ∈ objectives
  | call space name => space = p.space ∧ p.has name = true
  | raw _ => True

/-- At every moment of a trace the command finds what it needs. -/
def Safe (p : Program) (objectives : Finset Text) (trace : List (Moment κ)) : Prop :=
  ∀ before moment after, trace = before ++ moment :: after →
    moment.command.Supported p (standing before objectives)

section
variable {p : Program} {objectives : Finset Text} {trace more : List (Moment κ)}

theorem standing_append (trace more : List (Moment κ)) (objectives : Finset Text) :
    standing (trace ++ more) objectives = standing more (standing trace objectives) :=
  List.foldl_append

theorem safe_nil : Safe p objectives ([] : List (Moment κ)) := by
  intro before moment after heq
  exact absurd heq (by simp)

theorem Safe.cons {moment : Moment κ} (hfirst : moment.command.Supported p objectives)
    (h : Safe p (moment.command.standing objectives) trace) :
    Safe p objectives (moment :: trace) := by
  intro before other after heq
  cases before with
  | nil =>
    obtain ⟨rfl, -⟩ := List.cons.inj heq
    exact hfirst
  | cons first before =>
    obtain ⟨rfl, htail⟩ := List.cons.inj heq
    exact h before other after htail

theorem Safe.append (h : Safe p objectives trace)
    (hmore : Safe p (standing trace objectives) more) : Safe p objectives (trace ++ more) := by
  induction trace generalizing objectives with
  | nil => exact hmore
  | cons moment trace ih =>
    refine Safe.cons (h [] moment trace rfl) (ih (fun before other after heq => ?_) hmore)
    exact h (moment :: before) other after (by rw [heq]; rfl)

end

/-- A change of scores in standing objectives finds what it needs. -/
theorem Command.Touches.supported {p : Program} {objectives : Finset Text} {P : Cell → Prop}
    {c : Command} (h : c.Touches P) (hP : ∀ cell, P cell → cell.objective ∈ objectives) :
    c.Supported p objectives := by
  cases c with
  | set target n => exact hP target h
  | add target n => exact hP target h
  | remove target n => exact hP target h
  | copy target source => exact ⟨hP target h.1, hP source h.2⟩
  | operate op target source => exact ⟨hP target h.1, hP source h.2⟩
  | _ => exact h.elim

theorem Command.Touches.standing_eq {objectives : Finset Text} {P : Cell → Prop} {c : Command}
    (h : c.Touches P) : c.standing objectives = objectives := by
  cases c <;> first | rfl | exact h.elim

/-! ## Commands that run -/

section
variable [DecidableEq κ]

/-- Commands of a block run safely from some standing objectives to others. The run is the
same with every depth of calls from `least` on. -/
def Runs (key : Slot → κ) (p : Program) (least : Nat) (block : Text) (cs : List Command)
    (objectives others : Finset Text) : Prop :=
  ∀ b, ∃ trace b', (∀ depth, least ≤ depth →
      runCommands key (p.call key depth) block cs b = some (trace, b'))
    ∧ Safe p objectives trace ∧ standing trace objectives = others

variable {key : Slot → κ} {p : Program} {least : Nat} {block : Text}
  {cs ds : List Command} {s t u : Finset Text}

theorem runs_nil : Runs key p least block [] s s :=
  fun b => ⟨[], b, fun _ _ => rfl, safe_nil, rfl⟩

theorem Runs.append (h : Runs key p least block cs s t) (hds : Runs key p least block ds t u) :
    Runs key p least block (cs ++ ds) s u := by
  intro b
  obtain ⟨trace, b₁, hruns, hsafe, rfl⟩ := h b
  obtain ⟨more, b₂, hruns', hsafe', rfl⟩ := hds b₁
  refine ⟨trace ++ more, b₂, fun depth hdepth => ?_, hsafe.append hsafe',
    standing_append trace more s⟩
  exact runCommands_append (hruns depth hdepth) (hruns' depth hdepth)

/-- A command of the block itself. -/
theorem runs_command {c : Command}
    (hrun : ∀ call b, runCommand key call c b = some ([], b.execute key c))
    (hsupported : c.Supported p s) : Runs key p least block [c] s (c.standing s) := by
  intro b
  refine ⟨[⟨block, c, b⟩], b.execute key c, fun depth _ => ?_, .cons hsupported safe_nil, rfl⟩
  exact runCommands_cons_eq_some.2 ⟨[], _, [], hrun _ b, rfl, rfl⟩

theorem runs_touches {P : Cell → Prop} (h : ∀ c ∈ cs, c.Touches P)
    (hP : ∀ cell, P cell → cell.objective ∈ s) : Runs key p least block cs s s := by
  induction cs with
  | nil => exact runs_nil
  | cons c cs ih =>
    obtain ⟨hc, hcs⟩ := List.forall_mem_cons.1 h
    have hfirst : Runs key p least block [c] s (c.standing s) :=
      runs_command (fun call b => runCommand_of_quiet hc.isQuiet b) (hc.supported hP)
    rw [hc.standing_eq] at hfirst
    exact hfirst.append (ih hcs)

/-- A call runs the block of the function, one level deeper. -/
theorem runs_call {f : Text} {callee : Block} (hcallee : p.get? f = some callee)
    (h : Runs key p least callee.name callee.commands s t) :
    Runs key p (least + 1) block [.call p.space f] s t := by
  intro b
  obtain ⟨trace, b', hruns, hsafe, hstanding⟩ := h b
  refine ⟨⟨block, .call p.space f, b⟩ :: trace, b', fun depth hdepth => ?_, ?_, hstanding⟩
  · obtain ⟨d, rfl⟩ : ∃ d, depth = d + 1 := ⟨depth - 1, by omega⟩
    apply runCommands_call
    unfold Program.call
    rw [if_pos rfl, hcallee, Option.bind_some, Program.run_succ]
    exact hruns d (by omega)
  · have hhas : p.has f = true := by
      unfold Program.has
      rw [hcallee]
      rfl
    exact Safe.cons ⟨rfl, hhas⟩ hsafe

theorem Runs.mono {least' : Nat} (h : Runs key p least block cs s t) (hle : least ≤ least') :
    Runs key p least' block cs s t := by
  intro b
  obtain ⟨trace, b', hruns, hsafe, hstanding⟩ := h b
  exact ⟨trace, b', fun depth hdepth => hruns depth (hle.trans hdepth), hsafe, hstanding⟩

/-! ## Blocks that run -/

/-- The commands of a body run safely in front of its own objective: the functions that it
calls find their arguments and take their objectives away with them. -/
theorem Laid.runs {nodes : List (Node α)} (h : Laid p.space block nodes cs)
    (hraw : ∀ x ∈ nodes, x.isRaw = false) (hblock : block ∈ s)
    (hcalls : ∀ f ∈ Node.functions nodes, f ∉ s ∧ ∀ t ⊆ insert f s,
      Runs key p least block [.call p.space f] t (t.erase f)) :
    Runs key p least block cs s s := by
  induction h with
  | nil => exact runs_nil
  | scores h _ ih =>
    refine (runs_touches h fun cell hcell => ?_).append ih
    rw [hcell]
    exact hblock
  | raw h _ _ => exact absurd (hraw _ h) (by simp [Node.isRaw])
  | @call f ds hf _ ih =>
    obtain ⟨hnot, hruns⟩ := hcalls f hf
    have hcall := hruns s (Finset.subset_insert f s)
    rw [Finset.erase_eq_of_notMem hnot] at hcall
    exact hcall.append ih
  | @callWith f cs ds hf h _ ih =>
    -- the objective of the function stands from in front of its arguments up to its end
    obtain ⟨hnot, hruns⟩ := hcalls f hf
    have hopen : Runs key p least block [.addObjective f] s (insert f s) :=
      runs_command (fun _ _ => rfl) trivial
    have harguments : Runs key p least block cs (insert f s) (insert f s) := by
      refine runs_touches h fun cell hcell => ?_
      rcases hcell with hcell | hcell
      · rw [hcell]
        exact Finset.mem_insert_of_mem hblock
      · rw [hcell]
        exact Finset.mem_insert_self f s
    have hcall := hruns (insert f s) (Finset.Subset.refl _)
    rw [Finset.erase_insert hnot] at hcall
    exact hopen.append (harguments.append (hcall.append ih))

variable {name : Text} {script : Script α}

/-- No name of a block comes back in the blocks behind it. -/
theorem ne_name_of_before {blocks before after : List Block}
    (h : (blocks.map (·.name)).Nodup) (hblocks : blocks = before ++ after) {f : Text}
    (hf : f ∈ before.map (·.name)) {other : Block} (hother : other ∈ after) : f ≠ other.name := by
  rw [hblocks, List.map_append, List.nodup_append'] at h
  rintro rfl
  exact h.2.2 hf (List.mem_map_of_mem hother)

/-- A block runs from any objectives among which those of the functions before it are not,
and takes its own away. -/
theorem Layout.runs_block (h : Layout p.space name script p.blocks)
    (hraw : ∀ x ∈ Node.trees script, x.isRaw = false) {before after : List Block}
    {block : Block} (hblocks : p.blocks = before ++ block :: after)
    (hs : ∀ f ∈ before.map (·.name), f ∉ s) :
    Runs key p before.length block.name block.commands s (s.erase block.name) := by
  -- by induction on the number of blocks before it, to which all callees belong
  induction hn : before.length using Nat.strong_induction_on
    generalizing before block after s with
  | _ n ih =>
    subst hn
    obtain ⟨body, hbody, ⟨cs, hlaid, hcommands⟩, hcallees⟩ :=
      h.laidOut before block after hblocks
    have hcalls : ∀ f ∈ Node.functions body.statements, f ∉ insert block.name s
        ∧ ∀ t ⊆ insert f (insert block.name s),
          Runs key p before.length block.name [.call p.space f] t (t.erase f) := by
      intro f hf
      have hmem := hcallees f hf
      have hne : f ≠ block.name := ne_name_of_before h.nodup hblocks hmem List.mem_cons_self
      refine ⟨fun hin => (Finset.mem_insert.1 hin).elim hne (hs f hmem), fun t ht => ?_⟩
      obtain ⟨callee, hcallee, rfl⟩ := List.mem_map.1 hmem
      obtain ⟨first, middle, rfl⟩ := List.append_of_mem hcallee
      have hsplit : p.blocks = first ++ callee :: (middle ++ block :: after) := by
        rw [hblocks, List.append_assoc, List.cons_append]
      have hget : p.get? callee.name = some callee :=
        Program.get?_eq_some h.nodup (by rw [hsplit]; simp)
      -- what stands when the callee starts is from before, or of the caller or the callee
      have hfirst : ∀ g ∈ first.map (·.name), g ∉ t := by
        intro g hg hgt
        have hothers : ∀ x ∈ callee :: (middle ++ block :: after), g ≠ x.name :=
          fun x hx => ne_name_of_before h.nodup hsplit hg hx
        rcases Finset.mem_insert.1 (ht hgt) with heq | hgs
        · exact hothers callee List.mem_cons_self heq
        · rcases Finset.mem_insert.1 hgs with heq | hgs
          · exact hothers block (by simp) heq
          · apply hs g _ hgs
            rw [List.map_append]
            exact List.mem_append_left _ hg
      have hlt : first.length < (first ++ callee :: middle).length := by
        rw [List.length_append, List.length_cons]
        omega
      exact (runs_call hget (ih _ hlt hsplit hfirst rfl)).mono hlt
    have hstatements : ∀ x ∈ body.statements, x.isRaw = false :=
      fun x hx => hraw x (Script.mem_trees_of_scope hbody hx)
    have hinner : Runs key p before.length block.name cs (insert block.name s)
        (insert block.name s) :=
      hlaid.runs hstatements (Finset.mem_insert_self _ _) hcalls
    have hopen : Runs key p before.length block.name [.addObjective block.name] s
        (insert block.name s) := runs_command (fun _ _ => rfl) trivial
    have hclose : Runs key p before.length block.name [.removeObjective block.name]
        (insert block.name s) ((insert block.name s).erase block.name) :=
      runs_command (fun _ _ => rfl) (Finset.mem_insert_self _ _)
    have hall := hopen.append (hinner.append hclose)
    rw [Finset.erase_insert_eq_erase] at hall
    rw [hcommands]
    exact hall

/-- From no objectives every block runs to its end, finds what it needs and leaves nothing. -/
theorem Layout.run_block (h : Layout p.space name script p.blocks)
    (hraw : ∀ x ∈ Node.trees script, x.isRaw = false) {block : Block} (hblock : block ∈ p.blocks)
    (board : Board κ) :
    ∃ trace board', (∀ depth, p.blocks.length ≤ depth →
        p.run key depth block board = some (trace, board'))
      ∧ Safe p ∅ trace ∧ standing trace ∅ = ∅ := by
  obtain ⟨before, after, hblocks⟩ := List.append_of_mem hblock
  have hruns : Runs key p before.length block.name block.commands ∅ (Finset.erase ∅ block.name) :=
    h.runs_block hraw hblocks fun f _ => Finset.notMem_empty f
  obtain ⟨trace, board', hrun, hsafe, hstanding⟩ := hruns board
  refine ⟨trace, board', fun depth hdepth => ?_, hsafe, hstanding.trans (Finset.erase_empty _)⟩
  have hlength := congrArg List.length hblocks
  rw [List.length_append, List.length_cons] at hlength
  obtain ⟨d, rfl⟩ : ∃ d, depth = d + 1 := ⟨depth - 1, by omega⟩
  exact hrun d (by omega)

end

/-! ## Whole programs -/

/-- The program of a source without raw commands runs to its end from no objectives, finds at
every moment the objectives and functions that it needs, and leaves no objective. -/
theorem Source.compile_safe {space name : Text} {source : Source} {build : Build}
    (h : (source.compile space name).result = .ok build)
    (hraw : ∀ x ∈ Node.trees build.script, x.isRaw = false) :
    ∃ main, build.program.main? = some main ∧ ∀ board : Board String, ∃ trace board',
      (∀ depth, build.program.blocks.length ≤ depth →
        build.program.run Slot.text depth main board = some (trace, board'))
      ∧ Safe build.program ∅ trace ∧ standing trace ∅ = ∅ := by
  obtain ⟨-, w, hbody, hprogram⟩ := Source.compile_ok h
  obtain ⟨hlayout, -⟩ := Generate.layout_of_compileBody hbody
  set main := w.block.push (.removeObjective w.block.name)
  have hblocks : build.program.blocks = w.finished ++ [main] := by
    rw [hprogram]
    rfl
  have hspace : build.program.space = space := by rw [hprogram]
  have hlayout' : Layout build.program.space name build.script build.program.blocks := by
    rw [hspace, hblocks]
    exact hlayout
  have hmain : build.program.main? = some main := by
    unfold Program.main?
    rw [hblocks, List.getLast?_append, List.getLast?_singleton, Option.some_or]
  exact ⟨main, hmain, fun board => hlayout'.run_block hraw (by rw [hblocks]; simp) board⟩

/-- Functions inside a function, called with and without arguments and more than once. -/
theorem Source.compile_safe_nested :
    ∃ build, (Source.compile defaultSpace mainName ⟨"nested", ("let x = 3\n"
        ++ "function f(p: int, q: int) \x7b\n function a(r: int) \x7b\n r = r * 2\n \x7d\n"
        ++ " function b() \x7b\n let r = 1\n \x7d\n a(p)\n b()\n a(p + q)\n\x7d\n"
        ++ "f(x, x = 4)\nf(x - 1, 2)").toList⟩).result = .ok build
      ∧ ∃ main, build.program.main? = some main ∧ ∀ board : Board String, ∃ trace board',
        (∀ depth, build.program.blocks.length ≤ depth →
          build.program.run Slot.text depth main board = some (trace, board'))
        ∧ Safe build.program ∅ trace ∧ standing trace ∅ = ∅ := by
  obtain ⟨build, hbuild, htest⟩ := exists_ok_of_any
    (p := fun build => (Node.trees build.script).all (!·.isRaw))
    (x := (Source.compile defaultSpace mainName ⟨"nested", ("let x = 3\n"
        ++ "function f(p: int, q: int) \x7b\n function a(r: int) \x7b\n r = r * 2\n \x7d\n"
        ++ " function b() \x7b\n let r = 1\n \x7d\n a(p)\n b()\n a(p + q)\n\x7d\n"
        ++ "f(x, x = 4)\nf(x - 1, 2)").toList⟩).result) (by decide +kernel)
  refine ⟨build, hbuild, Source.compile_safe hbuild fun x hx => ?_⟩
  simpa using List.all_eq_true.1 htest x hx

end Scoreboard
