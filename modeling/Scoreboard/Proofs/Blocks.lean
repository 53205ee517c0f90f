import Mathlib
import Scoreboard.Proofs.Generated
import Scoreboard.Proofs.Lowering

/-!
# Finished blocks

A block is finished when its function is compiled, and its name is taken from the start. So
the blocks that a compilation adds have names that differ from each other and from everything
that was taken before; in a program every block is found under its name.
-/

namespace Scoreboard

variable {α : Type}

/-- A workspace that is left with more finished blocks, under names that were free. -/
structure Finishes (w : Workspace) (new : List Block) (w' : Workspace) : Prop where
  finished : w'.finished = w.finished ++ new
  nodup : (new.map (·.name)).Nodup
  fresh : ∀ x ∈ new.map (·.name), x ∉ w.taken
  taken : ∀ x, x ∈ w'.taken ↔ x ∈ w.taken ∨ x ∈ new.map (·.name)
  name : w'.block.name = w.block.name
  objective : w'.scope.objective = w.scope.objective

namespace Finishes

variable {w w₁ w₂ : Workspace} {new more : List Block}

theorem of_emits {cs : List Command} (h : Emits w cs w₁) : Finishes w [] w₁ := by
  refine ⟨?_, List.nodup_nil, (fun x hx => by cases hx), fun x => ?_, h.block_name,
    h.objective⟩
  · rw [h.finished, List.append_nil]
  · rw [h.taken]
    simp

theorem refl (w : Workspace) : Finishes w [] w := of_emits (.refl w)

theorem trans (h₁ : Finishes w new w₁) (h₂ : Finishes w₁ more w₂) :
    Finishes w (new ++ more) w₂ := by
  refine ⟨?_, ?_, ?_, fun x => ?_, h₂.name.trans h₁.name, h₂.objective.trans h₁.objective⟩
  · rw [h₂.finished, h₁.finished, List.append_assoc]
  · rw [List.map_append, List.nodup_append']
    exact ⟨h₁.nodup, h₂.nodup, fun x hx hx' => h₂.fresh x hx' ((h₁.taken x).2 (.inr hx))⟩
  · intro x hx
    rw [List.map_append, List.mem_append] at hx
    rcases hx with hx | hx
    · exact h₁.fresh x hx
    · exact fun htaken => h₂.fresh x hx ((h₁.taken x).2 (.inl htaken))
  · rw [h₂.taken, h₁.taken, List.map_append, List.mem_append]
    tauto

/-- The new blocks are those that were added. -/
theorem unique (h₁ : Finishes w new w₁) (h₂ : Finishes w more w₁) : new = more :=
  List.append_cancel_left (h₁.finished.symm.trans h₂.finished)

theorem declareFunction (h : Finishes w new w₁) (name : String) (parameters : List String) :
    Finishes w new (w₁.declareFunction name parameters) :=
  ⟨h.finished, h.nodup, h.fresh, h.taken, h.name, h.objective⟩

theorem length_le (h : Finishes w new w₁) : w.finished.length ≤ w₁.finished.length := by
  rw [h.finished, List.length_append]
  omega

end Finishes

namespace Generate

variable {space : Text} {context : Context} {w w' : Workspace} {v : Value} {u : Unit}

theorem compileBody_finishes_of {nodes : List (Node α)}
    (ih : ∀ node ∈ nodes, ∀ {context w v w'}, compile space context node w = .ok v w' →
      ∃ new, Finishes w new w')
    (h : compileBody space nodes w = .ok u w') : ∃ new, Finishes w new w' := by
  induction nodes generalizing w with
  | nil =>
    rw [compileBody_nil_ok h]
    exact ⟨[], .refl w⟩
  | cons node rest ihrest =>
    obtain ⟨v, w₁, hnode, hrest⟩ := compileBody_cons_ok h
    obtain ⟨new, hnew⟩ := ih node List.mem_cons_self hnode
    obtain ⟨more, hmore⟩ := ihrest (fun x hx => ih x (List.mem_cons_of_mem _ hx)) hrest
    exact ⟨new ++ more, hnew.trans hmore⟩

/-- The arguments of a call only add commands and variables. -/
theorem Passing.exists_emits {name : Text} {parameters : List String}
    {arguments : List (Node α)}
    (h : Passing space context name parameters arguments w w') : ∃ cs, Emits w cs w' := by
  induction h with
  | @nil w => exact ⟨[], .refl w⟩
  | @cons _ _ _ _ _ w₁ _ _ first isInt _ ih =>
    obtain ⟨cs, hcs, -⟩ := (lowering_of_compile first isInt).exists_emits
    obtain ⟨ds, hds⟩ := ih
    exact ⟨_, (hcs.trans (.emit w₁ _)).trans hds⟩

/-- The block of a function is finished behind the blocks of its body. -/
theorem finishes_leave {name : Text} {scope : Scope} {w₂ : Workspace} {new : List Block}
    (hname : name ∉ w.taken) (h : Finishes { w.enter name with scope := scope } new w₂) :
    Finishes w (new ++ [w₂.block.push (.removeObjective w₂.block.name)])
      (w.leave w₂.finish) := by
  have hblock : w₂.block.name = name := h.name
  have hfresh : ∀ x ∈ new.map (·.name), x ∉ w.taken ∧ x ≠ name := by
    intro x hx
    have := h.fresh x hx
    simp only [Workspace.enter, List.mem_insert_iff, not_or] at this
    exact ⟨this.2, this.1⟩
  refine ⟨?_, ?_, ?_, fun x => ?_, rfl, rfl⟩
  · show w₂.finished ++ _ = _
    rw [h.finished, List.append_assoc]
    rfl
  · rw [List.map_append, List.nodup_append']
    refine ⟨h.nodup, List.nodup_singleton _, fun x hx hx' => (hfresh x hx).2 ?_⟩
    simpa [Block.push, hblock] using hx'
  · intro x hx
    rw [List.map_append, List.mem_append] at hx
    rcases hx with hx | hx
    · exact (hfresh x hx).1
    · obtain rfl : x = name := by simpa [Block.push, hblock] using hx
      exact hname
  · show x ∈ w₂.taken ↔ _
    rw [h.taken]
    simp only [Workspace.enter, List.mem_insert_iff, List.map_append, List.mem_append,
      List.map_cons, List.map_nil, List.mem_singleton, Block.push, hblock]
    tauto

theorem finishes_function {name : String} {parameters : List String} {scope : Scope}
    {w₂ : Workspace} {new : List Block} (hname : (name : Text) ∉ w.taken)
    (h : Finishes { w.enter name with scope := scope } new w₂) :
    Finishes w (new ++ [w₂.block.push (.removeObjective w₂.block.name)])
      ((w.leave w₂.finish).declareFunction name parameters) :=
  (finishes_leave hname h).declareFunction name parameters

/-- A compiled node leaves more finished blocks, and the block it is in stays open. -/
theorem compile_finishes {node : Node α} (h : compile space context node w = .ok v w') :
    ∃ new, Finishes w new w' := by
  induction node using Node.induction generalizing context w v w' with
  | step node ih =>
    by_cases hv : v.type = .int
    · -- expressions only emit commands
      obtain ⟨cs, hcs, -⟩ := (lowering_of_compile h hv).exists_emits
      exact ⟨[], .of_emits hcs⟩
    · cases effect_of_compile h hv with
      | declare => exact ⟨[], .of_emits (.declareVariable w _)⟩
      | function free _ declared inner =>
        obtain ⟨-, -, rfl⟩ := declareParameters_ok declared
        obtain ⟨new, hnew⟩ := compileBody_finishes_of (fun x hx => ih x hx) inner
        exact ⟨_, finishes_function free hnew⟩
      | @call _ _ _ _ w₁ _ _ length passed =>
        obtain ⟨cs, hcs⟩ := (passing_of_compileArguments length passed).exists_emits
        exact ⟨[], .of_emits (((Emits.emit w _).trans hcs).trans (.emit w₁ _))⟩
      | raw => exact ⟨[], .of_emits (.emit w _)⟩
      | access => exact ⟨[], .refl _⟩

theorem compileBody_finishes {nodes : List (Node α)}
    (h : compileBody space nodes w = .ok u w') : ∃ new, Finishes w new w' :=
  compileBody_finishes_of (fun _ _ => compile_finishes) h

end Generate

/-! ## Programs -/

/-- Blocks with different names are found under their names. -/
theorem Program.get?_eq_some {p : Program} (h : (p.blocks.map (·.name)).Nodup) {block : Block}
    (hblock : block ∈ p.blocks) : p.get? block.name = some block := by
  unfold Program.get?
  obtain ⟨space, blocks⟩ := p
  induction blocks with
  | nil => cases hblock
  | cons first rest ih =>
    rw [List.map_cons, List.nodup_cons] at h
    rcases List.mem_cons.1 hblock with rfl | hrest
    · exact List.find?_cons_of_pos (by simp)
    · have hne : first.name ≠ block.name := fun heq =>
        h.1 (heq ▸ List.mem_map_of_mem hrest)
      show List.find? _ (first :: rest) = _
      rw [List.find?_cons_of_neg (by simpa using hne)]
      exact ih h.2 hrest

end Scoreboard
