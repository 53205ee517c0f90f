import Mathlib
import Scoreboard.Proofs.Generated
import Scoreboard.Proofs.Trees

/-!
# Names declared once

A scope refuses a name that it holds already. The check of a definition is made before its
value is compiled and the name is bound behind it, so the value may introduce the same name
in between: `let x = let x = 5` is accepted. This file shows that it is the only way: in a
compiled script, the names that a body introduces differ from each other exactly if no
definition of the body introduces its own name inside its value.
-/

namespace Scoreboard

variable {α : Type}

/-- A definition whose value introduces the name that is defined. -/
def Node.Redefines : Node α → Prop
  | .define name _ value _ => name ∈ value.introduced
  | _ => False

instance : DecidablePred (Node.Redefines (α := α))
  | .define name _ value _ => inferInstanceAs (Decidable (name ∈ value.introduced))
  | .declare _ _ _ => isFalse id
  | .assign _ _ _ => isFalse id
  | .function _ _ _ _ _ => isFalse id
  | .call _ _ _ => isFalse id
  | .raw _ _ => isFalse id
  | .binary _ _ _ _ => isFalse id
  | .integer _ _ => isFalse id
  | .string _ _ => isFalse id
  | .access _ _ => isFalse id

/-! ## Growing scopes -/

/-- A scope that held some names holds more of them afterwards: exactly the given names,
none of which it held before. -/
structure Grows (before after names : List String) : Prop where
  mem : ∀ x, x ∈ after ↔ x ∈ names ∨ x ∈ before
  new : ∀ x ∈ names, x ∉ before

theorem Grows.refl (names : List String) : Grows names names [] :=
  ⟨fun x => by simp, fun x hx => by simp at hx⟩

theorem Grows.append {a b c xs ys : List String} (h₁ : Grows a b xs) (h₂ : Grows b c ys) :
    Grows a c (xs ++ ys) := by
  refine ⟨fun x => ?_, fun x hx => ?_⟩
  · rw [h₂.mem, h₁.mem, List.mem_append]
    tauto
  · rcases List.mem_append.1 hx with hx | hx
    · exact h₁.new x hx
    · exact fun ha => h₂.new x hx ((h₁.mem x).2 (.inr ha))

/-- What a scope takes on later differs from what it took on before. -/
theorem Grows.disjoint {a b c xs ys : List String} (h₁ : Grows a b xs) (h₂ : Grows b c ys) :
    xs.Disjoint ys :=
  fun x hx hy => h₂.new x hy ((h₁.mem x).2 (.inl hx))

theorem Grows.insert {a b xs : List String} {name : String} (h : Grows a b xs)
    (hname : name ∉ a) : Grows a (b.insert name) (name :: xs) := by
  refine ⟨fun x => ?_, fun x hx => ?_⟩
  · rw [List.mem_insert_iff, h.mem, List.mem_cons]
    tauto
  · rcases List.mem_cons.1 hx with rfl | hx
    · exact hname
    · exact h.new x hx

namespace Generate

variable {space : Text} {context : Context} {w w' : Workspace} {v : Value} {u : Unit}

/-- The scope of a compiled list of arguments grows if that of each argument does. -/
theorem Passing.grows {name : Text} {parameters : List String} {arguments : List (Node α)}
    (h : Passing space context name parameters arguments w w')
    (ih : ∀ node ∈ arguments, ∀ {context w v w'}, compile space context node w = .ok v w' →
      Grows w.scope.names w'.scope.names node.introduced) :
    Grows w.scope.names w'.scope.names (Node.introducedAll arguments) := by
  induction h with
  | nil => exact Grows.refl _
  | cons first _ _ ihrest =>
    have h₁ := ih _ List.mem_cons_self first
    have h₂ := ihrest fun node hnode => ih node (List.mem_cons_of_mem _ hnode)
    rw [Node.introducedAll_cons]
    exact h₁.append h₂

/-- A compiled node adds to its scope exactly the names it introduces, and the scope held
none of them. -/
theorem compile_grows {node : Node α} (h : compile space context node w = .ok v w') :
    Grows w.scope.names w'.scope.names node.introduced := by
  induction node using Node.induction generalizing context w v w' with
  | step node ih =>
    cases node with
    | declare name type m =>
      obtain ⟨hnew, -, rfl⟩ := compile_declare_ok h
      exact (Grows.refl _).insert hnew
    | define name type value m =>
      obtain ⟨hnew, -, r, w₁, hvalue, -, rfl⟩ := compile_define_ok h
      exact (ih value (by simp [Node.children]) hvalue).insert hnew
    | assign name value m =>
      obtain ⟨-, -, -, r, w₁, hvalue, -, rfl⟩ := compile_assign_ok h
      have h₁ := ih value (by simp [Node.children]) hvalue
      exact h₁
    | function name parameters result body m =>
      obtain ⟨-, hnew, -, w₁, w₂, -, -, rfl⟩ := compile_function_ok h
      exact (Grows.refl _).insert hnew
    | call name arguments m =>
      obtain ⟨-, -, parameters, w₁, -, hlength, harguments, rfl⟩ := compile_call_ok h
      have h₁ := (passing_of_compileArguments hlength harguments).grows
        fun node hnode => ih node hnode
      exact h₁
    | raw text m =>
      obtain ⟨-, rfl⟩ := compile_raw_ok h
      exact Grows.refl _
    | binary op left right m =>
      obtain ⟨a, w₁, a', w₂, b, w₃, hleft, hkeep, hright, -, -, -, rfl, -⟩ :=
        compile_binary_ok h
      have hscope : w₂.scope = w₁.scope := by
        rcases keepValue_ok hkeep with ⟨-, rfl, -⟩ | ⟨_, -, -, rfl⟩ <;> rfl
      have h₁ := ih left (by simp [Node.children]) hleft
      have h₂ := ih right (by simp [Node.children]) hright
      rw [hscope] at h₂
      rw [Node.introduced_binary]
      exact h₁.append h₂
    | integer n m =>
      obtain ⟨-, -, rfl⟩ := compile_integer_ok h
      exact Grows.refl _
    | string text m => exact (compile_string_ne_ok h).elim
    | access name m =>
      obtain ⟨-, rfl, -⟩ := compile_access_ok h
      exact Grows.refl _

theorem compileBody_grows {nodes : List (Node α)} (h : compileBody space nodes w = .ok u w') :
    Grows w.scope.names w'.scope.names (Node.introducedAll nodes) := by
  induction nodes generalizing w with
  | nil =>
    rw [compileBody_nil_ok h]
    exact Grows.refl _
  | cons node rest ih =>
    obtain ⟨v, w₁, hnode, hrest⟩ := compileBody_cons_ok h
    rw [Node.introducedAll_cons]
    exact (compile_grows hnode).append (ih hrest)

/-! ## Names that differ -/

/-- Names that differ from each other exactly if none of the given nodes redefines one. -/
def NodupUnlessRedefined (names : List String) (nodes : List (Node α)) : Prop :=
  names.Nodup ↔ ∀ node ∈ nodes, ¬node.Redefines

theorem NodupUnlessRedefined.of_nodup {names : List String} {nodes : List (Node α)}
    (hnames : names.Nodup) (hnodes : ∀ node ∈ nodes, ¬node.Redefines) :
    NodupUnlessRedefined names nodes := ⟨fun _ => hnodes, fun _ => hnames⟩

theorem NodupUnlessRedefined.append {xs ys : List String} {s t : List (Node α)}
    (hx : NodupUnlessRedefined xs s) (hdisjoint : xs.Disjoint ys)
    (hy : NodupUnlessRedefined ys t) : NodupUnlessRedefined (xs ++ ys) (s ++ t) := by
  unfold NodupUnlessRedefined at hx hy ⊢
  rw [List.nodup_append', hx, hy]
  constructor
  · rintro ⟨hs, ht, -⟩ node hnode
    rcases List.mem_append.1 hnode with hnode | hnode
    · exact hs node hnode
    · exact ht node hnode
  · intro h
    exact ⟨fun node hnode => h node (List.mem_append_left _ hnode),
      fun node hnode => h node (List.mem_append_right _ hnode), hdisjoint⟩

/-- A node in front that introduces and redefines nothing. -/
theorem NodupUnlessRedefined.cons_node {names : List String} {node : Node α}
    {nodes : List (Node α)} (hnode : ¬node.Redefines) (h : NodupUnlessRedefined names nodes) :
    NodupUnlessRedefined names (node :: nodes) := by
  unfold NodupUnlessRedefined at h ⊢
  rw [h, List.forall_mem_cons]
  exact ⟨fun hall => ⟨hnode, hall⟩, fun hall => hall.2⟩

theorem Passing.nodup {name : Text} {parameters : List String} {arguments : List (Node α)}
    (h : Passing space context name parameters arguments w w')
    (ih : ∀ node ∈ arguments, ∀ {context w v w'}, compile space context node w = .ok v w' →
      NodupUnlessRedefined node.introduced node.scopeTree) :
    NodupUnlessRedefined (Node.introducedAll arguments) (Node.scopeTrees arguments) := by
  induction h with
  | nil => exact .of_nodup List.nodup_nil (by simp [Node.scopeTrees])
  | cons first _ rest ihrest =>
    have hdisjoint := (compile_grows first).disjoint (rest.grows fun _ _ => compile_grows)
    rw [Node.introducedAll_cons, Node.scopeTrees]
    exact (ih _ List.mem_cons_self first).append hdisjoint
      (ihrest fun node hnode => ih node (List.mem_cons_of_mem _ hnode))

/-- The names that a compiled node introduces differ unless a definition in it introduces
its own name once more. -/
theorem compile_nodup {node : Node α} (h : compile space context node w = .ok v w') :
    NodupUnlessRedefined node.introduced node.scopeTree := by
  induction node using Node.induction generalizing context w v w' with
  | step node ih =>
    cases node with
    | define name type value m =>
      obtain ⟨-, -, r, w₁, hvalue, -⟩ := compile_define_ok h
      have hvalue := ih value (by simp [Node.children]) hvalue
      unfold NodupUnlessRedefined at hvalue ⊢
      rw [Node.introduced_define, List.nodup_cons, hvalue, Node.scopeTree,
        List.forall_mem_cons]
      rfl
    | assign name value m =>
      obtain ⟨-, -, -, r, w₁, hvalue, -⟩ := compile_assign_ok h
      exact (ih value (by simp [Node.children]) hvalue).cons_node id
    | call name arguments m =>
      obtain ⟨-, -, parameters, w₁, -, hlength, harguments, -⟩ := compile_call_ok h
      have hpassing := passing_of_compileArguments hlength harguments
      exact (hpassing.nodup fun node hnode => ih node hnode).cons_node id
    | binary op left right m =>
      obtain ⟨a, w₁, a', w₂, b, w₃, hleft, hkeep, hright, -⟩ := compile_binary_ok h
      have hscope : w₂.scope = w₁.scope := by
        rcases keepValue_ok hkeep with ⟨-, rfl, -⟩ | ⟨_, -, -, rfl⟩ <;> rfl
      have hright' := compile_grows hright
      rw [hscope] at hright'
      rw [Node.introduced_binary]
      exact ((ih left (by simp [Node.children]) hleft).append
        ((compile_grows hleft).disjoint hright')
        (ih right (by simp [Node.children]) hright)).cons_node id
    | string text m => exact (compile_string_ne_ok h).elim
    | _ => exact .of_nodup (by simp) (by simp [Node.scopeTree, Node.Redefines])

theorem compileBody_nodup {nodes : List (Node α)} (h : compileBody space nodes w = .ok u w') :
    NodupUnlessRedefined (Node.introducedAll nodes) (Node.scopeTrees nodes) := by
  induction nodes generalizing w with
  | nil => exact .of_nodup List.nodup_nil (by simp [Node.scopeTrees])
  | cons node rest ih =>
    obtain ⟨v, w₁, hnode, hrest⟩ := compileBody_cons_ok h
    rw [Node.introducedAll_cons, Node.scopeTrees]
    exact (compile_nodup hnode).append
      ((compile_grows hnode).disjoint (compileBody_grows hrest)) (ih hrest)

/-- The body of a compiled function: its parameters differ from each other and from
everything behind them. -/
theorem compile_function_single {name : String} {parameters : List (Parameter α)}
    {result : Option String} {body : List (Node α)} {m : α}
    (h : compile space context (.function name parameters result body m) w = .ok v w') :
    NodupUnlessRedefined (parameters.map (·.name) ++ Node.introducedAll body)
      (Node.scopeTrees body) := by
  obtain ⟨-, -, -, w₁, w₂, hparameters, hbody, -⟩ := compile_function_ok h
  obtain ⟨hnodup, -, rfl⟩ := declareParameters_ok hparameters
  have hdisjoint : (parameters.map (·.name)).Disjoint (Node.introducedAll body) := by
    intro x hx hbodyx
    exact (compileBody_grows hbody).new x hbodyx (Scope.mem_declareVariables.2 (.inl hx))
  have hfirst : NodupUnlessRedefined (parameters.map (·.name)) ([] : List (Node α)) :=
    .of_nodup hnodup (by simp)
  exact hfirst.append hdisjoint (compileBody_nodup hbody)

end Generate

/-- In a compiled source, the names introduced in a body differ from each other exactly if
no definition of the body introduces its own name inside its value. -/
theorem compile_introduced_nodup_iff {space name : Text} {source : Source}
    {build : Build} (h : (source.compile space name).result = .ok build) :
    ∀ body ∈ Script.bodies build.script,
      body.introduced.Nodup ↔ ∀ node ∈ Node.scopeTrees body.statements, ¬node.Redefines := by
  obtain ⟨-, w, hbody, -⟩ := Source.compile_ok h
  intro body hmem
  rcases List.mem_cons.1 hmem with rfl | hmem
  · exact Generate.compileBody_nodup hbody
  · obtain ⟨x, hx, hxbody⟩ := List.mem_filterMap.1 hmem
    obtain ⟨context, v, w₁, w₂, hcompile⟩ := Generate.compileBody_trees_ok hbody hx
    cases x with
    | function fname parameters result statements m =>
      obtain rfl : (⟨parameters.map (·.name), statements⟩ : Body Span) = body := by
        simpa [Node.body?] using hxbody
      exact Generate.compile_function_single hcompile
    | _ => simp [Node.body?] at hxbody

/-- Two bodies, a definition inside another one and one inside an argument. -/
theorem compile_introduced_nodup_iff_nested :
    ∃ build, (Source.compile defaultSpace mainName ⟨"nested", ("let a = let b = 2\n"
        ++ "function f(p: int) \x7b\n let c = p + (p = let d = 4)\n\x7d\n"
        ++ "f(a = let e = b)").toList⟩).result = .ok build
      ∧ ∀ body ∈ Script.bodies build.script, body.introduced.Nodup
        ↔ ∀ node ∈ Node.scopeTrees body.statements, ¬node.Redefines := by
  obtain ⟨build, hbuild, -⟩ := exists_ok_of_any (p := fun _ => true)
    (x := (Source.compile defaultSpace mainName ⟨"nested", ("let a = let b = 2\n"
      ++ "function f(p: int) \x7b\n let c = p + (p = let d = 4)\n\x7d\n"
      ++ "f(a = let e = b)").toList⟩).result) (by decide +kernel)
  exact ⟨build, hbuild, compile_introduced_nodup_iff hbuild⟩

/-- A definition whose value defines its own name is accepted: one scope introduces the name
twice. -/
theorem compile_accepts_redefinition :
    ∃ build, (Source.compile defaultSpace mainName
        ⟨"twice", "let x = let x = 5".toList⟩).result = .ok build
      ∧ ∃ body ∈ Script.bodies build.script, ¬body.introduced.Nodup := by
  obtain ⟨build, hbuild, htwice⟩ := exists_ok_of_any
    (p := fun build => (Script.bodies build.script).any fun body =>
      !decide body.introduced.Nodup)
    (x := (Source.compile defaultSpace mainName
      ⟨"twice", "let x = let x = 5".toList⟩).result) (by decide +kernel)
  refine ⟨build, hbuild, ?_⟩
  simpa using htwice

end Scoreboard
