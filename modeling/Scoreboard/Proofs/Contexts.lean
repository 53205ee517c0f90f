import Mathlib
import Scoreboard.Generator
import Scoreboard.Proofs.Generated
import Scoreboard.Proofs.Steps
import Scoreboard.Proofs.Trees

/-!
# Compiling in another context

The context of a compilation tells an operation where its result should go. It decides which
slots are used and which copies are made, and nothing else: whether a node is accepted, the
fault if it is not, the kind of its value, what it declares and the blocks of the functions in
it are the same in every context (`compile_agrees`).

The argument compares two runs step by step. Workspaces that differ at most in the commands of
the open block are `Alike`; two steps `Agree` if they lead alike workspaces to alike ones,
with the same fault or with related results.
-/

namespace Scoreboard

variable {α β γ : Type}

/-! ## What does not depend on the context -/

/-- Two values of the same kind: they are the same, or both are scores in some cell. -/
inductive Value.SameKind : Value → Value → Prop
  | constant (n : Int) : SameKind (.constant n) (.constant n)
  | stored (cell other : Cell) : SameKind (.stored cell) (.stored other)
  | undefined (cell : Cell) : SameKind (.undefined cell) (.undefined cell)
  | function (name : String) : SameKind (.function name) (.function name)

/-- Two workspaces that differ at most in the commands of the open block. -/
structure Workspace.Alike (w w' : Workspace) : Prop where
  block : w'.block.name = w.block.name
  scope : w'.scope = w.scope
  finished : w'.finished = w.finished
  taken : w'.taken = w.taken

/-- Two runs that come to the same: both fail with one fault, or both succeed with related
results, and the workspaces they leave are alike. -/
inductive SameOutcome (R : β → β → Prop) :
    EStateM.Result (Diagnostic α) Workspace β → EStateM.Result (Diagnostic α) Workspace β → Prop
  | ok {a b : β} {w w' : Workspace} (result : R a b) (left : w.Alike w') :
      SameOutcome R (.ok a w) (.ok b w')
  | error (fault : Diagnostic α) {w w' : Workspace} (left : w.Alike w') :
      SameOutcome R (.error fault w) (.error fault w')

namespace Workspace.Alike

variable {w w' : Workspace}

theorem refl (w : Workspace) : w.Alike w := ⟨rfl, rfl, rfl, rfl⟩

/-- Commands do not count. -/
theorem emit (h : w.Alike w') (cs ds : List Command) : (w.emit cs).Alike (w'.emit ds) :=
  ⟨h.block, h.scope, h.finished, h.taken⟩

theorem modifyScope (h : w.Alike w') (f : Scope → Scope) :
    Alike { w with scope := f w.scope } { w' with scope := f w'.scope } :=
  ⟨h.block, congrArg f h.scope, h.finished, h.taken⟩

/-- The body of a function starts in the same workspace. -/
theorem enter (h : w.Alike w') (name : Text) : w'.enter name = w.enter name := by
  unfold Workspace.enter
  rw [h.finished, h.taken]

theorem leave (h : w.Alike w') (inner : Workspace) : (w.leave inner).Alike (w'.leave inner) :=
  ⟨h.block, h.scope, rfl, rfl⟩

end Workspace.Alike

namespace Generate

/-- Two steps that come to the same from alike workspaces. -/
def Agree (R : β → β → Prop) (x y : Generate α β) : Prop :=
  ∀ w w', w.Alike w' → SameOutcome R (x w) (y w')

/-- The relation of results that say nothing. -/
def Unrelated (_ _ : Unit) : Prop := True

section
variable {R : β → β → Prop} {S : γ → γ → Prop} {m : α}

theorem agree_pure {a b : β} (h : R a b) : Agree R (pure a : Generate α β) (pure b) :=
  fun _ _ hw => .ok h hw

theorem agree_fail {cause : Cause} : Agree R (fail cause m : Generate α β) (fail cause m) :=
  fun _ _ hw => .error _ hw

theorem agree_get : Agree Workspace.Alike (get : Generate α Workspace) get :=
  fun _ _ hw => .ok hw hw

theorem Agree.bind {x y : Generate α β} {f g : β → Generate α γ} (hx : Agree R x y)
    (hf : ∀ a b, R a b → Agree S (f a) (g b)) : Agree S (x >>= f) (y >>= g) := by
  intro w w' hw
  have hfirst := hx w w' hw
  generalize hrun : x w = r, hrun' : y w' = r' at hfirst
  cases hfirst with
  | ok hab hu =>
    rw [bind_of_ok hrun, bind_of_ok hrun']
    exact hf _ _ hab _ _ hu
  | error fault hu =>
    rw [bind_of_error hrun, bind_of_error hrun']
    exact .error fault hu

theorem Agree.ite {c : Prop} [Decidable c] {x y x' y' : Generate α β} (hx : Agree R x x')
    (hy : Agree R y y') : Agree R (if c then x else y) (if c then x' else y') := by
  split
  · exact hx
  · exact hy

/-- Steps behind the same check. -/
theorem Agree.unless {c : Prop} [Decidable c] {cause : Cause} {f g : PUnit → Generate α β}
    (h : Agree R (f ()) (g ())) :
    Agree R (if c then do let r ← fail cause m; f r else f ())
      (if c then do let r ← fail cause m; g r else g ()) :=
  Agree.ite (Agree.bind (R := fun _ _ => True) agree_fail fun _ _ _ => h) h

/-! ## Checks and single commands -/

/-- A step that only adds commands to the open block. -/
def Emitting (step : Generate α Unit) : Prop := ∀ w, ∃ cs, step w = .ok () (w.emit cs)

theorem emitting_push (command : Command) : Emitting (push command : Generate α Unit) :=
  fun _ => ⟨[command], rfl⟩

theorem emitting_copy (target source : Cell) : Emitting (copy target source : Generate α Unit) :=
  fun _ => ⟨copyCommands target source, copy_eq_ok.2 rfl⟩

theorem emitting_applyConstant (op : Operator) (target : Cell) (n : Int) :
    Emitting (applyConstant op target n : Generate α Unit) :=
  fun _ => ⟨_, applyConstant_eq_ok.2 rfl⟩

/-- Which commands are added does not count. -/
theorem Emitting.agree {x y : Generate α Unit} (hx : Emitting x) (hy : Emitting y) :
    Agree Unrelated x y := by
  intro w w' hw
  obtain ⟨cs, hcs⟩ := hx w
  obtain ⟨ds, hds⟩ := hy w'
  rw [hcs, hds]
  exact .ok trivial (hw.emit cs ds)

/-- A step that is the same in both runs and looks at no command. -/
theorem agree_modifyScope (f : Scope → Scope) :
    Agree Unrelated (modifyScope f : Generate α Unit) (modifyScope f) :=
  fun _ _ hw => .ok trivial (hw.modifyScope f)

theorem agree_checkType {type : String} :
    Agree Unrelated (checkType type m) (checkType type m) :=
  Agree.ite (agree_pure trivial) agree_fail

theorem agree_checkOptionalType {type : Option String} :
    Agree Unrelated (checkOptionalType type m) (checkOptionalType type m) := by
  cases type with
  | none => exact agree_pure trivial
  | some type => exact agree_checkType

theorem agree_checkParameterTypes (parameters : List (Parameter α)) :
    Agree Unrelated (checkParameterTypes parameters) (checkParameterTypes parameters) := by
  induction parameters with
  | nil => exact agree_pure trivial
  | cons parameter rest ih => exact agree_checkType.bind fun _ _ _ => ih

theorem agree_requireInt {a b : Value} (h : a.SameKind b) :
    Agree Unrelated (requireInt a m) (requireInt b m) := by
  cases h with
  | constant n => exact agree_pure trivial
  | stored cell other => exact agree_pure trivial
  | undefined cell => exact agree_fail
  | function name => exact agree_fail

theorem agree_store {target target' : Cell} {a b : Value} (h : a.SameKind b) :
    Agree Unrelated (store target a m) (store target' b m) := by
  cases h with
  | constant n => exact (emitting_push _).agree (emitting_push _)
  | stored cell other => exact (emitting_copy _ _).agree (emitting_copy _ _)
  | undefined cell => exact agree_fail
  | function name => exact agree_fail

/-- Whether operands are constants, and which, decides what becomes of them. -/
theorem agree_combine {op : Operator} {target target' : Cell} {a a' b b' : Value}
    (ha : a.SameKind a') (hb : b.SameKind b') :
    Agree Value.SameKind (combine op target a b m) (combine op target' a' b' m) := by
  have hstored : Agree Value.SameKind (pure (.stored target) : Generate α Value)
      (pure (.stored target')) := agree_pure (.stored _ _)
  cases ha with
  | constant n =>
    cases hb with
    | constant k => exact Agree.ite agree_fail (agree_pure (.constant _))
    | stored source source' =>
      refine ((emitting_push _).agree (emitting_push _)).bind fun _ _ _ => ?_
      exact ((emitting_push _).agree (emitting_push _)).bind fun _ _ _ => hstored
    | _ => exact hstored
  | stored source source' =>
    cases hb with
    | constant k =>
      refine ((emitting_copy _ _).agree (emitting_copy _ _)).bind fun _ _ _ => ?_
      exact ((emitting_applyConstant _ _ _).agree (emitting_applyConstant _ _ _)).bind
        fun _ _ _ => hstored
    | stored right right' =>
      refine ((emitting_copy _ _).agree (emitting_copy _ _)).bind fun _ _ _ => ?_
      exact ((emitting_push _).agree (emitting_push _)).bind fun _ _ _ => hstored
    | _ => exact hstored
  | _ => exact hstored

/-- A left operand is copied away in both runs or in none. -/
theorem agree_keepValue {target target' : Cell} {left right : Node α} {a b : Value}
    (h : a.SameKind b) :
    Agree Value.SameKind (keepValue target left right a) (keepValue target' left right b) := by
  unfold keepValue
  cases left.storedVariable? with
  | none => exact agree_pure h
  | some name =>
    cases h with
    | stored source source' =>
      refine Agree.ite ?_ (agree_pure (.stored _ _))
      exact ((emitting_copy _ _).agree (emitting_copy _ _)).bind fun _ _ _ =>
        agree_pure (.stored _ _)
    | constant n => exact agree_pure (.constant n)
    | undefined cell => exact agree_pure (.undefined cell)
    | function name => exact agree_pure (.function name)

/-! ## Functions -/

/-- The body of a function does not see the commands around it. -/
theorem agree_within (name : Text) (body : Generate α Unit) :
    Agree Unrelated (within name body) (within name body) := by
  intro w w' hw
  unfold within
  rw [hw.enter]
  cases body (w.enter name) with
  | ok _ inner => exact .ok trivial (hw.leave _)
  | error fault inner => exact .error fault (hw.leave _)

theorem agree_compileFunction {name : Text} {parameters : List (Parameter α)}
    {result : Option String} {declared : Bool} {body : Generate α Unit} :
    Agree Unrelated (compileFunction name parameters result m declared body)
      (compileFunction name parameters result m declared body) := by
  refine agree_get.bind fun w w' hw => ?_
  rw [hw.taken]
  refine Agree.unless ((agree_checkParameterTypes parameters).bind fun _ _ _ => ?_)
  exact agree_checkOptionalType.bind fun _ _ _ => agree_within name _

end

/-! ## Statements and expressions -/

section
variable {space : Text}

theorem agree_compileArguments {context context' : Context} {name : Text}
    {parameters : List String} {arguments : List (Node α)}
    (h : ∀ node ∈ arguments, ∀ context context',
      Agree Value.SameKind (compile space context node) (compile space context' node)) :
    Agree Unrelated (compileArguments space context name parameters arguments)
      (compileArguments space context' name parameters arguments) := by
  induction arguments generalizing parameters with
  | nil => cases parameters <;> exact agree_pure trivial
  | cons node rest ih =>
    cases parameters with
    | nil => exact agree_pure trivial
    | cons parameter parameters =>
      obtain ⟨hnode, hrest⟩ := List.forall_mem_cons.1 h
      rw [compileArguments, compileArguments]
      refine (hnode _ _).bind fun a b hab => ?_
      exact (agree_store hab).bind fun _ _ _ => ih hrest

/-- A node comes to the same in every context. -/
theorem agree_compile (context context' : Context) (node : Node α) :
    Agree Value.SameKind (compile space context node) (compile space context' node) := by
  induction node using Node.induction generalizing context context' with
  | step node ih =>
    cases node with
    | declare name type m =>
      rw [compile, compile]
      refine agree_get.bind fun w w' hw => ?_
      rw [hw.scope]
      refine Agree.unless (agree_checkOptionalType.bind fun _ _ _ => ?_)
      refine agree_get.bind fun u u' hu => (agree_modifyScope _).bind fun _ _ _ => ?_
      rw [hu.scope]
      exact agree_pure (.undefined _)
    | define name type value m =>
      rw [compile, compile]
      refine agree_get.bind fun w w' hw => ?_
      rw [hw.scope]
      refine Agree.unless (agree_checkOptionalType.bind fun _ _ _ => ?_)
      refine agree_get.bind fun u u' hu => ?_
      refine (ih value List.mem_cons_self _ _).bind fun a b hab => ?_
      refine (agree_store hab).bind fun _ _ _ => (agree_modifyScope _).bind fun _ _ _ => ?_
      exact agree_pure (.stored _ _)
    | assign name value m =>
      rw [compile, compile]
      refine agree_get.bind fun w w' hw => ?_
      rw [hw.scope]
      refine Agree.unless (Agree.unless ?_)
      refine (ih value List.mem_cons_self _ _).bind fun a b hab => ?_
      exact (agree_store hab).bind fun _ _ _ => agree_pure (.stored _ _)
    | function name parameters result body m =>
      rw [compile, compile]
      refine agree_get.bind fun w w' hw => ?_
      rw [hw.scope]
      refine agree_compileFunction.bind fun _ _ _ => ?_
      exact (agree_modifyScope _).bind fun _ _ _ => agree_pure (.function name)
    | call name arguments m =>
      rw [compile, compile]
      refine agree_get.bind fun w w' hw => ?_
      rw [hw.scope]
      refine Agree.unless ?_
      cases w.scope.parameters? name with
      | none => exact agree_fail
      | some parameters =>
        -- whether the objective is created depends on the scope, and the scopes are the same
        have hrest : Agree Value.SameKind
            (do compileArguments space context name parameters arguments
                push (.call space name)
                return Value.function name)
            (do compileArguments space context' name parameters arguments
                push (.call space name)
                return Value.function name) := by
          refine (agree_compileArguments ih).bind fun _ _ _ => ?_
          exact ((emitting_push _).agree (emitting_push _)).bind fun _ _ _ =>
            agree_pure (.function name)
        refine Agree.unless (Agree.ite ?_ hrest)
        exact ((emitting_push _).agree (emitting_push _)).bind fun _ _ _ => hrest
    | raw text m =>
      rw [compile, compile]
      refine ((emitting_push _).agree (emitting_push _)).bind fun _ _ _ => ?_
      refine agree_get.bind fun w w' hw => ?_
      rw [hw.block]
      exact agree_pure (.undefined _)
    | binary op left right m =>
      -- the operands are in slots that differ with the context, and are numbers in both or neither
      have hright : right ∈ (Node.binary op left right m).children :=
        List.mem_cons_of_mem _ List.mem_cons_self
      rw [compile, compile]
      refine agree_get.bind fun w w' hw => ?_
      refine (ih left List.mem_cons_self _ _).bind fun a a' ha => ?_
      refine (agree_keepValue ha).bind fun a a' ha => ?_
      refine (ih right hright _ _).bind fun b b' hb => ?_
      refine (agree_requireInt ha).bind fun _ _ _ => (agree_requireInt hb).bind fun _ _ _ => ?_
      exact agree_combine ha hb
    | integer n m =>
      rw [compile, compile]
      exact Agree.ite (agree_pure (.constant n)) agree_fail
    | string text m =>
      rw [compile, compile]
      exact agree_fail
    | access name m =>
      rw [compile, compile]
      refine agree_get.bind fun w w' hw => ?_
      rw [hw.scope]
      exact Agree.unless (Agree.ite (agree_pure (.function name)) (agree_pure (.stored _ _)))

end

end Generate

/-- What becomes of a node does not depend on the context it is compiled in. From one workspace,
and with any destinations and scratch depths, it fails with the same fault in both contexts, or
it succeeds in both with values of the same kind. Either way the scopes, the finished blocks
and the taken names are the same afterwards. -/
theorem compile_agrees (space : Text) (context context' : Context) (node : Node α)
    (w : Workspace) :
    SameOutcome Value.SameKind (Generate.compile space context node w)
      (Generate.compile space context' node w) :=
  Generate.agree_compile context context' node w w (.refl w)

end Scoreboard
