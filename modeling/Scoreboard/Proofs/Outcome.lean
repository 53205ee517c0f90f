import Mathlib
import Scoreboard.Compilation
import Scoreboard.Proofs.Generated
import Scoreboard.Proofs.Reading
import Scoreboard.Proofs.Tokens

/-!
# Outcomes of a compilation

Every source is compiled or rejected, and how it is rejected tells which part found the fault.
The generator reports only faults of its own kinds, at a node or a parameter of the script
(`faults_compile`), and the marks of a script are ranges of its source because reading it is
sound. The one outcome without a diagnostic is an integer of too many digits.

The generator combines two operands only after it has checked that they are integers, and the
constants among them are scores, so what the arithmetic would do with anything else cannot be
observed (`compileOperands_congr`).
-/

namespace Scoreboard

/-- The places of a node: its own and those of its parameters. -/
def Node.places {α : Type} : Node α → List α
  | function _ parameters _ _ mark => mark :: parameters.map (·.mark)
  | node => [node.mark]

theorem Node.mark_mem_places {α : Type} (node : Node α) : node.mark ∈ node.places := by
  cases node <;> exact List.mem_cons_self

namespace Generate

variable {α β γ : Type}

/-! ## Faults -/

/-- Whenever a step fails, its fault is one of a kind. -/
def Faults (step : Generate α β) (bad : Diagnostic α → Prop) : Prop :=
  ∀ w, Ensures step w (fun _ _ => True) fun d _ => bad d

section
variable {bad : Diagnostic α → Prop}

theorem faults_pure {x : β} : Faults (pure x : Generate α β) bad := fun _ => trivial

theorem faults_get : Faults (get : Generate α Workspace) bad := fun _ => trivial

theorem faults_modify {f : Workspace → Workspace} :
    Faults (modify f : Generate α PUnit) bad := fun _ => trivial

/-- A failing step has its own fault. -/
theorem faults_fail {cause : Cause} {m : α} (h : bad ⟨cause, m⟩) :
    Faults (fail cause m : Generate α β) bad := fun _ => h

/-- Two steps have the faults of each. -/
theorem faults_bind {x : Generate α β} {f : β → Generate α γ} (hx : Faults x bad)
    (hf : ∀ b, Faults (f b) bad) : Faults (x >>= f) bad :=
  fun w => (hx w).bind fun b w' _ => hf b w'

theorem faults_ite {c : Prop} [Decidable c] {x y : Generate α β} (hx : Faults x bad)
    (hy : Faults y bad) : Faults (if c then x else y) bad := by
  split
  · exact hx
  · exact hy

/-- A check in front of other steps. -/
theorem faults_unless {c : Prop} [Decidable c] {cause : Cause} {m : α}
    {f : PUnit → Generate α β} (h : bad ⟨cause, m⟩) (hf : Faults (f ()) bad) :
    Faults (if c then do let r ← fail cause m; f r else f ()) bad :=
  faults_ite (faults_bind (faults_fail h) fun _ => hf) hf

/-- Faults of one kind are of any wider kind. -/
theorem Faults.mono {bad' : Diagnostic α → Prop} {x : Generate α β} (h : Faults x bad)
    (hbad : ∀ d, bad d → bad' d) : Faults x bad' :=
  fun w => (h w).mono (fun _ _ _ => trivial) fun d _ hd => hbad d hd

end

/-- A fault of generating, at a place of one of some nodes. -/
def Blames (nodes : List (Node α)) (d : Diagnostic α) : Prop :=
  d.kind.isSyntax = false ∧ ∃ x ∈ nodes, d.place ∈ x.places

/-- A fault at one of some nodes is at one of more nodes. -/
theorem Blames.mono {nodes more : List (Node α)} {d : Diagnostic α} (h : Blames nodes d)
    (hmore : ∀ x ∈ nodes, x ∈ more) : Blames more d := by
  obtain ⟨hkind, x, hx, hplace⟩ := h
  exact ⟨hkind, x, hmore x hx, hplace⟩

/-- A fault at the node itself. -/
theorem blames_self {cause : Cause} {node : Node α} {m : α}
    (hcause : cause.kind.isSyntax = false) (hm : m ∈ node.places) :
    Blames node.tree ⟨cause, m⟩ :=
  ⟨hcause, node, node.self_mem_tree, hm⟩

section
variable {bad : Diagnostic α → Prop} {type : String} {m : α}

theorem faults_checkType (h : bad ⟨.unknownType type, m⟩) : Faults (checkType type m) bad :=
  faults_ite faults_pure (faults_fail h)

theorem faults_checkOptionalType {type : Option String}
    (h : ∀ t, bad ⟨.unknownType t, m⟩) : Faults (checkOptionalType type m) bad := by
  unfold checkOptionalType
  split
  · exact faults_checkType (h _)
  · exact faults_pure

theorem faults_copy {target source : Cell} : Faults (copy target source : Generate α Unit) bad :=
  faults_ite faults_pure faults_modify

/-- A value that is no integer is a type mismatch. -/
theorem faults_requireInt {value : Value} (h : ∀ t, bad ⟨.typeMismatch .int t, m⟩) :
    Faults (requireInt value m) bad := by
  unfold requireInt
  split
  · exact faults_pure
  · exact faults_pure
  · exact faults_fail (h _)

/-- Storing a value fails only with a type mismatch. -/
theorem faults_store {target : Cell} {value : Value} (h : ∀ t, bad ⟨.typeMismatch .int t, m⟩) :
    Faults (store target value m) bad := by
  unfold store
  split
  · exact faults_modify
  · exact faults_copy
  · exact faults_fail (h _)

/-- Combining values fails only with a division by zero. -/
theorem faults_combine {op : Operator} {target : Cell} {left right : Value}
    (h : bad ⟨.divisionByZero, m⟩) : Faults (combine op target left right m) bad := by
  have hconstant (n : Int) : Faults (applyConstant op target n : Generate α Unit) bad :=
    faults_bind faults_get fun _ => faults_modify
  unfold combine
  split
  · exact faults_ite (faults_fail h) faults_pure
  · exact faults_bind faults_copy fun _ => faults_bind (hconstant _) fun _ => faults_pure
  · exact faults_bind faults_modify fun _ => faults_bind faults_modify fun _ => faults_pure
  · exact faults_bind faults_copy fun _ => faults_bind faults_modify fun _ => faults_pure
  · exact faults_pure

theorem faults_keepValue {target : Cell} {left right : Node α} {value : Value} :
    Faults (keepValue target left right value) bad := by
  unfold keepValue
  split
  · exact faults_ite (faults_bind faults_copy fun _ => faults_pure) faults_pure
  · exact faults_pure

/-- Checking parameters can only fail at one of them. -/
theorem faults_checkParameterTypes {parameters : List (Parameter α)}
    (h : ∀ p ∈ parameters, ∀ t, bad ⟨.unknownType t, p.mark⟩) :
    Faults (checkParameterTypes parameters) bad := by
  induction parameters with
  | nil => exact faults_pure
  | cons p rest ih =>
    obtain ⟨hp, hrest⟩ := List.forall_mem_cons.1 h
    exact faults_bind (faults_checkType (hp _)) fun _ => ih hrest

/-- Declaring parameters fails only at one of them. -/
theorem faults_declareParameters {parameters : List (Parameter α)}
    (h : ∀ p ∈ parameters, bad ⟨.redeclared .parameter p.name, p.mark⟩) :
    Faults (declareParameters parameters) bad := by
  induction parameters with
  | nil => exact faults_pure
  | cons p rest ih =>
    obtain ⟨hp, hrest⟩ := List.forall_mem_cons.1 h
    refine faults_bind faults_get fun w => faults_unless hp ?_
    exact faults_bind faults_modify fun _ => ih hrest

/-- A block has the faults of its body. -/
theorem faults_within {name : Text} {body : Generate α Unit} (h : Faults body bad) :
    Faults (within name body) bad := by
  intro w
  have hbody := h (w.enter name)
  unfold Ensures at hbody ⊢
  unfold within
  cases hrun : body (w.enter name) with
  | ok u inner => trivial
  | error e inner =>
    rw [hrun] at hbody
    exact hbody

/-- A function has faults at its own place, at those of its parameters and in its body. -/
theorem faults_compileFunction {name : Text} {parameters : List (Parameter α)}
    {result : Option String} {declared : Bool} {body : Generate α Unit}
    (hself : ∀ cause : Cause, cause.kind.isSyntax = false → bad ⟨cause, m⟩)
    (hparameters : ∀ p ∈ parameters, ∀ cause : Cause, cause.kind.isSyntax = false →
      bad ⟨cause, p.mark⟩)
    (hbody : Faults body bad) :
    Faults (compileFunction name parameters result m declared body) bad := by
  refine faults_bind faults_get fun w => faults_unless (hself _ rfl) ?_
  refine faults_bind (faults_checkParameterTypes fun p hp t => hparameters p hp _ rfl) fun _ => ?_
  refine faults_bind (faults_checkOptionalType fun t => hself _ rfl) fun _ => ?_
  refine faults_within ?_
  exact faults_bind (faults_declareParameters fun p hp => hparameters p hp _ rfl) fun _ => hbody

end

variable {space : Text}

/-- Arguments have their own faults, and a type mismatch at one of them. -/
theorem faults_compileArguments {bad : Diagnostic α → Prop} {context : Context} {name : Text}
    {parameters : List String} {arguments : List (Node α)}
    (h : ∀ x ∈ arguments, ∀ context, Faults (compile space context x) bad)
    (hmark : ∀ x ∈ arguments, ∀ t, bad ⟨.typeMismatch .int t, x.mark⟩) :
    Faults (compileArguments space context name parameters arguments) bad := by
  induction arguments generalizing parameters with
  | nil =>
    cases parameters <;> exact faults_pure
  | cons x rest ih =>
    obtain ⟨hx, hrest⟩ := List.forall_mem_cons.1 h
    obtain ⟨hmarkx, hmarkrest⟩ := List.forall_mem_cons.1 hmark
    cases parameters with
    | nil => exact faults_pure
    | cons p parameters =>
      rw [compileArguments]
      refine faults_bind (hx _) fun value => ?_
      exact faults_bind (faults_store hmarkx) fun _ => ih hrest hmarkrest

/-- A body has the faults of its statements. -/
theorem faults_compileBody {bad : Diagnostic α → Prop} {nodes : List (Node α)}
    (h : ∀ x ∈ nodes, ∀ context, Faults (compile space context x) bad) :
    Faults (compileBody space nodes) bad := by
  induction nodes with
  | nil => exact faults_pure
  | cons x rest ih =>
    obtain ⟨hx, hrest⟩ := List.forall_mem_cons.1 h
    exact faults_bind (hx _) fun _ => ih hrest

/-- A node that cannot be compiled is blamed on a node below it or a parameter of one. -/
theorem faults_compile (context : Context) (node : Node α) :
    Faults (compile space context node) (Blames node.tree) := by
  induction node using Node.induction generalizing context with
  | step node ih =>
    -- a fault is at the node, or below a child, or at a child whose value does not fit the node
    have hself : ∀ cause : Cause, cause.kind.isSyntax = false →
        Blames node.tree ⟨cause, node.mark⟩ :=
      fun cause hcause => blames_self hcause node.mark_mem_places
    have hchild : ∀ x ∈ node.children, ∀ context,
        Faults (compile space context x) (Blames node.tree) := fun x hx context =>
      (ih x hx context).mono fun d hd => hd.mono fun y hy => Node.mem_tree_of_child hx hy
    have hchildMark : ∀ x ∈ node.children, ∀ cause : Cause, cause.kind.isSyntax = false →
        Blames node.tree ⟨cause, x.mark⟩ := fun x hx cause hcause =>
      (blames_self hcause x.mark_mem_places).mono fun y hy => Node.mem_tree_of_child hx hy
    cases node with
    | declare name type m =>
      simp only [compile]
      refine faults_bind faults_get fun w => faults_unless (hself _ rfl) ?_
      refine faults_bind (faults_checkOptionalType fun t => hself _ rfl) fun _ => ?_
      exact faults_bind faults_get fun _ => faults_bind faults_modify fun _ => faults_pure
    | define name type value m =>
      simp only [compile]
      refine faults_bind faults_get fun w => faults_unless (hself _ rfl) ?_
      refine faults_bind (faults_checkOptionalType fun t => hself _ rfl) fun _ => ?_
      refine faults_bind faults_get fun w => ?_
      refine faults_bind (hchild value List.mem_cons_self _) fun result => ?_
      refine faults_bind (faults_store fun t => hself _ rfl) fun _ => ?_
      exact faults_bind faults_modify fun _ => faults_pure
    | assign name value m =>
      simp only [compile]
      refine faults_bind faults_get fun w => faults_unless (hself _ rfl) ?_
      refine faults_unless (hself _ rfl) ?_
      refine faults_bind (hchild value List.mem_cons_self _) fun result => ?_
      exact faults_bind (faults_store fun t => hself _ rfl) fun _ => faults_pure
    | function name parameters result body m =>
      simp only [compile]
      refine faults_bind faults_get fun w => ?_
      have hparameters : ∀ p ∈ parameters, ∀ cause : Cause, cause.kind.isSyntax = false →
          Blames (Node.function name parameters result body m).tree ⟨cause, p.mark⟩ :=
        fun p hp cause hcause =>
          blames_self hcause (List.mem_cons_of_mem _ (List.mem_map_of_mem hp))
      refine faults_bind (faults_compileFunction hself hparameters
        (faults_compileBody hchild)) fun _ => ?_
      exact faults_bind faults_modify fun _ => faults_pure
    | call name arguments m =>
      simp only [compile]
      refine faults_bind faults_get fun w => faults_unless (hself _ rfl) ?_
      split
      · exact faults_fail (hself _ rfl)
      · refine faults_unless (hself _ rfl) ?_
        -- the objective is created only for parameters, what follows is the same without them
        have hrest (parameters : List String) :
            Faults (do
              compileArguments space context name parameters arguments
              push (.call space name)
              return Value.function name) (Blames (Node.call name arguments m).tree) := by
          refine faults_bind (faults_compileArguments hchild fun x hx t =>
            hchildMark x hx _ rfl) fun _ => ?_
          exact faults_bind faults_modify fun _ => faults_pure
        exact faults_ite (faults_bind faults_modify fun _ => hrest _) (hrest _)
    | raw text m =>
      simp only [compile]
      exact faults_bind faults_modify fun _ => faults_bind faults_get fun _ => faults_pure
    | binary op left right m =>
      have hleft : left ∈ (Node.binary op left right m).children := List.mem_cons_self
      have hright : right ∈ (Node.binary op left right m).children :=
        List.mem_cons_of_mem _ List.mem_cons_self
      simp only [compile]
      refine faults_bind faults_get fun w => ?_
      refine faults_bind (hchild left hleft _) fun first => ?_
      refine faults_bind faults_keepValue fun first => ?_
      refine faults_bind (hchild right hright _) fun second => ?_
      refine faults_bind (faults_requireInt fun t => hchildMark left hleft _ rfl) fun _ => ?_
      refine faults_bind (faults_requireInt fun t => hchildMark right hright _ rfl) fun _ => ?_
      exact faults_combine (hself _ rfl)
    | integer n m =>
      simp only [compile]
      exact faults_ite faults_pure (faults_fail (hself _ rfl))
    | string text m =>
      simp only [compile]
      exact faults_fail (hself _ rfl)
    | access name m =>
      simp only [compile]
      refine faults_bind faults_get fun w => faults_unless (hself _ rfl) ?_
      exact faults_ite faults_pure faults_pure

/-- Generating commands for a script fails only at a node of it or a parameter of one. The
block around the top-level statements is never at fault. -/
theorem blames_of_generate {name : Text} {mark : α} {script : Script α} {d : Diagnostic α}
    (h : (generate space name mark script).fault = some d) : Blames (Node.trees script) d := by
  have hbody : Faults (compileBody space script) (Blames (Node.trees script)) := by
    refine faults_compileBody fun x hx context => (faults_compile context x).mono fun d hd => ?_
    exact hd.mono fun y hy => Node.mem_trees.2 ⟨x, hx, hy⟩
  have hwithin : Faults (within name (compileBody space script)) (Blames (Node.trees script)) :=
    faults_within hbody
  have hrun := hwithin (Workspace.ofName name)
  unfold generate at h
  simp only [compileFunction_ofName] at h
  unfold Ensures at hrun
  split at h
  · cases h
  · rename_i fault w hfault
    rw [hfault] at hrun
    cases h
    exact hrun

/-! ## Operands -/

/-- The range of scores. -/
theorem inScoreRange_iff {n : Int} :
    inScoreRange n = true ↔ -2147483648 ≤ n ∧ n ≤ 2147483647 := by
  unfold inScoreRange scoreMin scoreMax
  rw [Bool.and_eq_true_iff, decide_eq_true_iff, decide_eq_true_iff]

theorem inScoreRange_wrapScore (n : Int) : inScoreRange (wrapScore n) = true := by
  have hlow : -2147483648 ≤ wrapScore n := by
    have := Int.le_bmod (x := n) (m := 4294967296) (by omega)
    unfold wrapScore
    omega
  have hhigh : wrapScore n ≤ 2147483647 := by
    have := Int.bmod_lt (x := n) (m := 4294967296) (by omega)
    unfold wrapScore
    omega
  exact inScoreRange_iff.2 ⟨hlow, hhigh⟩

/-- A folded constant is in the range of scores. -/
theorem inScoreRange_fold (op : Operator) (a b : Int) : inScoreRange (op.fold a b) = true := by
  cases op with
  | divide =>
    rw [Operator.fold]
    split
    · rfl
    · exact inScoreRange_wrapScore _
  | _ => exact inScoreRange_wrapScore _

/-- A constant that an expression is compiled to is a score. -/
theorem compile_constant_inScoreRange {context : Context} {node : Node α} {n : Int}
    {w w' : Workspace} (h : compile space context node w = .ok (.constant n) w') :
    inScoreRange n = true := by
  cases node with
  | declare name type m => cases (compile_declare_ok h).2.1
  | define name type value m => cases (compile_define_ok h).2.1
  | assign name value m => cases (compile_assign_ok h).2.2.1
  | function name parameters result body m => cases (compile_function_ok h).2.2.1
  | call name arguments m => cases (compile_call_ok h).2.1
  | raw text m => cases (compile_raw_ok h).1
  | binary op left right m =>
    obtain ⟨a, w₁, a', w₂, b, w₃, -, -, -, -, -, hv, -⟩ := compile_binary_ok h
    unfold combined at hv
    split at hv
    · cases hv
      exact inScoreRange_fold op _ _
    · cases hv
  | integer value m =>
    obtain ⟨hn, hv, -⟩ := compile_integer_ok h
    cases hv
    exact hn
  | string text m => exact (compile_string_ne_ok h).elim
  | access name m =>
    have hv := (compile_access_ok h).2.2
    split at hv <;> cases hv

end Generate

/-- What operands are combined from: a score known while compiling, or a cell. -/
def Value.isOperand : Value → Bool
  | constant n => inScoreRange n
  | stored _ => true
  | _ => false

namespace Generate

variable {α : Type} {space : Text}

/-- The steps of a binary expression, with `join` to combine the operands in a cell. -/
def compileOperands (space : Text) (context : Context) (left right : Node α)
    (join : Cell → Value → Value → Generate α Value) : Generate α Value := do
  let block := (← get).block.name
  let first ← compile space context left
  let first ← keepValue (target context block) left right first
  let second ← compile space (rightContext context) right
  requireInt first left.mark
  requireInt second right.mark
  join (target context block) first second

/-- An operation is the compilation of its operands and then their combination. -/
theorem compile_binary_eq_compileOperands (context : Context) (op : Operator)
    (left right : Node α) (mark : α) :
    compile space context (.binary op left right mark)
      = compileOperands space context left right fun cell a b => combine op cell a b mark := by
  simp only [compile]
  rfl

/-- Only operands are combined. -/
theorem compileOperands_congr {context : Context} {left right : Node α}
    {join join' : Cell → Value → Value → Generate α Value}
    (h : ∀ cell a b, a.isOperand = true → b.isOperand = true → join cell a b = join' cell a b) :
    compileOperands space context left right join
      = compileOperands space context left right join' := by
  funext w
  unfold compileOperands
  refine bind_congr_ok fun _ w₀ _ => ?_
  refine bind_congr_ok fun a w₁ hleft => bind_congr_ok fun a' w₂ hkeep => ?_
  refine bind_congr_ok fun b w₃ hright => ?_
  refine bind_congr_ok fun _ w₄ hrequire => bind_congr_ok fun _ w₅ hrequire' => ?_
  have hb : b.isOperand = true := by
    have htype := (requireInt_eq_ok.1 hrequire').1
    cases b with
    | constant n => exact compile_constant_inScoreRange hright
    | stored cell => rfl
    | undefined cell => cases htype
    | function name => cases htype
  -- keeping the left value leaves a constant alone
  have ha : a'.isOperand = true := by
    have htype := (requireInt_eq_ok.1 hrequire).1
    obtain ⟨rfl, -, -⟩ | ⟨cell, -, rfl, -⟩ := keepValue_ok hkeep
    · cases a' with
      | constant n => exact compile_constant_inScoreRange hleft
      | stored cell => rfl
      | undefined cell => cases htype
      | function name => cases htype
    · rfl
  rw [h _ _ _ ha hb]

end Generate

/-! ## Places in a source -/

/-- A range of a source, with positions that belong to it, that covers a character or stands
at the end of the text. -/
structure Span.Fits (source : Source) (span : Span) : Prop where
  eq_source : span.source = source
  le : span.start.index ≤ span.stop.index
  within : span.stop.index ≤ source.text.length
  start : span.start = Position.ofIndex source.text span.start.index
  stop : span.stop = Position.ofIndex source.text span.stop.index
  covers : span.start.index < span.stop.index ∨ span.start.index = source.text.length

/-- A span over a range of a source lies in it. -/
theorem IsRange.fits {source : Source} {i : Nat} {span : Span} (h : IsRange source i span) :
    span.Fits source := by
  obtain ⟨a, b, -, hle, hlength, hcover, rfl⟩ := h
  have hstart : (Span.ofRange source a b).start.index = a := Position.index_ofIndex (by omega)
  have hstop : (Span.ofRange source a b).stop.index = b := Position.index_ofIndex hlength
  constructor
  · rfl
  · rw [hstart, hstop]
    exact hle
  · rw [hstop]
    exact hlength
  · rw [hstart]
    rfl
  · rw [hstop]
    rfl
  · rw [hstart, hstop]
    exact hcover

/-- The places of the nodes of a script are spans of its tokens. -/
theorem Derives.spanOf_place {ts : List Token} {script : Script Span}
    (h : Derives ts (.lines script)) {x : Node Span} (hx : x ∈ Node.trees script) {place : Span}
    (hplace : place ∈ x.places) : SpanOf ts place := by
  obtain ⟨hmark, hspelled⟩ := h.sound x hx
  cases x with
  | function name parameters result body m =>
    obtain rfl | hplace := List.mem_cons.1 hplace
    · exact hmark
    · obtain ⟨p, hp, rfl⟩ := List.mem_map.1 hplace
      exact (hspelled.2.2 p hp).2.2
  | _ =>
    rw [List.mem_singleton.1 hplace]
    exact hmark

/-! ## Outcomes -/

/-- The codes of faults of reading start with ES0. -/
theorem DiagnosticKind.code_of_isSyntax {kind : DiagnosticKind} (h : kind.isSyntax = true) :
    "ES0".toList <+: kind.code.toList := by
  revert h
  cases kind <;> decide

/-- The codes of faults of generating start with ES1. -/
theorem DiagnosticKind.code_of_not_isSyntax {kind : DiagnosticKind}
    (h : kind.isSyntax = false) : "ES1".toList <+: kind.code.toList := by
  revert h
  cases kind <;> decide

/-- The walk over a source comes to an integer of more than 4300 digits, underscores not
counted. -/
def Source.MeetsLongInteger (source : Source) : Prop :=
  ∃ ts i c, Walks source 0 ts i ∧ (source.text.drop i).head? = some c ∧ c.isDigit = true
    ∧ 4300 < Scanner.digitCount (source.text.drop i)

theorem tokenize_eq_numeral_iff {source : Source} :
    tokenize source = .error .numeral ↔ source.MeetsLongInteger := by
  rw [tokenize_eq_error_iff]
  constructor
  · rintro ⟨-, ts, i, hwalk, hrefuses⟩
    obtain ⟨⟨c, hc, hdigit⟩, hcount⟩ := refuses_iff.1 hrefuses
    exact ⟨ts, i, c, hwalk, hc, hdigit, hcount⟩
  · rintro ⟨ts, i, c, hwalk, hc, hdigit, hcount⟩
    exact ⟨rfl, ts, i, hwalk, refuses_iff.2 ⟨⟨c, hc, hdigit⟩, hcount⟩⟩

/-- The four ways a compilation ends, one for each step that can end it and one for a
program. -/
theorem Source.compile_cases (space name : Text) (source : Source) :
    (∃ e, tokenize source = .error e ∧ (source.compile space name).result = .error (.scan e))
    ∨ ∃ tokens, tokenize source = .ok tokens
      ∧ ((∃ e, Scoreboard.parse tokens = .error e
          ∧ (source.compile space name).result = .error (.parse e))
        ∨ ∃ script, Scoreboard.parse tokens = .ok script
          ∧ ((∃ d, (generate space name (Span.whole source) script).fault = some d
              ∧ (source.compile space name).result = .error (.generate d))
            ∨ ∃ build, build.source = source
              ∧ (source.compile space name).result = .ok build)) := by
  unfold Source.compile Source.parse
  cases htokens : tokenize source with
  | error e => exact .inl ⟨e, rfl, rfl⟩
  | ok tokens =>
    refine .inr ⟨tokens, rfl, ?_⟩
    simp only
    cases hparse : Scoreboard.parse tokens with
    | error e => exact .inl ⟨e, rfl, rfl⟩
    | ok script =>
      refine .inr ⟨script, rfl, ?_⟩
      simp only
      cases (generate space name (Span.whole source) script).fault with
      | none => exact .inr ⟨_, rfl, rfl⟩
      | some d => exact .inl ⟨d, rfl, rfl⟩

/-- A fault of reading has a code of its own and lies in the source. -/
theorem parse_error_fits {source : Source} {tokens : List Token} {e : ParseError}
    (htokens : tokenize source = .ok tokens) (h : parse tokens = .error e) :
    ∃ d, e = .diagnosed d ∧ "ES0".toList <+: d.kind.code.toList ∧ d.place.Fits source := by
  obtain ⟨d, rfl, hkind, hspan⟩ := reported_of_parse (endsText_of_tokenize htokens).hasEnd h
  have hrange := (placed_of_tokenize htokens).isRange_of_spanOf hspan
  exact ⟨d, rfl, DiagnosticKind.code_of_isSyntax hkind, hrange.fits⟩

/-- A fault of generating has a code of its own and lies in the source. -/
theorem generate_fault_fits {space name : Text} {mark : Span} {source : Source}
    {tokens : List Token} {script : Script Span} {d : Diagnostic Span}
    (htokens : tokenize source = .ok tokens) (hparse : parse tokens = .ok script)
    (h : (generate space name mark script).fault = some d) :
    "ES1".toList <+: d.kind.code.toList ∧ d.place.Fits source := by
  obtain ⟨ls, us, close, rfl, -, hderives, -⟩ :=
    derives_of_parse (endsText_of_tokenize htokens) hparse
  obtain ⟨hkind, x, hx, hplace⟩ := Generate.blames_of_generate h
  have hspan : SpanOf (ls ++ us ++ [close]) d.place :=
    (hderives.spanOf_place hx hplace).mono ⟨ls, [close], rfl⟩
  have hrange := (placed_of_tokenize htokens).isRange_of_spanOf hspan
  exact ⟨DiagnosticKind.code_of_not_isSyntax hkind, hrange.fits⟩

/-- Every compilation gives a program or ends in one of three ways: a fault of reading with
its code and place, a fault of generating with its code and place, or, exactly if the text has
an integer of more than 4300 digits, no diagnostic. The last part says that the generator
combines only operands: whatever were done with other values could not be observed. -/
theorem Source.compile_outcome (space name : Text) (source : Source) :
    (match (source.compile space name).result with
      | .ok build => build.source = source
      | .error (.scan e) => e = .numeral
      | .error (.parse (.diagnosed d)) =>
        "ES0".toList <+: d.kind.code.toList ∧ d.place.Fits source
      | .error (.parse _) => False
      | .error (.generate d) => "ES1".toList <+: d.kind.code.toList ∧ d.place.Fits source)
    ∧ ((∃ e, (source.compile space name).result = .error (.scan e)) ↔ source.MeetsLongInteger)
    ∧ ∀ (context : Context) (op : Operator) (left right : Node Span) (mark : Span)
        (other : Cell → Value → Value → Generate Span Value),
        Generate.compile space context (.binary op left right mark)
          = Generate.compileOperands space context left right fun cell a b =>
              if a.isOperand && b.isOperand then Generate.combine op cell a b mark
              else other cell a b := by
  refine ⟨?_, ?_, ?_⟩
  · obtain ⟨e, htokens, hresult⟩ | ⟨tokens, htokens, hrest⟩ := source.compile_cases space name
    · rw [hresult]
      exact (tokenize_eq_error_iff.1 htokens).1
    obtain ⟨e, hparse, hresult⟩ | ⟨script, hparse, hrest⟩ := hrest
    · obtain ⟨d, rfl, hd⟩ := parse_error_fits htokens hparse
      rw [hresult]
      exact hd
    obtain ⟨d, hfault, hresult⟩ | ⟨build, hsource, hresult⟩ := hrest
    · rw [hresult]
      exact generate_fault_fits htokens hparse hfault
    · rw [hresult]
      exact hsource
  · rw [← tokenize_eq_numeral_iff]
    obtain ⟨e, htokens, hresult⟩ | ⟨tokens, htokens, hrest⟩ := source.compile_cases space name
    · rw [hresult, htokens, (tokenize_eq_error_iff.1 htokens).1]
      exact ⟨fun _ => rfl, fun _ => ⟨_, rfl⟩⟩
    -- behind the tokens no step gives the outcome of the scanner
    rw [htokens]
    refine ⟨?_, fun h => by cases h⟩
    rintro ⟨e, he⟩
    obtain ⟨e', -, hresult⟩ | ⟨script, -, hrest⟩ := hrest
    · rw [hresult] at he
      cases he
    obtain ⟨d, -, hresult⟩ | ⟨build, -, hresult⟩ := hrest <;>
      (rw [hresult] at he; cases he)
  · intro context op left right mark other
    rw [Generate.compile_binary_eq_compileOperands]
    refine Generate.compileOperands_congr fun cell a b ha hb => ?_
    rw [ha, hb]
    rfl

end Scoreboard
