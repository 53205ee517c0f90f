import Mathlib
import Scoreboard.Script.Parser
import Scoreboard.Proofs.Printer
import Scoreboard.Proofs.Reading
import Scoreboard.Proofs.Steps

/-!
# Reading pieces

What the readers do in front of the pieces of a printed script. `Cursor.Ahead` says that
pieces stand ahead of a place, and `Gives` that a reader returns a result there, whatever its
allowance is, once that suffices.

An expression is read by climbing, and a climb does not end where an operand does: it goes on
with the operators behind it. `Stops` says that nothing behind an expression goes on with it.
-/

namespace Scoreboard

/-- A parameter without its mark. -/
def Parameter.erase {α : Type} (p : Parameter α) : Parameter Unit := ⟨p.name, p.type, ()⟩

/-! ## Places before pieces -/

/-- Whether a kind is neither the end of the text nor illegal. -/
def TokenKind.isProper : TokenKind → Bool
  | endOfText => false
  | illegal => false
  | _ => true

/-- Whether a kind goes on with no expression. -/
def TokenKind.isStop : TokenKind → Bool
  | rightParen => true
  | rightBrace => true
  | comma => true
  | newline => true
  | endOfText => true
  | _ => false

/-- Whether a kind starts an operand. -/
def TokenKind.startsAtom : TokenKind → Bool
  | integer _ => true
  | string _ => true
  | identifier => true
  | leftParen => true
  | operator .subtract => true
  | _ => false

/-- The token of a piece is a proper one. -/
theorem Piece.isProper_kind {p : Piece} {kind : TokenKind} (h : p.kind? = some kind) :
    kind.isProper = true := by
  cases p with
  | blank => cases h
  | newline =>
    cases h
    rfl
  | sign c =>
    have hsign : TokenKind.ofSign? c = some kind := h
    unfold TokenKind.ofSign? at hsign
    split at hsign
    all_goals cases hsign
    all_goals rfl
  | word text =>
    cases h
    unfold TokenKind.ofWord
    split <;> rfl
  | number n =>
    cases h
    rfl
  | quoted text =>
    cases h
    rfl

namespace Cursor

/-- A token of a kind stands at a place, and it is neither illegal nor the last one. -/
structure At (c : Cursor) (kind : TokenKind) : Prop where
  closed : c.Closed
  eq_kind : c.current.kind = kind
  proper : kind.isProper = true

/-- Pieces stand ahead of a place, up to another place. -/
inductive Ahead : Cursor → List Piece → Cursor → Prop
  | nil {c : Cursor} (hc : c.Closed) : Ahead c [] c
  | gap {c c' : Cursor} {p : Piece} {ps : List Piece} (hp : p.kind? = none)
      (hrest : Ahead c ps c') : Ahead c (p :: ps) c'
  | token {c c' : Cursor} {p : Piece} {ps : List Piece} {kind : TokenKind}
      (hp : p.kind? = some kind) (hat : c.At kind)
      (hlexeme : c.current.lexeme = String.ofList p.text) (hrest : Ahead c.advance ps c') :
      Ahead c (p :: ps) c'

variable {c c' c'' : Cursor} {ps qs : List Piece} {p : Piece} {kind : TokenKind}

theorem At.took (h : c.At kind) : c.Took [c.current] c.advance := by
  refine advance_took h.closed fun hend => ?_
  have hproper := h.proper
  rw [← h.eq_kind, hend] at hproper
  cases hproper

/-- Taking the current token leaves one less. -/
theorem At.remaining (h : c.At kind) : c.remaining = c.advance.remaining + 1 := by
  rw [h.took.remaining, List.length_singleton, Nat.add_comm]

theorem At.closed_advance (h : c.At kind) : c.advance.Closed := h.closed.took h.took

/-- A proper token is not an illegal one. -/
theorem At.legal (h : c.At kind) : c.current.kind ≠ .illegal := by
  intro heq
  have hproper := h.proper
  rw [← h.eq_kind, heq] at hproper
  cases hproper

theorem Ahead.closed_start (h : c.Ahead ps c') : c.Closed := by
  induction h with
  | nil hc => exact hc
  | gap _ _ ih => exact ih
  | token _ hat _ _ _ => exact hat.closed

/-- Going past pieces never leaves more tokens. -/
theorem Ahead.remaining_le (h : c.Ahead ps c') : c'.remaining ≤ c.remaining := by
  induction h with
  | nil _ => exact Nat.le_refl _
  | gap _ _ ih => exact ih
  | token _ hat _ _ ih =>
    have := hat.remaining
    omega

theorem Ahead.done (h : c.Ahead [] c') : c' = c := by
  cases h
  rfl

/-- A piece without a token is passed at once. -/
theorem Ahead.skip (h : c.Ahead (p :: ps) c') (hp : p.kind? = none) : c.Ahead ps c' := by
  cases h with
  | gap _ hrest => exact hrest
  | token hp' _ _ _ =>
    rw [hp] at hp'
    cases hp'

/-- A piece with a token puts the cursor at that token. -/
theorem Ahead.take (h : c.Ahead (p :: ps) c') (hp : p.kind? = some kind) :
    c.At kind ∧ c.current.lexeme = String.ofList p.text ∧ c.advance.Ahead ps c' := by
  cases h with
  | gap hp' _ =>
    rw [hp] at hp'
    cases hp'
  | token hp' hat hlexeme hrest =>
    rw [hp] at hp'
    cases hp'
    exact ⟨hat, hlexeme, hrest⟩

/-- Going past pieces can stop between any two of them. -/
theorem Ahead.split (h : c.Ahead (ps ++ qs) c'') : ∃ c', c.Ahead ps c' ∧ c'.Ahead qs c'' := by
  induction ps generalizing c with
  | nil => exact ⟨c, .nil h.closed_start, h⟩
  | cons p ps ih =>
    cases h with
    | gap hp hrest =>
      obtain ⟨c', hps, hqs⟩ := ih hrest
      exact ⟨c', .gap hp hps, hqs⟩
    | token hp hat hlexeme hrest =>
      obtain ⟨c', hps, hqs⟩ := ih hrest
      exact ⟨c', .token hp hat hlexeme hps, hqs⟩

/-- A name ahead. -/
theorem Ahead.takeName {name : String} (h : c.Ahead (.word name :: ps) c')
    (hname : isName name = true) :
    c.At .identifier ∧ c.current.lexeme = name ∧ c.advance.Ahead ps c' := by
  have hkind : (Piece.word name).kind? = some .identifier :=
    congrArg some (eq_of_beq (Bool.and_eq_true_iff.1 hname).2)
  obtain ⟨hat, hlexeme, hrest⟩ := h.take hkind
  exact ⟨hat, hlexeme.trans (String.ofList_toList), hrest⟩

/-- A reserved word ahead. -/
theorem Ahead.takeKeyword {k : Keyword} (h : c.Ahead (.word k.word :: ps) c') :
    c.At (.keyword k) ∧ c.advance.Ahead ps c' := by
  have hkind : (Piece.word k.word).kind? = some (.keyword k) := by
    cases k <;> decide
  obtain ⟨hat, -, hrest⟩ := h.take hkind
  exact ⟨hat, hrest⟩

/-- The first of some pieces with commas between them: it is the last one, or a comma stands
behind it. -/
theorem Ahead.takeItem {item : List Piece} {items : List (List Piece)}
    (h : c.Ahead (Piece.commas (item :: items) ++ qs) c'') :
    ∃ c', c.Ahead item c' ∧ ((items = [] ∧ c'.Ahead qs c'')
      ∨ (items ≠ [] ∧ c'.At .comma ∧ c'.advance.Ahead (Piece.commas items ++ qs) c'')) := by
  cases items with
  | nil =>
    obtain ⟨c', hitem, hrest⟩ := h.split
    exact ⟨c', hitem, .inl ⟨rfl, hrest⟩⟩
  | cons next items =>
    rw [Piece.commas, List.append_assoc] at h
    obtain ⟨c', hitem, hrest⟩ := h.split
    obtain ⟨hcomma, -, hrest⟩ := hrest.take rfl
    exact ⟨c', hitem, .inr ⟨List.cons_ne_nil _ _, hcomma, hrest.skip rfl⟩⟩

theorem Took.done (h : c.Took [] c') : c' = c := by
  obtain ⟨hcurrent, hafter⟩ := List.cons.inj h.ahead
  have hbefore := h.before
  have hend := h.fromEnd
  cases c
  cases c'
  simp_all

/-- The first of some tokens stands at the place, and the others ahead of the next one. -/
theorem Took.take {t : Token} {ts : List Token} (h : c.Took (t :: ts) c') (hc : c.Closed)
    (ht : t.kind = kind) (hkind : kind.isProper = true) :
    c.At kind ∧ c.current = t ∧ c.advance.Took ts c' := by
  have heq : t = c.current := h.eq_current rfl
  have hat : c.At kind := ⟨hc, by rw [← heq, ht], hkind⟩
  have hnext := hat.took
  refine ⟨hat, heq.symm, ?_, ?_, h.fromEnd.trans hnext.fromEnd.symm,
    fun u hu => h.proper u (List.mem_cons_of_mem t hu)⟩
  · have hahead := hnext.ahead
    rw [h.ahead] at hahead
    exact (List.cons.inj hahead).2.symm
  · rw [h.before, hnext.before, heq]
    simp

/-- The tokens of pieces stand ahead as the pieces do. -/
theorem ahead_of_lexed {ts : List Token} (h : Lexed ps ts) (hc : c.Closed) (htook : c.Took ts c') :
    c.Ahead ps c' := by
  induction h generalizing c with
  | nil =>
    rw [htook.done]
    exact .nil hc
  | gap hp _ ih => exact .gap hp (ih hc htook)
  | token hkind hlexeme hrest ih =>
    obtain ⟨hat, heq, hnext⟩ := htook.take hc rfl (Piece.isProper_kind hkind)
    exact .token hkind hat (by rw [heq]; exact hlexeme) (ih hat.closed_advance hnext)

end Cursor

/-! ## Single tokens -/

namespace Parser

variable {α β : Type} {c c' : Cursor} {kind : TokenKind} {test : TokenKind → Bool}

theorem advance_at (h : c.At kind) : advance c = .ok c.current c.advance := by
  have hprevious : c.advance.previous = c.current := h.took.previous h.closed.fromEnd
  show EStateM.Result.ok c.advance.previous c.advance = _
  rw [hprevious]

theorem legal_of_ne (h : c.current.kind ≠ .illegal) : legal c = .ok c.current c := by
  have hkind : (c.current.kind == .illegal) = false := beq_false_of_ne h
  show (if (c.current.kind == .illegal) = true then _ else _ : Parser Token) c = _
  rw [hkind]
  rfl

/-- An illegal token is reported at its span. -/
theorem legal_illegal (h : c.current.kind = .illegal) :
    legal c = .error (.diagnosed ⟨.illegalCharacter c.current.lexeme, c.current.span⟩) c := by
  show (if (c.current.kind == .illegal) = true then _ else _ : Parser Token) c = _
  rw [h]
  rfl

/-- A token that is not illegal can be looked at. -/
theorem suspect_of_ne (h : c.current.kind ≠ .illegal) :
    suspect test c = .ok (test c.current.kind) c := by
  unfold suspect
  rw [bind_of_ok (legal_of_ne h)]
  rfl

theorem suspect_illegal (h : c.current.kind = .illegal) :
    suspect test c
      = .error (.diagnosed ⟨.illegalCharacter c.current.lexeme, c.current.span⟩) c :=
  bind_of_error (legal_illegal h)

/-- A token of the kind is taken. -/
theorem accept_at (h : c.At kind) (htest : test kind = true) :
    accept test c = .ok true c.advance := by
  unfold accept
  rw [bind_of_ok (suspect_of_ne h.legal), h.eq_kind, htest, if_pos rfl, bind_of_ok (advance_at h)]
  rfl

/-- A token of another kind is left. -/
theorem accept_ne (hlegal : c.current.kind ≠ .illegal) (h : c.current.kind ≠ kind) :
    accept (· == kind) c = .ok false c := by
  unfold accept
  rw [bind_of_ok (suspect_of_ne hlegal), beq_false_of_ne h, if_neg Bool.false_ne_true]
  rfl

/-- A token of the kind is taken and given. -/
theorem demand_at (h : c.At kind) (htest : test kind = true) {cause : Cause} :
    demand test cause c = .ok c.current c.advance := by
  have hexpect : expect test cause c = .ok c.current c := by
    unfold expect
    rw [bind_of_ok (suspect_of_ne h.legal), h.eq_kind, htest, if_pos rfl]
    rfl
  unfold demand
  rw [bind_of_ok hexpect]
  exact advance_at h

/-- Where there is no newline, none is skipped. -/
theorem pastNewlines_other {before after : List Token} {current : Token}
    (h : current.kind ≠ .newline) :
    Cursor.pastNewlines before current after = (0, before, current, after) := by
  cases after with
  | nil => rfl
  | cons next rest => rw [Cursor.pastNewlines, if_neg (by simpa using h)]

/-- A run of newlines is skipped up to the first other token. -/
theorem pastNewlines_took {ls : List Token} (h : c.Took ls c') (hc : c.Closed)
    (hls : Newlines ls) (hnext : c'.current.kind ≠ .newline) :
    Cursor.pastNewlines c.before c.current c.after
      = (ls.length, c'.before, c'.current, c'.after) := by
  induction ls generalizing c with
  | nil =>
    rw [h.done] at hnext ⊢
    exact pastNewlines_other hnext
  | cons l ls ih =>
    obtain ⟨hat, -, hrest⟩ := h.take hc (hls l List.mem_cons_self) rfl
    have hafter : c.after = c.advance.current :: c.advance.after :=
      (List.cons.inj hat.took.ahead).2
    have hbefore : c.advance.before = c.current :: c.before := hat.took.before
    have hpast := ih hrest hat.closed_advance fun t ht => hls t (List.mem_cons_of_mem l ht)
    rw [hafter, Cursor.pastNewlines, if_pos (by simpa using hat.eq_kind), ← hbefore, hpast]
    rfl

/-- A run of newlines, if something else stands behind it. -/
theorem skipNewlines_took {ls : List Token} (h : c.Took ls c') (hc : c.Closed)
    (hls : Newlines ls) (hnext : c'.current.kind ≠ .newline)
    (hlegal : c'.current.kind ≠ .illegal) : skipNewlines c = .ok ls.length c' := by
  have hplace : (⟨c'.before, c'.current, c'.after, c.fromEnd⟩ : Cursor) = c' := by
    rw [← h.fromEnd]
  unfold skipNewlines
  rw [get_bind, pastNewlines_took h hc hls hnext]
  show (legal >>= fun _ => pure ls.length) ⟨c'.before, c'.current, c'.after, c.fromEnd⟩ = _
  rw [hplace, bind_of_ok (legal_of_ne hlegal)]
  rfl

/-- A single newline is skipped and counted. -/
theorem skipNewlines_at (h : c.At .newline) (hnext : c.advance.current.kind ≠ .newline)
    (hlegal : c.advance.current.kind ≠ .illegal) : skipNewlines c = .ok 1 c.advance :=
  skipNewlines_took h.took h.closed (List.forall_mem_singleton.2 h.eq_kind) hnext hlegal

theorem operator?_at {op : Operator} (h : c.current.kind = .operator op) :
    operator? c = .ok (some op) c := by
  unfold operator?
  rw [bind_of_ok (legal_of_ne (by rw [h]; simp)), h]
  rfl

/-- A token that is no operator gives none. -/
theorem operator?_other (h : ∀ op, c.current.kind ≠ .operator op)
    (hlegal : c.current.kind ≠ .illegal) : operator? c = .ok none c := by
  unfold operator?
  rw [bind_of_ok (legal_of_ne hlegal)]
  cases hkind : c.current.kind with
  | operator op => exact (h op hkind).elim
  | _ => rfl

theorem takeOperator_at {op : Operator} (h : c.At (.operator op)) :
    takeOperator c = .ok op c.advance := by
  unfold takeOperator
  rw [bind_of_ok (advance_at h), h.eq_kind]
  rfl

/-- A colon and a word give the word as type. -/
theorem typeAfterColon_at {role : Role} (h : c.At .colon) (htype : c.advance.At .identifier) :
    typeAfterColon role c = .ok (some c.advance.current.lexeme) c.advance.advance := by
  unfold typeAfterColon
  rw [bind_of_ok (accept_at h rfl), if_pos rfl, bind_of_ok (demand_at htype rfl)]
  rfl

/-- Without a colon there is no type. -/
theorem typeAfterColon_other {role : Role} (h : c.current.kind ≠ .colon)
    (hlegal : c.current.kind ≠ .illegal) : typeAfterColon role c = .ok none c := by
  unfold typeAfterColon
  rw [bind_of_ok (accept_ne hlegal h), if_neg Bool.false_ne_true]
  rfl

/-! ## Readers with an allowance -/

/-- With every allowance that suffices, a reader returns the same. -/
def Gives (read : Nat → Parser β) (k : Nat) (c : Cursor) (x : β) (c' : Cursor) : Prop :=
  ∀ n, 8 * c.remaining + k ≤ n → read n c = .ok x c'

/-- The first call of a reader uses one of its allowance. -/
theorem gives_succ {read : Nat → Parser β} {k : Nat} {x : β}
    (h : ∀ n, 8 * c.remaining + k ≤ n → read (n + 1) c = .ok x c') :
    Gives read (k + 1) c x c' := by
  intro n hn
  obtain ⟨m, rfl⟩ : ∃ m, n = m + 1 := ⟨n - 1, by omega⟩
  exact h m (by omega)

/-- What stands at a place does not go on with an expression before it, except an operator
that binds less tightly than `least`. -/
structure Stops (least : Nat) (c : Cursor) : Prop where
  legal : c.current.kind ≠ .illegal
  assign : c.current.kind ≠ .assign
  leftParen : c.current.kind ≠ .leftParen
  below : Below least c

/-- No expression goes on at a token that stops all of them. -/
theorem stops_of_isStop {least : Nat} (h : c.current.kind.isStop = true) : Stops least c := by
  refine ⟨?_, ?_, ?_, fun op hop => ?_⟩
  · exact fun heq => by rw [heq] at h; cases h
  · exact fun heq => by rw [heq] at h; cases h
  · exact fun heq => by rw [heq] at h; cases h
  · rw [hop] at h
    cases h

/-- Where weak operators stop, so do those that bind more tightly. -/
theorem Stops.mono {least least' : Nat} (h : Stops least c) (hle : least ≤ least') :
    Stops least' c :=
  ⟨h.legal, h.assign, h.leftParen, fun op hop => Nat.lt_of_lt_of_le (h.below op hop) hle⟩

/-- A climb that cannot go on gives what it has. -/
theorem climbRest_stops {least : Nat} {left : Node Span} (h : Stops least c) :
    Gives (climbRest · least left) 1 c left c := by
  refine gives_succ fun n _ => ?_
  simp only [climbRest]
  by_cases hop : ∃ op, c.current.kind = .operator op
  · obtain ⟨op, hop⟩ := hop
    rw [bind_of_ok (operator?_at hop)]
    simp only [if_pos (h.below op hop)]
    rfl
  · rw [bind_of_ok (operator?_other (fun op heq => hop ⟨op, heq⟩) h.legal)]
    rfl

/-- A climb goes on with an operator that binds tightly enough. -/
theorem climbRest_operator {least : Nat} {op : Operator} {left right x : Node Span} {c₁ : Cursor}
    (h : c.At (.operator op)) (hleast : least ≤ op.precedence)
    (hright : Gives (climb · (op.precedence + 1)) 2 c.advance right c₁)
    (hle : c₁.remaining ≤ c.advance.remaining)
    (hrest : Gives (climbRest · least (.binary op left right (left.mark.merge right.mark))) 1
      c₁ x c') :
    Gives (climbRest · least left) 1 c x c' := by
  refine gives_succ fun n hn => ?_
  have hremaining := h.remaining
  simp only [climbRest]
  rw [bind_of_ok (operator?_at h.eq_kind)]
  simp only [if_neg (Nat.not_lt.2 hleast)]
  rw [bind_of_ok (takeOperator_at h), bind_of_ok (hright n (by omega))]
  exact hrest n (by omega)

/-- What stands behind the left operand of an operator goes on with no tighter one. -/
theorem stops_operator {least : Nat} {op : Operator} (h : c.At (.operator op))
    (hop : op.precedence < least) : Stops least c := by
  refine ⟨h.legal, by rw [h.eq_kind]; simp, by rw [h.eq_kind]; simp, fun op' hop' => ?_⟩
  rw [h.eq_kind] at hop'
  cases hop'
  exact hop

/-! ### Operands -/

variable {x : Node Span} {name : Token}

theorem atom_integer {value : Int} (h : c.At (.integer value)) :
    Gives atom 1 c (.integer value c.current.span) c.advance := by
  refine gives_succ fun n _ => ?_
  rw [atom, bind_of_ok (legal_of_ne h.legal)]
  simp only [h.eq_kind]
  rw [bind_of_ok (advance_at h)]
  rfl

/-- A minus before an integer belongs to it. -/
theorem atom_negative {value : Int} (h : c.At (.operator .subtract))
    (hvalue : c.advance.At (.integer value)) :
    Gives atom 1 c (.integer (-value) (c.current.span.merge c.advance.current.span))
      c.advance.advance := by
  refine gives_succ fun n _ => ?_
  have hpeek : peek c.advance = .ok c.advance.current c.advance := rfl
  rw [atom, bind_of_ok (legal_of_ne h.legal)]
  simp only [h.eq_kind]
  rw [bind_of_ok (advance_at h), bind_of_ok hpeek]
  simp only [hvalue.eq_kind]
  rw [bind_of_ok (advance_at hvalue)]
  rfl

/-- A minus before anything else subtracts from zero. -/
theorem atom_negate (h : c.At (.operator .subtract))
    (hother : ∀ value, c.advance.current.kind ≠ .integer value)
    (hoperand : Gives atom 1 c.advance x c') :
    Gives atom 1 c (.binary .subtract (.integer 0 c.current.span) x
      (c.current.span.merge x.mark)) c' := by
  refine gives_succ fun n hn => ?_
  have hremaining := h.remaining
  have hpeek : peek c.advance = .ok c.advance.current c.advance := rfl
  have hread := hoperand n (by omega)
  rw [atom, bind_of_ok (legal_of_ne h.legal)]
  simp only [h.eq_kind]
  rw [bind_of_ok (advance_at h), bind_of_ok hpeek]
  cases hkind : c.advance.current.kind with
  | integer value => exact (hother value hkind).elim
  | _ =>
    simp only
    rw [bind_of_ok hread]
    rfl

theorem atom_string {value : String} (h : c.At (.string value)) :
    Gives atom 1 c (.string value c.current.span) c.advance := by
  refine gives_succ fun n _ => ?_
  rw [atom, bind_of_ok (legal_of_ne h.legal)]
  simp only [h.eq_kind]
  rw [bind_of_ok (advance_at h)]
  rfl

/-- A name is an operand together with what follows it. -/
theorem atom_name (h : c.At .identifier)
    (hrest : Gives (nameRest · c.current) 1 c.advance x c') : Gives atom 1 c x c' := by
  refine gives_succ fun n hn => ?_
  have hremaining := h.remaining
  rw [atom, bind_of_ok (legal_of_ne h.legal)]
  simp only [h.eq_kind]
  rw [bind_of_ok (advance_at h)]
  exact hrest n (by omega)

/-- A pair of parentheses gives the expression inside. -/
theorem atom_group {c₁ : Cursor} (h : c.At .leftParen)
    (hinner : Gives (climb · 1) 2 c.advance x c₁) (hclose : c₁.At .rightParen) :
    Gives atom 1 c x c₁.advance := by
  refine gives_succ fun n hn => ?_
  have hremaining := h.remaining
  rw [atom, bind_of_ok (legal_of_ne h.legal)]
  simp only [h.eq_kind]
  rw [bind_of_ok (advance_at h), bind_of_ok (hinner n (by omega)),
    bind_of_ok (demand_at hclose rfl)]
  rfl

/-- A name alone, where neither an equals sign nor a parenthesis follows. -/
theorem nameRest_access {least : Nat} (h : Stops least c) :
    Gives (nameRest · name) 1 c (.access name.lexeme name.span) c := by
  refine gives_succ fun n _ => ?_
  rw [nameRest, bind_of_ok (accept_ne h.legal h.assign), if_neg Bool.false_ne_true,
    bind_of_ok (accept_ne h.legal h.leftParen), if_neg Bool.false_ne_true]
  rfl

/-- A name before an equals sign is assigned the statement behind it. -/
theorem nameRest_assign (h : c.At .assign) (hvalue : Gives statement 3 c.advance x c') :
    Gives (nameRest · name) 1 c (.assign name.lexeme x (name.span.merge x.mark)) c' := by
  refine gives_succ fun n hn => ?_
  have hremaining := h.remaining
  rw [nameRest, bind_of_ok (accept_at h rfl), if_pos rfl, bind_of_ok (hvalue n (by omega))]
  rfl

/-- A name before a parenthesis is called, and the call ends with the last token of its
arguments. -/
theorem nameRest_call {arguments' : List (Node Span)} (h : c.At .leftParen)
    (harguments : Gives arguments 4 c.advance arguments' c') :
    Gives (nameRest · name) 1 c
      (.call name.lexeme arguments' (name.span.merge c'.previous.span)) c' := by
  refine gives_succ fun n hn => ?_
  have hremaining := h.remaining
  have hassign : c.current.kind ≠ .assign := by
    rw [h.eq_kind]
    simp
  rw [nameRest, bind_of_ok (accept_ne h.legal hassign), if_neg Bool.false_ne_true,
    bind_of_ok (accept_at h rfl), if_pos rfl, bind_of_ok (harguments n (by omega))]
  rfl

/-- Where no operand starts, reading one fails. -/
theorem atom_other (n : Nat) (h : c.current.kind.startsAtom = false)
    (hlegal : c.current.kind ≠ .illegal) :
    atom (n + 1) c = .error (.diagnosed ⟨.missingExpression, c.current.span⟩) c := by
  rw [atom, bind_of_ok (legal_of_ne hlegal)]
  revert h
  cases hkind : c.current.kind with
  | operator op => cases op <;> (intro h; first | rfl | cases h)
  | _ => intro h; first | rfl | cases h

/-- A climb starts with an operand. -/
theorem startsAtom_of_climb {n least : Nat} (h : climb (n + 2) least c = .ok x c') :
    c.current.kind.startsAtom = true := by
  simp only [climb] at h
  obtain ⟨first, c₁, hatom, -⟩ := bind_eq_ok.1 h
  by_contra hstarts
  rw [Bool.not_eq_true] at hstarts
  by_cases hillegal : c.current.kind = .illegal
  · rw [atom, bind_of_error (legal_illegal hillegal)] at hatom
    cases hatom
  · rw [atom_other _ hstarts hillegal] at hatom
    cases hatom

/-- An operand is a climb as far as the operators behind it let it. -/
theorem climb_atom {least : Nat} {y : Node Span} {c₁ : Cursor} (hatom : Gives atom 1 c x c₁)
    (hle : c₁.remaining ≤ c.remaining) (hrest : Gives (climbRest · least x) 1 c₁ y c') :
    Gives (climb · least) 2 c y c' := by
  refine gives_succ fun n hn => ?_
  rw [climb, bind_of_ok (hatom n (by omega))]
  exact hrest n (by omega)

/-! ### Statements -/

/-- Without a reserved word a statement is an expression. -/
theorem statement_other (n : Nat) (h : c.current.kind.isKeyword = false)
    (hlegal : c.current.kind ≠ .illegal) : statement (n + 1) c = climb n 1 c := by
  rw [statement, bind_of_ok (legal_of_ne hlegal)]
  cases hkind : c.current.kind with
  | keyword word =>
    rw [hkind] at h
    cases h
  | _ => rfl

/-- A statement that opens with no keyword is an expression. -/
theorem statement_climb (h : Gives (climb · 1) 2 c x c') : Gives statement 3 c x c' := by
  have hstarts := startsAtom_of_climb (h _ (Nat.le_refl _))
  have hkeyword : c.current.kind.isKeyword = false := by
    cases hkind : c.current.kind with
    | keyword word =>
      rw [hkind] at hstarts
      cases hstarts
    | _ => rfl
  have hlegal : c.current.kind ≠ .illegal := fun heq => by rw [heq] at hstarts; cases hstarts
  refine gives_succ fun n hn => ?_
  rw [statement_other n hkeyword hlegal]
  exact h n hn

theorem statement_declare {least : Nat} {type : String} (h : c.At (.keyword .declare))
    (hname : c.advance.At .identifier)
    (htype : typeAfterColon .variable c.advance.advance = .ok (some type) c')
    (hstops : Stops least c') :
    Gives statement 3 c (.declare c.advance.current.lexeme (some type)
      (c.current.span.merge c'.previous.span)) c' := by
  refine gives_succ fun n hn => ?_
  rw [statement, bind_of_ok (legal_of_ne h.legal)]
  simp only [h.eq_kind]
  obtain ⟨m, rfl⟩ : ∃ m, n = m + 1 := ⟨n - 1, by omega⟩
  rw [declaration, bind_of_ok (advance_at h), bind_of_ok (demand_at hname rfl), bind_of_ok htype,
    bind_of_ok (accept_ne hstops.legal hstops.assign)]
  rfl

/-- A declaration with a value. -/
theorem statement_define {type : Option String} {c₁ : Cursor} (h : c.At (.keyword .declare))
    (hname : c.advance.At .identifier)
    (htype : typeAfterColon .variable c.advance.advance = .ok type c₁) (hassign : c₁.At .assign)
    (hle : c₁.remaining ≤ c.remaining) (hvalue : Gives statement 3 c₁.advance x c') :
    Gives statement 3 c (.define c.advance.current.lexeme type x
      (c.current.span.merge c'.previous.span)) c' := by
  refine gives_succ fun n hn => ?_
  have hremaining := hassign.remaining
  rw [statement, bind_of_ok (legal_of_ne h.legal)]
  simp only [h.eq_kind]
  obtain ⟨m, rfl⟩ : ∃ m, n = m + 1 := ⟨n - 1, by omega⟩
  rw [declaration, bind_of_ok (advance_at h), bind_of_ok (demand_at hname rfl), bind_of_ok htype,
    bind_of_ok (accept_at hassign rfl), if_pos rfl, bind_of_ok (hvalue m (by omega))]
  rfl

theorem statement_raw {text : String} {span : Span} (h : c.At (.keyword .raw))
    (htext : Gives (climb · 1) 2 c.advance (.string text span) c') :
    Gives statement 3 c (.raw text (c.current.span.merge span)) c' := by
  refine gives_succ fun n hn => ?_
  have hremaining := h.remaining
  rw [statement, bind_of_ok (legal_of_ne h.legal)]
  simp only [h.eq_kind]
  obtain ⟨m, rfl⟩ : ∃ m, n = m + 1 := ⟨n - 1, by omega⟩
  rw [rawCode, bind_of_ok (advance_at h), bind_of_ok (htext m (by omega))]
  rfl

theorem statement_function {parameters' : List (Parameter Span)} {result : Option String}
    {body : List (Node Span)} {c₁ c₂ : Cursor} (h : c.At (.keyword .function))
    (hname : c.advance.At .identifier) (hopen : c.advance.advance.At .leftParen)
    (hparameters : Gives parameters 1 c.advance.advance.advance parameters' c₁)
    (hresult : typeAfterColon .result c₁ = .ok result c₂) (hle : c₂.remaining < c.remaining)
    (hbody : Gives block 1 c₂ body c') :
    Gives statement 3 c (.function c.advance.current.lexeme parameters' result body
      (c.current.span.merge c'.previous.span)) c' := by
  refine gives_succ fun n hn => ?_
  have h₁ := h.remaining
  have h₂ := hname.remaining
  have h₃ := hopen.remaining
  rw [statement, bind_of_ok (legal_of_ne h.legal)]
  simp only [h.eq_kind]
  obtain ⟨m, rfl⟩ : ∃ m, n = m + 1 := ⟨n - 1, by omega⟩
  rw [functionDeclaration, bind_of_ok (advance_at h), bind_of_ok (demand_at hname rfl),
    bind_of_ok (demand_at hopen rfl), bind_of_ok (hparameters m (by omega)), bind_of_ok hresult,
    bind_of_ok (hbody m (by omega))]
  rfl

/-- Behind the last statement of a body, reading one more fails. -/
theorem statement_rightBrace (h : c.At .rightBrace) (n : Nat) :
    statement (n + 3) c = .error (.diagnosed ⟨.missingExpression, c.current.span⟩) c := by
  have hatom := atom_other n (by rw [h.eq_kind]; rfl) h.legal
  rw [statement_other _ (by rw [h.eq_kind]; rfl) h.legal, climb, bind_of_error hatom]

/-- A statement starts with an operand or a reserved word. -/
theorem starts_of_statement (h : Gives statement 3 c x c') :
    c.current.kind.startsAtom = true ∨ c.current.kind.isKeyword = true := by
  by_cases hkeyword : c.current.kind.isKeyword = true
  · exact .inr hkeyword
  have hclimb : Gives (climb · 1) 2 c x c' := by
    intro n hn
    have hstatement := h (n + 1) (by omega)
    by_cases hillegal : c.current.kind = .illegal
    · rw [statement, bind_of_error (legal_illegal hillegal)] at hstatement
      cases hstatement
    · rwa [statement_other _ (by simpa using hkeyword) hillegal] at hstatement
  exact .inl (startsAtom_of_climb (hclimb _ (Nat.le_refl _)))

/-- What a statement starts with is no newline and ends neither a body nor the text. -/
theorem ne_of_starts {k : TokenKind} (h : k.startsAtom = true ∨ k.isKeyword = true) :
    k ≠ .newline ∧ k ≠ .rightBrace ∧ k ≠ .endOfText ∧ k ≠ .illegal := by
  refine ⟨?_, ?_, ?_, ?_⟩ <;> (rintro rfl; simp [TokenKind.startsAtom, TokenKind.isKeyword] at h)

/-! ### Arguments -/

variable {nodes : List (Node Span)} {c₁ c₂ : Cursor}

theorem moreArguments_last (hfirst : Gives (climb · 1) 2 c x c₁) (hclose : c₁.At .rightParen) :
    Gives moreArguments 3 c [x] c₁.advance := by
  have hcomma : c₁.current.kind ≠ .comma := by
    rw [hclose.eq_kind]
    simp
  refine gives_succ fun n hn => ?_
  rw [moreArguments, bind_of_ok (hfirst n hn), bind_of_ok (accept_ne hclose.legal hcomma),
    if_neg Bool.false_ne_true, bind_of_ok (demand_at hclose rfl)]
  rfl

theorem moreArguments_next (hfirst : Gives (climb · 1) 2 c x c₁)
    (hle : c₁.remaining ≤ c.remaining) (hcomma : c₁.At .comma)
    (hmore : Gives moreArguments 3 c₁.advance nodes c') :
    Gives moreArguments 3 c (x :: nodes) c' := by
  have hremaining := hcomma.remaining
  refine gives_succ fun n hn => ?_
  rw [moreArguments, bind_of_ok (hfirst n hn), bind_of_ok (accept_at hcomma rfl), if_pos rfl,
    bind_of_ok (hmore n (by omega))]
  rfl

theorem arguments_none (h : c.At .rightParen) : Gives arguments 4 c [] c.advance := by
  refine gives_succ fun n _ => ?_
  rw [arguments, bind_of_ok (accept_at h rfl), if_pos rfl]
  rfl

theorem arguments_some (h : Gives moreArguments 3 c nodes c') : Gives arguments 4 c nodes c' := by
  -- an argument starts with an operand, not with the closing parenthesis
  have hstarts : c.current.kind.startsAtom = true := by
    have hmore := h _ (Nat.le_refl _)
    simp only [moreArguments] at hmore
    obtain ⟨first, c₁, hclimb, -⟩ := bind_eq_ok.1 hmore
    exact startsAtom_of_climb hclimb
  have hlegal : c.current.kind ≠ .illegal := fun heq => by rw [heq] at hstarts; cases hstarts
  have hclose : c.current.kind ≠ .rightParen := fun heq => by rw [heq] at hstarts; cases hstarts
  refine gives_succ fun n hn => ?_
  rw [arguments, bind_of_ok (accept_ne hlegal hclose), if_neg Bool.false_ne_true]
  exact h n hn

/-! ### Bodies -/

variable {failed : Option (Diagnostic Span)} {k : Nat}

theorem attempt_of_ok {p : Parser α} {value : α} (h : p c = .ok value c') :
    attempt p c = .ok (.ok value) c' := by
  unfold attempt
  rw [h]

/-- A fault is kept and the place of the start is taken again. -/
theorem attempt_of_fault {p : Parser α} {d : Diagnostic Span} (h : p c = .error (.diagnosed d) c') :
    attempt p c = .ok (.error d) c := by
  unfold attempt
  rw [h]

/-- At the closing brace an earlier fault is forgotten. -/
theorem closeBlock_at (h : c.At .rightBrace) : closeBlock nodes failed c = .ok nodes c.advance := by
  unfold closeBlock
  rw [bind_of_ok (accept_at h rfl), if_pos rfl]
  rfl

/-- Without a newline no statement follows. -/
theorem blockRest_none (h : skipNewlines c = .ok 0 c') : Gives blockRest 1 c ([], none) c' := by
  refine gives_succ fun n _ => ?_
  rw [blockRest, bind_of_ok h, if_pos rfl]
  rfl

/-- Behind the last line no statement follows, and the fault of reading one there is kept. -/
theorem blockRest_last (hskip : skipNewlines c = .ok k c') (hk : k ≠ 0)
    (hlt : c'.remaining < c.remaining) (hclose : c'.At .rightBrace) :
    Gives blockRest 1 c ([], some ⟨.missingExpression, c'.current.span⟩) c' := by
  refine gives_succ fun n hn => ?_
  obtain ⟨m, rfl⟩ : ∃ m, n = m + 3 := ⟨n - 3, by omega⟩
  rw [blockRest, bind_of_ok hskip, if_neg hk,
    bind_of_ok (attempt_of_fault (statement_rightBrace hclose m))]
  rfl

/-- A statement behind newlines, and those behind it. -/
theorem blockRest_next (hskip : skipNewlines c = .ok k c₁) (hk : k ≠ 0)
    (hlt : c₁.remaining < c.remaining) (hfirst : Gives statement 3 c₁ x c₂)
    (hle : c₂.remaining ≤ c₁.remaining) (hmore : Gives blockRest 1 c₂ (nodes, failed) c') :
    Gives blockRest 1 c (x :: nodes, failed) c' := by
  refine gives_succ fun n hn => ?_
  rw [blockRest, bind_of_ok hskip, if_neg hk, bind_of_ok (attempt_of_ok (hfirst n (by omega)))]
  simp only
  rw [bind_of_ok (hmore n (by omega))]
  rfl

/-- A body of newlines only. -/
theorem block_empty (hopen : c.At .leftBrace) (hskip : skipNewlines c.advance = .ok k c')
    (hclose : c'.At .rightBrace) : Gives block 1 c [] c'.advance := by
  have hsuspect : suspect (· == .rightBrace) c' = .ok true c' := by
    rw [suspect_of_ne hclose.legal, hclose.eq_kind]
    rfl
  refine gives_succ fun n _ => ?_
  rw [block, bind_of_ok (demand_at hopen rfl), bind_of_ok hskip, bind_of_ok hsuspect, if_pos rfl,
    closeBlock_at hclose]

theorem block_some (hopen : c.At .leftBrace) (hskip : skipNewlines c.advance = .ok k c₁)
    (hle : c₁.remaining ≤ c.advance.remaining) (hfirst : Gives statement 3 c₁ x c₂)
    (hle' : c₂.remaining ≤ c₁.remaining) (hmore : Gives blockRest 1 c₂ (nodes, failed) c')
    (hclose : c'.At .rightBrace) : Gives block 1 c (x :: nodes) c'.advance := by
  obtain ⟨-, hbrace, hend, hlegal⟩ := ne_of_starts (starts_of_statement hfirst)
  have hremaining := hopen.remaining
  have hsuspect : suspect (· == .rightBrace) c₁ = .ok false c₁ := by
    rw [suspect_of_ne hlegal, beq_false_of_ne hbrace]
  have hatEnd : ¬ c₁.atEnd = true := by simpa [Cursor.atEnd] using hend
  refine gives_succ fun n hn => ?_
  rw [block, bind_of_ok (demand_at hopen rfl), bind_of_ok hskip, bind_of_ok hsuspect,
    if_neg Bool.false_ne_true, get_bind, if_neg hatEnd, bind_of_ok (hfirst n (by omega)),
    bind_of_ok (hmore n (by omega))]
  exact closeBlock_at hclose

/-! ### Scripts -/

theorem statements_none (h : c.current.kind = .endOfText) : Gives statements 4 c [] c := by
  have hatEnd : c.atEnd = true := by simp [Cursor.atEnd, h]
  refine gives_succ fun n _ => ?_
  rw [statements, get_bind, if_pos hatEnd]
  rfl

/-- What a statement starts with does not end the text. -/
theorem not_atEnd_of_statement (h : Gives statement 3 c x c') : ¬ c.atEnd = true := by
  obtain ⟨-, -, hend, -⟩ := ne_of_starts (starts_of_statement h)
  simpa [Cursor.atEnd] using hend

theorem statements_last (hfirst : Gives statement 3 c x c')
    (hend : c'.current.kind = .endOfText) : Gives statements 4 c [x] c' := by
  have hatEnd : c'.atEnd = true := by simp [Cursor.atEnd, hend]
  refine gives_succ fun n hn => ?_
  rw [statements, get_bind, if_neg (not_atEnd_of_statement hfirst), bind_of_ok (hfirst n hn),
    get_bind, if_pos hatEnd]
  rfl

/-- A statement before newlines is followed by others. -/
theorem statements_next (hfirst : Gives statement 3 c x c₁) (hle : c₁.remaining ≤ c.remaining)
    (hnewline : c₁.current.kind = .newline) (hskip : skipNewlines c₁ = .ok k c₂) (hk : k ≠ 0)
    (hlt : c₂.remaining < c₁.remaining) (hmore : Gives statements 4 c₂ nodes c') :
    Gives statements 4 c (x :: nodes) c' := by
  have hatEnd : ¬ c₁.atEnd = true := by simp [Cursor.atEnd, hnewline]
  refine gives_succ fun n hn => ?_
  rw [statements, get_bind, if_neg (not_atEnd_of_statement hfirst), bind_of_ok (hfirst n hn),
    get_bind, if_neg hatEnd, bind_of_ok hskip, if_neg hk]
  show (statements n >>= fun rest => pure (x :: rest)) c₂ = _
  rw [bind_of_ok (hmore n (by omega))]
  rfl

/-! ### Types and parameters -/

theorem typeAfterColon_ahead {type : Option String} {role : Role}
    (h : c.Ahead (Piece.ofType type) c') (htype : type.all isName = true)
    (hcolon : c'.current.kind ≠ .colon) (hlegal : c'.current.kind ≠ .illegal) :
    typeAfterColon role c = .ok type c' := by
  cases type with
  | none =>
    have heq := h.done
    rw [heq] at hcolon hlegal ⊢
    exact typeAfterColon_other hcolon hlegal
  | some t =>
    obtain ⟨hat, -, h⟩ := h.take rfl
    obtain ⟨hname, hlexeme, h⟩ := (h.skip rfl).takeName htype
    rw [typeAfterColon_at hat hname, hlexeme, h.done]

/-- A name, a colon and a type make a parameter. -/
theorem parameter_at (hname : c.At .identifier) (hcolon : c.advance.At .colon)
    (htype : c.advance.advance.At .identifier) :
    parameter c = .ok ⟨c.current.lexeme, c.advance.advance.current.lexeme,
      c.current.span.merge c.advance.advance.current.span⟩ c.advance.advance.advance := by
  unfold parameter
  rw [bind_of_ok (demand_at hname rfl), bind_of_ok (demand_at hcolon rfl),
    bind_of_ok (demand_at htype rfl)]
  rfl

theorem moreParameters_last {p : Parameter Span} (hfirst : parameter c = .ok p c₁)
    (hclose : c₁.At .rightParen) : Gives moreParameters 1 c [p] c₁.advance := by
  have hcomma : c₁.current.kind ≠ .comma := by
    rw [hclose.eq_kind]
    simp
  refine gives_succ fun n _ => ?_
  rw [moreParameters, bind_of_ok hfirst, bind_of_ok (accept_ne hclose.legal hcomma),
    if_neg Bool.false_ne_true, bind_of_ok (demand_at hclose rfl)]
  rfl

theorem moreParameters_next {p : Parameter Span} {ps : List (Parameter Span)}
    (hfirst : parameter c = .ok p c₁) (hle : c₁.remaining ≤ c.remaining) (hcomma : c₁.At .comma)
    (hmore : Gives moreParameters 1 c₁.advance ps c') : Gives moreParameters 1 c (p :: ps) c' := by
  have hremaining := hcomma.remaining
  refine gives_succ fun n hn => ?_
  rw [moreParameters, bind_of_ok hfirst, bind_of_ok (accept_at hcomma rfl), if_pos rfl,
    bind_of_ok (hmore n (by omega))]
  rfl

theorem parameters_none (h : c.At .rightParen) : Gives parameters 1 c [] c.advance := by
  intro n _
  unfold parameters
  rw [bind_of_ok (accept_at h rfl), if_pos rfl]
  rfl

theorem parameters_some {ps : List (Parameter Span)} (hname : c.At .identifier)
    (hmore : Gives moreParameters 1 c ps c') : Gives parameters 1 c ps c' := by
  have hclose : c.current.kind ≠ .rightParen := by
    rw [hname.eq_kind]
    simp
  intro n hn
  unfold parameters
  rw [bind_of_ok (accept_ne hname.legal hclose), if_neg Bool.false_ne_true]
  exact hmore n hn

theorem parameter_ahead {p : Parameter α} (h : c.Ahead p.pieces c')
    (hp : (isName p.name && isName p.type) = true) :
    ∃ p' : Parameter Span, p'.erase = p.erase ∧ parameter c = .ok p' c' := by
  obtain ⟨hname, htype⟩ := Bool.and_eq_true_iff.1 hp
  obtain ⟨hat, hlexeme, h⟩ := h.takeName hname
  obtain ⟨hcolon, -, h⟩ := h.take rfl
  obtain ⟨hat', hlexeme', h⟩ := (h.skip rfl).takeName htype
  have hread := parameter_at hat hcolon hat'
  rw [hlexeme, hlexeme', ← h.done] at hread
  exact ⟨_, rfl, hread⟩

theorem moreParameters_ahead {ps : List (Parameter α)} (hne : ps ≠ [])
    (hps : ∀ p ∈ ps, (isName p.name && isName p.type) = true)
    (h : c.Ahead (Piece.commas (ps.map Parameter.pieces) ++ [.sign ')']) c') :
    ∃ ps' : List (Parameter Span), ps'.map Parameter.erase = ps.map Parameter.erase
      ∧ Gives moreParameters 1 c ps' c' := by
  induction ps generalizing c with
  | nil => exact (hne rfl).elim
  | cons p ps ih =>
    obtain ⟨c₁, hfirst, hrest⟩ := h.takeItem
    obtain ⟨p', hp', hread⟩ := parameter_ahead hfirst (hps p List.mem_cons_self)
    obtain ⟨hnil, hclose⟩ | ⟨hcons, hcomma, hmore⟩ := hrest
    · -- the last parameter
      obtain ⟨hclose, -, hdone⟩ := hclose.take rfl
      have hps : ps = [] := List.map_eq_nil_iff.1 hnil
      rw [hdone.done]
      exact ⟨[p'], by rw [hps]; simp [hp'], moreParameters_last hread hclose⟩
    · have hne : ps ≠ [] := fun heq => hcons (by rw [heq]; rfl)
      obtain ⟨ps', hps', hgives⟩ := ih hne (fun q hq => hps q (List.mem_cons_of_mem p hq)) hmore
      exact ⟨p' :: ps', by simp [hp', hps'],
        moreParameters_next hread hfirst.remaining_le hcomma hgives⟩

/-- The pieces of parameters are read back as parameters, marks apart. -/
theorem parameters_ahead {ps : List (Parameter α)}
    (hps : ∀ p ∈ ps, (isName p.name && isName p.type) = true)
    (h : c.Ahead (Piece.commas (ps.map Parameter.pieces) ++ [.sign ')']) c') :
    ∃ ps' : List (Parameter Span), ps'.map Parameter.erase = ps.map Parameter.erase
      ∧ Gives parameters 1 c ps' c' := by
  cases ps with
  | nil =>
    obtain ⟨hclose, -, hdone⟩ := h.take rfl
    rw [hdone.done]
    exact ⟨[], rfl, parameters_none hclose⟩
  | cons p ps =>
    obtain ⟨c₁, hfirst, -⟩ := h.takeItem
    have hp := (Bool.and_eq_true_iff.1 (hps p List.mem_cons_self)).1
    obtain ⟨hname, -, -⟩ := hfirst.takeName hp
    obtain ⟨ps', hps', hgives⟩ := moreParameters_ahead (List.cons_ne_nil p ps) hps h
    exact ⟨ps', hps', parameters_some hname hgives⟩

end Parser

end Scoreboard
