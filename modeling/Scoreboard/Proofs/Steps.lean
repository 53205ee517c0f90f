import Mathlib

/-!
# Steps with a state

The scanner, the reader of scripts and the generator are all written as steps that change a
state, fail with an error, and keep the state also when they fail. This file holds the three
ways to reason about such a step:

* the equations `_ = .ok _ _`, which take a successful run apart into the runs of its parts
  (`bind_eq_ok`);
* `Ensures`, which says what holds after a step whether it succeeds or fails, with a rule for
  one step after another;
* `Follows`, which says that one step does what another does, seen through maps of states,
  results and errors.
-/

namespace Scoreboard

variable {ε σ α β : Type}

/-! ## Successful runs -/

/-- Two steps succeed exactly if the first does and the second does from there. -/
theorem bind_eq_ok {x : EStateM ε σ α} {f : α → EStateM ε σ β} {s t : σ} {b : β} :
    (x >>= f) s = .ok b t ↔ ∃ a u, x s = .ok a u ∧ f a u = .ok b t := by
  show EStateM.bind x f s = .ok b t ↔ _
  unfold EStateM.bind
  cases h : x s with
  | ok a u => simp
  | error e u => simp

/-- A step behind one that succeeded. -/
theorem bind_of_ok {x : EStateM ε σ α} {f : α → EStateM ε σ β} {s t : σ} {a : α}
    (h : x s = .ok a t) : (x >>= f) s = f a t := by
  show EStateM.bind x f s = _
  unfold EStateM.bind
  rw [h]

/-- An error of the first step is one of both. -/
theorem bind_of_error {x : EStateM ε σ α} {f : α → EStateM ε σ β} {s t : σ} {e : ε}
    (h : x s = .error e t) : (x >>= f) s = .error e t := by
  show EStateM.bind x f s = _
  unfold EStateM.bind
  rw [h]

/-- Two steps behind the same one need to agree only on what that one can give. -/
theorem bind_congr_ok {x : EStateM ε σ α} {f g : α → EStateM ε σ β} {s : σ}
    (h : ∀ a t, x s = .ok a t → f a t = g a t) : (x >>= f) s = (x >>= g) s := by
  cases hx : x s with
  | ok a t => rw [bind_of_ok hx, bind_of_ok hx, h a t hx]
  | error e t => rw [bind_of_error hx, bind_of_error hx]

theorem get_bind {f : σ → EStateM ε σ β} {s : σ} : (get >>= f) s = f s s := rfl

/-- A result that is given at once leaves the state. -/
theorem pure_eq_ok {s t : σ} {a b : α} :
    (pure a : EStateM ε σ α) s = .ok b t ↔ a = b ∧ s = t := by
  show EStateM.Result.ok a s = .ok b t ↔ _
  simp

/-- An error is no success. -/
theorem throw_ne_ok {s t : σ} {e : ε} {b : β} :
    (throw e : EStateM ε σ β) s = .ok b t ↔ False := by
  show EStateM.Result.error e s = .ok b t ↔ _
  simp

theorem get_eq_ok {s t a : σ} : (get : EStateM ε σ σ) s = .ok a t ↔ s = a ∧ s = t := by
  show EStateM.Result.ok s s = .ok a t ↔ _
  simp

theorem modify_eq_ok {f : σ → σ} {s t : σ} {u : PUnit} :
    (modify f : EStateM ε σ PUnit) s = .ok u t ↔ f s = t := by
  show EStateM.Result.ok PUnit.unit (f s) = .ok u t ↔ _
  simp

theorem run'_eq_some {x : EStateM ε σ α} {s : σ} {a : α} :
    x.run' s = some a ↔ ∃ t, x s = .ok a t := by
  unfold EStateM.run' EStateM.run
  cases x s <;> simp

theorem run'_eq_none {x : EStateM ε σ α} {s : σ} : x.run' s = none ↔ ∃ e t, x s = .error e t := by
  unfold EStateM.run' EStateM.run
  cases x s <;> simp

/-- A result that passes a test is a success. -/
theorem exists_ok_of_any {x : Except ε α} {p : α → Bool} (h : x.toOption.any p = true) :
    ∃ a, x = .ok a ∧ p a = true := by
  cases x with
  | ok a => exact ⟨a, rfl, h⟩
  | error e => cases h

/-! ## Every run -/

/-- What holds after a step from a state: `good` of its result and the new state if it
succeeds, `bad` of its error and the state it leaves if it fails. -/
def Ensures (step : EStateM ε σ α) (s : σ) (good : α → σ → Prop) (bad : ε → σ → Prop) :
    Prop :=
  match step s with
  | .ok a t => good a t
  | .error e t => bad e t

instance {step : EStateM ε σ α} {s : σ} {good : α → σ → Prop} {bad : ε → σ → Prop}
    [∀ a t, Decidable (good a t)] [∀ e t, Decidable (bad e t)] :
    Decidable (Ensures step s good bad) :=
  show Decidable (match step s with
    | .ok a t => good a t
    | .error e t => bad e t) from
  match step s with
  | .ok a t => inferInstanceAs (Decidable (good a t))
  | .error e t => inferInstanceAs (Decidable (bad e t))

section
variable {good : α → σ → Prop} {bad : ε → σ → Prop} {s : σ}

/-- What a step ensures of a success that it has. -/
theorem Ensures.ok {x : EStateM ε σ α} {t : σ} {a : α} (h : Ensures x s good bad)
    (hx : x s = .ok a t) : good a t := by
  unfold Ensures at h
  rwa [hx] at h

/-- What a step ensures of an error that it has. -/
theorem Ensures.error {x : EStateM ε σ α} {t : σ} {e : ε} (h : Ensures x s good bad)
    (hx : x s = .error e t) : bad e t := by
  unfold Ensures at h
  rwa [hx] at h

theorem ensures_get_bind {f : σ → EStateM ε σ β} {good : β → σ → Prop} :
    Ensures (get >>= f) s good bad ↔ Ensures (f s) s good bad := Iff.rfl

/-- Two steps ensure something exactly if the first one ensures that the second does. -/
theorem ensures_bind {x : EStateM ε σ α} {f : α → EStateM ε σ β} {good : β → σ → Prop} :
    Ensures (x >>= f) s good bad ↔ Ensures x s (fun a t => Ensures (f a) t good bad) bad := by
  unfold Ensures
  show (match EStateM.bind x f s with
    | .ok a t => good a t
    | .error e t => bad e t) ↔ _
  unfold EStateM.bind
  cases x s <;> rfl

/-- What a step ensures may be weakened. -/
theorem Ensures.mono {x : EStateM ε σ α} {good' : α → σ → Prop} {bad' : ε → σ → Prop}
    (h : Ensures x s good bad) (hgood : ∀ a t, good a t → good' a t)
    (hbad : ∀ e t, bad e t → bad' e t) : Ensures x s good' bad' := by
  unfold Ensures at h ⊢
  cases hx : x s with
  | ok a t => rw [hx] at h; exact hgood a t h
  | error e t => rw [hx] at h; exact hbad e t h

/-- The rule of sequence, with what holds between the two steps left open. -/
theorem Ensures.bind {x : EStateM ε σ α} {f : α → EStateM ε σ β} {mid : α → σ → Prop}
    {good : β → σ → Prop} (hx : Ensures x s mid bad)
    (hf : ∀ a t, mid a t → Ensures (f a) t good bad) : Ensures (x >>= f) s good bad :=
  ensures_bind.2 (hx.mono hf fun _ _ h => h)

end

/-! ## Two runs -/

variable {ε' σ' α' β' : Type}

/-- What a step gives, seen through maps of errors, states and results. -/
def mapResult (onError : ε → ε') (onState : σ → σ') (onResult : α → α') :
    EStateM.Result ε σ α → EStateM.Result ε' σ' α'
  | .ok a s => .ok (onResult a) (onState s)
  | .error e s => .error (onError e) (onState s)

/-- One step follows another: from the image of a state it gives the image of what the other
one gives from the state. -/
def Follows (onError : ε → ε') (onState : σ → σ') (onResult : α → α')
    (follower : EStateM ε' σ' α') (step : EStateM ε σ α) : Prop :=
  ∀ s, follower (onState s) = mapResult onError onState onResult (step s)

section
variable {onError : ε → ε'} {onState : σ → σ'} {onResult : α → α'}

theorem follows_pure {a : α} {a' : α'} (h : a' = onResult a) :
    Follows onError onState onResult (pure a') (pure a) := by
  intro s
  rw [h]
  rfl

/-- An error follows another if it is its image. -/
theorem follows_throw {e : ε} {e' : ε'} (h : e' = onError e) :
    Follows onError onState onResult (throw e') (throw e) := by
  intro s
  rw [h]
  rfl

theorem follows_get : Follows onError onState onState get get := fun _ => rfl

/-- A change of the state follows another if it commutes with the map of states. -/
theorem follows_modify {f : σ → σ} {f' : σ' → σ'} (h : ∀ s, f' (onState s) = onState (f s)) :
    Follows onError onState id (modify f') (modify f) := by
  intro s
  show EStateM.Result.ok PUnit.unit (f' (onState s)) = .ok PUnit.unit (onState (f s))
  rw [h]

/-- Steps that follow others one by one follow them together. -/
theorem Follows.bind {x : EStateM ε σ α} {x' : EStateM ε' σ' α'} {f : α → EStateM ε σ β}
    {f' : α' → EStateM ε' σ' β'} {onLast : β → β'} (hx : Follows onError onState onResult x' x)
    (hf : ∀ a, Follows onError onState onLast (f' (onResult a)) (f a)) :
    Follows onError onState onLast (x' >>= f') (x >>= f) := by
  intro s
  have hfirst := hx s
  cases hstep : x s with
  | ok a t =>
    rw [hstep] at hfirst
    rw [bind_of_ok hstep, bind_of_ok hfirst]
    exact hf a t
  | error e t =>
    rw [hstep] at hfirst
    rw [bind_of_error hstep, bind_of_error hfirst]
    rfl

/-- A choice between steps follows the same choice. -/
theorem Follows.ite {c : Prop} [Decidable c] {x y : EStateM ε σ α} {x' y' : EStateM ε' σ' α'}
    (hx : Follows onError onState onResult x' x) (hy : Follows onError onState onResult y' y) :
    Follows onError onState onResult (if c then x' else y') (if c then x else y) := by
  by_cases hc : c
  · rw [if_pos hc, if_pos hc]
    exact hx
  · rw [if_neg hc, if_neg hc]
    exact hy

/-- A step behind a check follows the same step behind the same check. -/
theorem Follows.unless {c : Prop} [Decidable c] {fault : EStateM ε σ PUnit}
    {fault' : EStateM ε' σ' PUnit} {x : EStateM ε σ α} {x' : EStateM ε' σ' α'}
    (hfault : Follows onError onState id fault' fault)
    (hx : Follows onError onState onResult x' x) :
    Follows onError onState onResult (if c then fault' >>= fun _ => x' else x')
      (if c then fault >>= fun _ => x else x) :=
  .ite (hfault.bind fun _ => hx) hx

end

end Scoreboard
