import MiniPascal.Log

/-!
# Traced computations

A computation over a state that may fail and that reports events. The state and the events outlive a failure: what was
done before it stays done.
-/

namespace MiniPascal

/-- What a computation leaves behind. -/
structure Outcome (σ ε α : Type) where
  result : Except ε α
  state : σ
  events : List Event

/-- A computation over states `σ` with faults `ε`. -/
def Traced (σ ε α : Type) : Type := σ → Outcome σ ε α

namespace Traced

variable {σ τ ε δ α β : Type}

protected def pure (a : α) : Traced σ ε α := fun s => ⟨.ok a, s, []⟩

protected def bind (x : Traced σ ε α) (f : α → Traced σ ε β) : Traced σ ε β := fun s =>
  match x s with
  | ⟨.ok a, s, before⟩ =>
    let ⟨result, s, events⟩ := f a s
    ⟨result, s, before ++ events⟩
  | ⟨.error e, s, before⟩ => ⟨.error e, s, before⟩

protected def map (f : α → β) (x : Traced σ ε α) : Traced σ ε β := fun s =>
  let ⟨result, s, events⟩ := x s
  ⟨result.map f, s, events⟩

instance : Monad (Traced σ ε) where
  map := Traced.map
  pure := Traced.pure
  bind := Traced.bind

def fail (e : ε) : Traced σ ε α := fun s => ⟨.error e, s, []⟩

def emit (event : Event) : Traced σ ε Unit := fun s => ⟨.ok (), s, [event]⟩

def get : Traced σ ε σ := fun s => ⟨.ok s, s, []⟩

def modify (f : σ → σ) : Traced σ ε Unit := fun s => ⟨.ok (), f s, []⟩

def ofExcept (x : Except ε α) : Traced σ ε α := fun s => ⟨x, s, []⟩

/-- Changes the state at the end, also after a failure, and reports that. -/
def ensuring (x : Traced σ ε α) (close : σ → σ × List Event) : Traced σ ε α := fun s =>
  let ⟨result, s, events⟩ := x s
  let (s, last) := close s
  ⟨result, s, events ++ last⟩

/-- Runs a computation over a state of its own inside another one, its faults becoming faults there. -/
def inside (x : Traced σ ε α) (start : σ) (fault : ε → δ) : Traced τ δ (α × σ) := fun t =>
  match x start with
  | ⟨.ok a, s, events⟩ => ⟨.ok (a, s), t, events⟩
  | ⟨.error e, _, events⟩ => ⟨.error (fault e), t, events⟩

/-! ## Lemmas -/

@[simp] theorem pure_apply (a : α) (s : σ) : (pure a : Traced σ ε α) s = ⟨.ok a, s, []⟩ := rfl

@[simp] theorem map_apply (f : α → β) (x : Traced σ ε α) (s : σ) :
    (f <$> x) s = ⟨(x s).result.map f, (x s).state, (x s).events⟩ := rfl

/-- A sequence as a function of what its first part leaves behind. -/
theorem bind_apply (x : Traced σ ε α) (f : α → Traced σ ε β) (s : σ) :
    (x >>= f) s = match (x s).result with
      | .ok a => ⟨(f a (x s).state).result, (f a (x s).state).state, (x s).events ++ (f a (x s).state).events⟩
      | .error e => ⟨.error e, (x s).state, (x s).events⟩ := by
  change Traced.bind x f s = _
  unfold Traced.bind
  obtain ⟨result, t, before⟩ := x s
  cases result <;> rfl

theorem state_bind_of_ok {x : Traced σ ε α} (f : α → Traced σ ε β) {s : σ} {a : α} (h : (x s).result = .ok a) :
    ((x >>= f) s).state = (f a (x s).state).state := by
  rw [bind_apply, h]

theorem state_bind_of_error {x : Traced σ ε α} (f : α → Traced σ ε β) {s : σ} {e : ε}
    (h : (x s).result = .error e) : ((x >>= f) s).state = (x s).state := by
  rw [bind_apply, h]

/-- The second part of a sequence starts where the first one ends. -/
theorem result_bind (x : Traced σ ε α) (f : α → Traced σ ε β) (s : σ) :
    ((x >>= f) s).result = (x s).result >>= fun a => (f a (x s).state).result := by
  rw [bind_apply]
  cases (x s).result <;> rfl

theorem result_bind_eq_ok {x : Traced σ ε α} {f : α → Traced σ ε β} {s : σ} {b : β} :
    ((x >>= f) s).result = .ok b ↔ ∃ a, (x s).result = .ok a ∧ (f a (x s).state).result = .ok b := by
  rw [bind_apply]
  cases (x s).result <;> simp

theorem result_bind_eq_error {x : Traced σ ε α} {f : α → Traced σ ε β} {s : σ} {e : ε} :
    ((x >>= f) s).result = .error e ↔
      (x s).result = .error e ∨ ∃ a, (x s).result = .ok a ∧ (f a (x s).state).result = .error e := by
  rw [bind_apply]
  cases (x s).result <;> simp

/-- The last words are said whether the computation fails or not. -/
theorem ensuring_apply (x : Traced σ ε α) (close : σ → σ × List Event) (s : σ) :
    x.ensuring close s =
      ⟨(x s).result, (close (x s).state).1, (x s).events ++ (close (x s).state).2⟩ := rfl

theorem result_inside (x : Traced σ ε α) (start : σ) (fault : ε → δ) (t : τ) :
    (x.inside start fault t).result = ((x start).result.mapError fault).map (·, (x start).state) := by
  unfold inside
  obtain ⟨result, s, events⟩ := x start
  cases result <;> rfl

/-! ## Sequences

Computations form a lawful monad: how a sequence is bracketed does not matter. -/

theorem id_map_eq (x : Traced σ ε α) : id <$> x = x := by
  funext s
  rw [map_apply]
  obtain ⟨result, t, events⟩ := x s
  cases result <;> rfl

theorem bind_pure_eq_map (f : α → β) (x : Traced σ ε α) : (x >>= fun a => pure (f a)) = f <$> x := by
  funext s
  rw [bind_apply, map_apply]
  cases (x s).result with
  | error e => rfl
  | ok a => simp [Except.map]

theorem bind_bind {γ : Type} (x : Traced σ ε α) (f : α → Traced σ ε β) (g : β → Traced σ ε γ) :
    x >>= f >>= g = x >>= fun a => f a >>= g := by
  funext s
  simp only [bind_apply]
  cases (x s).result with
  | error e => rfl
  | ok a =>
    dsimp only
    cases (f a (x s).state).result with
    | error e => rfl
    | ok b => simp only [List.append_assoc]

instance : LawfulMonad (Traced σ ε) :=
  .mk' _ id_map_eq (fun _ _ => rfl) bind_bind (fun _ _ => rfl) (fun _ _ => rfl) (fun _ _ => rfl) bind_pure_eq_map
    fun _ _ => rfl

end Traced

end MiniPascal
