/-!
# Actions that may fail

An action that fails keeps the state it has reached, so what follows it starts from there:
the rest of the action if it succeeded, the handler of the failure if not.
-/

namespace Reserved

variable {ε ε' σ α β : Type}

/-- What comes after a success starts from its value. -/
theorem ok_bind (a : α) (f : α → Except ε β) : (Except.ok a >>= f) = f a := rfl

/-- An action that succeeds does so from its first part's success. -/
theorem bind_eq_ok {x : Except ε α} {f : α → Except ε β} {b : β} :
    x >>= f = .ok b ↔ ∃ a, x = .ok a ∧ f a = .ok b := by
  cases x with
  | error e =>
      constructor
      · intro h
        contradiction
      · rintro ⟨a, h, -⟩
        contradiction
  | ok a =>
      rw [ok_bind]
      constructor
      · intro h
        exact ⟨a, rfl, h⟩
      · rintro ⟨a', h, h'⟩
        rwa [Except.ok.inj h]

theorem map_eq_ok {x : Except ε α} {f : α → β} {b : β} :
    x.map f = .ok b ↔ ∃ a, x = .ok a ∧ f a = b := by
  cases x with
  | error e =>
      constructor
      · intro h
        contradiction
      · rintro ⟨a, h, -⟩
        contradiction
  | ok a =>
      constructor
      · intro h
        exact ⟨a, rfl, Except.ok.inj h⟩
      · rintro ⟨a', h, h'⟩
        rw [Except.ok.inj h, ← h']
        rfl

theorem run_bind (x : ExceptT ε (StateM σ) α) (f : α → ExceptT ε (StateM σ) β) (s : σ) :
    (x >>= f).run s = match x.run s with
      | (.ok a, s') => (f a).run s'
      | (.error e, s') => (.error e, s') := by
  rcases hx : x.run s with ⟨r, s'⟩
  have hx' : x s = (r, s') := hx
  simp only [ExceptT.run, bind, ExceptT.bind, ExceptT.mk, StateT.bind, hx']
  cases r <;> rfl

theorem run_tryCatch (x : ExceptT ε (StateM σ) α) (handle : ε → ExceptT ε (StateM σ) α) (s : σ) :
    (tryCatch x handle).run s = match x.run s with
      | (.ok a, s') => (.ok a, s')
      | (.error e, s') => (handle e).run s' := by
  rcases hx : x.run s with ⟨r, s'⟩
  have hx' : x s = (r, s') := hx
  simp only [tryCatch, tryCatchThe, MonadExceptOf.tryCatch, ExceptT.tryCatch, ExceptT.run,
    ExceptT.mk, bind, StateT.bind, hx']
  cases r <;> rfl

theorem run_adapt (x : ExceptT ε (StateM σ) α) (f : ε → ε') (s : σ) :
    (x.adapt f).run s = ((x.run s).1.mapError f, (x.run s).2) := by
  rfl

end Reserved
