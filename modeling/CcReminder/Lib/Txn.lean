import Mathlib.Logic.Relation

/-!
# Failing computations over a store, and transactions

`Txn ε σ α` is a computation that reads and writes a store `σ` and may stop with an error `ε`.
The store is kept when it stops, so a body that stops half way leaves its half-finished store
behind; `Txn.atomically` is the transaction that undoes it.

`Txn.Ensures` relates the store before a *successful* computation to its value and the store
after it, with one rule for each way of building a computation (`pure`, `bind`, the loop `each`).
-/

set_option autoImplicit true

namespace CcReminder.Lib

/-- A computation over a store that may stop with an error. -/
def Txn (ε σ α : Type) := σ → Except ε α × σ

namespace Txn

instance : Monad (Txn ε σ) where
  pure a := fun s => (.ok a, s)
  bind x f := fun s =>
    match x s with
    | (.ok a, s') => f a s'
    | (.error e, s') => (.error e, s')

/-- Stop with an error; the store stays as it is. -/
def fail (e : ε) : Txn ε σ α := fun s => (.error e, s)

/-- One step on the store, which returns a value and a new store. -/
def step (f : σ → Except ε α × σ) : Txn ε σ α := f

/-- Run the body for each element in order. -/
def each (f : α → Txn ε σ Unit) : List α → Txn ε σ Unit
  | [] => pure ()
  | a :: as => do f a; each f as

/-- Run a body that does not stop the rest: its error becomes its value. -/
def result (x : Txn ε σ α) : Txn ε' σ (Except ε α) := fun s => (.ok (x s).1, (x s).2)

/-- The same computation with other errors. -/
def mapError (f : ε → ε') (x : Txn ε σ α) : Txn ε' σ α := fun s =>
  match x s with
  | (.ok a, s') => (.ok a, s')
  | (.error e, s') => (.error (f e), s')

/-- Run a body and, when it stops, replace the store it left by `undo before after`. -/
def atomically (undo : σ → σ → σ) (x : Txn ε σ α) : Txn ε σ α := fun s =>
  match x s with
  | (.ok a, s') => (.ok a, s')
  | (.error e, s') => (.error e, undo s s')

/-! ## Successful runs -/

@[simp] theorem pure_run (a : α) (s : σ) : (pure a : Txn ε σ α) s = (.ok a, s) := rfl

@[simp] theorem fail_run (e : ε) (s : σ) : (fail e : Txn ε σ α) s = (.error e, s) := rfl

@[simp] theorem step_run (f : σ → Except ε α × σ) (s : σ) : step f s = f s := rfl

theorem bind_run (x : Txn ε σ α) (f : α → Txn ε σ β) (s : σ) :
    (x >>= f) s = match x s with
      | (.ok a, s') => f a s'
      | (.error e, s') => (.error e, s') := rfl

instance : LawfulMonad (Txn ε σ) := by
  refine LawfulMonad.mk' _ (fun x => ?_) (fun _ _ => rfl) (fun x f g => ?_)
  · funext s
    change (match x s with
      | (.ok a, s') => (.ok a, s')
      | (.error e, s') => (.error e, s')) = x s
    rcases x s with ⟨_ | a, s'⟩ <;> rfl
  · funext s
    rw [bind_run, bind_run, bind_run]
    rcases x s with ⟨_ | a, s'⟩ <;> rfl

/-- A sequence that succeeds is a first part that succeeds followed by a rest that does. -/
theorem bind_ok_iff {x : Txn ε σ α} {f : α → Txn ε σ β} :
    (x >>= f) s = (.ok b, s'') ↔ ∃ a s', x s = (.ok a, s') ∧ f a s' = (.ok b, s'') := by
  rw [bind_run]
  rcases x s with ⟨_ | a, s'⟩
  · simp
  · constructor
    · exact fun h => ⟨a, s', rfl, h⟩
    · rintro ⟨_, _, ⟨⟩, h⟩
      exact h

/-- A sequence that stops does so in its first part or in its rest. -/
theorem bind_error {x : Txn ε σ α} {f : α → Txn ε σ β} (h : (x >>= f) s = (.error e, s'')) :
    x s = (.error e, s'') ∨ ∃ a s', x s = (.ok a, s') ∧ f a s' = (.error e, s'') := by
  rw [bind_run] at h
  rcases hx : x s with ⟨e' | a, s'⟩ <;> rw [hx] at h
  · cases h
    exact .inl rfl
  · exact .inr ⟨a, s', rfl, h⟩

/-- A sequence stops in its first part, or does what its rest does. -/
theorem bind_cases {x : Txn ε σ α} {f : α → Txn ε σ β} (h : (x >>= f) s = (r, s'')) :
    (∃ e, x s = (.error e, s'') ∧ r = .error e) ∨ ∃ a s', x s = (.ok a, s') ∧ f a s' = (r, s'') := by
  rw [bind_run] at h
  rcases hx : x s with ⟨e | a, s'⟩ <;> rw [hx] at h
  · cases h
    exact .inl ⟨e, rfl, rfl⟩
  · exact .inr ⟨a, s', rfl, h⟩

theorem atomically_ok_iff {x : Txn ε σ α} :
    atomically undo x s = (.ok a, s') ↔ x s = (.ok a, s') := by
  simp only [atomically]
  rcases x s with ⟨_ | b, s₁⟩ <;> simp

@[simp] theorem result_run (x : Txn ε σ α) (s : σ) :
    (x.result : Txn ε' σ (Except ε α)) s = (.ok (x s).1, (x s).2) := rfl

@[simp] theorem mapError_snd (f : ε → ε') (x : Txn ε σ α) (s : σ) :
    (x.mapError f s).2 = (x s).2 := by
  simp only [mapError]
  rcases x s with ⟨_ | a, s'⟩ <;> rfl

/-- The error of a body that does not stop the rest is its value. -/
theorem result_eq {x : Txn ε σ α} (h : (x.result : Txn ε' σ (Except ε α)) s = (r, s')) :
    ∃ a, r = .ok a ∧ x s = (a, s') := by
  simp only [result_run, Prod.mk.injEq] at h
  obtain ⟨rfl, rfl⟩ := h
  exact ⟨_, rfl, rfl⟩

theorem mapError_ok_iff {f : ε → ε'} {x : Txn ε σ α} :
    x.mapError f s = (.ok a, s') ↔ x s = (.ok a, s') := by
  simp only [mapError]
  rcases x s with ⟨_ | b, s₁⟩ <;> simp

theorem mapError_error {f : ε → ε'} {x : Txn ε σ α} (h : x.mapError f s = (.error e, s')) :
    ∃ e', x s = (.error e', s') := by
  simp only [mapError] at h
  rcases hx : x s with ⟨e' | a, s₁⟩ <;> rw [hx] at h <;> cases h
  exact ⟨e', rfl⟩

/-- **Rollback.** A transaction that stops leaves only what `undo` makes of the two stores. -/
theorem atomically_error {x : Txn ε σ α} (h : atomically undo x s = (.error e, s')) :
    ∃ s₁, s' = undo s s₁ := by
  simp only [atomically] at h
  rcases hx : x s with ⟨e' | b, s₁⟩
  · simp only [hx, Prod.mk.injEq] at h
    exact ⟨s₁, h.2.symm⟩
  · simp [hx] at h

/-! ## What a computation leaves alone -/

/-- Every run of `x`, also one that stops, leaves `f` of the store as it was. -/
def Keeps (f : σ → β) (x : Txn ε σ α) : Prop := ∀ s, f (x s).2 = f s

namespace Keeps

variable {f : σ → β}

theorem run {x : Txn ε σ α} (hx : x.Keeps f) (h : x s = (r, s')) : f s' = f s := by
  rw [← hx s, h]

theorem pure (a : α) : (Pure.pure a : Txn ε σ α).Keeps f := fun _ => rfl

theorem fail (e : ε) : (fail e : Txn ε σ α).Keeps f := fun _ => rfl

theorem bind {x : Txn ε σ α} {g : α → Txn ε σ γ} (hx : x.Keeps f) (hg : ∀ a, (g a).Keeps f) :
    (x >>= g).Keeps f := by
  intro s
  have h := hx s
  rw [bind_run]
  rcases hrun : x s with ⟨e | a, s'⟩ <;> rw [hrun] at h
  · exact h
  · exact (hg a s').trans h

/-- A sequence that starts with something that keeps `f` keeps it, or goes on from a store with the
same `f`. -/
theorem bind_cases {x : Txn ε σ α} {g : α → Txn ε σ γ} (hx : x.Keeps f) (h : (x >>= g) s = (r, s'')) :
    f s'' = f s ∨ ∃ a s', x s = (.ok a, s') ∧ f s' = f s ∧ g a s' = (r, s'') := by
  rcases Txn.bind_cases h with ⟨e, h₁, -⟩ | ⟨a, s', h₁, h₂⟩
  · exact .inl (hx.run h₁)
  · exact .inr ⟨a, s', h₁, hx.run h₁, h₂⟩

end Keeps

/-! ## What a successful computation does -/

/-- Every successful run of `x` relates the store before, the value and the store after. -/
def Ensures (x : Txn ε σ α) (R : σ → α → σ → Prop) : Prop :=
  ∀ ⦃s a s'⦄, x s = (.ok a, s') → R s a s'

theorem Ensures.mono {R R' : σ → α → σ → Prop} {x : Txn ε σ α} (h : x.Ensures R)
    (hR : ∀ s a s', R s a s' → R' s a s') : x.Ensures R' := fun _ _ _ hx => hR _ _ _ (h hx)

theorem Ensures.ret {R : σ → α → σ → Prop} (h : ∀ s, R s a s) :
    (pure a : Txn ε σ α).Ensures R := by
  intro s b s' hs
  simp only [pure_run, Prod.mk.injEq, Except.ok.injEq] at hs
  obtain ⟨rfl, rfl⟩ := hs
  exact h s

theorem Ensures.bind {P : σ → α → σ → Prop} {Q : α → σ → β → σ → Prop} {R : σ → β → σ → Prop}
    {x : Txn ε σ α} {f : α → Txn ε σ β} (hx : x.Ensures P) (hf : ∀ a, (f a).Ensures (Q a))
    (hR : ∀ s a s' b s'', P s a s' → Q a s' b s'' → R s b s'') : (x >>= f).Ensures R := by
  intro s b s'' h
  obtain ⟨a, s', h1, h2⟩ := bind_ok_iff.mp h
  exact hR _ _ _ _ _ (hx h1) (hf a h2)

/-- The loop rule: a relation on stores that holds of no iteration, and that one more
iteration extends, holds of the whole loop. -/
theorem Ensures.each {f : α → Txn ε σ Unit} {R : List α → σ → σ → Prop}
    (hnil : ∀ s, R [] s s)
    (hcons : ∀ a as s s' s'', f a s = (.ok (), s') → R as s' s'' → R (a :: as) s s'') :
    ∀ as, (Txn.each f as).Ensures fun s _ s' => R as s s'
  | [] => Ensures.ret hnil
  | a :: as => by
    intro s u s'' h
    obtain ⟨⟨⟩, s', h1, h2⟩ := bind_ok_iff.mp h
    exact hcons a as s s' s'' h1 (Ensures.each hnil hcons as h2)

end Txn

end CcReminder.Lib
