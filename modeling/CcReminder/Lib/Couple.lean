import CcReminder.Lib.Txn

/-!
# Two runs side by side

`Txn.Couples R x y Q R'` compares a run of `x` with a run of `y`: from related stores both succeed, with
related values, or both stop, and they leave related stores. There is one rule for each way of
building a computation.
-/

set_option autoImplicit true

namespace CcReminder.Lib

namespace Txn

/-- Both results are values, related by `Q`, or both are errors. -/
inductive SameResult (Q : α → β → Prop) : Except ε α → Except ε' β → Prop
  | ok (h : Q a b) : SameResult Q (.ok a) (.ok b)
  | error : SameResult Q (.error e) (.error e')

def Couples (R : σ → τ → Prop) (x : Txn ε σ α) (y : Txn ε' τ β) (Q : α → β → Prop)
    (R' : σ → τ → Prop) : Prop :=
  ∀ ⦃s t⦄, R s t → SameResult Q (x s).1 (y t).1 ∧ R' (x s).2 (y t).2

namespace Couples

variable {R R' R'' : σ → τ → Prop} {Q : α → β → Prop}

theorem ret (h : Q a b) : Couples R (pure a : Txn ε σ α) (pure b : Txn ε' τ β) Q R :=
  fun _ _ hR => ⟨.ok h, hR⟩

theorem fail : Couples R (.fail e : Txn ε σ α) (.fail e' : Txn ε' τ β) Q R :=
  fun _ _ hR => ⟨.error, hR⟩

theorem bind {x : Txn ε σ α} {y : Txn ε' τ β} {f : α → Txn ε σ γ} {g : β → Txn ε' τ δ}
    {S : γ → δ → Prop} (hx : Couples R x y Q R') (hf : ∀ a b, Q a b → Couples R' (f a) (g b) S R') :
    Couples R (x >>= f) (y >>= g) S R' := by
  intro s t hR
  obtain ⟨hr, hR'⟩ := hx hR
  rw [bind_run, bind_run]
  rcases hxs : x s with ⟨r, s'⟩
  rcases hyt : y t with ⟨r', t'⟩
  rw [hxs, hyt] at hr hR'
  cases hr with
  | ok hQ => exact hf _ _ hQ hR'
  | error => exact ⟨.error, hR'⟩

theorem mono {Q' : α → β → Prop} {x : Txn ε σ α} {y : Txn ε' τ β} (h : Couples R x y Q R')
    (hQ : ∀ a b, Q a b → Q' a b) : Couples R x y Q' R' := by
  intro s t hR
  obtain ⟨hr, hR'⟩ := h hR
  refine ⟨?_, hR'⟩
  generalize (x s).1 = r at hr ⊢
  generalize (y t).1 = r' at hr ⊢
  cases hr with
  | ok h => exact .ok (hQ _ _ h)
  | error => exact .error

/-- What two runs that succeed have in common. -/
theorem ok {x : Txn ε σ α} {y : Txn ε' τ β} (h : Couples R x y Q R') (hR : R s t)
    (hx : x s = (.ok a, s')) (hy : y t = (.ok b, t')) : Q a b ∧ R' s' t' := by
  obtain ⟨hr, hR'⟩ := h hR
  rw [hx, hy] at hr hR'
  cases hr with
  | ok hQ => exact ⟨hQ, hR'⟩

end Couples

end Txn

end CcReminder.Lib
