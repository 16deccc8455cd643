import Mathlib.Data.List.Forall2

/-!
# Computations that may fail

`Except ε` in sequence and over a list: what a success says of its parts, and that one failure is the
failure of the whole.
-/

set_option autoImplicit true

namespace CcReminder.Lib.Fallible

theorem bind_ok_iff {x : Except ε α} {f : α → Except ε β} :
    (x >>= f) = .ok b ↔ ∃ a, x = .ok a ∧ f a = .ok b := by
  cases x with
  | error e => exact ⟨nofun, fun ⟨_, h, _⟩ => nomatch h⟩
  | ok a =>
    constructor
    · exact fun h => ⟨a, rfl, h⟩
    · rintro ⟨_, ⟨⟩, h⟩
      exact h

theorem bind_error {x : Except ε α} {f : α → Except ε β} (h : (x >>= f) = .error e) :
    x = .error e ∨ ∃ a, x = .ok a ∧ f a = .error e := by
  cases x with
  | error e' =>
    cases h
    exact .inl rfl
  | ok a => exact .inr ⟨a, rfl, h⟩

theorem isError_bind {x : Except ε α} {f : α → Except ε β} (h : ∀ a, x = .ok a → ∃ e, f a = .error e) :
    ∃ e, (x >>= f) = .error e := by
  cases x with
  | error e => exact ⟨e, rfl⟩
  | ok a => exact h a rfl

theorem mapM_ok {f : α → Except ε β} (h : List.Forall₂ (fun a b => f a = .ok b) as bs) :
    as.mapM f = .ok bs := by
  induction h with
  | nil => rfl
  | cons hhead _ ih => rw [List.mapM_cons, hhead, ih]; rfl

/-- One element that fails. -/
theorem mapM_error {as : List α} {f : α → Except ε β} (hmem : a ∈ as) (h : f a = .error e) :
    ∃ e', as.mapM f = .error e' := by
  induction as with
  | nil => cases hmem
  | cons a' as ih =>
    rw [List.mapM_cons]
    refine isError_bind fun b hb => ?_
    rcases List.mem_cons.mp hmem with rfl | hmem
    · rw [h] at hb
      cases hb
    · obtain ⟨e', he'⟩ := ih hmem
      exact ⟨e', by rw [he']; rfl⟩

/-- The failure is the failure of an element. -/
theorem mapM_eq_error {as : List α} {f : α → Except ε β} (h : as.mapM f = .error e) : ∃ a ∈ as, f a = .error e := by
  induction as with
  | nil => cases h
  | cons a as ih =>
    rw [List.mapM_cons] at h
    rcases bind_error h with hhead | ⟨b, -, h⟩
    · exact ⟨a, List.mem_cons_self, hhead⟩
    rcases bind_error h with hrest | ⟨bs, -, h⟩
    · obtain ⟨a', hmem, ha'⟩ := ih hrest
      exact ⟨a', List.mem_cons_of_mem a hmem, ha'⟩
    · cases h

end CcReminder.Lib.Fallible
