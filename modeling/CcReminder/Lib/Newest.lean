import Mathlib.Data.List.Sort
import Mathlib.Order.Lattice

/-!
# The newest of a list

A list is cut to its `k` newest elements by sorting it and taking `k`. How many of them lie after a
bound depends on the number of elements after it only.
-/

set_option autoImplicit true

namespace CcReminder.Lib

variable {α : Type} [LinearOrder α]

/-- The elements after a bound. -/
def countAfter (l : List α) (bound : α) : Nat := l.countP (bound < ·)

@[simp] theorem countAfter_append {l l' : List α} {bound : α} :
    countAfter (l ++ l') bound = countAfter l bound + countAfter l' bound :=
  List.countP_append

theorem countAfter_perm {l l' : List α} (h : l.Perm l') (bound : α) :
    countAfter l bound = countAfter l' bound := h.countP_eq _

/-- The elements up to `b` are what those after `b` leave of those after `a`. -/
theorem countP_between {l : List α} {a b : α} (h : a ≤ b) :
    l.countP (fun x => a < x ∧ x ≤ b) = countAfter l a - countAfter l b := by
  have hsum : countAfter l a = l.countP (fun x => a < x ∧ x ≤ b) + countAfter l b := by
    induction l with
    | nil => rfl
    | cons x l ih =>
      simp only [countAfter, List.countP_cons] at ih ⊢
      rw [ih]
      by_cases hb : b < x
      · have ha : a < x := h.trans_lt hb
        simp only [ha, hb, hb.not_ge]
        simp
        omega
      · simp only [hb, not_lt.mp hb]
        simp
        omega
  omega

/-- In a list with the newest first they come first. -/
theorem countAfter_take_of_pairwise {l : List α} (h : l.Pairwise (· ≥ ·)) (k : Nat) (bound : α) :
    countAfter (l.take k) bound = min k (countAfter l bound) := by
  induction l generalizing k with
  | nil => simp [countAfter]
  | cons x l ih =>
    cases k with
    | zero => simp [countAfter]
    | succ k =>
      obtain ⟨hx, hl⟩ := List.pairwise_cons.mp h
      have hrest := ih hl k
      simp only [countAfter, List.take_succ_cons, List.countP_cons] at hrest ⊢
      rw [hrest]
      by_cases hb : bound < x
      · simp only [hb, decide_true, if_true]
        omega
      · -- none of the others is newer than the first
        have hnone : l.countP (fun y => decide (bound < y)) = 0 := by
          refine List.countP_eq_zero.mpr fun y hy => ?_
          simpa using (hx y hy).trans (not_lt.mp hb)
        simp [hb, hnone]

theorem countAfter_newest (l : List α) (k : Nat) (bound : α) :
    countAfter ((l.insertionSort (· ≥ ·)).take k) bound = min k (countAfter l bound) := by
  rw [countAfter_take_of_pairwise (List.pairwise_insertionSort _ l),
    countAfter_perm (List.perm_insertionSort _ l)]

end CcReminder.Lib
