import Mathlib.Data.List.Basic

/-!
# Lines and escapes

Text in lines, and text in which a mark stands before each special character. What a reader takes from the
start of an escaped text it takes from the start of the text, as long as it takes no special character.
-/

set_option autoImplicit true

namespace CcReminder.Lib

/-! ## Lines -/

/-- A text has a last line. -/
theorem exists_splitOnP (p : α → Bool) (xs : List α) : ∃ ls l, xs.splitOnP p = ls ++ [l] := by
  obtain hnil | ⟨ls, l, hl⟩ := List.eq_nil_or_concat (xs.splitOnP p)
  · exact absurd hnil (List.splitOnP_ne_nil p xs)
  · exact ⟨ls, l, hl.trans List.concat_eq_append⟩

/-- The last line of the first text goes on with the first line of the second. -/
theorem splitOnP_append {p : α → Bool} {xs ys : List α} (h : xs.splitOnP p = ls ++ [l]) :
    (xs ++ ys).splitOnP p = ls ++ (ys.splitOnP p).modifyHead (l ++ ·) := by
  induction xs generalizing ls l with
  | nil =>
    obtain ⟨rfl, hl⟩ := List.append_inj' (show [] ++ [[]] = ls ++ [l] from h) rfl
    obtain rfl := List.singleton_inj.mp hl
    cases hys : ys.splitOnP p with
    | nil => exact absurd hys (List.splitOnP_ne_nil p ys)
    | cons y rest => simp [hys]
  | cons x xs ih =>
    rw [List.splitOnP_cons_eq_if_modifyHead] at h
    rw [List.cons_append, List.splitOnP_cons_eq_if_modifyHead]
    obtain ⟨ms, m, hm⟩ := exists_splitOnP p xs
    rw [ih hm]
    split at h
    · next hx =>
      rw [if_pos hx]
      rw [hm, ← List.cons_append] at h
      obtain ⟨rfl, hl⟩ := List.append_inj' h rfl
      obtain rfl := List.singleton_inj.mp hl
      rfl
    · next hx =>
      rw [if_neg hx]
      rw [hm] at h
      cases ms with
      | nil =>
        obtain ⟨rfl, hl⟩ := List.append_inj' (show [] ++ [x :: m] = ls ++ [l] from h) rfl
        obtain rfl := List.singleton_inj.mp hl
        cases ys.splitOnP p <;> rfl
      | cons k ms =>
        obtain ⟨rfl, hl⟩ := List.append_inj' (show ((x :: k) :: ms) ++ [m] = ls ++ [l] from h) rfl
        obtain rfl := List.singleton_inj.mp hl
        rfl

theorem splitOnP_append_of_forall {p : α → Bool} {xs : List α} (ys : List α)
    (h : ∀ x ∈ xs, p x = false) :
    (xs ++ ys).splitOnP p = (ys.splitOnP p).modifyHead (xs ++ ·) := by
  have hone : xs.splitOnP p = [] ++ [xs] := List.splitOnP_eq_singleton h
  exact splitOnP_append hone

/-- A text that is written character by character has the lines of the text, written that way. -/
theorem splitOnP_flatMap {p : β → Bool} {q : α → Bool} {f : α → List β}
    (hbreak : ∀ x, q x = true → ∃ y, f x = [y] ∧ p y = true)
    (hother : ∀ x, q x = false → ∀ y ∈ f x, p y = false) (xs : List α) :
    (xs.flatMap f).splitOnP p = (xs.splitOnP q).map (List.flatMap f) := by
  induction xs with
  | nil => rfl
  | cons x xs ih =>
    rw [List.flatMap_cons, List.splitOnP_cons_eq_if_modifyHead]
    cases hx : q x with
    | true =>
      obtain ⟨y, hy, hp⟩ := hbreak x hx
      rw [hy, List.singleton_append, List.splitOnP_cons_eq_if_modifyHead, if_pos hp, ih]
      rfl
    | false =>
      rw [splitOnP_append_of_forall _ (hother x hx), ih]
      cases xs.splitOnP q <;> rfl

theorem subset_of_mem_splitOnP {p : α → Bool} {xs l : List α} (h : l ∈ xs.splitOnP p) : l ⊆ xs := by
  induction xs generalizing l with
  | nil =>
    obtain rfl := List.mem_singleton.mp h
    exact List.Subset.refl []
  | cons x xs ih =>
    rw [List.splitOnP_cons_eq_if_modifyHead] at h
    split at h
    · obtain rfl | hl := List.mem_cons.mp h
      · exact List.nil_subset _
      · exact List.Subset.trans (ih hl) (List.subset_cons_self x xs)
    · cases hxs : xs.splitOnP p with
      | nil => exact absurd hxs (List.splitOnP_ne_nil p xs)
      | cons l' ls =>
        rw [hxs] at h ih
        obtain rfl | hl := List.mem_cons.mp h
        · exact List.cons_subset_cons x (ih List.mem_cons_self)
        · exact List.Subset.trans (ih (List.mem_cons_of_mem l' hl)) (List.subset_cons_self x xs)

/-! ## Escapes -/

section
variable [DecidableEq α] (mark : α) (special : List α)

def escape (xs : List α) : List α := xs.flatMap fun x => if x ∈ special then [mark, x] else [x]

@[simp] theorem escape_nil : escape mark special [] = [] := rfl

theorem escape_cons_of_mem (h : x ∈ special) (xs : List α) :
    escape mark special (x :: xs) = mark :: x :: escape mark special xs := by
  rw [escape, List.flatMap_cons, if_pos h]
  rfl

theorem escape_cons_of_notMem (h : x ∉ special) (xs : List α) :
    escape mark special (x :: xs) = x :: escape mark special xs := by
  rw [escape, List.flatMap_cons, if_neg h]
  rfl

variable {mark special}

theorem takeWhile_escape {p : α → Bool} (hmark : p mark = false) (hspecial : ∀ x ∈ special, p x = false)
    (xs : List α) {ys : List α} (hys : ∀ y ∈ ys.head?, p y = false) :
    (escape mark special xs ++ ys).takeWhile p = xs.takeWhile p := by
  induction xs with
  | nil =>
    cases ys with
    | nil => rfl
    | cons y ys => exact List.takeWhile_cons_of_neg (by simpa using hys)
  | cons x xs ih =>
    by_cases hx : x ∈ special
    · rw [escape_cons_of_mem _ _ hx, List.cons_append, List.takeWhile_cons_of_neg (by simpa using hmark),
        List.takeWhile_cons_of_neg (by simpa using hspecial x hx)]
    · rw [escape_cons_of_notMem _ _ hx, List.cons_append, List.takeWhile_cons, List.takeWhile_cons, ih]

theorem dropWhile_escape {p : α → Bool} (hmark : p mark = false) (hspecial : ∀ x ∈ special, p x = false)
    (xs : List α) {ys : List α} (hys : ∀ y ∈ ys.head?, p y = false) :
    (escape mark special xs ++ ys).dropWhile p = escape mark special (xs.dropWhile p) ++ ys := by
  induction xs with
  | nil =>
    cases ys with
    | nil => rfl
    | cons y ys => exact List.dropWhile_cons_of_neg (by simpa using hys)
  | cons x xs ih =>
    by_cases hx : x ∈ special
    · rw [List.dropWhile_cons_of_neg (by simpa using hspecial x hx), escape_cons_of_mem _ _ hx,
        List.cons_append, List.dropWhile_cons_of_neg (by simpa using hmark)]
    · rw [escape_cons_of_notMem _ _ hx, List.cons_append, List.dropWhile_cons, List.dropWhile_cons, ih]
      split
      · rfl
      · rw [escape_cons_of_notMem _ _ hx, List.cons_append]

theorem isPrefixOf_escape {qs : List α} (hqs : ∀ q ∈ qs, q ≠ mark ∧ q ∉ special) (xs : List α)
    {ys : List α} (hys : ∀ y ∈ ys.head?, y ∉ qs) :
    qs.isPrefixOf (escape mark special xs ++ ys) = qs.isPrefixOf xs := by
  induction xs generalizing qs with
  | nil =>
    cases qs with
    | nil => simp
    | cons q qs =>
      cases ys with
      | nil => rfl
      | cons y ys =>
        have hne : q ≠ y := fun h => hys y rfl (h ▸ List.mem_cons_self)
        simp [List.isPrefixOf_cons_cons, hne]
  | cons x xs ih =>
    cases qs with
    | nil => simp
    | cons q qs =>
      obtain ⟨hmark, hq⟩ := hqs q List.mem_cons_self
      have hrest := @ih qs (fun q' h => hqs q' (List.mem_cons_of_mem q h))
        (fun y hy h => hys y hy (List.mem_cons_of_mem q h))
      by_cases hx : x ∈ special
      · have hne : q ≠ x := fun h => hq (h ▸ hx)
        rw [escape_cons_of_mem _ _ hx, List.cons_append, List.isPrefixOf_cons_cons,
          List.isPrefixOf_cons_cons, beq_false_of_ne hmark, beq_false_of_ne hne, Bool.false_and,
          Bool.false_and]
      · rw [escape_cons_of_notMem _ _ hx, List.cons_append, List.isPrefixOf_cons_cons,
          List.isPrefixOf_cons_cons, hrest]

end

end CcReminder.Lib
