import Mathlib.Data.List.Induction
import Mathlib.Data.List.Perm.Basic

/-!
# The last element with the greatest key

`maxByKey` goes through a list and keeps the later of two elements with the same key. On a list of
elements that their keys tell apart it does not depend on the order.
-/

set_option autoImplicit true

namespace CcReminder.Lib

/-- The later of two elements, unless the earlier has the greater key. -/
def laterMax (key : α → Nat) : Option α → Option α → Option α
  | none, b => b
  | a, none => a
  | some a, some b => some (if key a ≤ key b then b else a)

/-- The last element with the greatest key. -/
def maxByKey (key : α → Nat) (items : List α) : Option α :=
  items.foldl (fun best a => laterMax key best (some a)) none

variable {key : α → Nat}

theorem laterMax_none (a : Option α) : laterMax key a none = a := by
  cases a <;> rfl

theorem laterMax_assoc (a b c : Option α) :
    laterMax key (laterMax key a b) c = laterMax key a (laterMax key b c) := by
  cases a with
  | none => rfl
  | some a =>
    cases b with
    | none => rfl
    | some b =>
      cases c with
      | none => rfl
      | some c =>
        simp only [laterMax, Option.some.injEq]
        split <;> split <;> (try split) <;> first | rfl | omega

theorem foldl_laterMax (items : List α) (best : Option α) :
    items.foldl (fun best a => laterMax key best (some a)) best =
      laterMax key best (maxByKey key items) := by
  induction items generalizing best with
  | nil => exact (laterMax_none best).symm
  | cons a items ih =>
    rw [maxByKey, List.foldl_cons, List.foldl_cons, ih, ih (laterMax key none (some a)),
      ← laterMax_assoc]
    rfl

theorem maxByKey_append (as bs : List α) :
    maxByKey key (as ++ bs) = laterMax key (maxByKey key as) (maxByKey key bs) := by
  rw [maxByKey, List.foldl_append, foldl_laterMax]
  rfl

theorem mem_of_maxByKey {items : List α} (h : maxByKey key items = some a) : a ∈ items := by
  induction items using List.reverseRecOn with
  | nil => cases h
  | append_singleton items b ih =>
    rw [maxByKey_append] at h
    rw [List.mem_append, List.mem_singleton]
    cases hmax : maxByKey key items with
    | none =>
      rw [hmax] at h
      cases h
      exact .inr rfl
    | some best =>
      rw [hmax] at h
      change some (if key best ≤ key b then b else best) = some a at h
      split at h <;> cases h
      · exact .inr rfl
      · exact .inl (ih hmax)

theorem maxByKey_map (f : β → α) (items : List β) :
    maxByKey key (items.map f) = (maxByKey (key ∘ f) items).map f := by
  induction items using List.reverseRecOn with
  | nil => rfl
  | append_singleton items b ih =>
    rw [List.map_append, maxByKey_append, maxByKey_append, ih]
    cases maxByKey (key ∘ f) items with
    | none => rfl
    | some a =>
      change some (if key (f a) ≤ key (f b) then f b else f a) =
        some (f (if key (f a) ≤ key (f b) then b else a))
      split <;> rfl

theorem maxByKey_eq_none {items : List α} (h : maxByKey key items = none) : items = [] := by
  induction items using List.reverseRecOn with
  | nil => rfl
  | append_singleton items b ih =>
    rw [maxByKey_append] at h
    cases hmax : maxByKey key items with
    | none =>
      rw [hmax] at h
      cases h
    | some best =>
      rw [hmax] at h
      cases h

/-- **The last of the greatest.** Nothing before it has a greater key, and everything behind it has
a smaller one. -/
theorem maxByKey_eq_some_iff {items : List α} : maxByKey key items = some a ↔
    ∃ before after, items = before ++ a :: after ∧ (∀ b ∈ before, key b ≤ key a) ∧
      ∀ b ∈ after, key b < key a := by
  constructor
  · intro h
    induction items using List.reverseRecOn generalizing a with
    | nil => cases h
    | append_singleton items b ih =>
      rw [maxByKey_append] at h
      cases hmax : maxByKey key items with
      | none =>
        rw [hmax] at h
        cases h
        exact ⟨[], [], by rw [maxByKey_eq_none hmax], nofun, nofun⟩
      | some best =>
        obtain ⟨before, after, rfl, hbefore, hafter⟩ := ih hmax
        rw [hmax] at h
        change some (if key best ≤ key b then b else best) = some a at h
        split at h <;> rename_i hle <;> cases h
        · refine ⟨before ++ best :: after, [], rfl, fun x hx => ?_, nofun⟩
          rcases List.mem_append.mp hx with hx | hx
          · exact Nat.le_trans (hbefore x hx) hle
          · rcases List.mem_cons.mp hx with rfl | hx
            · exact hle
            · exact Nat.le_trans (Nat.le_of_lt (hafter x hx)) hle
        · refine ⟨before, after ++ [b], by simp, hbefore, fun x hx => ?_⟩
          rcases List.mem_append.mp hx with hx | hx
          · exact hafter x hx
          · rw [List.mem_singleton.mp hx]
            exact Nat.not_le.mp hle
  · rintro ⟨before, after, rfl, hbefore, hafter⟩
    have hcons : maxByKey key (a :: after) = some a := by
      change maxByKey key ([a] ++ after) = some a
      rw [maxByKey_append]
      cases hmax : maxByKey key after with
      | none => rfl
      | some b =>
        have hlt := hafter b (mem_of_maxByKey hmax)
        change some (if key a ≤ key b then b else a) = some a
        rw [if_neg (by omega)]
    rw [maxByKey_append, hcons]
    cases hmax : maxByKey key before with
    | none => rfl
    | some b =>
      have hle := hbefore b (mem_of_maxByKey hmax)
      change some (if key b ≤ key a then a else b) = some a
      rw [if_pos hle]

theorem laterMax_comm (best : Option α) {a b : α} (h : key a = key b → a = b) :
    laterMax key (laterMax key best (some a)) (some b) =
      laterMax key (laterMax key best (some b)) (some a) := by
  rw [laterMax_assoc, laterMax_assoc]
  congr 1
  simp only [laterMax, Option.some.injEq]
  split <;> split
  · exact (h (by omega)).symm
  · rfl
  · rfl
  · omega

/-- Elements that their keys tell apart may come in any order. -/
theorem maxByKey_perm {as bs : List α} (h : as.Perm bs)
    (hkey : ∀ a ∈ as, ∀ b ∈ as, key a = key b → a = b) : maxByKey key as = maxByKey key bs :=
  h.foldl_eq' (fun a ha b hb best => laterMax_comm best (hkey a ha b hb)) none

end CcReminder.Lib
