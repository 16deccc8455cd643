import Mathlib.Data.List.Lex
import Mathlib.Tactic.Ring

/-!
# Fields of fixed width

Texts in the order of their bytes. Fields of the same width compare field by field, and decimal digits of
the same width compare as the numbers do.
-/

set_option autoImplicit true

namespace CcReminder.Lib

/-! ## Fields -/

theorem append_lt_append_iff [LT β] {xs xs' ys ys' : List β} (h : xs.length = xs'.length) :
    xs ++ ys < xs' ++ ys' ↔ xs < xs' ∨ xs = xs' ∧ ys < ys' := by
  induction xs generalizing xs' with
  | nil =>
    cases xs' with
    | nil => simp
    | cons x' xs' => cases h
  | cons x xs ih =>
    cases xs' with
    | nil => cases h
    | cons x' xs' =>
      rw [List.cons_append, List.cons_append, List.cons_lt_cons_iff, List.cons_lt_cons_iff,
        ih (Nat.succ.inj h), List.cons.injEq]
      tauto

/-! ## Digits -/

/-- A number below `10 ^ k` in `k` decimal digits in ASCII, the highest first. -/
def digits : Nat → Nat → List UInt8
  | 0, _ => []
  | k + 1, n => UInt8.ofNat (48 + n / 10 ^ k) :: digits k (n % 10 ^ k)

@[simp] theorem digits_length (k n : Nat) : (digits k n).length = k := by
  induction k generalizing n with
  | zero => rfl
  | succ k ih => rw [digits, List.length_cons, ih]

/-- The digits of a number, cut in two. -/
theorem digits_add (hn : n < 10 ^ (j + k)) :
    digits (j + k) n = digits j (n / 10 ^ k) ++ digits k (n % 10 ^ k) := by
  induction j generalizing n with
  | zero =>
    rw [Nat.zero_add] at hn ⊢
    rw [Nat.mod_eq_of_lt hn]
    rfl
  | succ j ih =>
    have hhead : n / 10 ^ (j + k) = n / 10 ^ k / 10 ^ j := by
      rw [Nat.div_div_eq_div_mul, ← pow_add, Nat.add_comm]
    have hmiddle : n % 10 ^ (j + k) / 10 ^ k = n / 10 ^ k % 10 ^ j := by
      rw [Nat.add_comm, pow_add, Nat.mod_mul_right_div_self]
    have hlast : n % 10 ^ (j + k) % 10 ^ k = n % 10 ^ k := by
      rw [Nat.add_comm, pow_add, Nat.mod_mul_right_mod]
    have hrest := ih (Nat.mod_lt n (Nat.pow_pos (by decide) : 0 < 10 ^ (j + k)))
    rw [Nat.succ_add, digits, digits, hrest, List.cons_append, hhead, hmiddle, hlast]

/-- Two numbers compare as their quotients do, and then as their remainders. -/
theorem div_mod_lt_iff (m n k : Nat) : m / k < n / k ∨ m / k = n / k ∧ m % k < n % k ↔ m < n := by
  have hm := Nat.div_add_mod m k
  have hn := Nat.div_add_mod n k
  constructor
  · rintro (hlt | ⟨heq, hlt⟩)
    · exact Nat.lt_of_div_lt_div hlt
    · rw [← hm, ← hn, heq]
      exact Nat.add_lt_add_left hlt _
  · intro hlt
    rcases (Nat.div_le_div_right (c := k) hlt.le).lt_or_eq with hlt' | heq
    · exact .inl hlt'
    · refine .inr ⟨heq, ?_⟩
      rw [← hm, ← hn, heq] at hlt
      exact Nat.lt_of_add_lt_add_left hlt

theorem digit_lt_iff (hm : m < 10) (hn : n < 10) :
    UInt8.ofNat (48 + m) < UInt8.ofNat (48 + n) ↔ m < n := by
  rw [UInt8.lt_iff_toNat_lt, UInt8.toNat_ofNat', UInt8.toNat_ofNat']
  omega

theorem digit_inj (hm : m < 10) (hn : n < 10) : UInt8.ofNat (48 + m) = UInt8.ofNat (48 + n) ↔ m = n := by
  rw [← UInt8.toNat_inj, UInt8.toNat_ofNat', UInt8.toNat_ofNat']
  omega

theorem digits_lt_iff (hm : m < 10 ^ k) (hn : n < 10 ^ k) : digits k m < digits k n ↔ m < n := by
  induction k generalizing m n with
  | zero =>
    rw [pow_zero] at hm hn
    obtain rfl : m = n := by omega
    simp [digits]
  | succ k ih =>
    have hpos : 0 < 10 ^ k := Nat.pow_pos (by decide)
    have hhead : m / 10 ^ k < 10 := Nat.div_lt_of_lt_mul hm
    have hhead' : n / 10 ^ k < 10 := Nat.div_lt_of_lt_mul hn
    have hrest := ih (Nat.mod_lt m hpos) (Nat.mod_lt n hpos)
    rw [digits, digits, List.cons_lt_cons_iff, digit_lt_iff hhead hhead',
      digit_inj hhead hhead', hrest]
    exact div_mod_lt_iff m n (10 ^ k)

/-- A field of digits in front. -/
theorem digits_append_lt_iff (hm : m < 10 ^ k) (hn : n < 10 ^ k) :
    digits k m ++ xs < digits k n ++ xs' ↔ m < n ∨ m = n ∧ xs < xs' := by
  rw [append_lt_append_iff (by rw [digits_length, digits_length]), digits_lt_iff hm hn]
  have hinj : digits k m = digits k n ↔ m = n := by
    refine ⟨fun h => ?_, fun h => h ▸ rfl⟩
    rcases lt_trichotomy m n with hlt | heq | hlt
    · exact absurd ((digits_lt_iff hm hn).mpr hlt) (h ▸ List.lt_irrefl _)
    · exact heq
    · exact absurd ((digits_lt_iff hn hm).mpr hlt) (h ▸ List.lt_irrefl _)
  rw [hinj]

end CcReminder.Lib
