import Mathlib.Data.List.Basic

/-!
# Base64

The standard alphabet, with padding. Three bytes are four characters, and only a rest of one or two
bytes is padded.
-/

namespace CcReminder.Lib.Base64

def alphabet : List Char :=
  "ABCDEFGHIJKLMNOPQRSTUVWXYZabcdefghijklmnopqrstuvwxyz0123456789+/".toList

/-- The character of six bits. -/
def digit (n : Nat) : Char := alphabet.getD (n % 64) 'A'

def encode : List UInt8 → List Char
  | [] => []
  | [a] => [digit (a.toNat / 4), digit (a.toNat % 4 * 16), '=', '=']
  | [a, b] =>
    [digit (a.toNat / 4), digit (a.toNat % 4 * 16 + b.toNat / 16), digit (b.toNat % 16 * 4), '=']
  | a :: b :: c :: bs =>
    [digit (a.toNat / 4), digit (a.toNat % 4 * 16 + b.toNat / 16),
      digit (b.toNat % 16 * 4 + c.toNat / 64), digit (c.toNat % 64)] ++ encode bs

theorem digit_ne_pad (n : Nat) : digit n ≠ '=' := by
  have hall : ∀ i < 64, alphabet.getD i 'A' ≠ '=' := by decide +kernel
  exact hall _ (Nat.mod_lt n (by decide))

/-- Padding is what is missing to a multiple of three bytes. -/
theorem pad_mem_encode_iff : ∀ bs : List UInt8, '=' ∈ encode bs ↔ bs.length % 3 ≠ 0
  | [] => by simp [encode]
  | [a] => by simp [encode]
  | [a, b] => by simp [encode]
  | a :: b :: c :: bs => by
    have ih := pad_mem_encode_iff bs
    simp only [encode, List.cons_append, List.nil_append, List.mem_cons, ih, List.length_cons]
    have hne := fun n => (digit_ne_pad n).symm
    simp only [hne, false_or]
    omega

end CcReminder.Lib.Base64
