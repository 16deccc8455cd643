import Mathlib.Data.Nat.Digits.Defs

/-!
# Numbers as bytes

A number in a fixed count of bytes, the lowest first, and the number that bytes stand for. A count of bytes
that can hold the number gives it back, so the encoding is injective on what fits.
-/

set_option autoImplicit true

namespace CcReminder.Lib

def littleEndian (k n : Nat) : List UInt8 := (List.range k).map fun i => UInt8.ofNat (n / 256 ^ i)

def ofLittleEndian (bytes : List UInt8) : Nat := Nat.ofDigits 256 (bytes.map (·.toNat))

@[simp] theorem littleEndian_length (k n : Nat) : (littleEndian k n).length = k := by
  rw [littleEndian, List.length_map, List.length_range]

/-- The lowest `n` digits of a number. -/
theorem ofDigits_range (b m n : Nat) :
    Nat.ofDigits b ((List.range n).map fun i => m / b ^ i % b) = m % b ^ n := by
  induction n with
  | zero => simp [Nat.mod_one]
  | succ n ih =>
    rw [List.range_succ, List.map_append, Nat.ofDigits_append, ih, List.map_singleton,
      Nat.ofDigits_singleton, List.length_map, List.length_range, Nat.mod_pow_succ]

@[simp] theorem ofLittleEndian_littleEndian (k n : Nat) :
    ofLittleEndian (littleEndian k n) = n % 256 ^ k := by
  have hbyte : ((List.range k).map fun i => UInt8.ofNat (n / 256 ^ i)).map (·.toNat) =
      (List.range k).map fun i => n / 256 ^ i % 256 := by
    rw [List.map_map]
    exact List.map_congr_left fun i _ => UInt8.toNat_ofNat'
  rw [ofLittleEndian, littleEndian, hbyte, ofDigits_range]

theorem littleEndian_injective (hm : m < 256 ^ k) (hn : n < 256 ^ k)
    (h : littleEndian k m = littleEndian k n) : m = n := by
  have hvalue := congrArg ofLittleEndian h
  rwa [ofLittleEndian_littleEndian, ofLittleEndian_littleEndian, Nat.mod_eq_of_lt hm,
    Nat.mod_eq_of_lt hn] at hvalue

end CcReminder.Lib
