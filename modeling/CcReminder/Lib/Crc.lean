import Mathlib.Algebra.Polynomial.Div
import Mathlib.Algebra.CharP.Two
import Mathlib.Algebra.Field.ZMod

/-!
# Cyclic redundancy checks

A register of `w` bits stands for a polynomial over the field of two elements, its lowest bit for the
highest coefficient. A step shifts it and adds the generator when a bit is lost: this multiplies by `X`
modulo the generator. A table of eight steps takes a byte at a time, and what is left after a message is
the remainder of the division of the message by the generator.
-/

set_option autoImplicit true

namespace CcReminder.Lib.Crc

open Polynomial

/-! ## Registers -/

def step (g v : BitVec w) : BitVec w := if v.getLsbD 0 then g ^^^ (v >>> 1) else v >>> 1

/-- A byte at a time, by the table of eight steps. -/
def update (table : Nat → BitVec w) (v : BitVec w) (b : UInt8) : BitVec w :=
  table ((v ^^^ b.toBitVec.setWidth w) &&& 0xff#w).toNat ^^^ (v >>> 8)

/-! ## Polynomials -/

def bit (v : BitVec w) (i : Nat) : ZMod 2 := if v.getLsbD i then 1 else 0

noncomputable def poly (v : BitVec w) : (ZMod 2)[X] :=
  ∑ i ∈ Finset.range w, C (bit v i) * X ^ (w - 1 - i)

/-- The generator, whose highest coefficient is not in the register. -/
noncomputable def generator (g : BitVec w) : (ZMod 2)[X] := X ^ w + poly g

/-- The bits of a message, each byte from its lowest bit on. -/
noncomputable def message (bytes : List UInt8) : (ZMod 2)[X] :=
  bytes.foldl (fun m b => m * X ^ 8 + poly b.toBitVec) 0

theorem bit_xor (v v' : BitVec w) (i : Nat) : bit (v ^^^ v') i = bit v i + bit v' i := by
  rw [bit, bit, bit, BitVec.getLsbD_xor]
  cases v.getLsbD i <;> cases v'.getLsbD i <;> decide

@[simp] theorem poly_xor (v v' : BitVec w) : poly (v ^^^ v') = poly v + poly v' := by
  simp only [poly, bit_xor, C_add, add_mul, Finset.sum_add_distrib]

theorem degree_poly_lt (v : BitVec w) : (poly v).degree < w := by
  rw [poly]
  refine (degree_sum_le _ _).trans_lt ((Finset.sup_lt_iff (WithBot.bot_lt_coe w)).mpr ?_)
  intro i hi
  have hlt := Finset.mem_range.mp hi
  refine (degree_C_mul_X_pow_le _ _).trans_lt ?_
  exact WithBot.coe_lt_coe.mpr (show w - 1 - i < w by omega)

theorem coeff_poly (v : BitVec w) (hi : i < w) : (poly v).coeff (w - 1 - i) = bit v i := by
  rw [poly, finsetSum_coeff, Finset.sum_eq_single_of_mem i (Finset.mem_range.mpr hi)]
  · rw [coeff_C_mul_X_pow, if_pos rfl]
  · intro j hj hne
    have hlt := Finset.mem_range.mp hj
    rw [coeff_C_mul_X_pow, if_neg (by omega)]

theorem poly_injective {v v' : BitVec w} (h : poly v = poly v') : v = v' := by
  refine BitVec.eq_of_getLsbD_eq fun i hi => ?_
  have hbit : bit v i = bit v' i := by rw [← coeff_poly v hi, h, coeff_poly v' hi]
  cases hv : v.getLsbD i <;> cases hv' : v'.getLsbD i <;> simp_all [bit]

theorem generator_monic (g : BitVec w) : (generator g).Monic := monic_X_pow_add (degree_poly_lt g)

theorem degree_generator (g : BitVec w) : (generator g).degree = w := by
  rw [generator, degree_add_eq_left_of_degree_lt]
  · exact degree_X_pow w
  · rw [degree_X_pow]
    exact degree_poly_lt g

/-- A shift multiplies by `X`, but for the bit that is lost. -/
theorem X_mul_poly (v : BitVec w) : X * poly v = C (bit v 0) * X ^ w + poly (v >>> 1) := by
  cases w with
  | zero => simp [poly, bit]
  | succ n =>
    have hlost : bit (v >>> 1) n = 0 := by
      rw [bit, BitVec.getLsbD_ushiftRight, BitVec.getLsbD_of_ge _ _ (by omega)]
      rfl
    rw [poly, poly, Finset.sum_range_succ', Finset.sum_range_succ, hlost]
    simp only [map_zero, zero_mul, add_zero, Nat.add_sub_cancel, Nat.sub_zero]
    rw [mul_add, Finset.mul_sum, add_comm]
    refine congrArg₂ (· + ·) (by ring) (Finset.sum_congr rfl fun i hi => ?_)
    have hlt := Finset.mem_range.mp hi
    have hbit : bit (v >>> 1) i = bit v (i + 1) := by
      rw [bit, bit, BitVec.getLsbD_ushiftRight, Nat.add_comm 1 i]
    rw [hbit, show n - i = n - (i + 1) + 1 by omega, pow_succ]
    ring

/-- A step multiplies by `X` modulo the generator. -/
theorem generator_dvd_step (g v : BitVec w) : generator g ∣ X * poly v - poly (step g v) := by
  rw [X_mul_poly, step]
  cases hbit : v.getLsbD 0 with
  | false => simp [bit, hbit]
  | true =>
    have hrest : X ^ w + poly (v >>> 1) - (poly g + poly (v >>> 1)) = generator g := by
      rw [generator, add_sub_add_right_eq_sub, CharTwo.sub_eq_add]
    simp [bit, hbit, hrest]

theorem generator_dvd_steps (g v : BitVec w) (k : Nat) :
    generator g ∣ X ^ k * poly v - poly ((step g)^[k] v) := by
  induction k generalizing v with
  | zero => simp
  | succ k ih =>
    have hsplit : X ^ (k + 1) * poly v - poly ((step g)^[k + 1] v) =
        X ^ k * (X * poly v - poly (step g v)) +
          (X ^ k * poly (step g v) - poly ((step g)^[k] (step g v))) := by
      rw [Function.iterate_succ_apply]
      ring
    rw [hsplit]
    exact dvd_add (Dvd.dvd.mul_left (generator_dvd_step g v) _) (ih _)

/-- A shift that loses nothing. -/
theorem X_pow_mul_poly (v : BitVec w) (k : Nat) (h : ∀ i < k, v.getLsbD i = false) :
    X ^ k * poly v = poly (v >>> k) := by
  induction k with
  | zero => simp
  | succ k ih =>
    have hlost : bit (v >>> k) 0 = 0 := by
      rw [bit, BitVec.getLsbD_ushiftRight, Nat.add_zero, h k (Nat.lt_succ_self k)]
      rfl
    rw [pow_succ', mul_assoc, ih fun i hi => h i (hi.trans (Nat.lt_succ_self k)), X_mul_poly, hlost,
      BitVec.shiftRight_add]
    simp

theorem poly_setWidth (b : BitVec n) (h : n ≤ w) : poly (b.setWidth w) = X ^ (w - n) * poly b := by
  have hzero : ∀ i ∈ Finset.range w, i ∉ Finset.range n →
      C (bit (b.setWidth w) i) * X ^ (w - 1 - i) = 0 := by
    intro i _ hi
    rw [bit, BitVec.getLsbD_setWidth, BitVec.getLsbD_of_ge b i (by simpa using hi)]
    simp
  rw [poly, poly, ← Finset.sum_subset (Finset.range_mono h) hzero, Finset.mul_sum]
  refine Finset.sum_congr rfl fun i hi => ?_
  have hlt := Finset.mem_range.mp hi
  have hbit : bit (b.setWidth w) i = bit b i := by
    rw [bit, bit, BitVec.getLsbD_setWidth]
    simp [hlt.trans_le h]
  rw [hbit, show w - 1 - i = w - n + (n - 1 - i) by omega, pow_add]
  ring

/-! ## A byte at a time -/

/-- The entry of a byte is eight steps from it. -/
def IsTable (g : BitVec w) (table : Nat → BitVec w) : Prop :=
  ∀ i < 256, table i = (step g)^[8] (BitVec.ofNat w i)

variable {g : BitVec w} {table : Nat → BitVec w}

/-- A byte multiplies by `X ^ 8` and adds the byte in front of the register. -/
theorem generator_dvd_update (ht : IsTable g table) (hw : 8 ≤ w) (v : BitVec w) (b : UInt8) :
    generator g ∣ X ^ 8 * poly v + X ^ w * poly b.toBitVec - poly (update table v b) := by
  let u := v ^^^ b.toBitVec.setWidth w
  let low := u &&& 0xff#w
  have hlow : low.toNat < 256 := by
    have hle : low.toNat ≤ (0xff#w).toNat := by
      rw [BitVec.toNat_and]
      exact Nat.and_le_right
    have hff : (0xff#w).toNat ≤ 0xff := by
      rw [BitVec.toNat_ofNat]
      exact Nat.mod_le _ _
    omega
  have hentry : table low.toNat = (step g)^[8] low := by
    rw [ht _ hlow, BitVec.ofNat_toNat, BitVec.setWidth_eq]
  have hbits (i : Nat) : low.getLsbD i = (decide (i < 8) && u.getLsbD i) := by
    rw [BitVec.getLsbD_and, BitVec.getLsbD_ofNat, show 0xff = 2 ^ 8 - 1 from rfl,
      Nat.testBit_two_pow_sub_one]
    by_cases hi : i < 8
    · simp [hi, hi.trans_le hw]
    · simp [hi]
  have hhigh : X ^ 8 * poly (u ^^^ low) = poly (v >>> 8) := by
    rw [X_pow_mul_poly (u ^^^ low) 8]
    · refine congrArg poly (BitVec.eq_of_getLsbD_eq fun i hi => ?_)
      rw [BitVec.getLsbD_ushiftRight, BitVec.getLsbD_ushiftRight, BitVec.getLsbD_xor, hbits,
        BitVec.getLsbD_xor, BitVec.getLsbD_setWidth, BitVec.getLsbD_of_ge b.toBitVec _ (by omega)]
      simp
    · intro i hi
      rw [BitVec.getLsbD_xor, hbits]
      simp [hi]
  have hu : X ^ 8 * poly v + X ^ w * poly b.toBitVec = X ^ 8 * poly u := by
    rw [poly_xor, poly_setWidth _ hw, mul_add, ← mul_assoc, ← pow_add, Nat.add_sub_cancel' hw]
  have hparts : poly u = poly low + poly (u ^^^ low) := by
    rw [← poly_xor, BitVec.xor_comm u low, ← BitVec.xor_assoc, BitVec.xor_self, BitVec.zero_xor]
  have hupdate : poly (update table v b) = poly ((step g)^[8] low) + poly (v >>> 8) := by
    rw [← hentry, ← poly_xor]
    rfl
  rw [hu, hparts, hupdate, mul_add, hhigh, add_sub_add_right_eq_sub]
  exact generator_dvd_steps g low 8

theorem message_append_singleton (bytes : List UInt8) (b : UInt8) :
    message (bytes ++ [b]) = message bytes * X ^ 8 + poly b.toBitVec := by
  rw [message, message, List.foldl_append]
  rfl

theorem generator_dvd_foldl (ht : IsTable g table) (hw : 8 ≤ w) (v : BitVec w)
    (bytes : List UInt8) :
    generator g ∣ X ^ (8 * bytes.length) * poly v + X ^ w * message bytes -
      poly (bytes.foldl (update table) v) := by
  induction bytes using List.reverseRecOn with
  | nil => simp [message]
  | append_singleton bytes b ih =>
    have hbyte := generator_dvd_update ht hw (bytes.foldl (update table) v) b
    have hsplit : X ^ (8 * (bytes ++ [b]).length) * poly v + X ^ w * message (bytes ++ [b]) -
          poly ((bytes ++ [b]).foldl (update table) v) =
        X ^ 8 * (X ^ (8 * bytes.length) * poly v + X ^ w * message bytes -
            poly (bytes.foldl (update table) v)) +
          (X ^ 8 * poly (bytes.foldl (update table) v) + X ^ w * poly b.toBitVec -
            poly (update table (bytes.foldl (update table) v) b)) := by
      rw [message_append_singleton, List.foldl_append, List.foldl_cons, List.foldl_nil,
        List.length_append, List.length_singleton, Nat.mul_add, Nat.mul_one, pow_add]
      ring
    rw [hsplit]
    exact dvd_add (Dvd.dvd.mul_left ih _) hbyte

/-- What is left in the register is the remainder of the division by the generator. -/
theorem poly_foldl (ht : IsTable g table) (hw : 8 ≤ w) (v : BitVec w) (bytes : List UInt8) :
    poly (bytes.foldl (update table) v) =
      (X ^ (8 * bytes.length) * poly v + X ^ w * message bytes) %ₘ generator g := by
  have hdvd := generator_dvd_foldl ht hw v bytes
  have hsmall : (poly (bytes.foldl (update table) v)).degree < (generator g).degree := by
    rw [degree_generator]
    exact degree_poly_lt _
  rw [(modByMonic_eq_of_dvd_sub (generator_monic g) hdvd),
    (modByMonic_eq_self_iff (generator_monic g)).mpr hsmall]

end CcReminder.Lib.Crc
