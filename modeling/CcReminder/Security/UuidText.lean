import CcReminder.Lib.Bytes
import CcReminder.Storage.Queue.Basic

/-!
# Identifiers as text

A `Uuid` is displayed as 32 lower-case digits in five groups. `Uuid::parse_str` reads the digits in
either case, with all the hyphens or none, and the hyphenated form also in braces or as a URN.
-/

set_option autoImplicit true

namespace CcReminder

open Lib

/-! ## Digits -/

/-- The digits, the highest first. -/
def Uuid.digits (id : Uuid) : List Nat :=
  ((List.range 32).map fun i => id.toNat / 16 ^ i % 16).reverse

def Uuid.ofDigits (digits : List Nat) : Uuid := BitVec.ofNat 128 (Nat.ofDigits 16 digits.reverse)

theorem Uuid.ofDigits_digits (id : Uuid) : Uuid.ofDigits id.digits = id := by
  rw [Uuid.ofDigits, Uuid.digits, List.reverse_reverse, ofDigits_range]
  refine BitVec.eq_of_toNat_eq ?_
  rw [BitVec.toNat_ofNat, show (16 : Nat) ^ 32 = 2 ^ 128 by decide, Nat.mod_mod,
    Nat.mod_eq_of_lt id.isLt]

theorem Uuid.digits_lt (id : Uuid) : ∀ d ∈ id.digits, d < 16 := by
  intro d hd
  simp only [Uuid.digits, List.mem_reverse, List.mem_map] at hd
  obtain ⟨i, -, rfl⟩ := hd
  exact Nat.mod_lt _ (by decide)

@[simp] theorem Uuid.digits_length (id : Uuid) : id.digits.length = 32 := by
  simp [Uuid.digits]

/-- A digit in either case. -/
def hexValue? (c : Char) : Option Nat :=
  if '0' ≤ c ∧ c ≤ '9' then some (c.toNat - 48)
  else if 'a' ≤ c ∧ c ≤ 'f' then some (c.toNat - 87)
  else if 'A' ≤ c ∧ c ≤ 'F' then some (c.toNat - 55)
  else none

theorem hexValue_hexDigit : ∀ d < 16, hexValue? (hexDigit d) = some d := by decide

theorem mapM_hexValue {digits : List Nat} (h : ∀ d ∈ digits, d < 16) :
    (digits.map hexDigit).mapM hexValue? = some digits := by
  induction digits with
  | nil => rfl
  | cons d digits ih =>
    have hd := hexValue_hexDigit d (h d List.mem_cons_self)
    have hrest := ih fun d' hd' => h d' (List.mem_cons_of_mem d hd')
    rw [List.map_cons, List.mapM_cons, hd, hrest]
    rfl

/-! ## Groups -/

/-- Hyphens between groups of these lengths. -/
def joinGroups : List Nat → List Char → List Char
  | n :: m :: ns, cs => cs.take n ++ '-' :: joinGroups (m :: ns) (cs.drop n)
  | _, cs => cs

def splitGroups? : List Nat → List Char → Option (List Char)
  | n :: m :: ns, cs =>
    if cs[n]? = some '-' then (splitGroups? (m :: ns) (cs.drop (n + 1))).map (cs.take n ++ ·)
    else none
  | ns, cs => if cs.length = ns.sum then some cs else none

theorem splitGroups_joinGroups (ns : List Nat) (cs : List Char) (h : cs.length = ns.sum) :
    splitGroups? ns (joinGroups ns cs) = some cs := by
  induction ns, cs using joinGroups.induct with
  | case1 n m ns cs ih =>
    rw [List.sum_cons] at h
    have htake : (cs.take n).length = n := by
      rw [List.length_take]
      omega
    have hrest := ih (by rw [List.length_drop]; omega)
    have hhyphen : (cs.take n ++ '-' :: joinGroups (m :: ns) (cs.drop n))[n]? = some '-' := by
      rw [List.getElem?_append_right (Nat.le_of_eq htake), htake, Nat.sub_self]
      rfl
    have hhead : (cs.take n ++ '-' :: joinGroups (m :: ns) (cs.drop n)).take n = cs.take n :=
      List.take_left' htake
    have htail : (cs.take n ++ '-' :: joinGroups (m :: ns) (cs.drop n)).drop (n + 1) =
        joinGroups (m :: ns) (cs.drop n) := by
      rw [List.drop_append, htake, Nat.add_sub_cancel_left, List.drop_eq_nil_of_le (by omega)]
      rfl
    rw [joinGroups, splitGroups?, if_pos hhyphen, hhead, htail, hrest, Option.map_some,
      List.take_append_drop]
  | case2 ns cs hns =>
    have hsplit : ∀ cs, splitGroups? ns cs = if cs.length = ns.sum then some cs else none := by
      intro cs
      match ns, hns with
      | [], _ => rfl
      | [_], _ => rfl
      | n :: m :: ns, hns => exact absurd rfl (hns n m ns)
    have hjoin : joinGroups ns cs = cs := by
      match ns, hns with
      | [], _ => rfl
      | [_], _ => rfl
      | n :: m :: ns, hns => exact absurd rfl (hns n m ns)
    rw [hjoin, hsplit, if_pos h]

/-! ## Text -/

def uuidGroups : List Nat := [8, 4, 4, 4, 12]

def Uuid.toText (id : Uuid) : String :=
  String.ofList (joinGroups uuidGroups (id.digits.map hexDigit))

def parseDigits (cs : List Char) : Option Uuid := (cs.mapM hexValue?).map Uuid.ofDigits

def parseHyphenated (cs : List Char) : Option Uuid := (splitGroups? uuidGroups cs).bind parseDigits

/-- `Uuid::parse_str`, which first looks at the length. -/
def parseUuid (text : String) : Option Uuid :=
  let cs := text.toList
  if cs.length = 32 then parseDigits cs
  else if cs.length = 36 then parseHyphenated cs
  else if cs.length = 38 ∧ cs.head? = some '{' ∧ cs.getLast? = some '}' then
    parseHyphenated (cs.drop 1).dropLast
  else if cs.length = 45 ∧ "urn:uuid:".toList.isPrefixOf cs then parseHyphenated (cs.drop 9)
  else none

theorem joinGroups_length (ns : List Nat) (cs : List Char) (h : cs.length = ns.sum) :
    (joinGroups ns cs).length = ns.sum + (ns.length - 1) := by
  induction ns, cs using joinGroups.induct with
  | case1 n m ns cs ih =>
    rw [List.sum_cons] at h
    have hrest := ih (by rw [List.length_drop]; omega)
    rw [joinGroups, List.length_append, List.length_cons, hrest, List.length_take]
    simp only [List.length_cons, List.sum_cons, Nat.add_sub_cancel] at h ⊢
    omega
  | case2 ns cs hns =>
    match ns, hns with
    | [], _ => simpa [joinGroups] using h
    | [_], _ => simpa [joinGroups] using h
    | n :: m :: ns, hns => exact absurd rfl (hns n m ns)

@[simp] theorem Uuid.toText_length (id : Uuid) : id.toText.toList.length = 36 := by
  have hsum : (id.digits.map hexDigit).length = uuidGroups.sum := by simp [uuidGroups]
  rw [Uuid.toText, String.toList_ofList, joinGroups_length _ _ hsum]
  rfl

/-- **Round trip.** What is displayed is read back. -/
@[simp] theorem parseUuid_toText (id : Uuid) : parseUuid id.toText = some id := by
  have hsum : (id.digits.map hexDigit).length = uuidGroups.sum := by simp [uuidGroups]
  have hlen := joinGroups_length uuidGroups _ hsum
  rw [parseUuid, Uuid.toText, String.toList_ofList, if_neg (by rw [hlen]; decide),
    if_pos (by rw [hlen]; decide), parseHyphenated, splitGroups_joinGroups _ _ hsum,
    Option.bind_some, parseDigits, mapM_hexValue id.digits_lt, Option.map_some,
    Uuid.ofDigits_digits]

theorem Uuid.toText_injective {id id' : Uuid} (h : id.toText = id'.toText) : id = id' :=
  Option.some.inj (by rw [← parseUuid_toText id, h, parseUuid_toText])

example : Uuid.toText 0x0190a1b2c3d47e8f9012345678abcdef = "0190a1b2-c3d4-7e8f-9012-345678abcdef" := by
  decide +kernel

end CcReminder
