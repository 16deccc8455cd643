import CcReminder.Lib.Utf8
import Mathlib.Data.List.Basic

/-!
# Form encoding

`application/x-www-form-urlencoded` over the bytes of a query: a letter, a digit and `*-._` stand
for themselves, a space is `+` and every other byte is a percent sign with two digits. Pairs are
joined by `&`, and a name and its value by `=`; neither sign occurs in what is encoded, so a query
that was built pair by pair is read back as these pairs.
-/

set_option autoImplicit true

namespace CcReminder.Lib.Form

def isAlphanumeric (b : UInt8) : Bool :=
  48 ≤ b ∧ b ≤ 57 ∨ 65 ≤ b ∧ b ≤ 90 ∨ 97 ≤ b ∧ b ≤ 122

/-- A byte that stands for itself. -/
def isUnchanged (b : UInt8) : Bool := isAlphanumeric b ∨ b = 42 ∨ b = 45 ∨ b = 46 ∨ b = 95

/-- An upper-case hexadecimal digit. -/
def hexUpper (n : Nat) : UInt8 := UInt8.ofNat (if n < 10 then 48 + n else 55 + n)

def hexValue (b : UInt8) : Option Nat :=
  if 48 ≤ b ∧ b ≤ 57 then some (b.toNat - 48)
  else if 65 ≤ b ∧ b ≤ 70 then some (b.toNat - 55)
  else if 97 ≤ b ∧ b ≤ 102 then some (b.toNat - 87)
  else none

/-- `%XX`. -/
def percent (b : UInt8) : List UInt8 := [37, hexUpper (b.toNat / 16), hexUpper (b.toNat % 16)]

/-- Each `%XX` is a byte; a percent sign in front of anything else stands for itself. -/
def percentDecode : List UInt8 → List UInt8
  | [] => []
  | 37 :: a :: b :: bs =>
    match hexValue a, hexValue b with
    | some high, some low => UInt8.ofNat (high * 16 + low) :: percentDecode bs
    | _, _ => 37 :: percentDecode (a :: b :: bs)
  | b :: bs => b :: percentDecode bs

/-- Every byte that is not kept becomes `%XX`. -/
def percentEncode (keep : UInt8 → Bool) (bs : List UInt8) : List UInt8 :=
  bs.flatMap fun b => if keep b then [b] else percent b

def serializeByte (b : UInt8) : List UInt8 :=
  if isUnchanged b then [b] else if b = 32 then [43] else percent b

def byteSerialize (bs : List UInt8) : List UInt8 := bs.flatMap serializeByte

/-- The text that a name or a value stands for. -/
def decode (bs : List UInt8) : List Char :=
  utf8Lossy (percentDecode (bs.map fun b => if b = 43 then 32 else b))

def encodePair (p : List Char × List Char) : List UInt8 :=
  byteSerialize (utf8 p.1) ++ 61 :: byteSerialize (utf8 p.2)

/-- One more pair at the end of a query. -/
def appendPair (query : List UInt8) (p : List Char × List Char) : List UInt8 :=
  if query = [] then encodePair p else query ++ 38 :: encodePair p

def parsePair (piece : List UInt8) : List Char × List Char :=
  (decode (piece.takeWhile (· ≠ 61)), decode ((piece.dropWhile (· ≠ 61)).drop 1))

/-- The pairs of a query. -/
def parse (query : List UInt8) : List (List Char × List Char) :=
  ((query.splitOn 38).filter (· ≠ [])).map parsePair

/-! ## One component -/

theorem percentDecode_cons_ne {b : UInt8} (h : b ≠ 37) (bs : List UInt8) :
    percentDecode (b :: bs) = b :: percentDecode bs := by
  rw [percentDecode]
  intro a b' bs' hb
  exact absurd hb h

theorem hexValue_hexUpper {n : Nat} (h : n < 16) : hexValue (hexUpper n) = some n := by
  have hall : ∀ n < 16, hexValue (hexUpper n) = some n := by decide
  exact hall n h

theorem percentDecode_percent (b : UInt8) (bs : List UInt8) :
    percentDecode (percent b ++ bs) = b :: percentDecode bs := by
  have hb := b.toNat_lt
  have hhigh : hexValue (hexUpper (b.toNat / 16)) = some (b.toNat / 16) :=
    hexValue_hexUpper (by omega)
  have hlow : hexValue (hexUpper (b.toNat % 16)) = some (b.toNat % 16) :=
    hexValue_hexUpper (by omega)
  simp only [percent, List.cons_append, List.nil_append, percentDecode, hhigh, hlow]
  rw [show b.toNat / 16 * 16 + b.toNat % 16 = b.toNat by omega, UInt8.ofNat_toNat]

/-- The bytes of the encoding are no separators; the digits are letters and digits. -/
theorem mem_percent {b b' : UInt8} (h : b' ∈ percent b) : b' = 37 ∨ isAlphanumeric b' = true := by
  have hall : ∀ n < 16, isAlphanumeric (hexUpper n) = true := by decide
  have hb := b.toNat_lt
  simp only [percent, List.mem_cons, List.not_mem_nil, or_false] at h
  rcases h with rfl | rfl | rfl
  · exact .inl rfl
  · exact .inr (hall _ (by omega))
  · exact .inr (hall _ (by omega))

theorem mem_percentEncode {keep : UInt8 → Bool} {bs : List UInt8} (h : b ∈ percentEncode keep bs) :
    keep b = true ∨ b = 37 ∨ isAlphanumeric b = true := by
  obtain ⟨b₀, -, hb⟩ := List.mem_flatMap.mp h
  split at hb
  · rename_i hkeep
    obtain rfl := List.mem_singleton.mp hb
    exact .inl hkeep
  · exact .inr (mem_percent hb)

/-- An encoding that keeps no percent sign is decoded. -/
theorem percentDecode_percentEncode {keep : UInt8 → Bool} (hkeep : keep 37 = false)
    (bs : List UInt8) : percentDecode (percentEncode keep bs) = bs := by
  induction bs with
  | nil => rfl
  | cons b bs ih =>
    rw [percentEncode, List.flatMap_cons]
    change percentDecode (_ ++ percentEncode keep bs) = _
    split
    · rename_i hb
      have hne : b ≠ 37 := by
        rintro rfl
        exact absurd hb (by simp [hkeep])
      rw [List.singleton_append, percentDecode_cons_ne hne, ih]
    · rw [percentDecode_percent, ih]

theorem mem_byteSerialize {bs : List UInt8} (h : b ∈ byteSerialize bs) :
    b = 37 ∨ b = 43 ∨ isUnchanged b = true := by
  obtain ⟨b₀, -, hb⟩ := List.mem_flatMap.mp h
  unfold serializeByte at hb
  split at hb
  · rename_i hunchanged
    obtain rfl := List.mem_singleton.mp hb
    exact .inr (.inr hunchanged)
  split at hb
  · exact .inr (.inl (List.mem_singleton.mp hb))
  · rcases mem_percent hb with h | h
    · exact .inl h
    · exact .inr (.inr (by simp [isUnchanged, h]))

theorem ne_of_isUnchanged {b : UInt8} (h : isUnchanged b = true) :
    b ≠ 37 ∧ b ≠ 38 ∧ b ≠ 43 ∧ b ≠ 61 := by
  refine ⟨?_, ?_, ?_, ?_⟩ <;> rintro rfl <;> exact absurd h (by decide)

theorem not_mem_byteSerialize (bs : List UInt8) : 38 ∉ byteSerialize bs ∧ 61 ∉ byteSerialize bs := by
  constructor <;> intro h <;> rcases mem_byteSerialize h with h | h | h <;>
    exact absurd h (by decide)

/-- What was encoded is decoded, whatever follows. -/
theorem percentDecode_byteSerialize (bs rest : List UInt8) :
    percentDecode ((byteSerialize bs).map (fun b => if b = 43 then 32 else b) ++ rest) =
      bs ++ percentDecode rest := by
  induction bs with
  | nil => rfl
  | cons b bs ih =>
    simp only [byteSerialize, List.flatMap_cons, List.map_append, List.append_assoc,
      List.cons_append] at ih ⊢
    rw [← ih]
    unfold serializeByte
    split
    · rename_i hunchanged
      obtain ⟨hpercent, -, hplus, -⟩ := ne_of_isUnchanged hunchanged
      rw [List.map_singleton, if_neg hplus, List.singleton_append, percentDecode_cons_ne hpercent]
    split
    · rename_i hspace
      rw [List.map_singleton, if_pos rfl, hspace, List.singleton_append,
        percentDecode_cons_ne (by decide)]
    · have hmap : (percent b).map (fun b => if b = 43 then 32 else b) = percent b := by
        refine (List.map_congr_left fun b' hb' => if_neg ?_).trans (List.map_id _)
        rcases mem_percent hb' with rfl | h
        · decide
        · rintro rfl
          exact absurd h (by decide)
      rw [hmap, percentDecode_percent]

theorem decode_byteSerialize (text : List Char) : decode (byteSerialize (utf8 text)) = text := by
  have h := percentDecode_byteSerialize (utf8 text) []
  rw [List.append_nil, show percentDecode [] = [] from rfl, List.append_nil] at h
  rw [decode, h, utf8Lossy_utf8]

/-! ## Pairs -/

theorem parsePair_encodePair (p : List Char × List Char) : parsePair (encodePair p) = p := by
  obtain ⟨name, value⟩ := p
  have hne : ∀ b ∈ byteSerialize (utf8 name), decide (b ≠ 61) = true := fun b hb =>
    decide_eq_true fun h => (not_mem_byteSerialize _).2 (h ▸ hb)
  rw [parsePair, encodePair, List.takeWhile_append_of_pos hne, List.dropWhile_append_of_pos hne]
  simp [decode_byteSerialize]

theorem encodePair_ne_nil (p : List Char × List Char) : encodePair p ≠ [] := by
  simp [encodePair]

theorem not_mem_encodePair (p : List Char × List Char) : 38 ∉ encodePair p := by
  simp only [encodePair, List.mem_append, List.mem_cons, not_or]
  exact ⟨(not_mem_byteSerialize _).1, by decide, (not_mem_byteSerialize _).1⟩

/-- Pairs that are appended to an empty query are joined. -/
theorem foldl_appendPair (ps : List (List Char × List Char)) :
    ps.foldl appendPair [] = [38].intercalate (ps.map encodePair) := by
  have hall : ∀ (query : List UInt8), query ≠ [] → ∀ ps : List (List Char × List Char),
      ps.foldl appendPair query = query ++ ps.flatMap fun p => 38 :: encodePair p := by
    intro query hquery ps
    induction ps generalizing query with
    | nil => simp
    | cons p ps ih =>
      rw [List.foldl_cons, appendPair, if_neg hquery, ih _ (by simp)]
      simp
  cases ps with
  | nil => rfl
  | cons p ps =>
    rw [List.foldl_cons, appendPair, if_pos rfl, hall _ (encodePair_ne_nil p)]
    induction ps generalizing p with
    | nil => simp [List.intercalate]
    | cons q ps ih =>
      have := ih q
      simp only [List.map_cons, List.flatMap_cons] at this ⊢
      rw [List.intercalate_cons_cons, ← this]
      simp

/-- **A query that was built pair by pair is read back as these pairs.** -/
theorem parse_foldl_appendPair (ps : List (List Char × List Char)) :
    parse (ps.foldl appendPair []) = ps := by
  rw [foldl_appendPair]
  cases ps with
  | nil => rfl
  | cons p ps =>
    rw [parse, List.splitOn_intercalate]
    · rw [List.filter_eq_self.mpr, List.map_map]
      · exact (List.map_congr_left fun q _ => parsePair_encodePair q).trans (List.map_id _)
      · intro piece hpiece
        obtain ⟨q, -, rfl⟩ := List.mem_map.mp hpiece
        exact decide_eq_true (encodePair_ne_nil q)
    · intro piece hpiece
      obtain ⟨q, -, rfl⟩ := List.mem_map.mp hpiece
      exact not_mem_encodePair q
    · simp

end CcReminder.Lib.Form
