import Mathlib.Data.List.Infix
import Mathlib.Data.List.Forall2

/-!
# The bytes of a text

A text is a list of characters and its bytes are their encodings, one behind the other. An ASCII
character is a byte of its own, and no byte of another character is an ASCII one, so what only looks
for ASCII bytes never divides a character. A cut after a number of bytes may.
-/

namespace CcReminder.Lib

/-- The bytes of a text. -/
def utf8 (cs : List Char) : List UInt8 := cs.flatMap String.utf8EncodeChar

/-- Bytes that are a text. -/
def IsText (bs : List UInt8) : Prop := ∃ cs, utf8 cs = bs

/-- Where a text can be cut: after the bytes of its first characters. -/
def IsBoundary (cs : List Char) (n : Nat) : Prop := ∃ ps, ps <+: cs ∧ (utf8 ps).length = n

/-- The first `n` bytes of a text, which must end at a boundary; the whole of a shorter one. -/
def truncate : List Char → Nat → Option (List Char)
  | [], _ => some []
  | c :: cs, n =>
    if n = 0 then some []
    else if c.utf8Size ≤ n then (truncate cs (n - c.utf8Size)).map (c :: ·)
    else none

@[simp] theorem utf8_nil : utf8 [] = [] := rfl

@[simp] theorem utf8_cons (c : Char) (cs : List Char) :
    utf8 (c :: cs) = String.utf8EncodeChar c ++ utf8 cs := List.flatMap_cons

@[simp] theorem utf8_append (cs ds : List Char) : utf8 (cs ++ ds) = utf8 cs ++ utf8 ds :=
  List.flatMap_append

theorem utf8EncodeChar_ascii {c : Char} (h : c.toNat < 128) :
    String.utf8EncodeChar c = [UInt8.ofNat c.toNat] := by
  have hle : c.val.toNat ≤ 0x7f := Nat.le_of_lt_succ h
  simp only [String.utf8EncodeChar, if_pos hle]
  rfl

/-- No byte of another character is an ASCII one. -/
theorem le_of_mem_utf8EncodeChar {c : Char} (h : 128 ≤ c.toNat) :
    ∀ b ∈ String.utf8EncodeChar c, 128 ≤ b.toNat := by
  have hle : ¬c.val.toNat ≤ 0x7f := Nat.not_le.mpr h
  intro b hb
  simp only [String.utf8EncodeChar, if_neg hle] at hb
  split at hb
  · simp only [List.mem_cons, List.not_mem_nil, or_false] at hb
    rcases hb with rfl | rfl <;> simp only [UInt8.toNat_ofNat'] <;> omega
  · split at hb
    · simp only [List.mem_cons, List.not_mem_nil, or_false] at hb
      rcases hb with rfl | rfl | rfl <;> simp only [UInt8.toNat_ofNat'] <;> omega
    · simp only [List.mem_cons, List.not_mem_nil, or_false] at hb
      rcases hb with rfl | rfl | rfl | rfl <;> simp only [UInt8.toNat_ofNat'] <;> omega

/-- A character is one ASCII byte or a group of other bytes. -/
theorem utf8EncodeChar_cases (c : Char) :
    (c.toNat < 128 ∧ String.utf8EncodeChar c = [UInt8.ofNat c.toNat]) ∨
      ∃ b bs, String.utf8EncodeChar c = b :: bs ∧ ∀ b' ∈ b :: bs, 128 ≤ b'.toNat := by
  rcases Nat.lt_or_ge c.toNat 128 with h | h
  · exact .inl ⟨h, utf8EncodeChar_ascii h⟩
  · cases hbytes : String.utf8EncodeChar c with
    | nil => exact absurd hbytes String.utf8EncodeChar_ne_nil
    | cons b bs => exact .inr ⟨b, bs, rfl, hbytes ▸ le_of_mem_utf8EncodeChar h⟩

theorem utf8_injective {cs ds : List Char} (h : utf8 cs = utf8 ds) : cs = ds := by
  have hbytes : cs.utf8Encode = ds.utf8Encode := congrArg List.toByteArray h
  apply String.ofList_injective
  exact String.toByteArray_inj.mp hbytes

theorem IsText.nil : IsText [] := ⟨[], rfl⟩

theorem IsText.append {bs bs' : List UInt8} (h : IsText bs) (h' : IsText bs') :
    IsText (bs ++ bs') := by
  obtain ⟨cs, rfl⟩ := h
  obtain ⟨cs', rfl⟩ := h'
  exact ⟨cs ++ cs', utf8_append cs cs'⟩

theorem IsText.char (c : Char) : IsText (String.utf8EncodeChar c) := ⟨[c], by simp⟩

/-- ASCII bytes are the encodings of their characters. -/
theorem utf8_map_ofUInt8 {bs : List UInt8} (h : ∀ b ∈ bs, b.toNat < 128) :
    utf8 (bs.map Char.ofUInt8) = bs := by
  induction bs with
  | nil => rfl
  | cons b bs ih =>
    have hb := h b List.mem_cons_self
    have hc : (Char.ofUInt8 b).toNat = b.toNat := UInt8.toNat_toUInt32 b
    rw [List.map_cons, utf8_cons, ih fun b' hb' => h b' (List.mem_cons_of_mem _ hb'),
      utf8EncodeChar_ascii (by omega), hc, UInt8.ofNat_toNat, List.singleton_append]

theorem IsText.ascii {b : UInt8} (h : b.toNat < 128) : IsText [b] :=
  ⟨[b].map Char.ofUInt8, utf8_map_ofUInt8 (by simpa using h)⟩

theorem IsText.replicate {b : UInt8} (h : b.toNat < 128) (n : Nat) :
    IsText (List.replicate n b) := by
  induction n with
  | zero => exact .nil
  | succ n ih => exact (IsText.ascii h).append ih

/-! ## Cuts -/

theorem utf8_length_cons (c : Char) (cs : List Char) :
    (utf8 (c :: cs)).length = c.utf8Size + (utf8 cs).length := by
  rw [utf8_cons, List.length_append, String.length_utf8EncodeChar]

/-- A cut keeps the first characters. -/
theorem truncate_eq_some {cs ps : List Char} {n : Nat} (h : truncate cs n = some ps) :
    ps <+: cs ∧ (utf8 ps).length ≤ n ∧ (n ≤ (utf8 cs).length → (utf8 ps).length = n) := by
  induction cs generalizing n ps with
  | nil =>
    cases h
    exact ⟨List.prefix_rfl, Nat.zero_le _, fun hle => (Nat.le_zero.mp hle).symm⟩
  | cons c cs ih =>
    unfold truncate at h
    split at h
    · cases h
      exact ⟨List.nil_prefix, Nat.zero_le _, fun _ => by simp_all⟩
    split at h
    · obtain ⟨qs, hqs, rfl⟩ := Option.map_eq_some_iff.mp h
      obtain ⟨hps, hle, heq⟩ := ih hqs
      refine ⟨List.cons_prefix_cons.mpr ⟨rfl, hps⟩, ?_, fun hlen => ?_⟩
      · rw [utf8_length_cons]
        omega
      · rw [utf8_length_cons] at hlen ⊢
        omega
    · cases h

/-- A cut of a longer text is made at the boundaries. -/
theorem truncate_isSome_iff {cs : List Char} {n : Nat} (hlen : n ≤ (utf8 cs).length) :
    (truncate cs n).isSome ↔ IsBoundary cs n := by
  constructor
  · intro h
    obtain ⟨ps, hcut⟩ := Option.isSome_iff_exists.mp h
    obtain ⟨hps, -, heq⟩ := truncate_eq_some hcut
    exact ⟨ps, hps, heq hlen⟩
  · rintro ⟨ps, hps, rfl⟩
    clear hlen
    induction ps generalizing cs with
    | nil => cases cs <;> simp [truncate]
    | cons c ps ih =>
      obtain ⟨ds, rfl⟩ := hps
      have hpos : 0 < c.utf8Size := c.utf8Size_pos
      rw [List.cons_append, utf8_length_cons, truncate, if_neg (by omega), if_pos (by omega),
        Option.isSome_map, Nat.add_sub_cancel_left]
      exact ih (List.prefix_append ps ds)

/-- What comes behind the cut does not matter. -/
theorem truncate_append (cs ds : List Char) (n : Nat) (h : n ≤ (utf8 cs).length) :
    truncate (cs ++ ds) n = truncate cs n := by
  induction cs generalizing n with
  | nil =>
    obtain rfl := Nat.le_zero.mp h
    cases ds <;> rfl
  | cons c cs ih =>
    rw [utf8_length_cons] at h
    rw [List.cons_append, truncate, truncate]
    split
    · rfl
    split
    · rw [ih _ (by omega)]
    · rfl

/-! ## Lossy decoding -/

/-- The second byte may follow the first in a character of three or four bytes. -/
def secondByte (b₀ b₁ : UInt8) : Bool :=
  b₀ = 0xe0 ∧ 0xa0 ≤ b₁ ∧ b₁ ≤ 0xbf ∨ 0xe1 ≤ b₀ ∧ b₀ ≤ 0xec ∧ 0x80 ≤ b₁ ∧ b₁ ≤ 0xbf ∨
    b₀ = 0xed ∧ 0x80 ≤ b₁ ∧ b₁ ≤ 0x9f ∨ 0xee ≤ b₀ ∧ b₀ ≤ 0xef ∧ 0x80 ≤ b₁ ∧ b₁ ≤ 0xbf ∨
    b₀ = 0xf0 ∧ 0x90 ≤ b₁ ∧ b₁ ≤ 0xbf ∨ 0xf1 ≤ b₀ ∧ b₀ ≤ 0xf3 ∧ 0x80 ≤ b₁ ∧ b₁ ≤ 0xbf ∨
    b₀ = 0xf4 ∧ 0x80 ≤ b₁ ∧ b₁ ≤ 0x8f

/-- The length of the part that one replacement character stands for, in front of bytes that begin
with no character. -/
def invalidLength : List UInt8 → Nat
  | b₀ :: b₁ :: bs =>
    if !secondByte b₀ b₁ then 1
    else if 0xf0 ≤ b₀ ∧ bs.head?.any (fun b₂ => 0x80 ≤ b₂ ∧ b₂ ≤ 0xbf) then 3
    else 2
  | _ => 1

def utf8LossyFrom : Nat → List UInt8 → List Char
  | _, [] => []
  | 0, _ :: _ => []
  | n + 1, b :: bs =>
    match (b :: bs).toByteArray.utf8DecodeChar? 0 with
    | some c => c :: utf8LossyFrom n ((b :: bs).drop c.utf8Size)
    | none => Char.ofNat 0xfffd :: utf8LossyFrom n ((b :: bs).drop (invalidLength (b :: bs)))

/-- The characters of some bytes, with a replacement for what is none. -/
def utf8Lossy (bs : List UInt8) : List Char := utf8LossyFrom bs.length bs

theorem utf8LossyFrom_utf8 {cs : List Char} {n : Nat} (h : (utf8 cs).length ≤ n) :
    utf8LossyFrom n (utf8 cs) = cs := by
  induction cs generalizing n with
  | nil => cases n <;> rfl
  | cons c cs ih =>
    have hlen := utf8_length_cons c cs
    have hpos := c.utf8Size_pos
    have hdecode : (utf8 (c :: cs)).toByteArray.utf8DecodeChar? 0 = some c :=
      List.utf8DecodeChar?_utf8Encode_cons
    have hdrop : (utf8 (c :: cs)).drop c.utf8Size = utf8 cs := by
      rw [utf8_cons, ← String.length_utf8EncodeChar, List.drop_left]
    obtain ⟨m, rfl⟩ : ∃ m, n = m + 1 := ⟨n - 1, by omega⟩
    cases hbytes : utf8 (c :: cs) with
    | nil =>
      rw [hbytes, List.length_nil] at hlen
      omega
    | cons b bs =>
      rw [hbytes] at hdecode hdrop
      rw [utf8LossyFrom, hdecode]
      dsimp only
      rw [hdrop, ih (by omega)]

/-- The bytes of a text decode to it. -/
theorem utf8Lossy_utf8 (cs : List Char) : utf8Lossy (utf8 cs) = cs := utf8LossyFrom_utf8 le_rfl

end CcReminder.Lib
