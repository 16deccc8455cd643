import CcReminder.Lib.Bytes

/-!
# Stored archives

A reader of archives in the ZIP format whose members are stored as they are. It looks for the end record
from the back, follows the directory, and accepts a member only if the header in front of its bytes says
what its record in the directory says.
-/

set_option autoImplicit true

namespace CcReminder.Lib.Zip

/-! ## Fields -/

/-- Numbers, each behind the count of its bytes. -/
def writeFields (fields : List (Nat × Nat)) : List UInt8 :=
  fields.flatMap fun f => littleEndian f.1 f.2

def readFields : List Nat → List UInt8 → Option (List Nat × List UInt8)
  | [], bytes => some ([], bytes)
  | k :: ks, bytes =>
    if bytes.length < k then none
    else (readFields ks (bytes.drop k)).map fun r => (ofLittleEndian (bytes.take k) :: r.1, r.2)

theorem readFields_writeFields (fields : List (Nat × Nat)) (rest : List UInt8)
    (h : ∀ f ∈ fields, f.2 < 256 ^ f.1) :
    readFields (fields.map (·.1)) (writeFields fields ++ rest) = some (fields.map (·.2), rest) := by
  induction fields with
  | nil => rfl
  | cons f fields ih =>
    have hlen : (littleEndian f.1 f.2).length = f.1 := littleEndian_length f.1 f.2
    have hbytes : writeFields (f :: fields) ++ rest =
        littleEndian f.1 f.2 ++ (writeFields fields ++ rest) := by
      rw [writeFields, List.flatMap_cons, List.append_assoc]
      rfl
    have hlong : ¬(littleEndian f.1 f.2 ++ (writeFields fields ++ rest)).length < f.1 := by
      rw [List.length_append, hlen]
      omega
    rw [hbytes, List.map_cons, readFields, if_neg hlong, List.drop_left' hlen, List.take_left' hlen,
      ih fun g hg => h g (List.mem_cons_of_mem f hg), ofLittleEndian_littleEndian,
      Nat.mod_eq_of_lt (h f List.mem_cons_self)]
    rfl

theorem writeFields_length (fields : List (Nat × Nat)) :
    (writeFields fields).length = (fields.map (·.1)).sum := by
  rw [writeFields, List.length_flatMap]
  exact congrArg List.sum (List.map_congr_left fun f _ => littleEndian_length f.1 f.2)

/-! ## Records -/

/-- What the header of a member and its record in the directory both say. -/
structure Header where
  flags : Nat
  method : Nat
  crc : Nat
  compressed : Nat
  size : Nat
  name : List UInt8
  deriving DecidableEq

/-- Where the directory is and how many records it has. -/
structure Ending where
  count : Nat
  size : Nat
  offset : Nat
  deriving DecidableEq

structure Member where
  name : List UInt8
  crc : Nat
  bytes : List UInt8
  deriving DecidableEq

def readLocal (bytes : List UInt8) : Option (Header × List UInt8) :=
  match readFields [4, 2, 2, 2, 2, 2, 4, 4, 4, 2, 2] bytes with
  | some ([signature, _, flags, method, _, _, crc, compressed, size, name, extra], rest) =>
    if signature = 0x04034b50 ∧ name + extra ≤ rest.length then
      some (⟨flags, method, crc, compressed, size, rest.take name⟩, rest.drop (name + extra))
    else none
  | _ => none

/-- The header, the offset of its other copy, and the bytes behind the record. -/
def readCentral (bytes : List UInt8) : Option (Header × Nat × List UInt8) :=
  match readFields [4, 2, 2, 2, 2, 2, 2, 4, 4, 4, 2, 2, 2, 2, 2, 4, 4] bytes with
  | some ([signature, _, _, flags, method, _, _, crc, compressed, size, name, extra, comment, _, _, _,
      offset], rest) =>
    if signature = 0x02014b50 ∧ name + extra + comment ≤ rest.length then
      some (⟨flags, method, crc, compressed, size, rest.take name⟩, offset,
        rest.drop (name + extra + comment))
    else none
  | _ => none

/-- The end record, of an archive in one part, which only its comment may follow. -/
def readEnding (bytes : List UInt8) : Option Ending :=
  match readFields [4, 2, 2, 2, 2, 4, 4, 2] bytes with
  | some ([signature, disk, start, here, count, size, offset, comment], rest) =>
    if signature = 0x06054b50 ∧ disk = 0 ∧ start = 0 ∧ here = count ∧ comment = rest.length then
      some ⟨count, size, offset⟩
    else none
  | _ => none

/-! ## The reader -/

/-- The member at an offset, if it is stored and its header is `header`. -/
def readMember (members : List UInt8) (header : Header) (offset : Nat) : Option Member :=
  match readLocal (members.drop offset) with
  | some (found, rest) =>
    if found = header ∧ header.method = 0 ∧ header.compressed = header.size ∧
        header.size ≤ rest.length then
      some ⟨header.name, header.crc, rest.take header.size⟩
    else none
  | none => none

/-- The members of a directory of so many records. -/
def readDirectory (members : List UInt8) : Nat → List UInt8 → Option (List Member)
  | 0, [] => some []
  | 0, _ :: _ => none
  | n + 1, bytes =>
    match readCentral bytes with
    | some (header, offset, rest) =>
      match readMember members header offset with
      | some member => (readDirectory members n rest).map (member :: ·)
      | none => none
    | none => none

/-- The last end record that starts at or before `p`. -/
def locateEnding (archive : List UInt8) : Nat → Option (Nat × Ending)
  | 0 => (readEnding archive).map (0, ·)
  | p + 1 =>
    match readEnding (archive.drop (p + 1)) with
    | some ending => some (p + 1, ending)
    | none => locateEnding archive p

/-- The members of an archive, in the order of its directory. The directory is in front of the end record
and the members are in front of the directory. -/
def readArchive (archive : List UInt8) : Option (List Member) :=
  match locateEnding archive (archive.length - 22) with
  | some (p, ending) =>
    if ending.offset + ending.size = p then
      readDirectory (archive.take ending.offset) ending.count
        ((archive.drop ending.offset).take ending.size)
    else none
  | none => none

/-! ## What the reader accepts -/

theorem readLocal_write {crc size : Nat} {name : List UInt8} (hcrc : crc < 256 ^ 4)
    (hsize : size < 256 ^ 4) (hname : name.length < 256 ^ 2) (rest : List UInt8) :
    readLocal (writeFields [(4, 0x04034b50), (2, 20), (2, 0), (2, 0), (2, 0), (2, 0), (4, crc),
        (4, size), (4, size), (2, name.length), (2, 0)] ++ (name ++ rest)) =
      some (⟨0, 0, crc, size, size, name⟩, rest) := by
  have hread := readFields_writeFields [(4, 0x04034b50), (2, 20), (2, 0), (2, 0), (2, 0), (2, 0),
    (4, crc), (4, size), (4, size), (2, name.length), (2, 0)] (name ++ rest) (by simp; omega)
  simp only [List.map_cons, List.map_nil] at hread
  rw [readLocal, hread]
  simp

theorem readCentral_write (hcrc : crc < 256 ^ 4) (hsize : size < 256 ^ 4)
    (hname : name.length < 256 ^ 2) (hoffset : offset < 256 ^ 4) (rest : List UInt8) :
    readCentral (writeFields [(4, 0x02014b50), (2, 20), (2, 20), (2, 0), (2, 0), (2, 0), (2, 0),
        (4, crc), (4, size), (4, size), (2, name.length), (2, 0), (2, 0), (2, 0), (2, 0), (4, 0),
        (4, offset)] ++ (name ++ rest)) =
      some (⟨0, 0, crc, size, size, name⟩, offset, rest) := by
  have hread := readFields_writeFields [(4, 0x02014b50), (2, 20), (2, 20), (2, 0), (2, 0), (2, 0),
    (2, 0), (4, crc), (4, size), (4, size), (2, name.length), (2, 0), (2, 0), (2, 0), (2, 0), (4, 0),
    (4, offset)] (name ++ rest) (by simp; omega)
  simp only [List.map_cons, List.map_nil] at hread
  rw [readCentral, hread]
  simp

theorem readEnding_write (hcount : count < 256 ^ 2) (hsize : size < 256 ^ 4)
    (hoffset : offset < 256 ^ 4) :
    readEnding (writeFields [(4, 0x06054b50), (2, 0), (2, 0), (2, count), (2, count), (4, size),
        (4, offset), (2, 0)]) = some ⟨count, size, offset⟩ := by
  have hread := readFields_writeFields [(4, 0x06054b50), (2, 0), (2, 0), (2, count), (2, count),
    (4, size), (4, offset), (2, 0)] [] (by simp; omega)
  simp only [List.map_cons, List.map_nil, List.append_nil] at hread
  rw [readEnding, hread]
  simp

theorem locateEnding_of_readEnding (h : readEnding (archive.drop p) = some ending) :
    locateEnding archive p = some (p, ending) := by
  cases p with
  | zero => rw [locateEnding, ← List.drop_zero (l := archive), h]; rfl
  | succ p => rw [locateEnding, h]

theorem readArchive_of_readEnding
    (h : readEnding (archive.drop (archive.length - 22)) = some ending)
    (hp : ending.offset + ending.size = archive.length - 22) :
    readArchive archive = readDirectory (archive.take ending.offset) ending.count
      ((archive.drop ending.offset).take ending.size) := by
  unfold readArchive
  rw [locateEnding_of_readEnding h]
  exact if_pos hp

end CcReminder.Lib.Zip
