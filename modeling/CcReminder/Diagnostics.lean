import CcReminder.Lib.Crc
import CcReminder.Lib.Zip
import CcReminder.Installer.Words

/-!
# Diagnostic archives

`zip_store` writes its entries, as they are, into a ZIP archive: each one behind its header, then the
directory, then the end record. A reader that starts from the end finds the entries again, in order, and
the checksum it finds with each is the remainder of a division by the polynomial of CRC-32.
-/

set_option autoImplicit true

namespace CcReminder

open Lib

def logBase : String := "cc-reminder.log"

def diagnosticsError (code message : String) : AppError :=
  { domain := .storage, code, message, suggestedAction := none }

/-! ## Checksums -/

def crcTableEntry (index : Nat) : BitVec 32 := (Crc.step 0xEDB88320#32)^[8] (BitVec.ofNat 32 index)

def crcTable : List (BitVec 32) := (List.range 256).map crcTableEntry

def crc32 (bytes : List UInt8) : BitVec 32 :=
  ~~~bytes.foldl (Crc.update fun index => crcTable.getD index 0) 0xFFFFFFFF#32

/-! ## The archive -/

/-- `as u16` and `as u32`. -/
def asU16 (n : Nat) : Nat := n % 2 ^ 16

def asU32 (n : Nat) : Nat := n % 2 ^ 32

/-- The local file header. -/
def localHeader (crc size name : Nat) : List UInt8 :=
  Zip.writeFields [(4, 0x04034b50), (2, 20), (2, 0), (2, 0), (2, 0), (2, 0), (4, crc), (4, size),
    (4, size), (2, name), (2, 0)]

/-- The central directory record. -/
def centralRecord (crc size name offset : Nat) : List UInt8 :=
  Zip.writeFields [(4, 0x02014b50), (2, 20), (2, 20), (2, 0), (2, 0), (2, 0), (2, 0), (4, crc),
    (4, size), (4, size), (2, name), (2, 0), (2, 0), (2, 0), (2, 0), (4, 0), (4, offset)]

/-- The end of central directory. -/
def endRecord (count size offset : Nat) : List UInt8 :=
  Zip.writeFields [(4, 0x06054b50), (2, 0), (2, 0), (2, count), (2, count), (4, size), (4, offset),
    (2, 0)]

structure ZipWriter where
  out : List UInt8
  central : List UInt8
  count : Nat

def zipEntry (w : ZipWriter) (entry : String × List UInt8) : Except AppError ZipWriter :=
  let offset := asU32 w.out.length
  let crc := (crc32 entry.2).toNat
  let size := asU32 entry.2.length
  let nameBytes := utf8Bytes entry.1
  let out := w.out ++ localHeader crc size (asU16 nameBytes.length) ++ nameBytes ++ entry.2
  let central := w.central ++ centralRecord crc size (asU16 nameBytes.length) offset ++ nameBytes
  if w.count + 1 < 2 ^ 16 then .ok ⟨out, central, w.count + 1⟩
  else .error (diagnosticsError "diagnostics.unavailable" "archive entry count overflowed")

/-- `zip_store`. -/
def zipStore (entries : List (String × List UInt8)) : Except AppError (List UInt8) := do
  let w ← entries.foldlM zipEntry ⟨[], [], 0⟩
  let centralOffset := asU32 w.out.length
  let centralSize := asU32 w.central.length
  return w.out ++ w.central ++ endRecord w.count centralSize centralOffset

/-- `Diagnostics::export`. A log file is the name it has, if that is text, and the bytes it has, if it can
be read. -/
def exportArchive (metadata : List (String × List UInt8))
    (logFiles : List (Option String × Option (List UInt8))) : Except AppError (List UInt8) :=
  zipStore (metadata ++ logFiles.map fun file => (file.1.getD logBase, file.2.getD []))

/-! ## The polynomial of CRC-32 -/

section
open Polynomial

noncomputable def crcPolynomial : (ZMod 2)[X] :=
  X ^ 32 + X ^ 26 + X ^ 23 + X ^ 22 + X ^ 16 + X ^ 12 + X ^ 11 + X ^ 10 + X ^ 8 + X ^ 7 + X ^ 5 +
    X ^ 4 + X ^ 2 + X + 1

noncomputable def allOnes : (ZMod 2)[X] := ∑ i ∈ Finset.range 32, X ^ i

/-- CRC-32 by its definition: the message, with its first 32 bits inverted and moved up by 32, is divided
by the polynomial, and the remainder is inverted. -/
def IsCrc32 (bytes : List UInt8) (crc : BitVec 32) : Prop :=
  Crc.poly crc =
    (X ^ (8 * bytes.length) * allOnes + X ^ 32 * Crc.message bytes) %ₘ crcPolynomial + allOnes

theorem generator_crc32 : Crc.generator 0xEDB88320#32 = crcPolynomial := by
  rw [Crc.generator, Crc.poly, crcPolynomial]
  simp [Finset.sum_range_succ, Crc.bit]
  ring

theorem poly_allOnes : Crc.poly 0xFFFFFFFF#32 = allOnes := by
  rw [Crc.poly, allOnes, ← Finset.sum_range_reflect]
  refine Finset.sum_congr rfl fun i hi => ?_
  have hlt := Finset.mem_range.mp hi
  have hbit : Crc.bit 0xFFFFFFFF#32 (32 - 1 - i) = 1 := by
    rw [Crc.bit, show (0xFFFFFFFF#32) = BitVec.allOnes 32 from rfl, BitVec.getLsbD_allOnes]
    simp
    omega
  rw [hbit, C_1, one_mul, show 32 - 1 - (32 - 1 - i) = i by omega]

theorem crcTable_isTable : Crc.IsTable 0xEDB88320#32 fun index => crcTable.getD index 0 := by
  intro i hi
  have hentry : crcTable[i]? = some (crcTableEntry i) := by
    rw [crcTable, List.getElem?_map, List.getElem?_range hi]
    rfl
  refine List.getD_eq_getElem?_getD.trans ?_
  rw [hentry]
  rfl

theorem crc32_isCrc32 (bytes : List UInt8) : IsCrc32 bytes (crc32 bytes) := by
  have hones : ~~~(bytes.foldl (Crc.update fun index => crcTable.getD index 0) 0xFFFFFFFF#32) =
      bytes.foldl (Crc.update fun index => crcTable.getD index 0) 0xFFFFFFFF#32 ^^^ 0xFFFFFFFF#32 := by
    rw [← BitVec.xor_allOnes]
    rfl
  rw [IsCrc32, crc32, hones, Crc.poly_xor, Crc.poly_foldl crcTable_isTable (by decide), generator_crc32,
    poly_allOnes]

theorem isCrc32_iff (bytes : List UInt8) (crc : BitVec 32) :
    IsCrc32 bytes crc ↔ crc = crc32 bytes := by
  constructor
  · intro h
    exact Crc.poly_injective (h.trans (crc32_isCrc32 bytes).symm)
  · rintro rfl
    exact crc32_isCrc32 bytes

end

/-! ## Writing and reading -/

/-- An entry behind its header. -/
def localRecord (entry : String × List UInt8) : List UInt8 :=
  localHeader (crc32 entry.2).toNat (asU32 entry.2.length) (asU16 (utf8Bytes entry.1).length) ++
    (utf8Bytes entry.1 ++ entry.2)

/-- The directory of entries that start at `offset`. -/
def directory : Nat → List (String × List UInt8) → List UInt8
  | _, [] => []
  | offset, entry :: entries =>
    centralRecord (crc32 entry.2).toNat (asU32 entry.2.length) (asU16 (utf8Bytes entry.1).length)
        (asU32 offset) ++
      (utf8Bytes entry.1 ++ directory (offset + (localRecord entry).length) entries)

theorem endRecord_length (count size offset : Nat) : (endRecord count size offset).length = 22 := by
  rw [endRecord, Zip.writeFields_length]
  rfl

theorem zipEntry_ok (w : ZipWriter) (entry : String × List UInt8) (h : w.count + 1 < 2 ^ 16) :
    zipEntry w entry = .ok ⟨w.out ++ localRecord entry,
      w.central ++ directory w.out.length [entry], w.count + 1⟩ := by
  rw [zipEntry, if_pos h, localRecord, directory, directory]
  simp only [List.append_assoc, List.append_nil]

theorem directory_append (offset : Nat) (es es' : List (String × List UInt8)) :
    directory offset (es ++ es') =
      directory offset es ++ directory (offset + (es.flatMap localRecord).length) es' := by
  induction es generalizing offset with
  | nil => rfl
  | cons e es ih =>
    rw [List.cons_append, directory, directory, ih, List.flatMap_cons, List.length_append,
      Nat.add_assoc, List.append_assoc, List.append_assoc]

theorem foldlM_zipEntry (entries : List (String × List UInt8)) (w : ZipWriter)
    (h : w.count + entries.length < 2 ^ 16) :
    entries.foldlM zipEntry w = .ok ⟨w.out ++ entries.flatMap localRecord,
      w.central ++ directory w.out.length entries, w.count + entries.length⟩ := by
  induction entries generalizing w with
  | nil => simp [directory]; rfl
  | cons entry entries ih =>
    rw [List.length_cons] at h
    rw [List.foldlM_cons, zipEntry_ok w entry (by omega)]
    have hrest := ih ⟨w.out ++ localRecord entry, w.central ++ directory w.out.length [entry],
      w.count + 1⟩ (by rw [Nat.add_assoc, Nat.add_comm 1]; exact h)
    refine hrest.trans ?_
    have hdirectory := directory_append w.out.length [entry] entries
    rw [List.flatMap_singleton, List.singleton_append] at hdirectory
    rw [hdirectory, List.length_append, List.flatMap_cons, List.length_cons, List.append_assoc,
      List.append_assoc, Nat.add_assoc, Nat.add_comm 1]

/-- What the writer writes. -/
theorem zipStore_ok (entries : List (String × List UInt8)) (h : entries.length < 2 ^ 16) :
    zipStore entries = .ok (entries.flatMap localRecord ++ directory 0 entries ++
      endRecord entries.length (asU32 (directory 0 entries).length)
        (asU32 (entries.flatMap localRecord).length)) := by
  rw [zipStore, foldlM_zipEntry entries ⟨[], [], 0⟩ (by rw [Nat.zero_add]; exact h)]
  simp only [List.nil_append, List.length_nil, Nat.zero_add]
  rfl

/-- An entry as the reader finds it. -/
def member (entry : String × List UInt8) : Zip.Member :=
  ⟨utf8Bytes entry.1, (crc32 entry.2).toNat, entry.2⟩

def header (entry : String × List UInt8) : Zip.Header :=
  ⟨0, 0, (crc32 entry.2).toNat, entry.2.length, entry.2.length, utf8Bytes entry.1⟩

theorem readMember_localRecord (entry : String × List UInt8) (before behind : List UInt8)
    (hname : (utf8Bytes entry.1).length < 2 ^ 16) (hsize : entry.2.length < 2 ^ 32) :
    Zip.readMember (before ++ (localRecord entry ++ behind)) (header entry) before.length =
      some (member entry) := by
  have hread := Zip.readLocal_write (crc32 entry.2).isLt hsize hname (entry.2 ++ behind)
  have hfound : Zip.readLocal (localRecord entry ++ behind) =
      some (header entry, entry.2 ++ behind) := by
    rw [localRecord, localHeader, asU32, asU16, Nat.mod_eq_of_lt hname, Nat.mod_eq_of_lt hsize,
      List.append_assoc, List.append_assoc]
    exact hread
  rw [Zip.readMember, List.drop_left, hfound]
  simp [header, member]

theorem readDirectory_directory (entries : List (String × List UInt8)) (before : List UInt8)
    (hnames : ∀ entry ∈ entries, (utf8Bytes entry.1).length < 2 ^ 16)
    (hsize : (before ++ entries.flatMap localRecord).length < 2 ^ 32) :
    Zip.readDirectory (before ++ entries.flatMap localRecord) entries.length
      (directory before.length entries) = some (entries.map member) := by
  induction entries generalizing before with
  | nil => rfl
  | cons entry entries ih =>
    have hname := hnames entry List.mem_cons_self
    have hlen : entry.2.length ≤ (localRecord entry).length := by
      rw [localRecord, List.length_append, List.length_append]
      omega
    rw [List.flatMap_cons, List.length_append, List.length_append] at hsize
    have hbytes : entry.2.length < 2 ^ 32 := by omega
    have hoffset : before.length < 2 ^ 32 := by omega
    have hread := Zip.readCentral_write (crc32 entry.2).isLt hbytes hname hoffset
      (directory (before.length + (localRecord entry).length) entries)
    have hrecord : Zip.readCentral (directory before.length (entry :: entries)) =
        some (header entry, before.length,
          directory (before ++ localRecord entry).length entries) := by
      rw [directory, centralRecord, asU32, asU32, asU16, Nat.mod_eq_of_lt hname,
        Nat.mod_eq_of_lt hbytes, Nat.mod_eq_of_lt (by omega), List.length_append]
      exact hread
    have hrest := ih (before ++ localRecord entry)
      (fun e he => hnames e (List.mem_cons_of_mem entry he))
      (by rw [List.append_assoc, List.length_append, List.length_append]; exact hsize)
    rw [List.append_assoc] at hrest
    rw [List.length_cons, Zip.readDirectory, hrecord, List.flatMap_cons]
    simp only [readMember_localRecord entry before _ hname hbytes, hrest]
    rfl

/-- The names, checksums and bytes in an archive. -/
def readEntries (archive : List UInt8) : Option (List (String × Nat × List UInt8)) :=
  (Zip.readArchive archive).bind fun members => members.mapM fun m =>
    (String.fromUTF8? ⟨m.name.toArray⟩).map fun name => (name, m.crc, m.bytes)

theorem mapM_member (entries : List (String × List UInt8)) :
    ((entries.map member).mapM fun m : Zip.Member =>
        (String.fromUTF8? ⟨m.name.toArray⟩).map fun name => (name, m.crc, m.bytes)) =
      some (entries.map fun entry => (entry.1, (crc32 entry.2).toNat, entry.2)) := by
  induction entries with
  | nil => rfl
  | cons entry entries ih =>
    rw [List.map_cons, List.mapM_cons, ih, member, fromUTF8?_utf8Bytes]
    rfl

theorem readArchive_zipStore {archive : List UInt8} (entries : List (String × List UInt8))
    (hcount : entries.length < 2 ^ 16)
    (hnames : ∀ entry ∈ entries, (utf8Bytes entry.1).length < 2 ^ 16)
    (h : zipStore entries = .ok archive) (hsize : archive.length < 2 ^ 32) :
    Zip.readArchive archive = some (entries.map member) := by
  rw [zipStore_ok entries hcount] at h
  have harchive := (Except.ok.inj h).symm
  have htotal := congrArg List.length harchive
  rw [List.length_append, List.length_append] at htotal
  have hmembers : (entries.flatMap localRecord).length < 2 ^ 32 := by omega
  have hcentral : (directory 0 entries).length < 2 ^ 32 := by omega
  rw [asU32, asU32, Nat.mod_eq_of_lt hmembers, Nat.mod_eq_of_lt hcentral] at harchive htotal
  have hlast : (endRecord entries.length (directory 0 entries).length
      (entries.flatMap localRecord).length).length = 22 := by rw [endRecord_length]
  have hp : archive.length - 22 = (entries.flatMap localRecord ++ directory 0 entries).length := by
    rw [htotal, hlast, List.length_append]
    omega
  have hending : Zip.readEnding (archive.drop (archive.length - 22)) =
      some ⟨entries.length, (directory 0 entries).length,
        (entries.flatMap localRecord).length⟩ := by
    rw [hp, harchive, List.drop_left]
    exact Zip.readEnding_write hcount hcentral hmembers
  have hread := readDirectory_directory entries [] hnames hmembers
  rw [List.nil_append] at hread
  rw [Zip.readArchive_of_readEnding hending (by rw [hp, List.length_append])]
  simp only [harchive, List.append_assoc, List.take_left, List.drop_left]
  exact hread

/-- An archive holds the entries that were passed and the log files, and nothing else. -/
theorem readArchive_exportArchive {archive : List UInt8} (metadata : List (String × List UInt8))
    (logFiles : List (Option String × Option (List UInt8)))
    (hcount : metadata.length + logFiles.length < 2 ^ 16)
    (hnames : ∀ entry ∈ metadata, (utf8Bytes entry.1).length < 2 ^ 16)
    (hlogs : ∀ file ∈ logFiles, (utf8Bytes (file.1.getD logBase)).length < 2 ^ 16)
    (h : exportArchive metadata logFiles = .ok archive) (hsize : archive.length < 2 ^ 32) :
    Zip.readArchive archive = some (metadata.map member ++
      logFiles.map fun file => member (file.1.getD logBase, file.2.getD [])) := by
  have hread := readArchive_zipStore _ (by simpa using hcount) ?_ h hsize
  · rw [hread, List.map_append, List.map_map]
    rfl
  · intro entry he
    obtain hm | hl := List.mem_append.mp he
    · exact hnames entry hm
    · obtain ⟨file, hf, rfl⟩ := List.mem_map.mp hl
      exact hlogs file hf

/-- The archive of fewer than 65536 entries is written, and a reader finds the entries in it, in order,
each with the CRC-32 of its bytes. -/
theorem zipStore_reads (entries : List (String × List UInt8)) (hcount : entries.length < 65536)
    (hnames : ∀ entry ∈ entries, (utf8Bytes entry.1).length < 65536) :
    ∃ archive, zipStore entries = .ok archive ∧
      (archive.length < 2 ^ 32 →
        readEntries archive =
          some (entries.map fun entry => (entry.1, (crc32 entry.2).toNat, entry.2))) ∧
      ∀ entry ∈ entries, IsCrc32 entry.2 (crc32 entry.2) := by
  refine ⟨_, zipStore_ok entries hcount, ?_, fun entry _ => crc32_isCrc32 entry.2⟩
  intro hsize
  rw [readEntries, readArchive_zipStore entries hcount hnames (zipStore_ok entries hcount) hsize,
    Option.bind_some, mapM_member]

/-- A manifest and an empty log file. -/
theorem zipStore_reads_manifest :
    ∃ archive, zipStore [("manifest.json", [123, 125]), (logBase, [])] = .ok archive ∧
      (archive.length < 2 ^ 32 → readEntries archive =
        some ([("manifest.json", [123, 125]), (logBase, [])].map fun entry =>
          (entry.1, (crc32 entry.2).toNat, entry.2))) ∧
      ∀ entry ∈ [("manifest.json", [123, 125]), (logBase, [])], IsCrc32 entry.2 (crc32 entry.2) :=
  zipStore_reads [("manifest.json", [123, 125]), (logBase, [])] (by decide) (by decide)

end CcReminder
