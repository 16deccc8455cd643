import CcReminder.Lib.Outcomes
import CcReminder.Security.Crypto
import CcReminder.Storage.Spool

/-!
# The correlation key

`CorrelationKey::load_or_create` of `security/crypto.rs`, which the application and every helper call on
the same directory, in processes of their own. The key is written to a file under a name of the call
and then linked to `correlation.key`, where the first link stands.

A call is a thread with one operation for each file operation. Names refer to files by number, as names
refer to inodes, so that an open file stays what it is when its name is removed.
-/

set_option autoImplicit true

namespace CcReminder

open Lib

def KEY_BYTES : Nat := 32

/-- `[u8; KEY_BYTES]`. -/
abbrev KeyBytes := { bytes : List UInt8 // bytes.length = KEY_BYTES }

def correlationError : AppError :=
  cryptoError "security.correlation_key_unavailable" "correlation key is unavailable"

structure KeyFile where
  bytes : List UInt8
  mode : UInt32

/-- The names in the data directory. A temporary file is named by a fresh identifier of its call. -/
inductive KeyName where
  | correlationKey
  | temporary (id : Uuid)
  deriving DecidableEq

/-- What happens to an operation. A write that fails may have written some bytes. -/
structure KeyFate where
  fault : Bool := false
  written : Nat := 0

structure KeyDirectory where
  /-- The mode of the directory, if there is one. -/
  mode : Option UInt32
  names : KeyName → Option Nat
  files : Nat → KeyFile
  /-- The files so far. -/
  count : Nat
  fates : Nat → KeyFate
  now : Nat
  /-- The calls that an operation has failed for by itself. -/
  faulted : Uuid → Bool

inductive ReadError where
  | notFound
  | other

abbrev KeyThread := Thread Unit

namespace KeyDirectory

def tick (s : KeyDirectory) : KeyDirectory := { s with now := s.now + 1 }

def markFaulted (s : KeyDirectory) (i : Uuid) : KeyDirectory :=
  { s.tick with faulted := Function.update s.faulted i true }

/-- One operation of the call `i`, which fails with `e`. -/
def fileOp (i : Uuid) (e : ε) (f : KeyDirectory → Except ε (α × KeyDirectory)) : Txn ε KeyDirectory α :=
  .faulty (fun s => (s.fates s.now).fault) (·.markFaulted i) tick e f

/-- A new file under a name. -/
def create (s : KeyDirectory) (name : KeyName) : KeyDirectory :=
  { s with
    names := Function.update s.names name (some s.count)
    files := Function.update s.files s.count ⟨[], 0o600⟩
    count := s.count + 1 }

def setBytes (s : KeyDirectory) (file : Nat) (bytes : List UInt8) : KeyDirectory :=
  { s with files := Function.update s.files file { s.files file with bytes } }

def setMode (s : KeyDirectory) (file : Nat) (mode : UInt32) : KeyDirectory :=
  { s with files := Function.update s.files file { s.files file with mode } }

theorem create_names_self {s : KeyDirectory} : (s.create name).names name = some s.count :=
  Function.update_self _ _ _

theorem create_names_of_ne {s : KeyDirectory} (h : name' ≠ name) :
    (s.create name).names name' = s.names name' := Function.update_of_ne h _ _

theorem create_files_of_lt {s : KeyDirectory} (h : n < s.count) : (s.create name).files n = s.files n :=
  Function.update_of_ne (Nat.ne_of_lt h) _ _

theorem create_files_self {s : KeyDirectory} : (s.create name).files s.count = ⟨[], 0o600⟩ :=
  Function.update_self _ _ _

/-- `create_dir_all`, with the usual mask. -/
def createDir (s : KeyDirectory) : KeyDirectory := { s with mode := some (s.mode.getD 0o755) }

/-- `private_new_file`. -/
def privateNewFile (name : KeyName) (s : KeyDirectory) : Except AppError (Nat × KeyDirectory) :=
  match s.names name with
  | some _ => .error correlationError
  | none => .ok (s.count, s.create name)

/-- The opening of `ensure_private_file`. -/
def openOrCreate (name : KeyName) (s : KeyDirectory) : Except AppError (Unit × KeyDirectory) :=
  match s.names name with
  | some _ => .ok ((), s)
  | none => .ok ((), s.create name)

def setPermissions (name : KeyName) (s : KeyDirectory) : Except AppError (Unit × KeyDirectory) :=
  match s.names name with
  | some file => .ok ((), s.setMode file 0o600)
  | none => .error permissionError

/-- `write_all` from the start of a file. -/
def overwrite (old new : List UInt8) : List UInt8 := new ++ old.drop new.length

def writeAll (i : Uuid) (file : Nat) (bytes : List UInt8) : Txn AppError KeyDirectory Unit := fun s =>
  if (s.fates s.now).fault then
    (.error correlationError, (s.markFaulted i).setBytes file
      (overwrite (s.files file).bytes (bytes.take (s.fates s.now).written)))
  else (.ok (), s.tick.setBytes file (overwrite (s.files file).bytes bytes))

/-- Fails when there is a file of that name already. -/
def hardLink (source target : KeyName) (s : KeyDirectory) : Except AppError (Unit × KeyDirectory) :=
  match s.names source, s.names target with
  | some file, none => .ok ((), { s with names := Function.update s.names target (some file) })
  | _, _ => .error correlationError

def removeFile (name : KeyName) (s : KeyDirectory) : Except AppError (Unit × KeyDirectory) :=
  match s.names name with
  | some _ => .ok ((), { s with names := Function.update s.names name none })
  | none => .error correlationError

end KeyDirectory

namespace CorrelationKey

open KeyDirectory

def op (x : Txn ε KeyDirectory α) : KeyThread ε KeyDirectory α := .atom () x

def ofExcept (r : Except ε α) : KeyThread ε KeyDirectory α := .done r

def validateDataDirectory (name : String) : Except AppError Unit :=
  if name = "com.ccreminder.app" then .ok ()
  else .error (cryptoError "security.invalid_data_directory" "application data directory is invalid")

/-- `ensure_private_directory`. -/
def ensurePrivateDirectory (i : Uuid) : KeyThread AppError KeyDirectory Unit := do
  op (fileOp i permissionError fun s => .ok ((), s.createDir))
  let mode ← op (fileOp i permissionError fun s => .ok (s.mode, s))
  if mode = some 0o700 then pure ()
  else op (fileOp i permissionError fun s => .ok ((), { s with mode := some 0o700 }))

/-- `ensure_private_file`. -/
def ensurePrivateFile (i : Uuid) (name : KeyName) : KeyThread AppError KeyDirectory Unit := do
  op (fileOp i permissionError (openOrCreate name))
  op (fileOp i permissionError (setPermissions name))

def readCorrelationKey (i : Uuid) : KeyThread ReadError KeyDirectory KeyBytes := do
  let file ← op (fileOp i .other fun s =>
    match s.names .correlationKey with
    | some file => .ok (file, s)
    | none => .error .notFound)
  let size ← op (fileOp i .other fun s => .ok ((s.files file).bytes.length, s))
  if size ≠ KEY_BYTES then .fail .other
  else op (fileOp i .other fun s =>
    if h : ((s.files file).bytes.take KEY_BYTES).length = KEY_BYTES then .ok (⟨_, h⟩, s)
    else .error .other)

/-- What `publish_correlation_key_with` does before the temporary file is removed. -/
def publish (i : Uuid) (key : KeyBytes) : KeyThread AppError KeyDirectory Unit := do
  let file ← op (fileOp i correlationError (privateNewFile (.temporary i)))
  ensurePrivateFile i (.temporary i)
  op (writeAll i file key.val)
  op (fileOp i correlationError fun s => .ok ((), s))
  op (fileOp i correlationError (hardLink (.temporary i) .correlationKey))

def publishCorrelationKey (i : Uuid) (key : KeyBytes) : KeyThread AppError KeyDirectory Unit := do
  let result ← (publish i key).result
  let _ ← (op (fileOp i correlationError (removeFile (.temporary i)))).result
  ofExcept result

/-- The key of whoever published one. -/
def readPublished (i : Uuid) : KeyThread AppError KeyDirectory KeyBytes := do
  match ← (readCorrelationKey i).result with
  | .ok key => pure key
  | .error _ => .fail correlationError

/-- `load_or_create` in a directory of the name `dataDir`, with what the random source yields. The second
look at the directory is that of `ensure_current_user_dacl`. -/
def loadOrCreate (i : Uuid) (dataDir : String) (random : KeyBytes) :
    KeyThread AppError KeyDirectory KeyBytes := do
  ofExcept (validateDataDirectory dataDir)
  ensurePrivateDirectory i
  ensurePrivateDirectory i
  match ← (readCorrelationKey i).result with
  | .ok key =>
    ensurePrivateFile i .correlationKey
    pure key
  | .error .other => .fail correlationError
  | .error .notFound =>
    let key ← op (fileOp i randomFailed fun s => .ok (random, s))
    match ← (publishCorrelationKey i key).result with
    | .ok () => pure key
    | .error _ =>
      match ← (readCorrelationKey i).result with
      | .ok key => pure key
      | .error _ => .fail correlationError

theorem key_ne_temporary : KeyName.correlationKey ≠ .temporary i := nofun

/-! ## What a call relies on -/

/-- The file has a whole key, and only its owner may read it. -/
def Complete (f : KeyFile) : Prop := f.bytes.length = KEY_BYTES ∧ f.mode = 0o600

/-- A file that is linked is not written any more. -/
structure Grows (f f' : KeyFile) : Prop where
  bytes : f'.bytes = f.bytes
  mode : f.mode = 0o600 → f'.mode = 0o600

theorem Grows.refl : Grows f f := ⟨rfl, id⟩

theorem Grows.trans (h : Grows f f') (h' : Grows f' f'') : Grows f f'' :=
  ⟨h'.bytes.trans h.bytes, fun hmode => h'.mode (h.mode hmode)⟩

/-- What holds at all times, in a directory that was `m₀` at first. -/
structure Inv (m₀ s : KeyDirectory) : Prop where
  bounded : ∀ name n, s.names name = some n → n < s.count
  apart : ∀ i j n, s.names (.temporary i) = some n → s.names (.temporary j) = some n → i = j
  kept : ∀ n, m₀.names .correlationKey = some n →
    s.names .correlationKey = some n ∧ (s.files n).bytes = (m₀.files n).bytes
  complete : ∀ n, s.names .correlationKey = some n → m₀.names .correlationKey = some n ∨ Complete (s.files n)

/-- What is never undone. -/
structure Change (s s' : KeyDirectory) : Prop where
  key : ∀ n, s.names .correlationKey = some n →
    s'.names .correlationKey = some n ∧ Grows (s.files n) (s'.files n)
  mode : s.mode = some 0o700 → s'.mode = some 0o700
  faulted : ∀ i, s.faulted i = true → s'.faulted i = true

/-- What others leave to the call `i`: its temporary file. -/
structure Rely (i : Uuid) (s s' : KeyDirectory) : Prop extends Change s s' where
  own : s'.names (.temporary i) = s.names (.temporary i)
  mine : ∀ n, s.names (.temporary i) = some n → Grows (s.files n) (s'.files n)
  unlinked : ∀ n, s.names (.temporary i) = some n → s.names .correlationKey ≠ some n →
    s'.names .correlationKey ≠ some n

theorem Change.trans (h : Change s s') (h' : Change s' s'') : Change s s'' where
  key n hn := ⟨(h'.key n (h.key n hn).1).1, (h.key n hn).2.trans (h'.key n (h.key n hn).1).2⟩
  mode hmode := h'.mode (h.mode hmode)
  faulted i hi := h'.faulted i (h.faulted i hi)

theorem Change.of_same (hnames : s'.names = s.names) (hfiles : s'.files = s.files) (hmode : s'.mode = s.mode)
    (hfaulted : ∀ i, s.faulted i = true → s'.faulted i = true) : Change s s' where
  key _ hn := ⟨hnames ▸ hn, hfiles ▸ .refl⟩
  mode h := hmode ▸ h
  faulted := hfaulted

def protocol (m₀ : KeyDirectory) : Protocol Uuid Unit KeyDirectory where
  inv := Inv m₀
  rely := Rely
  change := Change
  ok _ _ _ := True
  refl _ _ := ⟨.of_same rfl rfl rfl fun _ => id, rfl, fun _ _ => .refl, fun _ _ => id⟩
  trans _ _ _ _ h h' := ⟨h.toChange.trans h'.toChange, h'.own.trans h.own,
    fun n hn => (h.mine n hn).trans (h'.mine n (h.own.trans hn)),
    fun n hn hkey => h'.unlinked n (h.own.trans hn) (h.unlinked n hn hkey)⟩

variable {m₀ s s' : KeyDirectory} {i : Uuid}

/-! ## What an operation does -/

theorem rely_tick : Rely i s s.tick := ⟨.of_same rfl rfl rfl fun _ => id, rfl, fun _ _ => .refl, fun _ _ => id⟩

theorem rely_markFaulted : Rely i s (s.markFaulted i) := by
  refine ⟨.of_same rfl rfl rfl fun j hj => ?_, rfl, fun _ _ => .refl, fun _ _ => id⟩
  by_cases hji : j = i
  · exact hji ▸ Function.update_self _ _ _
  · exact (Function.update_of_ne hji _ _).trans hj

/-- An operation of the call `i`: only its temporary file is written and removed, and only that is linked. -/
structure Acts (m₀ : KeyDirectory) (i : Uuid) (s s' : KeyDirectory) : Prop where
  inv : Inv m₀ s'
  others : ∀ j, j ≠ i → s'.names (.temporary j) = s.names (.temporary j)
  linked : ∀ n, s'.names .correlationKey = some n →
    s.names .correlationKey = some n ∨ s.names (.temporary i) = some n
  files : ∀ n, n < s.count → s.names (.temporary i) = some n ∧ s.names .correlationKey ≠ some n ∨
    Grows (s.files n) (s'.files n)
  change : Change s s'

theorem Acts.owes (h : Acts m₀ i s s') (hinv : Inv m₀ s) : (protocol m₀).Owes i s s' where
  inv := h.inv
  change := h.change
  rely j hj := by
    refine ⟨h.change, h.others j hj, fun n hn => ?_, fun n hn hkey hlinked => ?_⟩
    · rcases h.files n (hinv.bounded _ n hn) with ⟨hi, -⟩ | hgrows
      · exact absurd (hinv.apart j i n hn hi) hj
      · exact hgrows
    · rcases h.linked n hlinked with hkey' | hi
      · exact hkey hkey'
      · exact hj (hinv.apart j i n hn hi)

/-- Nothing but the directory and the account of the faults has changed. -/
theorem Acts.of_same (hinv : Inv m₀ s) (hnames : s'.names = s.names) (hfiles : s'.files = s.files)
    (hcount : s'.count = s.count) (hmode : s.mode = some 0o700 → s'.mode = some 0o700)
    (hfaulted : ∀ i, s.faulted i = true → s'.faulted i = true) : Acts m₀ i s s' where
  inv := by
    refine ⟨?_, ?_, ?_, ?_⟩
    · rw [hnames, hcount]
      exact hinv.bounded
    · rw [hnames]
      exact hinv.apart
    · rw [hnames, hfiles]
      exact hinv.kept
    · rw [hnames, hfiles]
      exact hinv.complete
  others j _ := by rw [hnames]
  linked n hn := .inl (hnames ▸ hn)
  files n _ := .inr (hfiles ▸ .refl)
  change := ⟨fun n hn => ⟨hnames ▸ hn, hfiles ▸ .refl⟩, hmode, hfaulted⟩

theorem Acts.refl (hinv : Inv m₀ s) : Acts m₀ i s s := .of_same hinv rfl rfl rfl id fun _ => id

theorem acts_tick (hinv : Inv m₀ s) : Acts m₀ i s s.tick := .of_same hinv rfl rfl rfl id fun _ => id

theorem acts_markFaulted (hinv : Inv m₀ s) : Acts m₀ i s (s.markFaulted i) := 
  .of_same hinv rfl rfl rfl id rely_markFaulted.faulted

/-- A new temporary file. -/
theorem acts_create (hinv : Inv m₀ s) : Acts m₀ i s (s.create (.temporary i)) := by
  have hkey : (s.create (.temporary i)).names .correlationKey = s.names .correlationKey :=
    create_names_of_ne key_ne_temporary
  have hothers : ∀ j, j ≠ i → (s.create (.temporary i)).names (.temporary j) = s.names (.temporary j) :=
    fun j hj => create_names_of_ne fun h => hj (KeyName.temporary.inj h)
  have hself : (s.create (.temporary i)).names (.temporary i) = some s.count := create_names_self
  have hold : ∀ n, n < s.count → (s.create (.temporary i)).files n = s.files n := fun _ hn =>
    create_files_of_lt hn
  have hfresh : ∀ j n, (s.create (.temporary i)).names (.temporary j) = some n → j ≠ i → n < s.count :=
    fun j n hn hj => hinv.bounded _ n ((hothers j hj).symm.trans hn)
  refine ⟨⟨fun name n hn => ?_, fun j k n hj hk => ?_, fun n hn => ?_, fun n hn => ?_⟩, hothers, fun n hn => ?_,
    fun n hn => .inr ((hold n hn) ▸ .refl), ⟨fun n hn => ⟨hkey.trans hn, ?_⟩, id, fun _ => id⟩⟩
  · by_cases hname : name = .temporary i
    · subst hname
      cases hself.symm.trans hn
      exact Nat.lt_succ_self _
    · exact Nat.lt_succ_of_lt (hinv.bounded name n ((create_names_of_ne hname).symm.trans hn))
  · by_cases hji : j = i
    · by_cases hki : k = i
      · exact hji.trans hki.symm
      · rw [hji, hself] at hj
        exact absurd (hfresh k n hk hki) (Nat.not_lt.mpr (Nat.le_of_eq (Option.some.inj hj)))
    · by_cases hki : k = i
      · rw [hki, hself] at hk
        exact absurd (hfresh j n hj hji) (Nat.not_lt.mpr (Nat.le_of_eq (Option.some.inj hk)))
      · rw [hothers j hji] at hj
        rw [hothers k hki] at hk
        exact hinv.apart j k n hj hk
  · obtain ⟨hn', hbytes⟩ := hinv.kept n hn
    rw [hkey, hold n (hinv.bounded _ n hn')]
    exact ⟨hn', hbytes⟩
  · rw [hkey] at hn
    rw [hold n (hinv.bounded _ n hn)]
    exact hinv.complete n hn
  · exact .inl (hkey.symm.trans hn)
  · exact (hold n (hinv.bounded _ n hn)) ▸ .refl

/-- A change of one file, which is not linked yet, or which keeps its bytes and is made private. -/
theorem acts_update (hinv : Inv m₀ s) {n : Nat} {f : KeyFile}
    (hf : s.names (.temporary i) = some n ∧ s.names .correlationKey ≠ some n ∨
      f.bytes = (s.files n).bytes ∧ f.mode = 0o600) :
    Acts m₀ i s { s with files := Function.update s.files n f } := by
  have hother : ∀ n', n' ≠ n → Function.update s.files n f n' = s.files n' := fun n' hn' =>
    Function.update_of_ne hn' _ _
  have hkey : ∀ n', s.names .correlationKey = some n' → Grows (s.files n') (Function.update s.files n f n') := by
    intro n' hn'
    by_cases heq : n' = n
    · subst heq
      rcases hf with ⟨-, hunlinked⟩ | ⟨hbytes, hmode⟩
      · exact absurd hn' hunlinked
      · rw [Function.update_self]
        exact ⟨hbytes, fun _ => hmode⟩
    · rw [hother n' heq]
      exact .refl
  refine ⟨⟨hinv.bounded, hinv.apart, fun n' hn' => ?_, fun n' hn' => ?_⟩, fun _ _ => rfl, fun _ => .inl,
    fun n' _ => ?_, ⟨fun n' hn' => ⟨hn', hkey n' hn'⟩, id, fun _ => id⟩⟩
  · obtain ⟨hlinked, hbytes⟩ := hinv.kept n' hn'
    exact ⟨hlinked, (hkey n' hlinked).bytes.trans hbytes⟩
  · refine (hinv.complete n' hn').imp_right fun hcomplete => ⟨?_, (hkey n' hn').mode hcomplete.2⟩
    exact (congrArg _ (hkey n' hn').bytes).trans hcomplete.1
  · by_cases heq : n' = n
    · subst heq
      refine hf.imp_right fun ⟨hbytes, hmode⟩ => ?_
      dsimp only
      rw [Function.update_self]
      exact ⟨hbytes, fun _ => hmode⟩
    · exact .inr (hother n' heq ▸ .refl)

/-- The link of a whole file. -/
theorem acts_link (hinv : Inv m₀ s) (hn : s.names (.temporary i) = some n)
    (hnone : s.names .correlationKey = none) (hcomplete : Complete (s.files n)) :
    Acts m₀ i s { s with names := Function.update s.names .correlationKey (some n) } := by
  have hself : Function.update s.names .correlationKey (some n) .correlationKey = some n :=
    Function.update_self _ _ _
  have hothers : ∀ j, Function.update s.names .correlationKey (some n) (.temporary j) = s.names (.temporary j) :=
    fun j => Function.update_of_ne key_ne_temporary.symm _ _
  refine ⟨⟨fun name n' hn' => ?_, fun j k n' hj hk => ?_, fun n' hn' => ?_, fun n' hn' => .inr ?_⟩,
    fun j _ => hothers j, fun n' hn' => .inr ?_, fun _ _ => .inr .refl,
    ⟨fun n' hn' => absurd (hnone.symm.trans hn') nofun, id, fun _ => id⟩⟩
  · by_cases hname : name = .correlationKey
    · subst hname
      cases hself.symm.trans hn'
      exact hinv.bounded _ n hn
    · exact hinv.bounded name n' ((Function.update_of_ne hname _ _).symm.trans hn')
  · exact hinv.apart j k n' ((hothers j).symm.trans hj) ((hothers k).symm.trans hk)
  · cases hnone.symm.trans (hinv.kept n' hn').1
  · cases hself.symm.trans hn'
    exact hcomplete
  · cases hself.symm.trans hn'
    exact hn

theorem acts_remove (hinv : Inv m₀ s) :
    Acts m₀ i s { s with names := Function.update s.names (.temporary i) none } := by
  have hkey : Function.update s.names (.temporary i) none .correlationKey = s.names .correlationKey :=
    Function.update_of_ne key_ne_temporary _ _
  have hothers : ∀ j, j ≠ i → Function.update s.names (.temporary i) none (.temporary j) = s.names (.temporary j) :=
    fun j hj => Function.update_of_ne (fun h => hj (KeyName.temporary.inj h)) _ _
  have hsome : ∀ name n, Function.update s.names (.temporary i) none name = some n → s.names name = some n := by
    intro name n hn
    by_cases hname : name = .temporary i
    · rw [hname, Function.update_self] at hn
      cases hn
    · rwa [Function.update_of_ne hname] at hn
  exact ⟨⟨fun name n hn => hinv.bounded name n (hsome name n hn),
    fun j k n hj hk => hinv.apart j k n (hsome _ n hj) (hsome _ n hk),
    fun n hn => ⟨hkey.trans (hinv.kept n hn).1, (hinv.kept n hn).2⟩,
    fun n hn => hinv.complete n (hsome _ n hn)⟩, hothers, fun n hn => .inl (hsome _ n hn),
    fun _ _ => .inr .refl, ⟨fun n hn => ⟨hkey.trans hn, .refl⟩, id, fun _ => id⟩⟩

/-! ## What a call knows -/

/-- `correlation.key` has this key. -/
def Linked (key : KeyBytes) (s : KeyDirectory) : Prop :=
  ∃ n, s.names .correlationKey = some n ∧ (s.files n).bytes = key.val

/-- And only its owner may read it. -/
def Published (key : KeyBytes) (s : KeyDirectory) : Prop :=
  ∃ n, s.names .correlationKey = some n ∧ s.files n = ⟨key.val, 0o600⟩

/-- The temporary file of the call, before it is linked. -/
def Own (i : Uuid) (file : Nat) (bytes : List UInt8) (s : KeyDirectory) : Prop :=
  s.names (.temporary i) = some file ∧ s.names .correlationKey ≠ some file ∧ s.files file = ⟨bytes, 0o600⟩

/-- The call has no temporary file. -/
def Free (i : Uuid) (s : KeyDirectory) : Prop := s.names (.temporary i) = none

/-- There was a file of that name, but not one with a key. -/
def Unusable (m₀ : KeyDirectory) : Prop :=
  ∃ n, m₀.names .correlationKey = some n ∧ (m₀.files n).bytes.length ≠ KEY_BYTES

/-- What a call may fail for. -/
def Excused (m₀ : KeyDirectory) (i : Uuid) (s : KeyDirectory) : Prop := s.faulted i = true ∨ Unusable m₀

theorem Grows.eq {text : List UInt8} (h : Grows f f') (hf : f = ⟨text, 0o600⟩) : f' = ⟨text, 0o600⟩ := by
  subst hf
  obtain ⟨bytes', mode'⟩ := f'
  cases h.bytes
  cases h.mode rfl
  rfl

theorem Linked.change (h : Linked key s) (hchange : Change s s') : Linked key s' := by
  obtain ⟨n, hn, hbytes⟩ := h
  exact ⟨n, (hchange.key n hn).1, (hchange.key n hn).2.bytes.trans hbytes⟩

theorem Published.change (h : Published key s) (hchange : Change s s') : Published key s' := by
  obtain ⟨n, hn, hfile⟩ := h
  exact ⟨n, (hchange.key n hn).1, (hchange.key n hn).2.eq hfile⟩

theorem stable_linked {key : KeyBytes} : (protocol m₀).Stable i (Linked key) := fun _ _ h hrely _ =>
  h.change hrely.toChange

theorem stable_published {key : KeyBytes} : (protocol m₀).Stable i (Published key) := fun _ _ h hrely _ =>
  h.change hrely.toChange

theorem stable_private : (protocol m₀).Stable i fun s => s.mode = some 0o700 := fun _ _ h hrely _ =>
  hrely.mode h

theorem stable_faulted {j : Uuid} : (protocol m₀).Stable i fun s => s.faulted j = true := fun _ _ h hrely _ =>
  hrely.faulted j h

theorem stable_excused : (protocol m₀).Stable i (Excused m₀ i) := stable_faulted.or .const

theorem stable_exists : (protocol m₀).Stable i fun s => ∃ n, s.names .correlationKey = some n :=
  fun _ _ ⟨n, hn⟩ hrely _ => ⟨n, (hrely.key n hn).1⟩

theorem stable_free : (protocol m₀).Stable i (Free i) := fun _ _ h hrely _ =>
  hrely.own.trans h

theorem stable_own : (protocol m₀).Stable i (Own i file bytes) := fun _ _ h hrely _ =>
  ⟨hrely.own.trans h.1, hrely.unlinked file h.1 h.2.1, (hrely.mine file h.1).eq h.2.2⟩

/-- Whoever reads the key when there was none at first reads one that is private. -/
theorem Linked.published (h : Linked key s) (hinv : Inv m₀ s) (hnone : m₀.names .correlationKey = none) :
    Published key s := by
  obtain ⟨n, hn, hbytes⟩ := h
  rcases hinv.complete n hn with hn₀ | ⟨-, hmode⟩
  · cases hnone.symm.trans hn₀
  · refine ⟨n, hn, ?_⟩
    rw [← hbytes, ← hmode]

/-! ## Operations -/

section

variable {ε α : Type} {e : ε} {K : KeyDirectory → Prop} {Q : α → KeyDirectory → Prop} {E : ε → KeyDirectory → Prop}

theorem acts_of_tick (h : Acts m₀ i s.tick s') : Acts m₀ i s s' :=
  ⟨h.inv, h.others, h.linked, h.files, ⟨h.change.key, h.change.mode, h.change.faulted⟩⟩

theorem faulted_markFaulted : (s.markFaulted i).faulted i = true := Function.update_self _ _ _

/-- **One operation**, from what the call knows. -/
theorem meets_fileOp {f : KeyDirectory → Except ε (α × KeyDirectory)} (hs : K s) (hK : (protocol m₀).Stable i K)
    (hfault : ∀ s, K s → s.faulted i = true → E e s)
    (hok : ∀ s a s', Inv m₀ s → K s → f s = .ok (a, s') → Acts m₀ i s s' ∧ Q a s')
    (herror : ∀ s e', Inv m₀ s → K s → f s = .error e' → E e' s)
    (hQ : ∀ a, (protocol m₀).Stable i (Q a)) (hE : ∀ e, (protocol m₀).Stable i (E e)) :
    (op (fileOp i e f)).Meets (protocol m₀) i (Lib.Outcome Q E) s := by
  refine Thread.Meets.faulty hs hK (fun s hinv => ⟨(acts_markFaulted hinv).owes hinv, rely_markFaulted⟩)
    (fun s hinv => ⟨(acts_tick hinv).owes hinv, rely_tick⟩) (fun s s' h => ⟨h.key, h.mode, h.faulted⟩)
    (fun s hknown => hfault _ hknown faulted_markFaulted) (fun s a s' hinv hknown h => ?_) herror hQ hE
  obtain ⟨hacts, hvalue⟩ := hok s a s' hinv hknown h
  exact ⟨hacts.owes hinv, hvalue⟩

/-- An operation that only looks. -/
theorem meets_look {g : KeyDirectory → α} (hs : K s) (hK : (protocol m₀).Stable i K)
    (hfault : ∀ s, K s → s.faulted i = true → E e s) (hvalue : ∀ s, Inv m₀ s → K s → Q (g s) s)
    (hQ : ∀ a, (protocol m₀).Stable i (Q a)) (hE : ∀ e, (protocol m₀).Stable i (E e)) :
    (op (fileOp i e fun s => .ok (g s, s))).Meets (protocol m₀) i (Lib.Outcome Q E) s := by
  refine meets_fileOp hs hK hfault (fun s a s' hinv hknown h => ?_) (fun _ _ _ _ h => by cases h) hQ hE
  cases h
  exact ⟨.refl hinv, hvalue s hinv hknown⟩

end

/-! ## Calls -/

theorem meets_ensurePrivateDirectory (hs : Free i s) :
    (ensurePrivateDirectory i).Meets (protocol m₀) i (Lib.Outcome
      (fun _ s => Free i s ∧ s.mode = some 0o700) fun _ s => s.faulted i = true) s := by
  refine Thread.Meets.bind (R := Lib.Outcome (fun _ => Free i) fun _ s => s.faulted i = true)
    (meets_fileOp hs stable_free (fun _ _ => id) (fun s a s' hinv hknown h => ?_) (fun _ _ _ _ h => by cases h)
      (fun _ => stable_free) fun _ => stable_faulted) (fun _ s' _ hfree => ?_) fun _ _ _ => id
  · cases h
    exact ⟨.of_same hinv rfl rfl rfl (fun hmode => by rw [createDir, hmode]; rfl) fun _ => id, hknown⟩
  refine Thread.Meets.bind (R := Lib.Outcome (fun mode s => Free i s ∧
      (mode = some 0o700 → s.mode = some 0o700)) fun _ s => s.faulted i = true)
    (meets_look (K := Free i) hfree stable_free (fun _ _ => id) (fun s _ hknown => ⟨hknown, id⟩)
      (fun _ => stable_free.and (.imp fun _ => stable_private)) fun _ => stable_faulted)
    (fun mode s'' _ ⟨hfree', hprivate⟩ => ?_) fun _ _ _ => id
  split
  · rename_i hmode
    exact .ret fun s hrely hinv => (stable_free.and stable_private) _ s ⟨hfree', hprivate hmode⟩ hrely hinv
  · refine meets_fileOp hfree' stable_free (fun _ _ => id) (fun s a s' hinv hknown h => ?_)
      (fun _ _ _ _ h => by cases h) (fun _ => stable_free.and stable_private) fun _ => stable_faulted
    cases h
    exact ⟨.of_same hinv rfl rfl rfl (fun _ => rfl) fun _ => id, hknown, rfl⟩

/-- A name that is there is opened, and the file is made private. -/
theorem meets_ensurePrivateFile {name : KeyName} {K Q : KeyDirectory → Prop} (hs : K s)
    (hK : (protocol m₀).Stable i K) (hQ : (protocol m₀).Stable i Q)
    (hsome : ∀ s, K s → ∃ n, s.names name = some n)
    (hmode : ∀ s n, Inv m₀ s → K s → s.names name = some n → Q (s.setMode n 0o600)) :
    (ensurePrivateFile i name).Meets (protocol m₀) i
      (Lib.Outcome (fun _ => Q) fun _ s => s.faulted i = true) s := by
  refine Thread.Meets.bind (R := Lib.Outcome (fun _ => K) fun _ s => s.faulted i = true)
    (meets_fileOp hs hK (fun _ _ => id) (fun s a s' hinv hknown h => ?_) (fun s e' _ hknown h => ?_)
      (fun _ => hK) fun _ => stable_faulted) (fun _ s' _ hknown => ?_) fun _ _ _ => id
  · obtain ⟨n, hn⟩ := hsome s hknown
    simp only [openOrCreate, hn, Except.ok.injEq, Prod.mk.injEq, true_and] at h
    subst h
    exact ⟨.refl hinv, hknown⟩
  · obtain ⟨n, hn⟩ := hsome s hknown
    simp only [openOrCreate, hn] at h
    cases h
  · refine meets_fileOp hknown hK (fun _ _ => id) (fun s a s'' hinv hknown' h => ?_) (fun s e' _ hknown' h => ?_)
      (fun _ => hQ) fun _ => stable_faulted
    · obtain ⟨n, hn⟩ := hsome s hknown'
      simp only [setPermissions, hn, Except.ok.injEq, Prod.mk.injEq, true_and] at h
      subst h
      exact ⟨acts_update hinv (.inr ⟨rfl, rfl⟩), hmode s n hinv hknown' hn⟩
    · obtain ⟨n, hn⟩ := hsome s hknown'
      simp only [setPermissions, hn] at h
      cases h

/-- What a read knows when it fails. A file that is not there was not there at first. -/
def Unread (m₀ : KeyDirectory) (i : Uuid) (K : KeyDirectory → Prop) (e : ReadError) (s : KeyDirectory) : Prop :=
  K s ∧ match e with
    | .notFound => m₀.names .correlationKey = none ∧ ∃ s', K s' ∧ s'.names .correlationKey = none
    | .other => Excused m₀ i s

theorem stable_unread {K : KeyDirectory → Prop} (hK : (protocol m₀).Stable i K) (e : ReadError) :
    (protocol m₀).Stable i (Unread m₀ i K e) := by
  refine hK.and ?_
  cases e with
  | notFound => exact .const
  | other => exact stable_excused

/-- The key that is read is that of the file. -/
theorem meets_readCorrelationKey {K : KeyDirectory → Prop} (hs : K s) (hK : (protocol m₀).Stable i K) :
    (readCorrelationKey i).Meets (protocol m₀) i
      (Lib.Outcome (fun key s => K s ∧ Linked key s) (Unread m₀ i K)) s := by
  have hopened : ∀ n, (protocol m₀).Stable i fun s => K s ∧ s.names .correlationKey = some n := fun n =>
    hK.and fun _ _ hn hrely _ => (hrely.key n hn).1
  have hfault : ∀ n s, K s ∧ s.names .correlationKey = some n → s.faulted i = true → Unread m₀ i K .other s :=
    fun n s hknown hfault => ⟨hknown.1, .inl hfault⟩
  refine Thread.Meets.bind (R := Lib.Outcome (fun n s => K s ∧ s.names .correlationKey = some n) (Unread m₀ i K))
    (meets_fileOp hs hK (fun s hknown hfault => ⟨hknown, .inl hfault⟩) (fun s n s' hinv hknown h => ?_)
      (fun s e hinv hknown h => ?_) hopened (stable_unread hK))
    (fun n s' _ hn => ?_) fun _ _ _ => id
  · split at h
    · cases h
      exact ⟨.refl hinv, hknown, ‹_›⟩
    · cases h
  · split at h
    · cases h
    · rename_i hnone
      cases h
      refine ⟨hknown, ?_, s, hknown, hnone⟩
      -- a key that was there would still be there
      cases hfirst : m₀.names .correlationKey with
      | none => rfl
      | some n => cases hnone.symm.trans (hinv.kept n hfirst).1
  refine Thread.Meets.bind (R := Lib.Outcome (fun size s => (K s ∧ s.names .correlationKey = some n) ∧
      (s.files n).bytes.length = size) (Unread m₀ i K))
    (meets_look hn (hopened n) (hfault n) (fun s _ hknown => ⟨hknown, rfl⟩)
      (fun size => ?_) (stable_unread hK)) (fun size s'' hinv' ⟨hn', hsize⟩ => ?_) fun _ _ _ => id
  · exact fun s s' ⟨hknown, hsize⟩ hrely hinv => ⟨hopened n s s' hknown hrely hinv,
      (congrArg List.length (hrely.key n hknown.2).2.bytes).trans hsize⟩
  split
  · rename_i hwrong
    refine .fail fun s hrely hinv => stable_unread hK .other s'' s ⟨hn'.1, .inr ?_⟩ hrely hinv
    rcases hinv'.complete n hn'.2 with hfirst | hcomplete
    · exact ⟨n, hfirst, fun h => hwrong (hsize.symm.trans ((congrArg _ (hinv'.kept n hfirst).2).trans h))⟩
    · exact absurd (hsize.symm.trans hcomplete.1) hwrong
  · rename_i hright
    rw [not_not] at hright
    refine meets_fileOp (K := fun s => (K s ∧ s.names .correlationKey = some n) ∧
        (s.files n).bytes.length = KEY_BYTES) ⟨hn', hsize.trans hright⟩ ?_
      (fun s hknown => hfault n s hknown.1) (fun s key s' hinv hknown h => ?_) (fun s e hinv hknown h => ?_)
      (fun key => hK.and stable_linked) (stable_unread hK)
    · exact fun s s' ⟨hknown, hlength⟩ hrely hinv => ⟨hopened n s s' hknown hrely hinv,
        (congrArg List.length (hrely.key n hknown.2).2.bytes).trans hlength⟩
    · split at h
      · cases h
        exact ⟨.refl hinv, hknown.1.1, n, hknown.1.2, (List.take_of_length_le hknown.2.le).symm⟩
      · cases h
    · split at h
      · cases h
      · rename_i hshort
        exact absurd ((congrArg _ (List.take_of_length_le hknown.2.le)).trans hknown.2) hshort

/-- Why a key was not published: an operation has failed, or there is one. -/
def Outrun (i : Uuid) (s : KeyDirectory) : Prop :=
  s.faulted i = true ∨ ∃ n, s.names .correlationKey = some n

theorem stable_outrun : (protocol m₀).Stable i (Outrun i) := stable_faulted.or stable_exists

theorem overwrite_nil {new : List UInt8} : overwrite [] new = new := by
  rw [overwrite, List.drop_nil, List.append_nil]

theorem Own.setBytes {old new : List UInt8} (h : Own i file old s) : Own i file new (s.setBytes file new) :=
  ⟨h.1, h.2.1, by rw [KeyDirectory.setBytes]; dsimp only; rw [Function.update_self, h.2.2]⟩

theorem meets_writeAll {key : KeyBytes} (hs : Own i file [] s) :
    (op (writeAll i file key.val)).Meets (protocol m₀) i
      (Lib.Outcome (fun _ => Own i file key.val) fun _ => Outrun i) s := by
  refine Thread.Meets.atom (fun s' hrely hinv _ => ?_)
    (Protocol.Stable.outcome (fun _ => stable_own) fun _ => stable_outrun)
  have hown : Own i file [] s' := stable_own _ _ hs hrely hinv
  have hacts : ∀ {s'' : KeyDirectory} {f}, Inv m₀ s'' → Own i file [] s'' →
      Acts m₀ i s'' { s'' with files := Function.update s''.files file f } := fun hinv h =>
    acts_update hinv (.inl ⟨h.1, h.2.1⟩)
  have hmarked := acts_markFaulted (i := i) hinv
  have hownMarked : Own i file [] (s'.markFaulted i) := stable_own _ _ hown rely_markFaulted hmarked.inv
  have htick := acts_tick (i := i) hinv
  have hownTick : Own i file [] s'.tick := stable_own _ _ hown rely_tick htick.inv
  unfold writeAll
  split
  · refine ⟨?_, .inl faulted_markFaulted⟩
    exact ⟨(hacts hmarked.inv hownMarked).inv, hmarked.change.trans (hacts hmarked.inv hownMarked).change,
      fun j hj => (protocol m₀).trans j _ _ _ ((hmarked.owes hinv).rely j hj)
        (((hacts hmarked.inv hownMarked).owes hmarked.inv).rely j hj)⟩
  · have hbytes : (s'.files file).bytes = [] := congrArg KeyFile.bytes hown.2.2
    rw [hbytes, overwrite_nil]
    exact ⟨(acts_of_tick (hacts htick.inv hownTick)).owes hinv, hownTick.setBytes⟩

/-- The key is published, unless there is one, or an operation failed. -/
theorem meets_publish {key : KeyBytes} (hs : Free i s) :
    (publish i key).Meets (protocol m₀) i (Lib.Outcome (fun _ => Published key) fun _ => Outrun i) s := by
  refine Thread.Meets.bind (R := Lib.Outcome (fun file => Own i file []) fun _ => Outrun i)
    (meets_fileOp (K := Free i) hs stable_free (fun _ _ => .inl)
      (fun s file s' hinv hknown h => ?_) (fun s e _ hknown h => ?_) (fun _ => stable_own) fun _ => stable_outrun)
    (fun file s' _ hown => ?_) fun _ _ _ => id
  · simp only [privateNewFile, show s.names (.temporary i) = none from hknown, Except.ok.injEq, Prod.mk.injEq] at h
    obtain ⟨rfl, rfl⟩ := h
    refine ⟨acts_create hinv, create_names_self, fun hlinked => ?_, create_files_self⟩
    exact absurd (hinv.bounded _ _ ((create_names_of_ne key_ne_temporary).symm.trans hlinked)) (Nat.lt_irrefl _)
  · simp only [privateNewFile, show s.names (.temporary i) = none from hknown] at h
    cases h
  refine Thread.Meets.bind (R := Lib.Outcome (fun _ => Own i file []) fun _ => Outrun i)
    ((meets_ensurePrivateFile (K := Own i file []) (Q := Own i file []) hown stable_own stable_own
      (fun s h => ⟨file, h.1⟩) fun s n hinv h hn => ?_).mono fun r s _ h => ?_)
    (fun _ s'' _ hown' => ?_) fun _ _ _ => id
  · cases h.1.symm.trans hn
    refine ⟨h.1, h.2.1, ?_⟩
    rw [KeyDirectory.setMode]
    dsimp only
    rw [Function.update_self, h.2.2]
  · cases r with
    | ok u => exact h
    | error e => exact .inl h
  refine Thread.Meets.bind (meets_writeAll hown') (fun _ s₃ _ hwritten => ?_) fun _ _ _ => id
  refine Thread.Meets.bind (R := Lib.Outcome (fun _ => Own i file key.val) fun _ => Outrun i)
    (meets_look (K := Own i file key.val) hwritten stable_own (fun _ _ => .inl) (fun _ _ => id)
      (fun _ => stable_own) fun _ => stable_outrun) (fun _ s₄ _ hsynced => ?_) fun _ _ _ => id
  refine meets_fileOp (K := Own i file key.val) hsynced stable_own (fun _ _ => .inl)
    (fun s u s' hinv hknown h => ?_) (fun s e _ hknown h => ?_) (fun _ => stable_published) fun _ => stable_outrun
  · obtain ⟨hname, -, hfile⟩ := hknown
    cases hkey : s.names .correlationKey with
    | some n =>
      simp only [hardLink, hname, hkey] at h
      cases h
    | none =>
      simp only [hardLink, hname, hkey, Except.ok.injEq, Prod.mk.injEq, true_and] at h
      subst h
      have hcomplete : Complete (s.files file) := by
        rw [hfile]
        exact ⟨key.property, rfl⟩
      refine ⟨acts_link hinv hname hkey hcomplete, file, ?_, hfile⟩
      change Function.update s.names .correlationKey (some file) .correlationKey = some file
      rw [Function.update_self]
  · obtain ⟨hname, -, -⟩ := hknown
    cases hkey : s.names .correlationKey with
    | some n => exact .inr ⟨n, hkey⟩
    | none =>
      simp only [hardLink, hname, hkey] at h
      cases h

theorem meets_publishCorrelationKey {key : KeyBytes} (hs : Free i s) :
    (publishCorrelationKey i key).Meets (protocol m₀) i
      (Lib.Outcome (fun _ => Published key) fun _ => Outrun i) s := by
  refine Thread.Meets.bind (R := Lib.Outcome (fun result =>
      Lib.Outcome (fun _ => Published key) (fun _ => Outrun i) result) fun (_ : AppError) _ => False)
    ((meets_publish hs).result fun r s _ h => h) (fun result s' _ hresult => ?_) fun _ _ _ => False.elim
  have hstable : ∀ r : Except AppError Unit, (protocol m₀).Stable i
      (Lib.Outcome (fun _ => Published key) (fun _ => Outrun i) r) :=
    .outcome (fun _ => stable_published) fun _ => stable_outrun
  -- what is published stays when the temporary file goes
  have hpersist : ∀ s s', Lib.Outcome (fun _ => Published key) (fun _ => Outrun i) result s → Change s s' →
      Lib.Outcome (fun _ => Published key) (fun _ => Outrun i) result s' := fun s s' h hchange => by
    cases result with
    | ok u => exact Published.change h hchange
    | error e => exact h.imp (hchange.faulted i) fun ⟨n, hn⟩ => ⟨n, (hchange.key n hn).1⟩
  have hremove : (op (fileOp i correlationError (removeFile (.temporary i)))).Meets (protocol m₀) i
      (fun _ _ => True) s' :=
    (meets_fileOp (K := fun _ => True) (Q := fun _ _ => True) (E := fun _ _ => True) trivial .const
      (fun _ _ _ => trivial) (fun s u s'' hinv _ h => by
        unfold removeFile at h
        split at h
        · cases h
          exact ⟨acts_remove hinv, trivial⟩
        · cases h) (fun _ _ _ _ _ => trivial) (fun _ => .const) fun _ => .const).mono fun _ _ _ _ => trivial
  refine Thread.Meets.bind (R := fun r s => (∃ a, r = .ok a) ∧
      Lib.Outcome (fun _ => Published key) (fun _ => Outrun i) result s)
    ((hremove.persist hresult (hstable result) hpersist).result fun r s _ h => ⟨⟨r, rfl⟩, h.2⟩)
    (fun _ s'' _ h => ?_) fun e s _ h => absurd h.1 nofun
  exact fun s₃ hrely hinv => hstable result s'' s₃ h.2 hrely hinv

/-- What a call has done when it returns, and why it may have failed. -/
def Ended (m₀ : KeyDirectory) (i : Uuid) (dataDir : String) : Except AppError KeyBytes → KeyDirectory → Prop :=
  Lib.Outcome (fun key s => Published key s ∧ s.mode = some 0o700)
    fun _ s => dataDir ≠ "com.ccreminder.app" ∨ Excused m₀ i s

/-- The key of another call, after the own one was not published. -/
theorem meets_readPublished (hs : Outrun i s) (hnone : m₀.names .correlationKey = none) :
    (readPublished i).Meets (protocol m₀) i (Lib.Outcome Published fun _ => Excused m₀ i) s := by
  have hread : ∀ {K : KeyDirectory → Prop}, K s → (protocol m₀).Stable i K →
      (∀ e s, Unread m₀ i K e s → Excused m₀ i s) →
      (readPublished i).Meets (protocol m₀) i (Lib.Outcome Published fun _ => Excused m₀ i) s := by
    intro K hs hK herror
    refine Thread.Meets.bind (R := Lib.Outcome (fun (r : Except ReadError KeyBytes) (s : KeyDirectory) =>
        Lib.Outcome (fun key s => K s ∧ Linked key s) (Unread m₀ i K) r s) fun _ _ => False)
      ((meets_readCorrelationKey hs hK).result fun r s _ h => h) (fun r s hinv h => ?_) fun _ _ _ => False.elim
    cases r with
    | ok key => exact .ret fun s' hrely hinv' => stable_published _ s' (h.2.published hinv hnone) hrely hinv'
    | error e => exact .fail fun s' hrely hinv' => stable_excused _ s' (herror e s h) hrely hinv'
  rcases hs with hfaulted | hlinked
  · exact hread hfaulted stable_faulted fun e s h => .inl h.1
  · refine hread hlinked stable_exists fun e s h => ?_
    cases e with
    | other => exact h.2
    | notFound =>
      obtain ⟨-, -, s', ⟨n, hn⟩, hnone'⟩ := h
      cases hn.symm.trans hnone'

/-- **A call** keeps to the protocol. -/
theorem meets_loadOrCreate {dataDir : String} {random : KeyBytes} (hs : Free i s) :
    (loadOrCreate i dataDir random).Meets (protocol m₀) i (Ended m₀ i dataDir) s := by
  refine Thread.Meets.bind (R := Lib.Outcome (fun _ => Free i) fun _ _ => dataDir ≠ "com.ccreminder.app") ?_
    (fun _ s₁ _ hfree => ?_) fun _ _ _ => .inl
  · unfold validateDataDirectory
    split
    · exact fun s' hrely hinv => stable_free _ s' hs hrely hinv
    · exact fun s' _ _ => ‹_›
  have hfaulted : ∀ e s, s.faulted i = true → Ended m₀ i dataDir (.error e) s := fun _ _ h => .inr (.inl h)
  refine (meets_ensurePrivateDirectory hfree).bind (fun _ s₂ _ hfree => ?_) fun e s _ => hfaulted e s
  refine (meets_ensurePrivateDirectory hfree.1).bind (fun _ s₃ _ ⟨hfree, hmode⟩ => ?_) fun e s _ => hfaulted e s
  refine Thread.Meets.mono (R := fun r s => Lib.Outcome Published (fun _ => Excused m₀ i) r s ∧ s.mode = some 0o700)
    (Thread.Meets.persist ?_ hmode stable_private fun s s' h hchange => hchange.mode h) fun r s _ h => ?_
  · refine Thread.Meets.bind (R := Lib.Outcome (fun (r : Except ReadError KeyBytes) (s : KeyDirectory) =>
        Lib.Outcome (fun key s => Free i s ∧ Linked key s) (Unread m₀ i (Free i)) r s) fun _ _ => False)
      ((meets_readCorrelationKey hfree stable_free).result fun r s _ h => h) (fun r s₄ _ hread => ?_)
      fun _ _ _ => False.elim
    cases r with
    | ok key =>
      refine (meets_ensurePrivateFile (K := Linked key) (Q := Published key) hread.2 stable_linked stable_published
        (fun s ⟨n, hn, _⟩ => ⟨n, hn⟩) fun s n _ ⟨n', hn', hbytes⟩ hn => ?_).bind
        (fun _ s₅ _ hpublished => .ret fun s hrely hinv => stable_published _ s hpublished hrely hinv)
        fun e s _ => .inl
      cases hn'.symm.trans hn
      refine ⟨n, hn, ?_⟩
      rw [KeyDirectory.setMode]
      dsimp only
      rw [Function.update_self, hbytes]
    | error e =>
      cases e with
      | other => exact .fail fun s hrely hinv => stable_excused _ s hread.2 hrely hinv
      | notFound =>
        obtain ⟨hfree', hnone, -⟩ := hread
        refine Thread.Meets.bind (R := Lib.Outcome (fun _ => Free i) fun _ => Excused m₀ i)
          (meets_look (K := Free i) hfree' stable_free (fun _ _ => .inl) (fun _ _ => id) (fun _ => stable_free)
            fun _ => stable_excused) (fun key s₅ _ hfree₅ => ?_) fun _ _ _ => id
        refine Thread.Meets.bind (R := Lib.Outcome (fun (r : Except AppError Unit) (s : KeyDirectory) =>
            Lib.Outcome (fun _ => Published key) (fun _ => Outrun i) r s) fun _ _ => False)
          ((meets_publishCorrelationKey hfree₅).result fun r s _ h => h)
          (fun r s₆ _ hresult => ?_) fun _ _ _ => False.elim
        cases r with
        | ok u => exact .ret fun s hrely hinv => stable_published _ s hresult hrely hinv
        | error e => exact meets_readPublished hresult hnone
  · cases r with
    | ok key => exact h
    | error e => exact .inr h.1

end CorrelationKey

/-! ## All calls -/

namespace CorrelationKey

abbrev System := Threads Uuid Unit Empty KeyDirectory (Except AppError KeyBytes)

/-- A crash leaves the files as they are. -/
abbrev Step : System → Threads.Act Uuid Unit → System → Prop := Threads.Step (fun _ s => s) Eq

/-- Calls on a directory that was `m₀`, each with what its random source yields. -/
structure Start (m₀ : KeyDirectory) (dataDir : String) (random : Uuid → KeyBytes) (s : System) : Prop where
  store : s.store = m₀
  calls : ∀ i x, s.thread i = some x → x = (loadOrCreate i dataDir (random i)).result ∧ Free i m₀

/-- Names refer to files that are there, and no two temporary names to one. -/
structure Sound (m₀ : KeyDirectory) : Prop where
  bounded : ∀ name n, m₀.names name = some n → n < m₀.count
  apart : ∀ i j n, m₀.names (.temporary i) = some n → m₀.names (.temporary j) = some n → i = j

theorem tolerates : Threads.Tolerates (protocol m₀) (fun _ s => s) Eq where
  crash i s hinv := (Acts.refl hinv).owes hinv
  other s s' hinv h := by
    subst h
    exact ⟨hinv, (Acts.refl (i := 0) hinv).change, fun j => (protocol m₀).refl j s⟩

theorem Start.keep {dataDir : String} {random : Uuid → KeyBytes} {s : System} (h : Start m₀ dataDir random s)
    (hsound : Sound m₀) : Threads.Keep (protocol m₀) (fun i => Ended m₀ i dataDir) s := by
  obtain ⟨rfl, hcalls⟩ := h
  refine ⟨⟨hsound.bounded, hsound.apart, fun n hn => ⟨hn, rfl⟩, fun _ => .inl⟩, fun i x hx => ?_⟩
  obtain ⟨rfl, hfree⟩ := hcalls i x hx
  exact (meets_loadOrCreate hfree).follows

end CorrelationKey

open CorrelationKey in
/-- **One key.** In every run of calls, with crashes and faults anywhere: every call that returns a key
returns that of the file, so that all keys are the same; the file and its directory are private by then,
and at no time does the file have a part of a key. A call whose operations all work returns a key, unless
there was a file without one. -/
theorem correlationKey_agreed {m₀ : KeyDirectory} {dataDir : String} {random : Uuid → KeyBytes} {s : System}
    (hsound : Sound m₀) (h : Reach (Start m₀ dataDir random) Step (fun _ _ => True) s) :
    (∀ i key, s.thread i = some (.done (.ok (.ok key))) → Published key s.store ∧ s.store.mode = some 0o700) ∧
    (∀ i j key key', s.thread i = some (.done (.ok (.ok key))) → s.thread j = some (.done (.ok (.ok key'))) →
      key = key') ∧
    (∀ i e, s.thread i = some (.done (.ok (.error e))) → dataDir = "com.ccreminder.app" →
      s.store.faulted i = true ∨ Unusable m₀) ∧
    ∀ n, s.store.names .correlationKey = some n → Complete (s.store.files n) ∨
      m₀.names .correlationKey = some n ∧ (s.store.files n).bytes = (m₀.files n).bytes := by
  have hkeep := Threads.follows (fun s hs => hs.keep hsound) tolerates
    (h.invariant (P := fun s => Reach (Start m₀ dataDir random) Step (Threads.Counts (protocol m₀)) s)
      (fun s hs => .start hs) fun s act s' hs hstep _ => hs.next hstep (by cases act <;> trivial))
  refine ⟨fun i key hi => hkeep.ended hi, fun i j key key' hi hj => ?_, fun i e hi hdir => ?_, fun n hn => ?_⟩
  · obtain ⟨⟨n, hn, hfile⟩, -⟩ := hkeep.ended hi
    obtain ⟨⟨n', hn', hfile'⟩, -⟩ := hkeep.ended hj
    cases hn.symm.trans hn'
    exact Subtype.ext (KeyFile.mk.inj (hfile.symm.trans hfile')).1
  · rcases hkeep.ended hi with hdir' | hexcused
    · exact absurd hdir hdir'
    · exact hexcused
  · rcases hkeep.1.complete n hn with hfirst | hcomplete
    · exact .inr ⟨hfirst, (hkeep.1.kept n hfirst).2⟩
    · exact .inl hcomplete

/-! ## A race for the key -/

namespace CorrelationKey.Sample

def empty : KeyDirectory where
  mode := none
  names _ := none
  files _ := ⟨[], 0⟩
  count := 0
  fates _ := {}
  now := 0
  faulted _ := false

theorem sound_empty : Sound empty := ⟨fun _ _ h => absurd h nofun, fun _ _ _ h => absurd h nofun⟩

/-- Each call draws a key of its own. -/
def random (i : Uuid) : KeyBytes :=
  ⟨List.replicate KEY_BYTES (UInt8.ofNat i.toNat), List.length_replicate⟩

def start : System where
  store := empty
  thread i := if i = 1 ∨ i = 2 then some (loadOrCreate i "com.ccreminder.app" (random i)).result else none

/-- Both calls find no key, the second one publishes its own, and the first one goes on. -/
def race : System := Threads.exec (List.replicate 7 1 ++ List.replicate 16 2 ++ List.replicate 16 1) start

def returned (s : System) (i : Uuid) : Option (List UInt8) :=
  match s.thread i with
  | some (.done (.ok (.ok key))) => some key.val
  | _ => none

theorem of_returned {s : System} {bytes : List UInt8} (h : returned s i = some bytes) :
    ∃ key : KeyBytes, s.thread i = some (.done (.ok (.ok key))) ∧ key.val = bytes := by
  unfold returned at h
  split at h
  · rename_i key hthread
    exact ⟨key, hthread, Option.some.inj h⟩
  · cases h

end CorrelationKey.Sample

open CorrelationKey CorrelationKey.Sample in
/-- The call that comes second returns the key of the other. -/
theorem correlationKey_agreed_race : race.thread 1 = some (.done (.ok (.ok (random 2)))) ∧
    race.thread 2 = some (.done (.ok (.ok (random 2)))) ∧ Published (random 2) race.store := by
  have hstart : Start empty "com.ccreminder.app" random start := by
    refine ⟨rfl, fun i x hx => ?_⟩
    unfold start at hx
    dsimp only at hx
    split at hx
    · cases hx
      exact ⟨rfl, rfl⟩
    · cases hx
  have hrun : Reach (Start empty "com.ccreminder.app" random) Step (fun _ _ => True) race :=
    Threads.exec_reach _ (fun _ _ _ => trivial) (.start hstart)
  obtain ⟨hkeys, hagree, -, -⟩ := correlationKey_agreed sound_empty hrun
  have hfirst : (returned race 1).isSome = true := by decide +kernel
  have hsecond : returned race 2 = some (random 2).val := by decide +kernel
  obtain ⟨bytes, hbytes⟩ := Option.isSome_iff_exists.mp hfirst
  obtain ⟨key, hthread, -⟩ := of_returned hbytes
  obtain ⟨key', hthread', hkey'⟩ := of_returned hsecond
  obtain rfl := Subtype.ext hkey'
  obtain rfl := hagree 1 2 _ _ hthread hthread'
  exact ⟨hthread, hthread', (hkeys 2 _ hthread').1⟩

end CcReminder
