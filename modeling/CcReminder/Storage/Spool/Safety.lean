import CcReminder.Storage.Spool.Threads
import Mathlib.Data.Finset.Card

/-!
# The spool under interference

Writers and drains run at the same time, and each may crash anywhere. The capacity is checked under the
lock, and the drains claim, insert and remove files without it. `SpoolCalls.protocol` says what each call
owes to the others; from it the limit holds, an accepted event is in the spool or inserted, and nothing is
removed before it was inserted, or moved to `rejected` as something that is no event.

Two things are asked of a run: a file that a drain could not read is gone when the drain goes on to reject
it, and a writer that finds the spool below its limit has missed no file that came up under another name.
-/

set_option autoImplicit true

namespace CcReminder

open Lib Host

namespace Spool

variable {id : Uuid}

/-! ## Counting -/

/-- The files that count. -/
def count (s : Spool) : Nat := s.files.rows.countP isSpooled

/-- The paths of the files that count. -/
def spooledPaths (s : Spool) : Finset (Uuid × SpoolExtension) :=
  ((s.files.rows.filter isSpooled).map SpoolFile.path).toFinset

theorem mem_spooledPaths {s : Spool} {path : Uuid × SpoolExtension} :
    path ∈ s.spooledPaths ↔ path.2 ≠ .tmp ∧ (s.files.find? path).isSome := by
  simp only [spooledPaths, List.mem_toFinset, List.mem_map, List.mem_filter]
  constructor
  · rintro ⟨f, ⟨hf, hspooled⟩, rfl⟩
    exact ⟨of_decide_eq_true hspooled,
      Option.isSome_iff_exists.mpr ⟨f, Table.mem_rows_iff.mp hf⟩⟩
  · rintro ⟨hne, hsome⟩
    obtain ⟨f, hf⟩ := Option.isSome_iff_exists.mp hsome
    obtain rfl : f.path = path := Table.find?_key hf
    exact ⟨f, ⟨Table.mem_rows_iff.mpr hf, decide_eq_true hne⟩, rfl⟩

theorem card_spooledPaths (s : Spool) : s.spooledPaths.card = s.count := by
  rw [spooledPaths, List.toFinset_card_of_nodup, List.length_map, count, List.countP_eq_length_filter]
  exact List.Nodup.sublist (List.filter_sublist.map _) s.files.nodup

/-- Each file that counts now comes from another one that counted before. -/
theorem count_le {s s' : Spool} (f : Uuid × SpoolExtension → Uuid × SpoolExtension)
    (hf : ∀ path ∈ s'.spooledPaths, f path ∈ s.spooledPaths)
    (hinj : Set.InjOn f s'.spooledPaths) : s'.count ≤ s.count := by
  rw [← card_spooledPaths, ← card_spooledPaths]
  exact Finset.card_le_card_of_injOn f hf hinj

theorem count_le_of_subset {s s' : Spool}
    (h : ∀ path, path.2 ≠ .tmp → (s'.files.find? path).isSome → (s.files.find? path).isSome) :
    s'.count ≤ s.count := by
  refine count_le (fun path => path) (fun path hpath => ?_) (Set.injOn_id _)
  rw [mem_spooledPaths] at hpath
  exact mem_spooledPaths.mpr ⟨hpath.1, h path hpath.1 hpath.2⟩

theorem SameFiles.count {s s' : Spool} (h : s.SameFiles s') : s'.count = s.count :=
  le_antisymm (count_le_of_subset fun path hne hsome => h path hne ▸ hsome)
    (count_le_of_subset fun path hne hsome => (h path hne).symm ▸ hsome)

/-- A file that is claimed counts under its new name. -/
theorem rename_count {s s' : Spool} (h : s.rename id = some (u, s')) : s'.count ≤ s.count := by
  obtain ⟨f, hf, hfiles⟩ := rename_ok h
  have hjson : (id, SpoolExtension.json) ∉ s'.spooledPaths := fun hmem => by
    have hsome := (mem_spooledPaths.mp hmem).2
    rw [hfiles] at hsome
    simp at hsome
  refine count_le (fun path => if path = (id, .processing) then (id, .json) else path)
    (fun path hpath => ?_) fun path hpath path' hpath' heq => ?_
  · split
    · exact mem_spooledPaths.mpr ⟨nofun, Option.isSome_iff_exists.mpr ⟨f, hf⟩⟩
    · rename_i hne
      obtain ⟨htmp, hsome⟩ := mem_spooledPaths.mp hpath
      refine mem_spooledPaths.mpr ⟨htmp, ?_⟩
      rw [hfiles, if_neg hne] at hsome
      split at hsome
      · cases hsome
      · exact hsome
  · dsimp only at heq
    split at heq <;> split at heq
    · rename_i h₁ h₂
      exact h₁.trans h₂.symm
    · exact absurd (heq ▸ hpath') hjson
    · exact absurd (heq ▸ hpath) hjson
    · exact heq

theorem publish_count {s s' : Spool} (h : s.publish id = some (u, s')) : s'.count ≤ s.count + 1 := by
  simp only [publish, Option.bind_eq_bind, Option.bind_eq_some_iff, Option.pure_def,
    Option.some.injEq, Prod.mk.injEq] at h
  obtain ⟨f, -, files, hfiles, -, rfl⟩ := h
  rw [count, (Table.insert?_eq_some_iff.mp hfiles).2, List.countP_append]
  exact Nat.add_le_add_left List.countP_le_length _

/-- A writer that has missed no file finds the spool full when it is. -/
theorem count_lt_of_seen {s : Spool} {before : List (Uuid × SpoolExtension)}
    (hfull : isFullOf (seen before s) = false)
    (hbefore : ∀ path, path.2 ≠ .tmp → (s.files.find? path).isSome → path ∈ before) :
    s.count < MAX_SPOOL_FILES := by
  simp only [isFullOf, decide_eq_false_iff_not, not_or, Nat.not_le] at hfull
  refine Nat.lt_of_le_of_lt ?_ hfull.2
  rw [← card_spooledPaths, List.countP_eq_length_filter]
  refine le_trans (Finset.card_le_card fun path hpath => ?_) (List.toFinset_card_le _)
  obtain ⟨hne, hsome⟩ := mem_spooledPaths.mp hpath
  refine List.mem_toFinset.mpr (List.mem_filter.mpr ⟨List.mem_filter.mpr ⟨?_, hsome⟩, ?_⟩)
  · exact hbefore path hne hsome
  · simpa using hne

end Spool

/-! ## The protocol -/

namespace SpoolCalls

variable (sv : Services) (foreign : Uuid → Option (List UInt8))

/-- What a spooled file holds: the event that it is named after, or what was there from the beginning
and is no event. -/
def Named (id : Uuid) (bytes : List UInt8) : Prop :=
  match foreign id with
  | none => ∃ event, Spool.parse sv bytes = some event ∧ event.eventId = id
  | some found => bytes = found ∧ Spool.parse sv bytes = none

structure Inv (s : SpoolShared) : Prop where
  capacity : s.host.spool.count ≤ MAX_SPOOL_FILES
  named : ∀ {path f}, path.2 ≠ .tmp → s.host.spool.files.find? path = some f →
    Named sv foreign path.1 f.bytes
  rejected : ∀ {name r}, s.host.spool.rejected.find? name = some r → Spool.parse sv r.bytes = none
  linked : ∀ {i name}, s.linked i = some name → (s.host.spool.rejected.find? name).isSome
  distinct : ∀ {i j name}, s.linked i = some name → s.linked j = some name → i = j

/-- The event is in the spool, or it was inserted. -/
def Kept (s : SpoolShared) (id : Uuid) : Prop := s.host.spool.Holds id ∨ id ∈ s.inserted

/-- What a call relies on. While it holds the lock no file is added, and its temporary file is its
own. -/
structure Rely (i : Nat) (s s' : SpoolShared) : Prop where
  kept : ∀ id, foreign id = none → Kept s id → Kept s' id
  inserted : ∀ id ∈ s.inserted, id ∈ s'.inserted
  locked : s.lock = some i → s'.lock = some i ∧ s'.host.spool.count ≤ s.host.spool.count ∧
    ∀ id, s'.host.spool.files.find? (id, .tmp) = s.host.spool.files.find? (id, .tmp)
  linked : s'.linked i = s.linked i ∧ ∀ name, s.linked i = some name →
    s'.host.spool.rejected.find? name = s.host.spool.rejected.find? name

/-- The event of these bytes was inserted, or the bytes are no event and are under `rejected`. -/
def Settled (s : SpoolShared) (bytes : List UInt8) : Prop :=
  (∃ event, Spool.parse sv bytes = some event ∧ event.eventId ∈ s.inserted) ∨
    Spool.parse sv bytes = none ∧ ∃ r ∈ s.host.spool.rejected.rows, r.bytes = bytes

/-- How a spooled file goes. An `id.json` is claimed as `id.processing`, which replaces only a file of
the same event, and an `id.processing` is removed when it is settled. -/
structure Removes (s s' : SpoolShared) : Prop where
  json : ∀ {id f}, s.host.spool.files.find? (id, .json) = some f →
    s'.host.spool.files.find? (id, .json) = none →
    ∃ g, s'.host.spool.files.find? (id, .processing) = some g ∧ g.bytes = f.bytes
  replaced : ∀ {id f g}, s.host.spool.files.find? (id, .processing) = some f →
    s'.host.spool.files.find? (id, .processing) = some g → g.bytes = f.bytes ∨
      ∃ event event', Spool.parse sv f.bytes = some event ∧ Spool.parse sv g.bytes = some event' ∧
        event'.eventId = event.eventId
  removed : ∀ {id f}, s.host.spool.files.find? (id, .processing) = some f →
    s'.host.spool.files.find? (id, .processing) = none → Settled sv s' f.bytes

/-- A file that could not be read is gone when it is rejected, and a check misses no file while there
is no room. -/
def Counted (s : SpoolShared) : SpoolOp → Prop
  | .check before => s.host.spool.count < MAX_SPOOL_FILES ∨ ∀ path, path.2 ≠ .tmp →
      (s.host.spool.files.find? path).isSome → path ∈ before
  | .link id false => s.host.spool.files.find? (id, .processing) = none
  | _ => True

variable {sv foreign}

theorem Rely.refl (i : Nat) (s : SpoolShared) : Rely foreign i s s :=
  ⟨fun _ _ => id, fun _ => id, fun h => ⟨h, le_refl _, fun _ => rfl⟩, rfl, fun _ _ => rfl⟩

theorem Rely.trans {i : Nat} {s s' s'' : SpoolShared} (h : Rely foreign i s s')
    (h' : Rely foreign i s' s'') : Rely foreign i s s'' := by
  refine ⟨fun id hid hkept => h'.kept id hid (h.kept id hid hkept),
    fun id hid => h'.inserted id (h.inserted id hid), fun hlock => ?_, ?_, fun name hname => ?_⟩
  · obtain ⟨hlock', hcount, htmp⟩ := h.locked hlock
    obtain ⟨hlock'', hcount', htmp'⟩ := h'.locked hlock'
    exact ⟨hlock'', hcount'.trans hcount, fun id => (htmp' id).trans (htmp id)⟩
  · rw [h'.linked.1, h.linked.1]
  · rw [h'.linked.2 name (h.linked.1 ▸ hname), h.linked.2 name hname]

theorem Inv.claimed {s : SpoolShared} {id : Uuid} (h : Inv sv foreign s)
    (hf : s.host.spool.files.find? (id, .processing) = some f) : Named sv foreign id f.bytes :=
  h.named (by exact nofun) hf

variable (sv foreign) in
def protocol : Protocol Nat SpoolOp SpoolShared where
  inv := Inv sv foreign
  rely := Rely foreign
  change := Removes sv
  ok s _ l := Counted s l
  refl := Rely.refl
  trans _ _ _ _ := Rely.trans

abbrev Owes (sv : Services) (foreign : Uuid → Option (List UInt8)) := (protocol sv foreign).Owes

/-! ## What the operations owe -/

section Operations

variable {i : Nat} {id : Uuid} {s s' : SpoolShared}

/-- The notes beside the host are the same. -/
def SameNotes (s s' : SpoolShared) : Prop :=
  s'.lock = s.lock ∧ s'.inserted = s.inserted ∧ s'.linked = s.linked

theorem Removes.of_same (h : s'.host.spool.files = s.host.spool.files) : Removes sv s s' := by
  refine ⟨fun hf hnone => ?_, fun hf hg => .inl ?_, fun hf hnone => ?_⟩
  · rw [h, hf] at hnone
    cases hnone
  · rw [h, hf] at hg
    cases hg
    rfl
  · rw [h, hf] at hnone
    cases hnone

/-- An operation that leaves the files alone, and with them all that matters. -/
theorem quiet (hinv : Inv sv foreign s) (hspool : s'.host.spool = s.host.spool)
    (hlock : s'.lock = s.lock) (hlinked : s'.linked = s.linked)
    (hinserted : ∀ id ∈ s.inserted, id ∈ s'.inserted) :
    Owes sv foreign i s s' ∧ ∀ j, Rely foreign j s s' := by
  have hrely : ∀ j, Rely foreign j s s' := fun j => by
    refine ⟨fun id _ hkept => ?_, hinserted, fun h => ?_, ?_, fun name _ => ?_⟩
    · rw [Kept, hspool]
      exact hkept.imp_right (hinserted id)
    · rw [hlock, hspool]
      exact ⟨h, le_refl _, fun _ => rfl⟩
    · rw [hlinked]
    · rw [hspool]
  refine ⟨⟨⟨?_, ?_, ?_, ?_, ?_⟩, .of_same (by rw [hspool]), fun j _ => hrely j⟩, hrely⟩
  · rw [hspool]
    exact hinv.capacity
  · rw [hspool]
    exact hinv.named
  · rw [hspool]
    exact hinv.rejected
  · rw [hspool, hlinked]
    exact hinv.linked
  · rw [hlinked]
    exact hinv.distinct

theorem owes_quiet (hinv : Inv sv foreign s) (hspool : s'.host.spool = s.host.spool)
    (hlock : s'.lock = s.lock) (hlinked : s'.linked = s.linked)
    (hinserted : ∀ id ∈ s.inserted, id ∈ s'.inserted) : Owes sv foreign i s s' :=
  (quiet hinv hspool hlock hlinked hinserted).1

/-- An operation on the spooled files and the temporary ones. -/
theorem owes_files (hinv : Inv sv foreign s) (hnotes : SameNotes s s')
    (hrejected : s'.host.spool.rejected = s.host.spool.rejected)
    (hcount : s'.host.spool.count ≤ MAX_SPOOL_FILES)
    (hnamed : ∀ {path f}, path.2 ≠ .tmp → s'.host.spool.files.find? path = some f →
      Named sv foreign path.1 f.bytes)
    (hkept : ∀ id, foreign id = none → s.host.spool.Holds id → Kept s' id)
    (hlocked : ∀ j, j ≠ i → s.lock = some j → s'.host.spool.count ≤ s.host.spool.count ∧
      ∀ id, s'.host.spool.files.find? (id, .tmp) = s.host.spool.files.find? (id, .tmp))
    (hremoves : Removes sv s s') : Owes sv foreign i s s' := by
  obtain ⟨hlock, hinserted, hlinked⟩ := hnotes
  refine ⟨⟨hcount, hnamed, ?_, ?_, ?_⟩, hremoves, fun j hj => ⟨fun id hid h => ?_, ?_, fun h => ?_, ?_⟩⟩
  · rw [hrejected]
    exact hinv.rejected
  · rw [hlinked, hrejected]
    exact hinv.linked
  · rw [hlinked]
    exact hinv.distinct
  · rcases h with h | h
    · exact hkept id hid h
    · rw [Kept, hinserted]
      exact .inr h
  · rw [hinserted]
    exact fun _ h => h
  · rw [hlock]
    exact ⟨h, hlocked j hj h⟩
  · rw [hlinked, hrejected]
    exact ⟨rfl, fun _ _ => rfl⟩

/-- A temporary file changes in the hands of the call that holds the lock. -/
theorem owes_temporary (hinv : Inv sv foreign s) (hlock : s.lock = some i) (hnotes : SameNotes s s')
    (hrejected : s'.host.spool.rejected = s.host.spool.rejected)
    (hfiles : s.host.spool.SameFiles s'.host.spool) : Owes sv foreign i s s' := by
  refine owes_files hinv hnotes hrejected (hfiles.count ▸ hinv.capacity) (fun hne hf => ?_)
    (fun id _ h => .inl (hfiles.holds h)) (fun j hj h => ?_) ⟨fun hf hnone => ?_, fun hf hg => .inl ?_,
      fun hf hnone => ?_⟩
  · exact hinv.named hne (hfiles _ hne ▸ hf)
  · rw [hlock] at h
    exact absurd (Option.some.inj h).symm hj
  · rw [hfiles (_, .json) nofun, hf] at hnone
    cases hnone
  · rw [hfiles (_, .processing) nofun, hf] at hg
    cases hg
    rfl
  · rw [hfiles (_, .processing) nofun, hf] at hnone
    cases hnone

/-- The event of a temporary file is published by the call that holds the lock and has found room. -/
theorem owes_publish (hinv : Inv sv foreign s) (hlock : s.lock = some i)
    (hroom : s.host.spool.count < MAX_SPOOL_FILES) (hnotes : SameNotes s s')
    (hnamed : ∀ f, s.host.spool.files.find? (id, .tmp) = some f → Named sv foreign id f.bytes)
    (h : s.host.spool.publish id = some (u, s'.host.spool)) :
    Owes sv foreign i s s' ∧ Kept s' id := by
  have hrejected : s'.host.spool.rejected = s.host.spool.rejected := by
    simp only [Spool.publish, Option.bind_eq_bind, Option.bind_eq_some_iff, Option.pure_def,
      Option.some.injEq, Prod.mk.injEq] at h
    obtain ⟨f, -, files, -, -, hspool⟩ := h
    rw [← hspool]
  have hcount := Spool.publish_count h
  obtain ⟨f, hf, hfree, hfiles⟩ := Spool.publish_ok h
  have hprocessing : ∀ id', s'.host.spool.files.find? (id', .processing) =
      s.host.spool.files.find? (id', .processing) := fun id' => by
    rw [hfiles, if_neg (by simp)]
  refine ⟨owes_files hinv hnotes hrejected (by omega) (fun {path g} hne hg => ?_)
    (fun id' _ hholds => .inl ?_) (fun j hj hj' => ?_) ⟨fun {id' g} hg hnone => ?_, fun hg hg' => .inl ?_,
      fun hg hnone => ?_⟩, .inl (.inl ?_)⟩
  · rw [hfiles] at hg
    split at hg
    · rename_i hpath
      cases hg
      rw [hpath]
      exact hnamed f hf
    · exact hinv.named hne hg
  · rcases hholds with hholds | hholds
    · left
      rw [hfiles]
      split
      · rfl
      · exact hholds
    · right
      rwa [hprocessing]
  · rw [hlock] at hj'
    exact absurd (Option.some.inj hj').symm hj
  · rw [hfiles] at hnone
    split at hnone
    · cases hnone
    · rw [hg] at hnone
      cases hnone
  · rw [hprocessing, hg] at hg'
    cases hg'
    rfl
  · rw [hprocessing, hg] at hnone
    cases hnone
  · rw [hfiles, if_pos rfl]
    rfl

/-- A file is claimed. -/
theorem owes_rename (hinv : Inv sv foreign s) (hnotes : SameNotes s s')
    (h : s.host.spool.rename id = some (u, s'.host.spool)) : Owes sv foreign i s s' := by
  have hrejected : s'.host.spool.rejected = s.host.spool.rejected := by
    simp only [Spool.rename, Option.bind_eq_bind, Option.bind_eq_some_iff, Option.pure_def,
      Option.some.injEq, Prod.mk.injEq] at h
    obtain ⟨f, -, files, -, -, hspool⟩ := h
    rw [← hspool]
  have hcount := Spool.rename_count h
  obtain ⟨f, hf, hfiles⟩ := Spool.rename_ok h
  have hclaimed : s'.host.spool.files.find? (id, .processing) =
      some { f with extension := .processing } := by
    rw [hfiles, if_pos rfl]
  have hother : ∀ path, path.1 ≠ id → s'.host.spool.files.find? path =
      s.host.spool.files.find? path := fun path hne => by
    rw [hfiles, if_neg (fun hpath => hne (congrArg Prod.fst hpath)),
      if_neg fun hpath => hne (congrArg Prod.fst hpath)]
  have hnamed : Named sv foreign id f.bytes := hinv.named (by simp) hf
  refine owes_files hinv hnotes hrejected (hcount.trans hinv.capacity) (fun {path g} hne hg => ?_)
    (fun id' _ hholds => .inl ?_) (fun j hj hj' => ⟨hcount, fun id' => ?_⟩)
    ⟨fun {id' g} hg hnone => ?_, fun {id' g g'} hg hg' => ?_, fun {id' g} hg hnone => ?_⟩
  · rw [hfiles] at hg
    split at hg
    · rename_i hpath
      cases hg
      rw [hpath]
      exact hnamed
    · split at hg
      · cases hg
      · exact hinv.named hne hg
  · by_cases hid : id' = id
    · subst hid
      right
      rw [hclaimed]
      rfl
    · rw [Spool.Holds, hother _ hid, hother _ hid]
      exact hholds
  · rw [hfiles, if_neg (by simp), if_neg (by simp)]
  · by_cases hid : id' = id
    · subst hid
      obtain rfl : f = g := Option.some.inj (hf.symm.trans hg)
      exact ⟨_, hclaimed, rfl⟩
    · rw [hother _ hid, hg] at hnone
      cases hnone
  · by_cases hid : id' = id
    · subst hid
      rw [hclaimed] at hg'
      cases hg'
      -- the file that is replaced has the same name, and with it the same event
      have hold := hinv.claimed hg
      simp only [Named] at hold hnamed
      split at hold
      · rename_i hforeign
        rw [hforeign] at hnamed
        obtain ⟨event, hevent, heq⟩ := hold
        obtain ⟨event', hevent', heq'⟩ := hnamed
        exact .inr ⟨event, event', hevent, hevent', heq'.trans heq.symm⟩
      · rename_i found hforeign
        rw [hforeign] at hnamed
        exact .inl (hnamed.1.trans hold.1.symm)
    · rw [hother _ hid, hg] at hg'
      cases hg'
      exact .inl rfl
  · by_cases hid : id' = id
    · subst hid
      rw [hclaimed] at hnone
      cases hnone
    · rw [hother _ hid, hg] at hnone
      cases hnone

/-- A claimed file is removed when it is settled. -/
theorem owes_unlink (hinv : Inv sv foreign s) (hnotes : SameNotes s s')
    (hsettled : ∀ f, s.host.spool.files.find? (id, .processing) = some f → Settled sv s f.bytes)
    (hkept : foreign id = none → id ∈ s.inserted)
    (h : s.host.spool.remove (id, .processing) = some (u, s'.host.spool)) :
    Owes sv foreign i s s' := by
  have hrejected : s'.host.spool.rejected = s.host.spool.rejected := by
    unfold Spool.remove at h
    split at h
    · simp only [Option.some.injEq, Prod.mk.injEq] at h
      rw [← h.2]
    · cases h
  have hfiles := Spool.remove_ok h
  have hsubset : ∀ {path f}, s'.host.spool.files.find? path = some f →
      s.host.spool.files.find? path = some f := fun {path f} hf => by
    rw [hfiles] at hf
    split at hf
    · cases hf
    · exact hf
  have hcount : s'.host.spool.count ≤ s.host.spool.count :=
    Spool.count_le_of_subset fun path _ hsome => by
      obtain ⟨f, hf⟩ := Option.isSome_iff_exists.mp hsome
      exact Option.isSome_iff_exists.mpr ⟨f, hsubset hf⟩
  refine owes_files hinv hnotes hrejected (hcount.trans hinv.capacity)
    (fun hne hf => hinv.named hne (hsubset hf)) (fun id' hforeign hholds => ?_)
    (fun j _ _ => ⟨hcount, fun id' => ?_⟩)
    ⟨fun {id' f} hf hnone => ?_, fun hf hg => .inl ?_, fun {id' f} hf hnone => ?_⟩
  · by_cases hid : id' = id
    · subst hid
      refine .inr ?_
      rw [hnotes.2.1]
      exact hkept hforeign
    · refine .inl ?_
      rw [Spool.Holds, hfiles, hfiles, if_neg (by simp), if_neg fun hpath => hid (congrArg Prod.fst hpath)]
      exact hholds
  · rw [hfiles, if_neg (by simp)]
  · rw [hfiles, if_neg (by simp), hf] at hnone
    cases hnone
  · rw [hsubset hg] at hf
    cases hf
    rfl
  · rw [hfiles] at hnone
    split at hnone
    · rename_i hpath
      cases congrArg Prod.fst hpath
      have hold := hsettled f hf
      rw [Settled, hnotes.2.1, hrejected]
      exact hold
    · rw [hf] at hnone
      cases hnone

/-- What is no event is linked under `rejected`. -/
theorem owes_link (hinv : Inv sv foreign s) (hlock : s'.lock = s.lock)
    (hinserted : s'.inserted = s.inserted)
    (hlinked : s'.linked = Function.update s.linked i (some name))
    (hparse : ∀ f, s.host.spool.files.find? (id, .processing) = some f →
      Spool.parse sv f.bytes = none)
    (h : s.host.spool.linkRejected id = some (name, s'.host.spool)) : Owes sv foreign i s s' := by
  obtain ⟨hfiles, f, hf, hfree, hrejected⟩ := Spool.linkRejected_ok h
  have hold : ∀ {j k}, s.linked j = some k → k ≠ name := by
    rintro j k hk rfl
    have hsome := hinv.linked hk
    rw [hfree] at hsome
    cases hsome
  have hothers : ∀ {j k}, j ≠ i → s'.linked j = some k → s.linked j = some k := fun hj hk => by
    rwa [hlinked, Function.update_of_ne hj] at hk
  have hown : s'.linked i = some name := by rw [hlinked, Function.update_self]
  have hcount : s'.host.spool.count = s.host.spool.count := by rw [Spool.count, Spool.count, hfiles]
  refine ⟨⟨hcount ▸ hinv.capacity, fun hne hg => hinv.named hne (hfiles ▸ hg), fun {k r} hr => ?_,
    fun {j k} hk => ?_, fun {j j' k} hj hj' => ?_⟩, .of_same hfiles, fun j hj => ⟨fun id' _ hkept => ?_,
      fun id' hid' => ?_, fun hj' => ?_, ?_, fun k hk => ?_⟩⟩
  · rw [hrejected] at hr
    split at hr
    · cases hr
      exact hparse f hf
    · exact hinv.rejected hr
  · rw [hrejected]
    split
    · rfl
    · rename_i hne
      by_cases hj : j = i
      · subst hj
        rw [hown] at hk
        exact absurd (Option.some.inj hk).symm hne
      · exact hinv.linked (hothers hj hk)
  · by_cases hi : j = i <;> by_cases hi' : j' = i
    · rw [hi, hi']
    · subst hi
      rw [hown] at hj
      exact absurd (Option.some.inj hj).symm (hold (hothers hi' hj'))
    · subst hi'
      rw [hown] at hj'
      exact absurd (Option.some.inj hj').symm (hold (hothers hi hj))
    · exact hinv.distinct (hothers hi hj) (hothers hi' hj')
  · rw [Kept, Spool.Holds, hfiles, hinserted]
    exact hkept
  · rwa [hinserted]
  · rw [hlock, hcount, hfiles]
    exact ⟨hj', le_refl _, fun _ => rfl⟩
  · rw [hlinked, Function.update_of_ne hj]
  · rw [hrejected, if_neg (hold hk)]

/-- A call gives up its link. -/
theorem owes_unlinkRejected (hinv : Inv sv foreign s) (hlock : s'.lock = s.lock)
    (hinserted : s'.inserted = s.inserted) (hlinked : s'.linked = Function.update s.linked i none)
    (hname : s.linked i = some name) (hfiles : s'.host.spool.files = s.host.spool.files)
    (hrejected : ∀ k, k ≠ name →
      s'.host.spool.rejected.find? k = s.host.spool.rejected.find? k)
    (hgone : ∀ r, s'.host.spool.rejected.find? name = some r →
      s.host.spool.rejected.find? name = some r) : Owes sv foreign i s s' := by
  have hothers : ∀ {j k}, s'.linked j = some k → s.linked j = some k ∧ k ≠ name := by
    intro j k hk
    rw [hlinked] at hk
    by_cases hj : j = i
    · subst hj
      rw [Function.update_self] at hk
      cases hk
    · rw [Function.update_of_ne hj] at hk
      refine ⟨hk, ?_⟩
      rintro rfl
      exact hj (hinv.distinct hk hname)
  have hcount : s'.host.spool.count = s.host.spool.count := by rw [Spool.count, Spool.count, hfiles]
  refine ⟨⟨hcount ▸ hinv.capacity, fun hne hg => hinv.named hne (hfiles ▸ hg), fun {k r} hr => ?_,
    fun {j k} hk => ?_, fun {j j' k} hj hj' => ?_⟩, .of_same hfiles, fun j hj => ⟨fun id' _ hkept => ?_,
      fun id' hid' => ?_, fun hj' => ?_, ?_, fun k hk => ?_⟩⟩
  · by_cases hk : k = name
    · subst hk
      exact hinv.rejected (hgone r hr)
    · exact hinv.rejected (hrejected k hk ▸ hr)
  · obtain ⟨hk', hne⟩ := hothers hk
    rw [hrejected k hne]
    exact hinv.linked hk'
  · exact hinv.distinct (hothers hj).1 (hothers hj').1
  · rw [Kept, Spool.Holds, hfiles, hinserted]
    exact hkept
  · rwa [hinserted]
  · rw [hlock, hcount, hfiles]
    exact ⟨hj', le_refl _, fun _ => rfl⟩
  · rw [hlinked, Function.update_of_ne hj]
  · refine hrejected k ?_
    rintro rfl
    exact hj (hinv.distinct hk hname)

/-- The lock is taken when it is free, and given back by the call that has it. -/
theorem owes_lock (hinv : Inv sv foreign s) (hspool : s'.host.spool = s.host.spool)
    (hinserted : s'.inserted = s.inserted)
    (hlinked : ∀ {j name}, s'.linked j = some name → s.linked j = some name)
    (hothers : ∀ j, j ≠ i → s'.linked j = s.linked j ∧ (s.lock = some j → s'.lock = some j)) :
    Owes sv foreign i s s' := by
  refine ⟨⟨?_, ?_, ?_, fun hk => ?_, fun hk hk' => ?_⟩, .of_same (by rw [hspool]), fun j hj =>
    ⟨fun id' _ hkept => ?_, fun id' hid' => ?_, fun h => ?_, (hothers j hj).1, fun k _ => ?_⟩⟩
  · rw [hspool]
    exact hinv.capacity
  · rw [hspool]
    exact hinv.named
  · rw [hspool]
    exact hinv.rejected
  · rw [hspool]
    exact hinv.linked (hlinked hk)
  · exact hinv.distinct (hlinked hk) (hlinked hk')
  · rw [Kept, hspool, hinserted]
    exact hkept
  · rwa [hinserted]
  · rw [hspool]
    exact ⟨(hothers j hj).2 h, le_refl _, fun _ => rfl⟩
  · rw [hspool]

end Operations

end SpoolCalls

end CcReminder
