import CcReminder.Storage.Spool

/-!
# What the spool operations do

A file operation changes no table, and the spooled files (`id.json` and `id.processing`) change only
by what its name says. `Spool.Intact` is the invariant of the spool: each spooled file holds the
event that it is named after.
-/

set_option autoImplicit true

namespace CcReminder

open Lib Host

/-! ## File operations -/

/-- A file operation that succeeds does what it says; one that fails leaves the spool as it was. -/
theorem Host.fileOp_run {q : Spool → Option (α × Spool)} (h : fileOp e q s = (r, s')) :
    s'.conn.db = s.conn.db ∧
      ((∃ a, r = .ok a ∧ q s.spool = some (a, s'.spool)) ∨
        r = .error e ∧ s'.spool = s.spool ∧
          ((s.conn.world 0).fault = false → q s.spool = none)) := by
  simp only [fileOp, Txn.bind_run, onConn, draw, Txn.step_run] at h
  split at h
  · rename_i hfault
    cases h
    exact ⟨rfl, .inr ⟨rfl, rfl, fun hf => by simp [hf] at hfault⟩⟩
  · simp only [Txn.step_run] at h
    split at h
    · rename_i a spool hq
      cases h
      exact ⟨rfl, .inl ⟨a, rfl, hq⟩⟩
    · rename_i hq
      cases h
      exact ⟨rfl, .inr ⟨rfl, rfl, fun _ => hq⟩⟩

theorem Host.fileOp_ok {q : Spool → Option (α × Spool)} (h : fileOp e q s = (.ok a, s')) :
    s'.conn.db = s.conn.db ∧ q s.spool = some (a, s'.spool) := by
  obtain ⟨hdb, ⟨b, hb, hq⟩ | ⟨hr, -⟩⟩ := fileOp_run h
  · cases hb
    exact ⟨hdb, hq⟩
  · cases hr

/-- Each run of a computation relates the hosts before and after it by `R`, whether it succeeds or
not. -/
def Host.Keeps (R : Host → Host → Prop) (x : Txn ε Host α) : Prop := ∀ s, R s (x s).2

namespace Host.Keeps

variable {R : Host → Host → Prop}

theorem ok {x : Txn ε Host α} (hx : Keeps R x) (h : x s = (r, s')) : R s s' := by
  have := hx s
  rwa [h] at this

theorem pure (hrefl : ∀ s, R s s) (a : α) : Keeps R (Pure.pure a : Txn ε Host α) := hrefl

theorem fail (hrefl : ∀ s, R s s) (e : ε) : Keeps R (.fail e : Txn ε Host α) := hrefl

theorem bind (htrans : ∀ s s' s'', R s s' → R s' s'' → R s s'') {x : Txn ε Host α}
    {f : α → Txn ε Host β} (hx : Keeps R x) (hf : ∀ a, Keeps R (f a)) : Keeps R (x >>= f) := by
  intro s
  have h := hx s
  rw [Txn.bind_run]
  rcases hrun : x s with ⟨e | a, s'⟩ <;> rw [hrun] at h
  · exact h
  · exact htrans _ _ _ h (hf a s')

theorem result {x : Txn ε Host α} (hx : Keeps R x) :
    Keeps R (x.result : Txn ε' Host (Except ε α)) := hx

/-- A relation that holds when nothing happens to the tables and the spool, and when the operation
succeeds. -/
theorem fileOp {q : Spool → Option (α × Spool)}
    (hsame : ∀ s s', s'.conn.db = s.conn.db → s'.spool = s.spool → R s s')
    (hok : ∀ s s' a, s'.conn.db = s.conn.db → q s.spool = some (a, s'.spool) → R s s') :
    Keeps R (fileOp e q) := by
  intro s
  obtain ⟨hdb, ⟨a, -, hq⟩ | ⟨-, hspool, -⟩⟩ := fileOp_run (s := s) (e := e) (q := q) rfl
  · exact hok _ _ a hdb hq
  · exact hsame _ _ hdb hspool

end Host.Keeps

namespace Spool

variable {sv : Services} {id : Uuid}

/-! ## Spooled files -/

/-- The spool has a file for an event. -/
def Holds (s : Spool) (id : Uuid) : Prop :=
  (s.files.find? (id, .json)).isSome ∨ (s.files.find? (id, .processing)).isSome

instance (s : Spool) (id : Uuid) : Decidable (s.Holds id) := inferInstanceAs (Decidable (_ ∨ _))

/-- Every spooled file holds the event that it is named after. -/
def Intact (sv : Services) (s : Spool) : Prop :=
  ∀ path f, path.2 ≠ .tmp → s.files.find? path = some f →
    ∃ event, parse sv f.bytes = some event ∧ event.eventId = path.1

/-- The spooled files are the same. -/
def SameFiles (s s' : Spool) : Prop :=
  ∀ path, path.2 ≠ .tmp → s'.files.find? path = s.files.find? path

theorem SameFiles.holds {s s' : Spool} (h : s.SameFiles s') (hs : s.Holds id) : s'.Holds id := by
  unfold Holds
  rw [h (id, .json) nofun, h (id, .processing) nofun]
  exact hs

theorem SameFiles.intact {s s' : Spool} (h : s.SameFiles s') (hs : s.Intact sv) : s'.Intact sv :=
  fun path f hne hf => hs path f hne (h path hne ▸ hf)

theorem path_mk (id : Uuid) (extension : SpoolExtension) (bytes : List UInt8) :
    SpoolFile.path ⟨id, extension, bytes⟩ = (id, extension) := rfl

theorem create_same {s s' : Spool} (h : s.create id = some (u, s')) : s.SameFiles s' := by
  simp only [create, Option.bind_eq_bind, Option.bind_eq_some_iff, Option.pure_def,
    Option.some.injEq, Prod.mk.injEq] at h
  obtain ⟨files, hfiles, -, rfl⟩ := h
  intro path hne
  rw [Table.find?_insert? hfiles, if_neg]
  rintro rfl
  exact hne rfl

theorem write_same {s s' : Spool} (h : s.write id bytes = some (u, s')) : s.SameFiles s' ∧
    ∀ f, s'.files.find? (id, .tmp) = some f → f = ⟨id, .tmp, bytes⟩ := by
  simp only [write, Option.some.injEq, Prod.mk.injEq] at h
  obtain ⟨-, rfl⟩ := h
  refine ⟨fun path hne => ?_, fun f hf => ?_⟩
  · rw [Table.find?_update]
    cases hf : s.files.find? path with
    | none => rfl
    | some f =>
      have hpath : f.path = path := Table.find?_key hf
      rw [Option.map_some, if_neg]
      simp only [decide_eq_true_eq]
      rw [hpath]
      rintro rfl
      exact hne rfl
  · rw [Table.find?_update, Option.map_eq_some_iff] at hf
    obtain ⟨g, hg, rfl⟩ := hf
    have hpath : g.path = (id, .tmp) := Table.find?_key hg
    rw [if_pos (by simpa using hpath)]
    obtain ⟨hid, hext⟩ := Prod.mk.injEq .. ▸ hpath
    cases g
    simp_all

/-- Publishing adds one file, the one of the event, which was not there. -/
theorem publish_ok {s s' : Spool} (h : s.publish id = some (u, s')) :
    ∃ f, s.files.find? (id, .tmp) = some f ∧ s.files.find? (id, .json) = none ∧
      ∀ path, s'.files.find? path =
        if path = (id, .json) then some { f with extension := .json } else s.files.find? path := by
  simp only [publish, Option.bind_eq_bind, Option.bind_eq_some_iff, Option.pure_def,
    Option.some.injEq, Prod.mk.injEq] at h
  obtain ⟨f, hf, files, hfiles, -, rfl⟩ := h
  have hid : f.id = id := congrArg Prod.fst (Table.find?_key hf)
  subst hid
  exact ⟨f, hf, (Table.insert?_eq_some_iff.mp hfiles).1, fun path => Table.find?_insert? hfiles⟩

/-- Claiming a file gives it another name. -/
theorem rename_ok {s s' : Spool} (h : s.rename id = some (u, s')) :
    ∃ f, s.files.find? (id, .json) = some f ∧
      ∀ path, s'.files.find? path =
        if path = (id, .processing) then some { f with extension := .processing }
        else if path = (id, .json) then none else s.files.find? path := by
  simp only [rename, Option.bind_eq_bind, Option.bind_eq_some_iff, Option.pure_def,
    Option.some.injEq, Prod.mk.injEq] at h
  obtain ⟨f, hf, files, hfiles, -, rfl⟩ := h
  have hid : f.id = id := congrArg Prod.fst (Table.find?_key hf)
  subst hid
  refine ⟨f, hf, fun path => ?_⟩
  rw [Table.find?_insert? hfiles, path_mk]
  by_cases hp : path = (f.id, .processing)
  · simp [hp]
  rw [if_neg hp, if_neg hp, Table.find?_delete]
  cases hfind : s.files.find? path with
  | none => simp
  | some g =>
    have hpath : g.path = path := Table.find?_key hfind
    rw [Option.filter_some, hpath]
    by_cases hj : path = (f.id, .json) <;> simp [hj, hp]

theorem remove_ok {s s' : Spool} (h : s.remove path = some (u, s')) :
    ∀ path', s'.files.find? path' = if path' = path then none else s.files.find? path' := by
  unfold remove at h
  split at h
  · simp only [Option.some.injEq, Prod.mk.injEq, true_and] at h
    subst h
    intro path'
    rw [Table.find?_delete]
    cases hf : s.files.find? path' with
    | none => simp
    | some f =>
      have hpath : f.path = path' := Table.find?_key hf
      rw [Option.filter_some, hpath]
      by_cases hp : path' = path <;> simp [hp]
  · cases h

/-! ## Operations -/

/-- The tables and the spooled files are the same. -/
def Same (s s' : Host) : Prop := s'.conn.db = s.conn.db ∧ s.spool.SameFiles s'.spool

theorem Same.refl (s : Host) : Same s s := ⟨rfl, fun _ _ => rfl⟩

theorem Same.trans {s s' s'' : Host} (h : Same s s') (h' : Same s' s'') : Same s s'' :=
  ⟨h'.1.trans h.1, fun path hne => (h'.2 path hne).trans (h.2 path hne)⟩

theorem Same.of_eq {s s' : Host} (hdb : s'.conn.db = s.conn.db) (h : s'.spool = s.spool) :
    Same s s' := ⟨hdb, fun _ _ => by rw [h]⟩

/-- An operation that only looks. -/
theorem Same.look {f : Spool → α} : Keeps Same (fileOp e fun s => some (f s, s)) :=
  .fileOp (fun _ _ => Same.of_eq) fun s s' a hdb hq => by
    simp only [Option.some.injEq, Prod.mk.injEq] at hq
    exact .of_eq hdb hq.2.symm

theorem Same.capacityLock : Keeps Same capacityLock :=
  Keeps.bind @Same.trans look fun _ => Keeps.bind @Same.trans look fun _ => look

theorem Same.writeTemporary : Keeps Same (writeTemporary id bytes) := by
  refine Keeps.bind @Same.trans (.fileOp (fun _ _ => Same.of_eq) fun _ _ _ hdb hq => ?_) fun _ =>
    Keeps.bind @Same.trans look fun _ => Keeps.bind @Same.trans
      (.fileOp (fun _ _ => Same.of_eq) fun _ _ _ hdb hq => ?_) fun _ => look
  · exact ⟨hdb, create_same hq⟩
  · exact ⟨hdb, (write_same hq).1⟩

theorem writeTemporary_ok (h : writeTemporary id bytes s = (.ok u, s')) :
    ∀ f, s'.spool.files.find? (id, .tmp) = some f → f = ⟨id, .tmp, bytes⟩ := by
  obtain ⟨_, s₁, -, h⟩ := Txn.bind_ok_iff.mp h
  obtain ⟨_, s₂, -, h⟩ := Txn.bind_ok_iff.mp h
  obtain ⟨_, s₃, h₃, h₄⟩ := Txn.bind_ok_iff.mp h
  obtain ⟨-, hq⟩ := fileOp_ok h₄
  simp only [Option.some.injEq, Prod.mk.injEq, true_and] at hq
  rw [← hq]
  exact (write_same (fileOp_ok h₃).2).2

/-- The spool has one file more, that of an event, with the bytes of the event. -/
structure Publishes (sv : Services) (event : SafeIngressEvent) (s s' : Host) : Prop where
  db : s'.conn.db = s.conn.db
  size : (sv.encodeSafe event).length ≤ MAX_SAFE_ENVELOPE_BYTES
  files : ∀ path, path.2 ≠ .tmp → s'.spool.files.find? path =
    if path = (event.eventId, .json) then
      some ⟨event.eventId, .json, sv.encodeSafe event⟩
    else s.spool.files.find? path

theorem Same.publishes {s s' s'' : Host} {event : SafeIngressEvent} (h : Same s s')
    (h' : Publishes sv event s' s'') : Publishes sv event s s'' :=
  ⟨h'.db.trans h.1, h'.size, fun path hne => by rw [h'.files path hne, h.2 path hne]⟩

theorem Publishes.same {s s' s'' : Host} {event : SafeIngressEvent} (h : Publishes sv event s s')
    (h' : Same s' s'') : Publishes sv event s s'' :=
  ⟨h'.1.trans h.db, h.size, fun path hne => by rw [h'.2 path hne, h.files path hne]⟩

theorem Publishes.holds {s s' : Host} {event : SafeIngressEvent} (h : Publishes sv event s s')
    (hs : s.spool.Holds id) : s'.spool.Holds id := by
  unfold Holds
  rw [h.files (id, .json) nofun, h.files (id, .processing) nofun]
  rcases hs with hs | hs
  · left
    split
    · rfl
    · exact hs
  · right
    simpa using hs

theorem Publishes.intact {s s' : Host} {event : SafeIngressEvent} (h : Publishes sv event s s')
    (hserde : sv.decodeSafe (sv.encodeSafe event) = some event) (hs : s.spool.Intact sv) :
    s'.spool.Intact sv := by
  intro path f hne hf
  rw [h.files path hne] at hf
  split at hf
  · rename_i hpath
    cases hf
    exact ⟨event, by simp [parse, h.size, hserde], by rw [hpath]⟩
  · exact hs path f hne hf

/-- `write_exclusive` publishes the event when it succeeds; else the spooled files are the same. -/
theorem writeExclusive_run {event : SafeIngressEvent} (h : writeExclusive sv event s = (r, s')) :
    Publishes sv event s s' ∧ r = .ok () ∨ Same s s' ∧ ∃ e, r = .error e := by
  unfold writeExclusive at h
  split at h
  · cases h
    exact .inr ⟨Same.refl _, _, rfl⟩
  rename_i hsize
  simp only [Txn.bind_run] at h
  rcases h₁ : capacityLock s with ⟨e₁ | u₁, s₁⟩ <;> rw [h₁] at h <;> dsimp only at h
  · cases h
    exact .inr ⟨Same.capacityLock.ok h₁, _, rfl⟩
  have hs₁ : Same s s₁ := Same.capacityLock.ok h₁
  rcases h₂ : fileOp (spoolError "spool read") (fun s => some (s.isFull, s)) s₁ with ⟨e₂ | full, s₂⟩ <;>
    rw [h₂] at h <;> dsimp only at h
  · cases h
    exact .inr ⟨hs₁.trans (Same.look.ok h₂), _, rfl⟩
  have hs₂ : Same s s₂ := hs₁.trans (Same.look.ok h₂)
  cases full with
  | true =>
    cases h
    exact .inr ⟨hs₂, _, rfl⟩
  | false =>
    simp only [Bool.false_eq_true, if_false, Txn.bind_run, Txn.result_run] at h
    rcases h₃ : writeTemporary event.eventId (sv.encodeSafe event) s₂ with ⟨e₃ | u₃, s₃⟩ <;>
      rw [h₃] at h <;> dsimp only at h
    · cases h
      exact .inr ⟨hs₂.trans (Same.writeTemporary.ok h₃), _, rfl⟩
    have hs₃ : Same s s₃ := hs₂.trans (Same.writeTemporary.ok h₃)
    -- the removal of the temporary file is not seen among the spooled files
    have hremove : Keeps Same (fileOp (spoolError "") (·.remove (event.eventId, .tmp))) := by
      refine .fileOp (fun _ _ => Same.of_eq) fun _ _ _ hdb hq => ⟨hdb, fun path hne => ?_⟩
      rw [remove_ok hq path, if_neg]
      rintro rfl
      exact hne rfl
    rcases h₄ : fileOp (spoolError "spool publish") (·.publish event.eventId) s₃ with ⟨r₄, s₄⟩
    rw [h₄] at h
    dsimp only at h
    have hs₅ := hremove s₄
    obtain ⟨hdb, ⟨u, rfl, hq⟩ | ⟨rfl, hspool, -⟩⟩ := fileOp_run h₄
    · obtain ⟨f, hf, -, hfiles⟩ := publish_ok hq
      obtain rfl := writeTemporary_ok h₃ f hf
      have hpub : Publishes sv event s₃ s₄ := ⟨hdb, by omega, fun path _ => hfiles path⟩
      cases h
      exact .inl ⟨(hs₃.publishes hpub).same hs₅, rfl⟩
    · cases h
      exact .inr ⟨(hs₃.trans (.of_eq hdb hspool)).trans hs₅, _, rfl⟩

theorem writeExclusive_db {event : SafeIngressEvent} (h : writeExclusive sv event s = (r, s')) :
    s'.conn.db = s.conn.db := (writeExclusive_run h).elim (·.1.db) (·.1.1)

/-- Only the claimed file of one event may be missing, and no table changes. -/
def Drops (id : Uuid) (s s' : Host) : Prop :=
  s'.conn.db = s.conn.db ∧ ∀ path, path.2 ≠ .tmp →
    s'.spool.files.find? path = s.spool.files.find? path ∨
      path = (id, .processing) ∧ s'.spool.files.find? path = none

theorem Drops.refl (s : Host) : Drops id s s := ⟨rfl, fun _ _ => .inl rfl⟩

theorem Drops.trans {s s' s'' : Host} (h : Drops id s s') (h' : Drops id s' s'') :
    Drops id s s'' := by
  refine ⟨h'.1.trans h.1, fun path hne => ?_⟩
  rcases h'.2 path hne with h₂ | h₂
  · rw [h₂]
    exact h.2 path hne
  · exact .inr h₂

theorem Drops.of_same {s s' : Host} (h : Same s s') : Drops id s s' :=
  ⟨h.1, fun path hne => .inl (h.2 path hne)⟩

theorem Drops.intact {s s' : Host} (h : Drops id s s') (hs : s.spool.Intact sv) :
    s'.spool.Intact sv := by
  intro path f hne hf
  rcases h.2 path hne with h | ⟨-, h⟩ <;> rw [h] at hf
  · exact hs path f hne hf
  · cases hf

theorem Drops.holds {s s' : Host} (h : Drops id s s') (hne : id' ≠ id) (hs : s.spool.Holds id') :
    s'.spool.Holds id' := by
  rcases hs with hs | hs
  · left
    rcases h.2 (id', .json) nofun with h | ⟨h, -⟩
    · rwa [h]
    · cases h
  · right
    rcases h.2 (id', .processing) nofun with h | ⟨h, -⟩
    · rwa [h]
    · exact absurd (congrArg Prod.fst h) hne

theorem Drops.remove : Keeps (Drops id) (fileOp e (·.remove (id, .processing))) :=
  .fileOp (fun _ _ hdb h => .of_same (.of_eq hdb h)) fun s s' _ hdb hq => by
    refine ⟨hdb, fun path _ => ?_⟩
    rw [remove_ok hq path]
    split
    · rename_i h
      exact .inr ⟨h, rfl⟩
    · exact .inl rfl

theorem linkRejected_ok {s s' : Spool} (h : s.linkRejected id = some (name, s')) :
    s'.files = s.files ∧ ∃ f, s.files.find? (id, .processing) = some f ∧
      s.rejected.find? name = none ∧
      ∀ k, s'.rejected.find? k = if k = name then some ⟨name, f.bytes⟩ else s.rejected.find? k := by
  simp only [linkRejected, Option.bind_eq_bind, Option.bind_eq_some_iff, Option.pure_def,
    Option.some.injEq, Prod.mk.injEq] at h
  obtain ⟨f, hf, rejected, hrejected, rfl, rfl⟩ := h
  exact ⟨rfl, f, hf, (Table.insert?_eq_some_iff.mp hrejected).1,
    fun k => Table.find?_insert? hrejected⟩

theorem unlinkRejected_ok {s s' : Spool} (h : s.unlinkRejected name = some (u, s')) :
    s'.files = s.files ∧
      ∀ k, s'.rejected.find? k = if k = name then none else s.rejected.find? k := by
  simp only [unlinkRejected, Option.some.injEq, Prod.mk.injEq] at h
  obtain ⟨-, rfl⟩ := h
  refine ⟨rfl, fun k => ?_⟩
  rw [Table.find?_delete]
  cases hf : s.rejected.find? k with
  | none => simp
  | some f =>
    have hname : f.name = k := Table.find?_key hf
    rw [Option.filter_some, hname]
    by_cases hk : k = name <;> simp [hk]

theorem Drops.reject : Keeps (Drops id) (reject id) := by
  have hrejected : ∀ {α : Type} {q : Spool → Option (α × Spool)} {e : AppError},
      (∀ s a s', q s = some (a, s') → s'.files = s.files) → Keeps (Drops id) (fileOp e q) :=
    fun hq => .fileOp (fun _ _ hdb h => .of_same (.of_eq hdb h)) fun s s' a hdb h =>
      ⟨hdb, fun _ _ => .inl (by rw [hq _ a _ h])⟩
  refine Keeps.bind (@Drops.trans _) (hrejected fun s name s' h => (linkRejected_ok h).1) fun name =>
    Keeps.bind (@Drops.trans _) (.result (hrejected fun s u s' h => ?_)) fun r => ?_
  · simp only [Option.some.injEq, Prod.mk.injEq, true_and] at h
    rw [h]
  · cases r with
    | error e =>
      exact Keeps.bind (@Drops.trans _)
        (.result (hrejected fun s u s' h => (unlinkRejected_ok h).1)) fun _ => .fail Drops.refl _
    | ok u => exact remove

/-- Claiming keeps the files of every event, and the tables. -/
theorem claim_run {path : Uuid × SpoolExtension} (h : claim path s = (r, s')) :
    s'.conn.db = s.conn.db ∧ (∀ id, s.spool.Holds id → s'.spool.Holds id) ∧
      ∀ sv, s.spool.Intact sv → s'.spool.Intact sv := by
  unfold claim at h
  split at h
  · cases h
    exact ⟨rfl, fun _ => id, fun _ => id⟩
  simp only [Txn.bind_run, Txn.result_run] at h
  rcases h₁ : fileOp (spoolError "") (·.rename path.1) s with ⟨r₁, s₁⟩
  rw [h₁] at h
  cases h
  obtain ⟨hdb, ⟨u, -, hq⟩ | ⟨-, hspool, -⟩⟩ := fileOp_run h₁
  · obtain ⟨f, hf, hfiles⟩ := rename_ok hq
    refine ⟨hdb, fun id hs => ?_, fun sv hs path' g hne hg => ?_⟩
    · unfold Holds
      rw [hfiles, hfiles]
      by_cases hid : id = path.1 <;> simp_all [Holds]
    · rw [hfiles] at hg
      split at hg
      · rename_i hpath
        cases hg
        obtain ⟨event, hparse, hid⟩ := hs _ f (by simp) hf
        exact ⟨event, hparse, by rw [hid, hpath]⟩
      · split at hg
        · cases hg
        · exact hs path' g hne hg
  · rw [hspool]
    exact ⟨hdb, fun _ => id, fun _ => id⟩

end Spool

/-! ## The helper's insert -/

theorem Database.find?_insertIngress {db : Database} {event : SafeIngressEvent} (k : Uuid) :
    ((db.insertIngress event).ingressEvents.find? k).isSome =
      ((db.ingressEvents.find? k).isSome || decide (k = event.eventId)) := by
  simp only [Database.insertIngress]
  split
  · rename_i h
    rw [Table.find?_insert? h]
    by_cases hk : k = event.eventId <;> simp [hk]
  · rename_i h
    by_cases hk : k = event.eventId
    · -- the insertion is ignored only when the row is there
      have hsome : (db.ingressEvents.find? event.eventId).isSome := Table.insert?_eq_none_iff.mp h
      rw [hk, hsome]
      rfl
    · simp [hk]

/-- At most `ingress_events` is another table. -/
def Database.IngressOnly (db db' : Database) : Prop := ∃ t, db' = { db with ingressEvents := t }

theorem Database.IngressOnly.of_eq {db db' : Database} (h : db' = db) : db.IngressOnly db' :=
  ⟨db.ingressEvents, h⟩

theorem Database.ingressOnly_insertIngress {db : Database} {event : SafeIngressEvent} :
    db.IngressOnly (db.insertIngress event) := by
  simp only [Database.insertIngress]
  split
  · exact ⟨_, rfl⟩
  · exact .of_eq rfl

/-- The insert adds the event to `ingress_events` when it succeeds, and else does nothing. -/
theorem HookCommand.insertIngress_run {sv : Services} {event : SafeIngressEvent}
    (h : insertIngress sv event c = (r, c')) :
    r = .ok () ∧ c'.db = c.db.insertIngress event ∨ (∃ e, r = .error e) ∧ c'.db = c.db := by
  unfold insertIngress at h
  rcases hsafe : validateSafeEnvelope sv event with e | envelope <;> rw [hsafe] at h
  · cases h
    exact .inr ⟨⟨_, rfl⟩, rfl⟩
  rcases r with e | ⟨⟩
  · obtain ⟨e', h⟩ := Txn.mapError_error h
    exact .inr ⟨⟨e, rfl⟩, connect_statement_error h⟩
  · refine .inl ⟨rfl, ?_⟩
    obtain ⟨u, c₁, h₁, h₂⟩ := Txn.bind_ok_iff.mp (Txn.mapError_ok_iff.mp h)
    have hc₁ : c₁.db = c.db := ensures_connect h₁
    have := ensures_execute h₂
    simp only [Prod.mk.injEq, true_and] at this
    rw [← this, hc₁]

theorem HookCommand.insertIngress_only {sv : Services} {event : SafeIngressEvent}
    (h : insertIngress sv event c = (r, c')) : c.db.IngressOnly c'.db := by
  rcases insertIngress_run h with ⟨-, hdb⟩ | ⟨-, hdb⟩
  · exact hdb ▸ Database.ingressOnly_insertIngress
  · exact .of_eq hdb

namespace Spool

variable {sv : Services} {id : Uuid}

/-- What becomes of a claimed file. It is rejected only when it cannot be read, or when it is not
there, for a file of an intact spool is an event. -/
inductive Ingests (sv : Services) (id : Uuid) (s s' : Host) :
    Except AppError (Option SafeIngressEvent) → Prop
  | inserted {event : SafeIngressEvent} (hid : s.spool.Intact sv → event.eventId = id)
    (hdb : s'.conn.db = s.conn.db.insertIngress event) (hspool : s'.spool = s.spool) :
    Ingests sv id s s' (.ok (some event))
  | failed {e : AppError} (hsame : Same s s') : Ingests sv id s s' (.error e)
  | rejected {r : Except AppError (Option SafeIngressEvent)} (hr : ∀ event, r ≠ .ok (some event))
    (hdrops : Drops id s s') (hread : (s.conn.world 0).fault = false → s.spool.Intact sv →
      s.spool.files.find? (id, .processing) = none) : Ingests sv id s s' r

theorem Ingests.ingressOnly {s s' : Host} {r : Except AppError (Option SafeIngressEvent)}
    (h : Ingests sv id s s' r) : s.conn.db.IngressOnly s'.conn.db := by
  cases h with
  | inserted _ hdb => exact hdb ▸ Database.ingressOnly_insertIngress
  | failed hsame => exact .of_eq hsame.1
  | rejected _ hdrops => exact .of_eq hdrops.1

theorem ingest_run (h : ingest sv id s = (r, s')) : Ingests sv id s s' r := by
  simp only [ingest, Txn.bind_run, Txn.result_run] at h
  rcases h₁ : fileOp (spoolError "") (·.read (id, .processing)) s with ⟨r₁, s₁⟩
  rw [h₁] at h
  dsimp only at h
  obtain ⟨hdb, hread⟩ := fileOp_run h₁
  have hspool : s₁.spool = s.spool := by
    rcases hread with ⟨bytes, -, hq⟩ | ⟨-, hspool, -⟩
    · simp only [Spool.read, Option.bind_eq_bind, Option.bind_eq_some_iff, Option.pure_def,
        Option.some.injEq, Prod.mk.injEq] at hq
      obtain ⟨f, -, -, hq⟩ := hq
      exact hq.symm
    · exact hspool
  rcases hparse : r₁.toOption.bind (parse sv) with _ | event <;> rw [hparse] at h <;>
    simp only [Txn.bind_run] at h
  · have hnone : (s.conn.world 0).fault = false → s.spool.Intact sv →
        s.spool.files.find? (id, .processing) = none := by
      intro hfault hintact
      by_contra hsome
      obtain ⟨f, hf⟩ := Option.ne_none_iff_exists'.mp hsome
      obtain ⟨event, hevent, -⟩ := hintact (id, .processing) f (by simp) hf
      rcases hread with ⟨bytes, rfl, hq⟩ | ⟨-, -, hq⟩
      · simp only [Spool.read, hf, Option.bind_eq_bind, Option.bind_some, Option.pure_def,
          Option.some.injEq, Prod.mk.injEq] at hq
        rw [← hq.1] at hparse
        simp [Except.toOption, hevent] at hparse
      · have := hq hfault
        simp [Spool.read, hf] at this
    have hdrops : Drops id s s₁ := .of_same (.of_eq hdb hspool)
    rcases h₂ : reject id s₁ with ⟨e | u, s₂⟩ <;> rw [h₂] at h <;> cases h
    · exact .rejected (by simp) (hdrops.trans (Drops.reject.ok h₂)) hnone
    · exact .rejected (by simp) (hdrops.trans (Drops.reject.ok h₂)) hnone
  · have hid : s.spool.Intact sv → event.eventId = id := by
      intro hintact
      rcases hread with ⟨bytes, rfl, hq⟩ | ⟨rfl, -, -⟩
      · simp only [Spool.read, Option.bind_eq_bind, Option.bind_eq_some_iff, Option.pure_def,
          Option.some.injEq, Prod.mk.injEq] at hq
        obtain ⟨f, hf, rfl, -⟩ := hq
        obtain ⟨event', hevent, heid⟩ := hintact (id, .processing) f (by simp) hf
        have : some event' = some event := by
          rw [← hevent, ← hparse]
          rfl
        cases this
        exact heid
      · cases hparse
    simp only [Txn.mapError, onConn] at h
    rcases h₂ : HookCommand.insertIngress sv event s₁.conn with ⟨e | u, c₂⟩ <;> rw [h₂] at h <;>
      cases h
    · obtain ⟨⟨⟩, -⟩ | ⟨-, hc₂⟩ := HookCommand.insertIngress_run h₂
      exact .failed (.of_eq (hc₂.trans hdb) hspool)
    · obtain ⟨-, hc₂⟩ | ⟨⟨e, ⟨⟩⟩, -⟩ := HookCommand.insertIngress_run h₂
      exact .inserted hid (by rw [← hdb]; exact hc₂) hspool

end Spool

end CcReminder
