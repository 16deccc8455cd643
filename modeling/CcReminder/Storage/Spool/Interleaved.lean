import CcReminder.Storage.Spool.Safety

/-!
# The calls keep to the protocol

Each writer and each drain follows `SpoolCalls.protocol`, whatever the others do that keep to it.
-/

set_option autoImplicit true

namespace CcReminder

open Lib Host

namespace SpoolCalls

variable {sv : Services} {foreign : Uuid → Option (List UInt8)} {i : Nat} {id : Uuid}
  {s : SpoolShared}

/-! ## What a call knows -/

abbrev Stable (sv : Services) (foreign : Uuid → Option (List UInt8)) := (protocol sv foreign).Stable

abbrev Follows (sv : Services) (foreign : Uuid → Option (List UInt8)) (i : Nat)
    (Q : α → SpoolShared → Prop) (x : SpoolThread α) (s : SpoolShared) : Prop :=
  Thread.Follows (protocol sv foreign) i Q x s

def Unknown (_ : SpoolShared) : Prop := True

/-- The call holds the lock. -/
def Locked (i : Nat) (s : SpoolShared) : Prop := s.lock = some i

/-- It has found room. -/
def Room (i : Nat) (s : SpoolShared) : Prop :=
  s.lock = some i ∧ s.host.spool.count < MAX_SPOOL_FILES

/-- Its temporary file is written. -/
def Written (i : Nat) (id : Uuid) (bytes : List UInt8) (s : SpoolShared) : Prop :=
  Room i s ∧ ∀ f, s.host.spool.files.find? (id, .tmp) = some f → f.bytes = bytes

/-- Its link under `rejected` has the bytes of the file, which is no event. -/
def Linked (foreign : Uuid → Option (List UInt8)) (i name : Nat) (id : Uuid) (s : SpoolShared) : Prop :=
  s.linked i = some name ∧ ∃ r, s.host.spool.rejected.find? name = some r ∧
    foreign id = some r.bytes

theorem stable_unknown : Stable sv foreign i Unknown := fun _ _ _ _ _ => trivial

theorem stable_locked : Stable sv foreign i (Locked i) := fun _ _ h hrely _ => (hrely.locked h).1

theorem stable_room : Stable sv foreign i (Room i) := fun _ _ h hrely _ =>
  ⟨(hrely.locked h.1).1, Nat.lt_of_le_of_lt (hrely.locked h.1).2.1 h.2⟩

theorem stable_written : Stable sv foreign i (Written i id bytes) := fun s s' h hrely hinv => by
  have hroom : Stable sv foreign i (Room i) := stable_room
  exact ⟨hroom s s' h.1 hrely hinv, fun f hf => h.2 f ((hrely.locked h.1.1).2.2 id ▸ hf)⟩

theorem stable_kept (hforeign : foreign id = none) : Stable sv foreign i fun s => Kept s id :=
  fun _ _ h hrely _ => hrely.kept id hforeign h

theorem stable_inserted : Stable sv foreign i fun s => id ∈ s.inserted :=
  fun _ _ h hrely _ => hrely.inserted id h

theorem stable_linked : Stable sv foreign i (Linked foreign i name id) := by
  rintro s s' ⟨hname, r, hr, hbytes⟩ hrely -
  exact ⟨hrely.linked.1.trans hname, r, (hrely.linked.2 name hname).trans hr, hbytes⟩

theorem stable_and {p q : SpoolShared → Prop} (hp : Stable sv foreign i p)
    (hq : Stable sv foreign i q) : Stable sv foreign i fun s => p s ∧ q s :=
  fun s s' h hrely hinv => ⟨hp s s' h.1 hrely hinv, hq s s' h.2 hrely hinv⟩

theorem stable_imp {p : Prop} {q : SpoolShared → Prop} (hq : p → Stable sv foreign i q) :
    Stable sv foreign i fun s => p → q s :=
  fun s s' h hrely hinv hp => hq hp s s' (h hp) hrely hinv

/-! ## One operation -/

theorem onHost_spool {x : Txn AppError Host α} (hx : ∀ h, (x h).2.spool = h.spool) (s : SpoolShared) :
    (SpoolShared.onHost x s).2.host.spool = s.host.spool := hx s.host

theorem look_spool {f : Spool → α} (h : Host) :
    (fileOp e (fun s => some (f s, s)) h).2.spool = h.spool := by
  obtain ⟨-, ⟨a, -, hq⟩ | ⟨-, hspool, -⟩⟩ :=
    fileOp_run (s := h) (e := e) (q := fun s => some (f s, s)) rfl
  · simp only [Option.some.injEq, Prod.mk.injEq] at hq
    exact hq.2.symm
  · exact hspool

/-- An operation that leaves the spool alone keeps what the call knows. -/
theorem follows_quiet {x : Txn AppError Host α} {p : SpoolShared → Prop}
    (hx : ∀ h, (x h).2.spool = h.spool) (hp : p s) (hstable : Stable sv foreign i p) :
    Follows sv foreign i (fun _ => p) (SpoolThread.step x) s := by
  refine Thread.Follows.atom (fun s' hrely hinv _ => ?_) fun _ => hstable
  have hquiet := quiet (i := i) hinv (onHost_spool hx s') rfl rfl fun _ h => h
  exact ⟨hquiet.1, fun a _ => hstable _ _ (hstable _ _ hp hrely hinv) (hquiet.2 i) hquiet.1.inv⟩

/-- A file operation that succeeds gives `Q`, and one that fails leaves what the call knows. -/
theorem fileOp_owes {q : Spool → Option (α × Spool)} {p : SpoolShared → Prop}
    {Q : α → SpoolShared → Prop} (hinv : Inv sv foreign s) (hp : p s) (hstable : Stable sv foreign i p)
    (h : ∀ s' a, SameNotes s s' → q s.host.spool = some (a, s'.host.spool) →
      Owes sv foreign i s s' ∧ Q a s') :
    let r := SpoolShared.onHost (fileOp e q) s
    Owes sv foreign i s r.2 ∧ (∀ a, r.1 = .ok a → Q a r.2) ∧ ∀ e', r.1 = .error e' → p r.2 := by
  obtain ⟨-, ⟨a, ha, hq⟩ | ⟨he, hspool, -⟩⟩ := fileOp_run (s := s.host) (e := e) (q := q) rfl
  · obtain ⟨howes, hQ⟩ := h (SpoolShared.onHost (fileOp e q) s).2 a ⟨rfl, rfl, rfl⟩ hq
    refine ⟨howes, fun a' ha' => ?_, fun e' he' => ?_⟩
    · cases ha.symm.trans ha'
      exact hQ
    · cases ha.symm.trans he'
  · have hquiet : Owes sv foreign i s (SpoolShared.onHost (fileOp e q) s).2 ∧
        ∀ j, Rely foreign j s (SpoolShared.onHost (fileOp e q) s).2 :=
      quiet hinv hspool rfl rfl fun _ h => h
    refine ⟨hquiet.1, fun a' ha' => ?_, fun e' _ => hstable _ _ hp (hquiet.2 i) hquiet.1.inv⟩
    cases he.symm.trans ha'

section FileOp

variable {q : Spool → Option (α × Spool)} {p : SpoolShared → Prop} {Q : α → SpoolShared → Prop}

theorem follows_fileOp (hp : p s) (hstable : Stable sv foreign i p)
    (hQ : ∀ a, Stable sv foreign i (Q a))
    (h : ∀ s s' a, Inv sv foreign s → p s → SameNotes s s' →
      q s.host.spool = some (a, s'.host.spool) → Owes sv foreign i s s' ∧ Q a s') :
    Follows sv foreign i Q (SpoolThread.step (fileOp e q)) s := by
  refine Thread.Follows.atom (fun s' hrely hinv _ => ?_) hQ
  have hp' := hstable _ _ hp hrely hinv
  obtain ⟨howes, hok, -⟩ := fileOp_owes (e := e) hinv hp' hstable fun s'' a => h s' s'' a hinv hp'
  exact ⟨howes, hok⟩

theorem follows_result (hp : p s) (hstable : Stable sv foreign i p)
    (hQ : ∀ a, Stable sv foreign i (Q a))
    (h : ∀ s s' a, Inv sv foreign s → p s → SameNotes s s' →
      q s.host.spool = some (a, s'.host.spool) → Owes sv foreign i s s' ∧ Q a s') :
    Follows sv foreign i (fun r s => (∀ a, r = .ok a → Q a s) ∧ ∀ e, r = .error e → p s)
      (SpoolThread.step (fileOp e q).result) s := by
  refine Thread.Follows.atom (fun s' hrely hinv _ => ?_) fun r => ?_
  · have hp' := hstable _ _ hp hrely hinv
    obtain ⟨howes, hok, herr⟩ := fileOp_owes (e := e) hinv hp' hstable fun s'' a =>
      h s' s'' a hinv hp'
    refine ⟨howes, fun r hr => ?_⟩
    cases hr
    exact ⟨hok, herr⟩
  · cases r with
    | ok a =>
      exact fun s s' hs hrely hinv =>
        ⟨fun a' ha' => hQ a' s s' (hs.1 a' ha') hrely hinv, fun e he => nomatch he⟩
    | error e =>
      exact fun s s' hs hrely hinv =>
        ⟨fun a ha => (nomatch ha), fun e he => hstable s s' (hs.2 e he) hrely hinv⟩

end FileOp

/-! ## Writers -/

theorem follows_isFull (h : Locked i s) :
    Follows sv foreign i (fun full s => Locked i s ∧ (full = false → Room i s)) SpoolThread.isFull s := by
  refine Thread.Follows.bind (follows_quiet look_spool h stable_locked) fun before s' hinv hlock => ?_
  refine Thread.Follows.atom (fun s'' hrely hinv' hok => ?_)
    fun full => stable_and stable_locked (stable_imp fun _ => stable_room)
  have hlock' : Locked i s'' := stable_locked _ _ hlock hrely hinv'
  refine ⟨owes_quiet hinv' rfl rfl rfl fun _ h => h, fun full hfull => ⟨hlock', fun hroom => ?_⟩⟩
  cases hfull
  refine ⟨hlock', ?_⟩
  change Spool.isFullOf (Spool.seen before s''.host.spool) = false at hroom
  rcases (hok : Counted s'' (.check before)) with hok | hok
  · exact hok
  · exact Spool.count_lt_of_seen hroom hok

theorem follows_writeTemporary (h : Room i s) :
    Follows sv foreign i (fun _ => Written i id bytes) (SpoolThread.writeTemporary id bytes) s := by
  refine Thread.Follows.bind (Q := fun _ => Room i) ?_ fun _ s₁ _ h₁ => ?_
  · refine follows_fileOp h stable_room (fun _ => stable_room) fun s s' a hinv hroom hnotes hq => ?_
    have hsame := Spool.create_same hq
    have hrejected : s'.host.spool.rejected = s.host.spool.rejected := by
      simp only [Spool.create, Option.bind_eq_bind, Option.bind_eq_some_iff, Option.pure_def,
        Option.some.injEq, Prod.mk.injEq] at hq
      obtain ⟨files, -, -, hspool⟩ := hq
      rw [← hspool]
    refine ⟨owes_temporary hinv hroom.1 hnotes hrejected hsame, ?_, ?_⟩
    · rw [hnotes.1]
      exact hroom.1
    · rw [hsame.count]
      exact hroom.2
  refine Thread.Follows.bind (follows_quiet look_spool h₁ stable_room) fun _ s₂ _ h₂ => ?_
  refine Thread.Follows.bind (Q := fun _ => Written i id bytes) ?_ fun _ s₃ _ h₃ =>
    follows_quiet look_spool h₃ stable_written
  refine follows_fileOp h₂ stable_room (fun _ => stable_written) fun s s' a hinv hroom hnotes hq => ?_
  obtain ⟨hsame, hbytes⟩ := Spool.write_same hq
  have hrejected : s'.host.spool.rejected = s.host.spool.rejected := by
    simp only [Spool.write, Option.some.injEq, Prod.mk.injEq] at hq
    rw [← hq.2]
  refine ⟨owes_temporary hinv hroom.1 hnotes hrejected hsame, ⟨?_, ?_⟩, fun f hf => ?_⟩
  · rw [hnotes.1]
    exact hroom.1
  · rw [hsame.count]
    exact hroom.2
  · rw [hbytes f hf]

/-- **Under the lock.** A writer that is accepted has left its event in the spool. -/
theorem follows_writeLocked (hforeign : foreign id = none) (hnamed : Named sv foreign id bytes)
    (h : Locked i s) :
    Follows sv foreign i (fun _ s => Kept s id) (SpoolThread.writeLocked id bytes) s := by
  refine Thread.Follows.bind (follows_isFull h) fun full s₁ _ h₁ => ?_
  cases full with
  | true => exact Thread.Follows.fail
  | false =>
    refine Thread.Follows.bind (follows_writeTemporary (h₁.2 rfl)) fun _ s₂ _ h₂ => ?_
    refine Thread.Follows.bind (follows_result (Q := fun _ s => Locked i s ∧ Kept s id) h₂ stable_written
      (fun _ => stable_and stable_locked (stable_kept hforeign))
      fun s s' a hinv hwritten hnotes hq => ?_) fun published s₃ _ h₃ => ?_
    · obtain ⟨howes, hkept⟩ := owes_publish hinv hwritten.1.1 hwritten.1.2 hnotes (fun f hf => by
        rw [hwritten.2 f hf]
        exact hnamed) hq
      exact ⟨howes, hnotes.1.trans hwritten.1.1, hkept⟩
    have hlocked : Locked i s₃ ∧ (published = .ok () → Kept s₃ id) := by
      cases published with
      | ok u => exact ⟨(h₃.1 u rfl).1, fun _ => (h₃.1 u rfl).2⟩
      | error e => exact ⟨(h₃.2 e rfl).1.1, nofun⟩
    have hstable : Stable sv foreign i fun s => Locked i s ∧ (published = .ok () → Kept s id) :=
      stable_and stable_locked (stable_imp fun _ => stable_kept hforeign)
    refine Thread.Follows.bind (follows_result (Q := fun _ s => Locked i s ∧
      (published = .ok () → Kept s id)) hlocked hstable (fun _ => hstable)
      fun s s' a hinv hp hnotes hq => ?_) fun r s₄ _ h₄ => ?_
    · have hsame : s.host.spool.SameFiles s'.host.spool := fun path hne => by
        rw [Spool.remove_ok hq path, if_neg]
        rintro rfl
        exact hne rfl
      have hrejected : s'.host.spool.rejected = s.host.spool.rejected := by
        unfold Spool.remove at hq
        split at hq
        · simp only [Option.some.injEq, Prod.mk.injEq] at hq
          rw [← hq.2]
        · cases hq
      refine ⟨owes_temporary hinv hp.1 hnotes hrejected hsame, hnotes.1.trans hp.1, fun hok => ?_⟩
      rcases hp.2 hok with hholds | hinserted
      · exact .inl (hsame.holds hholds)
      · exact .inr (hnotes.2.1 ▸ hinserted)
    · have hkept : published = .ok () → Kept s₄ id := by
        cases r with
        | ok u => exact (h₄.1 u rfl).2
        | error e => exact (h₄.2 e rfl).2
      have hstays : Stable sv foreign i fun s => Kept s id := stable_kept hforeign
      cases published with
      | ok u => exact fun s' hrely hinv => hstays _ _ (hkept rfl) hrely hinv
      | error e => trivial

theorem follows_writeExclusive {event : SafeIngressEvent} (hforeign : foreign event.eventId = none)
    (hserde : sv.decodeSafe (sv.encodeSafe event) = some event) :
    Follows sv foreign i (fun _ s => Kept s event.eventId) (SpoolThread.writeExclusive sv i event) s := by
  unfold SpoolThread.writeExclusive
  dsimp only
  split
  · exact Thread.Follows.fail
  rename_i hsize
  have hnamed : Named sv foreign event.eventId (sv.encodeSafe event) := by
    rw [Named, hforeign]
    exact ⟨event, by simp [Spool.parse, Nat.not_lt.mp hsize, hserde], rfl⟩
  refine Thread.Follows.bind (follows_quiet look_spool trivial stable_unknown) fun _ s₁ _ h₁ =>
    Thread.Follows.bind (follows_quiet look_spool h₁ stable_unknown) fun _ s₂ _ _ => ?_
  refine Thread.Follows.bind (Q := fun _ => Locked i) ?_ fun _ s₃ _ h₃ => ?_
  · refine Thread.Follows.atom (fun s' _ hinv _ => ?_) fun _ => stable_locked
    have hbusy := quiet (i := i) hinv (onHost_spool (look_spool (e := spoolError "spool capacity busy")
      (f := fun _ => ())) s') rfl rfl fun _ h => h
    simp only [SpoolShared.acquire, Txn.bind_run]
    rcases hrun : SpoolShared.onHost (fileOp (spoolError "spool capacity busy") fun s => some ((), s)) s'
      with ⟨e | u, s''⟩ <;> rw [hrun] at hbusy <;> dsimp only [Txn.step_run]
    · exact ⟨hbusy.1, by simp⟩
    · have hspool : s''.host.spool = s'.host.spool ∧ s''.lock = s'.lock ∧
          s''.inserted = s'.inserted ∧ s''.linked = s'.linked := by
        have hs'' : (SpoolShared.onHost (fileOp (spoolError "spool capacity busy")
          fun s => some ((), s)) s').2 = s'' := congrArg Prod.snd hrun
        rw [← hs'']
        exact ⟨look_spool _, rfl, rfl, rfl⟩
      split
      · exact ⟨hbusy.1, by simp⟩
      · rename_i hfree
        have hnone : s'.lock = none := by
          rw [← hspool.2.1]
          exact Option.not_isSome_iff_eq_none.mp hfree
        refine ⟨owes_lock hinv hspool.1 hspool.2.2.1 (fun hk => hspool.2.2.2 ▸ hk) fun j _ =>
          ⟨congrFun hspool.2.2.2 j, fun hj => ?_⟩, fun _ _ => rfl⟩
        rw [hnone] at hj
        cases hj
  · refine Thread.Follows.bind (follows_writeLocked hforeign hnamed h₃).result fun written s₄ _ h₄ => ?_
    have hstable : Stable sv foreign i fun s => written = .ok () → Kept s event.eventId :=
      stable_imp fun _ => stable_kept hforeign
    refine Thread.Follows.bind (Q := fun _ s => written = .ok () → Kept s event.eventId) ?_
      fun _ s₅ _ h₅ => ?_
    · refine Thread.Follows.atom (fun s' hrely hinv _ => ?_) fun _ => hstable
      have hkept := hstable _ _ (fun hw => h₄ () hw) hrely hinv
      simp only [SpoolShared.release, Txn.step_run]
      split
      · rename_i hlock
        refine ⟨owes_lock hinv rfl rfl (fun hk => hk) fun j hj => ⟨rfl, fun hj' => ?_⟩, fun _ _ => hkept⟩
        rw [hlock] at hj'
        exact absurd (Option.some.inj hj').symm hj
      · exact ⟨owes_quiet hinv rfl rfl rfl fun _ h => h, fun _ _ => hkept⟩
    · cases written with
      | ok u => exact fun s' hrely hinv => hstable _ _ h₅ hrely hinv rfl
      | error e => trivial

/-! ## Drains -/

theorem follows_claim (path : Uuid × SpoolExtension) :
    Follows sv foreign i (fun _ => Unknown) (SpoolThread.claim path) s := by
  unfold SpoolThread.claim
  split
  · exact fun _ _ _ => trivial
  · refine Thread.Follows.bind (follows_result (p := Unknown) (Q := fun _ => Unknown) trivial
      stable_unknown (fun _ => stable_unknown) fun s s' a hinv _ hnotes hq => ?_) fun _ _ _ _ _ _ _ =>
        trivial
    exact ⟨owes_rename hinv hnotes hq, trivial⟩

/-- **Rejected.** Only a file that was read, and that is no event, is linked under `rejected`. -/
theorem follows_reject {wasRead : Bool} (hforeign : wasRead = true → ∃ found, foreign id = some found) :
    Follows sv foreign i (fun _ => Unknown) (SpoolThread.reject i id wasRead) s := by
  refine Thread.Follows.bind (Q := fun name => Linked foreign i name id) ?_ fun name s₁ _ h₁ => ?_
  · refine Thread.Follows.atom (fun s' _ hinv hok => ?_) fun _ => stable_linked
    simp only [SpoolShared.link, Txn.bind_run]
    rcases hrun : SpoolShared.onHost (fileOp (spoolError "spool reject") (·.linkRejected id)) s'
      with ⟨r, s''⟩
    have hr := congrArg Prod.fst hrun
    have hs'' := congrArg Prod.snd hrun
    obtain ⟨-, ⟨name, hname, hq⟩ | ⟨he, hspool, -⟩⟩ := fileOp_run (s := s'.host)
      (e := spoolError "spool reject") (q := (·.linkRejected id)) rfl
    · cases hname.symm.trans hr
      dsimp only [Txn.step_run]
      subst hs''
      obtain ⟨-, f, hf, -, hrejected⟩ := Spool.linkRejected_ok hq
      cases wasRead with
      | false =>
        rw [(hok : Counted s' (.link id false))] at hf
        cases hf
      | true =>
        obtain ⟨found, hfound⟩ := hforeign rfl
        have hbytes : f.bytes = found ∧ Spool.parse sv f.bytes = none := by
          have hnamed := hinv.claimed hf
          rwa [Named, hfound] at hnamed
        refine ⟨owes_link hinv rfl rfl rfl (fun g hg => ?_) hq, fun name' hname' => ?_⟩
        · cases hf.symm.trans hg
          exact hbytes.2
        · cases hname'
          refine ⟨Function.update_self _ _ _, ⟨name, f.bytes⟩, ?_, ?_⟩
          · exact (hrejected name).trans (if_pos rfl)
          · rw [hbytes.1]
            exact hfound
    · cases he.symm.trans hr
      subst hs''
      dsimp only
      exact ⟨owes_quiet hinv hspool rfl rfl fun _ h => h, by simp⟩
  · have hstable : Stable sv foreign i (Linked foreign i name id) := stable_linked
    refine Thread.Follows.bind (follows_result (p := Linked foreign i name id)
      (Q := fun _ => Linked foreign i name id) h₁ stable_linked (fun _ => stable_linked)
      fun s s' a hinv hp hnotes hq => ?_) fun permitted s₂ _ h₂ => ?_
    · simp only [Option.some.injEq, Prod.mk.injEq] at hq
      have hquiet : Owes sv foreign i s s' ∧ ∀ j, Rely foreign j s s' :=
        quiet hinv hq.2.symm hnotes.1 hnotes.2.2 fun _ h => hnotes.2.1 ▸ h
      exact ⟨hquiet.1, hstable _ _ hp (hquiet.2 i) hquiet.1.inv⟩
    cases permitted with
    | error e =>
      refine Thread.Follows.bind (Q := fun _ => Unknown) (Thread.Follows.atom (fun s' hrely hinv _ => ?_)
        fun _ => stable_unknown) fun _ _ _ _ => Thread.Follows.fail
      have hlinked := hstable _ _ (h₂.2 e rfl) hrely hinv
      refine ⟨?_, fun _ _ => trivial⟩
      simp only [SpoolShared.unlinkRejected, Txn.bind_run]
      obtain ⟨-, ⟨u, -, hq⟩ | ⟨-, hspool, -⟩⟩ := fileOp_run (s := s'.host)
        (e := spoolError "") (q := (·.unlinkRejected name)) rfl
      · obtain ⟨hfiles, hrejected⟩ := Spool.unlinkRejected_ok hq
        refine owes_unlinkRejected hinv rfl rfl rfl hlinked.1 hfiles (fun k hk => ?_) fun r hr => ?_
        · exact (hrejected k).trans (if_neg hk)
        · cases (hrejected name).symm.trans hr |>.symm.trans (if_pos rfl)
      · refine owes_unlinkRejected hinv rfl rfl rfl hlinked.1 (congrArg _ hspool) (fun k _ => ?_)
          fun r hr => ?_
        · exact congrArg (·.rejected.find? k) hspool
        · exact (congrArg (·.rejected.find? name) hspool).symm.trans hr
    | ok u =>
      refine follows_fileOp (p := Linked foreign i name id) (h₂.1 u rfl) stable_linked
        (fun _ => stable_unknown) fun s s' a hinv hp hnotes hq => ⟨owes_unlink hinv hnotes
          (fun f hf => ?_) (fun hnone => ?_) hq, trivial⟩
      · obtain ⟨-, r, hr, hbytes⟩ := hp
        have hnamed := hinv.claimed hf
        rw [Named, hbytes] at hnamed
        exact .inr ⟨hnamed.2, r, (Table.find?_eq_some_iff.mp hr).1, hnamed.1.symm⟩
      · obtain ⟨-, r, -, hbytes⟩ := hp
        rw [hnone] at hbytes
        cases hbytes

/-- What a drain has read is inserted under the name of the file, or it is no event. -/
theorem follows_ingest (id : Uuid) :
    Follows sv foreign i (fun r s => r.isSome → foreign id = none ∧ id ∈ s.inserted)
      (SpoolThread.ingest sv i id) s := by
  refine Thread.Follows.bind (follows_result (p := Unknown)
    (Q := fun bytes _ => Named sv foreign id bytes) trivial stable_unknown (fun _ _ _ h _ _ => h)
    fun s s' a hinv _ hnotes hq => ?_) fun bytes s₁ _ h₁ => ?_
  · simp only [Spool.read, Option.bind_eq_bind, Option.bind_eq_some_iff, Option.pure_def,
      Option.some.injEq, Prod.mk.injEq] at hq
    obtain ⟨f, hf, rfl, hspool⟩ := hq
    exact ⟨owes_quiet hinv hspool.symm hnotes.1 hnotes.2.2 fun _ h => hnotes.2.1 ▸ h,
      hinv.claimed hf⟩
  cases hparse : bytes.toOption.bind (Spool.parse sv) with
  | none =>
    simp only
    refine Thread.Follows.bind (follows_reject fun hread => ?_) fun _ _ _ _ _ _ _ h => by cases h
    cases bytes with
    | error e => cases hread
    | ok bytes =>
      have hnamed := h₁.1 bytes rfl
      simp only [Named] at hnamed
      split at hnamed
      · obtain ⟨event, hevent, -⟩ := hnamed
        change Spool.parse sv bytes = none at hparse
        rw [hparse] at hevent
        cases hevent
      · rename_i found hfound
        exact ⟨found, hfound⟩
  | some event =>
    simp only
    have hevent : foreign id = none ∧ event.eventId = id := by
      cases bytes with
      | error e => cases hparse
      | ok bytes =>
        have hnamed := h₁.1 bytes rfl
        change Spool.parse sv bytes = some event at hparse
        simp only [Named, hparse] at hnamed
        split at hnamed
        · rename_i hforeign
          obtain ⟨event', hevent', hid⟩ := hnamed
          cases hevent'
          exact ⟨hforeign, hid⟩
        · cases hnamed.2
    refine Thread.Follows.bind (Q := fun _ s => id ∈ s.inserted) (Thread.Follows.atom
      (fun s' _ hinv _ => ?_) fun _ => stable_inserted) fun _ s₂ _ h₂ s₃ hrely hinv _ =>
        ⟨hevent.1, hrely.inserted id h₂⟩
    simp only [SpoolShared.insert, Txn.bind_run, SpoolShared.onHost]
    generalize hrun : ((onConn (HookCommand.insertIngress sv event)).mapError fun _ =>
      spoolError "spool ingress write") s'.host = run
    obtain ⟨r, host⟩ := run
    have hspool : host.spool = s'.host.spool := by
      have hsnd : _ = host := congrArg Prod.snd hrun
      rw [Txn.mapError_snd] at hsnd
      rw [← hsnd]
      rfl
    cases r with
    | error e =>
      dsimp only
      exact ⟨owes_quiet hinv hspool rfl rfl fun _ h => h, by simp⟩
    | ok u =>
      dsimp only [Txn.step_run]
      refine ⟨owes_quiet hinv hspool rfl rfl fun _ h => List.mem_cons_of_mem _ h, fun _ _ => ?_⟩
      rw [← hevent.2]
      exact List.mem_cons_self

theorem follows_drainFile (path : Uuid × SpoolExtension) :
    Follows sv foreign i (fun _ => Unknown) (SpoolThread.drainFile sv i path) s := by
  refine Thread.Follows.bind (follows_claim path) fun claimed s₁ _ _ => ?_
  cases claimed with
  | false => exact fun _ _ _ => trivial
  | true =>
    refine Thread.Follows.bind (follows_ingest path.1) fun event s₂ _ h₂ => ?_
    cases event with
    | none => exact fun _ _ _ => trivial
    | some event =>
      obtain ⟨hforeign, hinserted⟩ := h₂ rfl
      refine Thread.Follows.bind (follows_fileOp (Q := fun _ => Unknown) hinserted stable_inserted
        (fun _ => stable_unknown) fun s s' a hinv hp hnotes hq => ⟨owes_unlink hinv hnotes
          (fun f hf => ?_) (fun _ => hp) hq, trivial⟩) fun _ _ _ _ _ _ _ => trivial
      have hnamed := hinv.claimed hf
      rw [Named, hforeign] at hnamed
      obtain ⟨event', hparse, hid⟩ := hnamed
      exact .inl ⟨event', hparse, hid ▸ hp⟩

theorem follows_drainFiles (paths : List (Uuid × SpoolExtension)) :
    Follows sv foreign i (fun _ => Unknown) (SpoolThread.drainFiles sv i paths) s := by
  induction paths generalizing s with
  | nil => exact fun _ _ _ => trivial
  | cons path paths ih =>
    exact Thread.Follows.bind (follows_drainFile path) fun _ _ _ _ =>
      Thread.Follows.bind ih fun _ _ _ _ _ _ _ => trivial

theorem follows_drain (limit : Nat) :
    Follows sv foreign i (fun _ => Unknown) (SpoolThread.drain sv i limit) s := by
  refine Thread.Follows.bind (Q := fun _ => Unknown) ?_ fun paths _ _ _ => follows_drainFiles _
  refine Thread.Follows.bind (follows_quiet look_spool trivial stable_unknown) fun before _ _ _ => ?_
  refine Thread.Follows.atom (fun s' _ hinv _ => ?_) fun _ => stable_unknown
  exact ⟨owes_quiet hinv rfl rfl rfl fun _ h => h, fun _ _ => trivial⟩

end SpoolCalls

end CcReminder
