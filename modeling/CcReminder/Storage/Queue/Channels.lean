import CcReminder.Storage.Queue.Run

/-!
# What outcomes do to the channels

A recorded failure may cool its channel down or count as a strike against it. `JobRow.Charges` says
which, by the decision about the row; `Conn.RetriesEach` goes through the jobs of an aggregate.
-/

set_option autoImplicit true

namespace CcReminder

open Lib

/-- The row of one channel became another, and the other channels kept theirs. -/
def Database.ChannelBecomes (db : Database) (channelId : ChannelId) (f : ChannelRow → ChannelRow)
    (db' : Database) : Prop :=
  ∀ id, db'.channels.find? id =
    if id = channelId then (db.channels.find? id).map f else db.channels.find? id

/-- The cool-down of a channel. -/
def ChannelRow.cool (c : ChannelRow) (t : DateTime) : ChannelRow :=
  { c with nextAllowedAt := some t, updatedAt := t }

/-- The end of the strikes against a channel. -/
def ChannelRow.reset (c : ChannelRow) (now : DateTime) : ChannelRow :=
  { c with
    consecutiveAuthFailures := 0, healthStatus := .healthy, pausedReasonCode := none,
    lastSucceededAt := some now, updatedAt := now }

namespace Database.ChannelBecomes

theorem of_eq {db db' : Database} (h : db'.channels = db.channels) (channelId : ChannelId) :
    db.ChannelBecomes channelId (fun c => c) db' := fun k => by simp [h]

theorem of_update {db : Database} {f : ChannelRow → ChannelRow} {hf} (channelId : ChannelId) :
    db.ChannelBecomes channelId f
      { db with channels := db.channels.update (·.id = channelId) f hf } := by
  intro k
  have h : (db.channels.update (fun c => c.id = channelId ∧ True) f hf).find? k = _ :=
    Table.find?_update_one
  simpa using h

end Database.ChannelBecomes

theorem ensures_updateChannel_row {f : ChannelRow → ChannelRow} {hf} :
    Ensures (updateChannel channelId f hf) fun db _ db' => db.ChannelBecomes channelId f db' ∧
      db' = { db with channels := db'.channels } := by
  refine ensures_connect.bind (fun _ => ensures_execute) fun db _ db₁ _ db' h₁ h₂ => ?_
  simp only [Prod.mk.injEq, true_and] at h₂
  rw [← h₂, h₁]
  exact ⟨.of_update channelId, rfl⟩

theorem Database.updateChannelOf_row {db db' : Database} {f : ChannelRow → ChannelRow} {hf}
    (hj : db.deliveryJobs.find? k = some j) (h : db.updateChannelOf k f hf = (u, db')) :
    db.ChannelBecomes j.channelId f db' := by
  simp only [Database.updateChannelOf, hj, Prod.mk.injEq] at h
  rw [← h.2]
  exact .of_update j.channelId

/-! ## One failure -/

/-- What a failed send does to the channel of a job with the row `j`, with the readings of the
clock `times`. -/
inductive JobRow.Charges (j : JobRow) (times : DateTime → Prop) (now : DateTime)
    (error : DeliveryError) : (ChannelRow → ChannelRow) → Prop
  | cool (hd : j.decision jitter now error = .retryAt t) (hu : times u) :
    Charges j times now error (·.cool (max t (u + Duration.seconds 1)))
  | strike (hd : j.decision jitter now error = .fail) (hkind : error.kind = .authentication) :
    Charges j times now error (·.bumpAuthFailure PAUSE_AUTH_REASON now)
  | fail (hd : j.decision jitter now error = .fail) (hkind : error.kind ≠ .authentication) :
    Charges j times now error fun c => c
  | expire (hd : j.decision jitter now error = .expire) :
    Charges j times now error fun c => c

theorem JobRow.Charges.mono {j : JobRow} (h : j.Charges times now error f)
    (ht : ∀ u, times u → times' u) : j.Charges times' now error f := by
  cases h with
  | cool hd hu => exact .cool hd (ht _ hu)
  | strike hd hkind => exact .strike hd hkind
  | fail hd hkind => exact .fail hd hkind
  | expire hd => exact .expire hd

/-- The readings of the clock that a connection has before it. -/
def Conn.Reads (c : Conn) (u : DateTime) : Prop := ∃ n, u = (c.world n).utcNow

theorem Conn.Precedes.reads {c c' : Conn} (h : c.Precedes c') {u : DateTime} (hu : c'.Reads u) :
    c.Reads u := by
  obtain ⟨n, rfl⟩ := hu
  obtain ⟨m, hm⟩ := h.draw n
  exact ⟨m, by rw [hm]⟩

/-- `c'` is `c` after a failed send was recorded for the job `k`. -/
structure Conn.Retries (c : Conn) (now : DateTime) (error : DeliveryError) (k : Uuid)
    (c' : Conn) : Prop where
  charges : ∃ j f, c.db.deliveryJobs.find? k = some j ∧ j.state = .sending ∧
    j.Charges c.Reads now error f ∧ c.db.ChannelBecomes j.channelId f c'.db
  records : c.db.Records now (.retry error) k c'.db
  precedes : c.Precedes c'

theorem Advances.settle {f : JobRow → JobRow} {hf} : Advances (settle k f hf) :=
  statement.bind fun n => by
    split
    · exact fail _
    · exact pure _

theorem Advances.writeAttempt : Advances (writeAttempt k record now) :=
  statement.bind fun _ => draw.bind fun _ => statement

theorem Advances.failOne : Advances (failOne k now error) :=
  settle.bind fun _ => writeAttempt

theorem Advances.pauseChannelForAuth : Advances (pauseChannelForAuth k reason now) := statement

theorem Advances.bumpChannelRateLimit : Advances (bumpChannelRateLimit k retryAt) :=
  draw.bind fun _ => statement

theorem Advances.applyRetry : Advances (applyRetry k now error) :=
  statement.bind fun row => by
    cases row with
    | none => exact fail _
    | some j =>
      refine draw.bind fun d => ?_
      dsimp only
      split
      · exact settle.bind fun _ => writeAttempt.bind fun _ =>
          bumpChannelRateLimit.bind fun _ => pure _
      · exact failOne.bind fun _ => pauseChannelForAuth.bind fun _ => pure _
      · refine failOne.bind fun _ => ?_
        split
        · exact pauseChannelForAuth.bind fun _ => pure _
        · exact pure _
      · exact settle.bind fun _ => writeAttempt.bind fun _ => pure _

/-- Settling a job and writing its attempt changes no channel. -/
theorem settled_channels {f : JobRow → JobRow} {hf} {record : AttemptRecord}
    (h₁ : settle k f hf c = (.ok u, c₁)) (h₂ : writeAttempt k record t c₁ = (.ok v, c')) :
    c'.db.channels = c.db.channels ∧ ∃ j', c'.db.deliveryJobs.find? k = some j' ∧
      ∃ j, c.db.deliveryJobs.find? k = some j ∧ j' = f j := by
  obtain ⟨j, -, ⟨hb, ha⟩, hc₁⟩ := ensures_settle h₁
  obtain ⟨-, hc'⟩ := ensures_writeAttempt h₂
  refine ⟨by rw [hc', hc₁], f j, ?_, j, hb, rfl⟩
  rw [hc']
  exact (ha k).trans (if_pos rfl)

theorem applyRetry_charges (h : applyRetry k now error c = (.ok r, c')) : ∃ j f,
    c.db.deliveryJobs.find? k = some j ∧ j.state = .sending ∧ j.Charges c.Reads now error f ∧
      c.db.ChannelBecomes j.channelId f c'.db := by
  obtain ⟨j, n, c₁, hj, hs, hdb, hprec, hrun⟩ := applyRetry_cases h
  have hj₁ : c₁.db.deliveryJobs.find? k = some j := hdb ▸ hj
  rw [← hdb]
  generalize hd : j.decision (c.world n).jitter now error = d at hrun
  cases hrun with
  | retryAt h₁ h₂ h₃ =>
    obtain ⟨hch, j', hj', j₀, hj₀, rfl⟩ := settled_channels h₁ h₂
    obtain rfl : j = j₀ := by simpa [hj₁] using hj₀
    -- the clock is read once more for the cool-down
    obtain ⟨d', c₄, h₄, h₅⟩ := Txn.bind_ok_iff.mp h₃
    have hc₄ : c₄.db = _ := ensures_draw h₄
    have hreads : c.Reads d'.utcNow := by
      have hp := hprec.trans ((Advances.settle.ok h₁).trans (Advances.writeAttempt.ok h₂))
      cases h₄
      exact hp.reads ⟨0, rfl⟩
    have hrow := Database.updateChannelOf_row (hc₄ ▸ hj') (ensures_execute h₅)
    refine ⟨j, _, hj₁, hs, .cool hd hreads, fun id => ?_⟩
    rw [hrow id, hc₄, hch]
    rfl
  | fail hkind h₁ =>
    obtain ⟨v, c₂, h₂, h₃⟩ := Txn.bind_ok_iff.mp h₁
    exact ⟨j, _, hj₁, hs, .fail hd hkind, .of_eq (settled_channels h₂ h₃).1 _⟩
  | strike hkind h₁ h₂ =>
    obtain ⟨v, c₃, h₃, h₄⟩ := Txn.bind_ok_iff.mp h₁
    obtain ⟨hch, j', hj', j₀, hj₀, rfl⟩ := settled_channels h₃ h₄
    obtain rfl : j = j₀ := by simpa [hj₁] using hj₀
    have hrow := Database.updateChannelOf_row hj' (ensures_execute h₂)
    refine ⟨j, _, hj₁, hs, .strike hd hkind, fun id => ?_⟩
    rw [hrow id, hch]
    rfl
  | expire h₁ h₂ => exact ⟨j, _, hj₁, hs, .expire hd, .of_eq (settled_channels h₁ h₂).1 _⟩

theorem applyRetry_retries (h : applyRetry k now error c = (.ok r, c')) :
    c.Retries now error k c' :=
  ⟨applyRetry_charges h, ensures_applyRetry h, Advances.applyRetry.ok h⟩

/-! ## The jobs of an aggregate -/

/-- A failed send was recorded for each job of a list in turn. -/
inductive Conn.RetriesEach (now : DateTime) (error : DeliveryError) : Conn → List Uuid → Conn → Prop
  | nil : RetriesEach now error c [] c
  | cons {c c₁ c₂ : Conn} {k : Uuid} {ks : List Uuid} :
    c.Retries now error k c₁ → RetriesEach now error c₁ ks c₂ → RetriesEach now error c (k :: ks) c₂

theorem retryEach_retries : ∀ {ks last c r c'}, retryEach now error ks last c = (.ok r, c') →
    c.RetriesEach now error ks c'
  | [], _, _, _, _, h => by
    obtain ⟨-, rfl⟩ := by simpa [retryEach] using h
    exact .nil
  | _ :: _, _, _, _, _, h => by
    obtain ⟨last, c₁, h₁, h₂⟩ := Txn.bind_ok_iff.mp h
    exact .cons (applyRetry_retries h₁) (retryEach_retries h₂)

theorem Conn.Retries.find?_of_ne {c c' : Conn} (h : c.Retries now error k c') (hne : k' ≠ k) :
    c'.db.deliveryJobs.find? k' = c.db.deliveryJobs.find? k' := by
  obtain ⟨j, j', -, -, hjobs⟩ := h.records.job
  rw [hjobs.after k', if_neg hne]

namespace Conn.RetriesEach

variable {c c' : Conn} {ks : List Uuid}

theorem recordsEach (h : c.RetriesEach now error ks c') :
    c.db.RecordsEach now (.retry error) ks c'.db := by
  induction h with
  | nil => exact .nil
  | cons h _ ih => exact .cons h.records ih

/-- The jobs are on the channel `channelId`, as those of a claim are. -/
def OnChannel (c : Conn) (ks : List Uuid) (channelId : ChannelId) : Prop :=
  ∀ k ∈ ks, ∀ j, c.db.deliveryJobs.find? k = some j → j.channelId = channelId

theorem OnChannel.tail {c₁ : Conn} (h : OnChannel c (k :: ks) channelId) (hnodup : k ∉ ks)
    (hk : c.Retries now error k c₁) : OnChannel c₁ ks channelId := fun k' hk' j hj =>
  h k' (List.mem_cons_of_mem _ hk') j
    (hk.find?_of_ne (fun heq => hnodup (heq ▸ hk')) ▸ hj)

/-- **The rule for the row of the channel**: what each charge does, a whole aggregate does. -/
theorem row {R : ChannelRow → ChannelRow → Prop} (h : c.RetriesEach now error ks c')
    (hrefl : ∀ r, R r r) (htrans : ∀ r₁ r₂ r₃, R r₁ r₂ → R r₂ r₃ → R r₁ r₃)
    (hon : OnChannel c ks channelId)
    (hcharge : ∀ k ∈ ks, ∀ j f, c.db.deliveryJobs.find? k = some j →
      j.Charges c.Reads now error f → ∀ r, R r (f r))
    (hrow : c.db.channels.find? channelId = some r) :
    ∃ r', c'.db.channels.find? channelId = some r' ∧ R r r' := by
  induction h generalizing r with
  | nil => exact ⟨r, hrow, hrefl r⟩
  | @cons c c₁ c₂ k ks hk hrest ih =>
    have hnodup : k ∉ ks := (List.nodup_cons.mp (cons hk hrest).recordsEach.jobs.1).1
    obtain ⟨j, f, hj, -, hf, hbecomes⟩ := hk.charges
    obtain rfl : j.channelId = channelId := hon k List.mem_cons_self j hj
    have hrow₁ : c₁.db.channels.find? j.channelId = some (f r) := by
      rw [hbecomes, if_pos rfl, hrow, Option.map_some]
    have hcharge₁ : ∀ k ∈ ks, ∀ j f, c₁.db.deliveryJobs.find? k = some j →
        j.Charges c₁.Reads now error f → ∀ r, R r (f r) := by
      intro k' hk' j' f' hj' hf'
      rw [hk.find?_of_ne fun heq => hnodup (heq ▸ hk')] at hj'
      exact hcharge k' (List.mem_cons_of_mem _ hk') j' f' hj' (hf'.mono fun u => hk.precedes.reads)
    obtain ⟨r', hr', hR⟩ := ih (hon.tail hnodup hk) hcharge₁ hrow₁
    exact ⟨r', hr', htrans _ _ _ (hcharge k List.mem_cons_self j f hj hf r) hR⟩

/-- The other channels keep their rows. -/
theorem other {id : ChannelId} (h : c.RetriesEach now error ks c') (hon : OnChannel c ks channelId)
    (hid : id ≠ channelId) : c'.db.channels.find? id = c.db.channels.find? id := by
  induction h with
  | nil => rfl
  | @cons c c₁ c₂ k ks hk hrest ih =>
    have hnodup : k ∉ ks := (List.nodup_cons.mp (cons hk hrest).recordsEach.jobs.1).1
    obtain ⟨j, f, hj, -, -, hbecomes⟩ := hk.charges
    obtain rfl : j.channelId = channelId := hon k List.mem_cons_self j hj
    rw [ih (hon.tail hnodup hk), hbecomes, if_neg hid]

end Conn.RetriesEach

/-! ## Strikes -/

/-- `m` strikes were counted against the channel. -/
structure ChannelRow.Struck (m : Nat) (r r' : ChannelRow) : Prop where
  count : r'.consecutiveAuthFailures = r.consecutiveAuthFailures + m
  paused : r'.pausedReasonCode =
    if 0 < m ∧ AUTH_PAUSE_THRESHOLD ≤ r'.consecutiveAuthFailures then some PAUSE_AUTH_REASON
    else r.pausedReasonCode
  nextAllowedAt : r'.nextAllowedAt = r.nextAllowedAt

namespace ChannelRow.Struck

theorem refl (r : ChannelRow) : Struck 0 r r := ⟨by simp, by simp, rfl⟩

theorem bump (r : ChannelRow) (now : DateTime) :
    Struck 1 r (r.bumpAuthFailure PAUSE_AUTH_REASON now) := by
  unfold ChannelRow.bumpAuthFailure
  split
  · rename_i hle
    exact ⟨rfl, (if_pos ⟨Nat.one_pos, hle⟩).symm, rfl⟩
  · rename_i hlt
    exact ⟨rfl, (if_neg fun h => hlt h.2).symm, rfl⟩

/-- Strikes only add up, so what paused the channel still does. -/
theorem trans {r r₁ r₂ : ChannelRow} (h : Struck m r r₁) (h' : Struck n r₁ r₂) :
    Struck (m + n) r r₂ := by
  have hcount := h'.count
  refine ⟨?_, ?_, h'.nextAllowedAt.trans h.nextAllowedAt⟩
  · rw [hcount, h.count]
    push_cast
    omega
  · rw [h'.paused, h.paused]
    by_cases hm : 0 < m ∧ AUTH_PAUSE_THRESHOLD ≤ r₁.consecutiveAuthFailures
    · have hmn : 0 < m + n ∧ AUTH_PAUSE_THRESHOLD ≤ r₂.consecutiveAuthFailures :=
        ⟨by omega, by omega⟩
      rw [if_pos hm, if_pos hmn, ite_self]
    · rw [if_neg hm]
      by_cases hn : 0 < n ∧ AUTH_PAUSE_THRESHOLD ≤ r₂.consecutiveAuthFailures
      · rw [if_pos hn, if_pos ⟨by omega, hn.2⟩]
      · rw [if_neg hn, if_neg]
        rintro ⟨hpos, hle⟩
        have hn0 : n = 0 := by
          by_contra hne
          exact hn ⟨Nat.pos_of_ne_zero hne, hle⟩
        subst hn0
        exact hm ⟨hpos, by simpa [hcount] using hle⟩

end ChannelRow.Struck

/-- The job is not over its time to live at `now`. -/
def Database.isAlive (db : Database) (now : DateTime) (k : Uuid) : Bool :=
  (db.deliveryJobs.find? k).any (now < ·.expiresAt)

/-- An authentication failure is final for a job that is alive. -/
theorem JobRow.decision_of_authentication {j : JobRow} (hkind : error.kind = .authentication) :
    j.decision jitter now error = if j.expiresAt ≤ now then .expire else .fail := by
  unfold JobRow.decision RetryPolicy.classify RetryPolicy.isRetryable
  simp [hkind]

theorem JobRow.Charges.struck {j : JobRow} (h : j.Charges times now error f)
    (hkind : error.kind = .authentication) (r : ChannelRow) :
    r.Struck (if now < j.expiresAt then 1 else 0) (f r) := by
  cases h with
  | cool hd =>
    rw [decision_of_authentication hkind] at hd
    split at hd <;> cases hd
  | strike hd =>
    rw [decision_of_authentication hkind] at hd
    split at hd
    · cases hd
    · rename_i hlt
      rw [if_pos (Int.not_le.mp hlt)]
      exact .bump r now
  | fail _ hauth => exact absurd hkind hauth
  | expire hd =>
    rw [decision_of_authentication hkind] at hd
    split at hd
    · rename_i hle
      rw [if_neg (Int.not_lt.mpr hle)]
      exact .refl r
    · cases hd

/-- An authentication failure is a strike for each job that is alive. -/
theorem Conn.RetriesEach.struck {c c' : Conn} {ks : List Uuid} (h : c.RetriesEach now error ks c')
    (hkind : error.kind = .authentication) (hon : OnChannel c ks channelId)
    (hrow : c.db.channels.find? channelId = some r) :
    ∃ r', c'.db.channels.find? channelId = some r' ∧ r.Struck (ks.countP (c.db.isAlive now)) r' := by
  induction h generalizing r with
  | nil => exact ⟨r, hrow, .refl r⟩
  | @cons c c₁ c₂ k ks hk hrest ih =>
    have hnodup : k ∉ ks := (List.nodup_cons.mp (cons hk hrest).recordsEach.jobs.1).1
    obtain ⟨j, f, hj, -, hf, hbecomes⟩ := hk.charges
    obtain rfl : j.channelId = channelId := hon k List.mem_cons_self j hj
    have hrow₁ : c₁.db.channels.find? j.channelId = some (f r) := by
      rw [hbecomes, if_pos rfl, hrow, Option.map_some]
    have hsame : ks.countP (c₁.db.isAlive now) = ks.countP (c.db.isAlive now) := by
      refine List.countP_congr fun k' hk' => ?_
      rw [Database.isAlive, Database.isAlive, hk.find?_of_ne fun heq => hnodup (heq ▸ hk')]
    have halive : c.db.isAlive now k = decide (now < j.expiresAt) := by
      simp [Database.isAlive, hj]
    obtain ⟨r', hr', hstruck⟩ := ih (hon.tail hnodup hk) hrow₁
    have hall := (hf.struck hkind r).trans hstruck
    refine ⟨r', hr', ?_⟩
    rw [List.countP_cons, halive, ← hsame, Nat.add_comm]
    simpa only [decide_eq_true_eq] using hall

/-! ## Successes -/

theorem completeOne_channels (h : completeOne k receipt now c = (.ok u, c')) :
    c'.db.channels = c.db.channels := by
  obtain ⟨u, c₁, h₁, h₂⟩ := Txn.bind_ok_iff.mp h
  exact (settled_channels h₁ h₂).1

theorem each_completeOne_channels : ∀ {ks c u c'},
    Txn.each (fun k => completeOne k receipt now) ks c = (.ok u, c') →
      c'.db.channels = c.db.channels
  | [], _, _, _, h => by
    obtain ⟨-, rfl⟩ := by simpa [Txn.each] using h
    rfl
  | _ :: _, _, _, _, h => by
    obtain ⟨⟨⟩, c₁, h₁, h₂⟩ := Txn.bind_ok_iff.mp h
    exact (each_completeOne_channels h₂).trans (completeOne_channels h₁)

end CcReminder
