import CcReminder.Storage.Config
import CcReminder.Storage.Queue.Channels

/-!
# The delivery worker

`worker.rs`. A pass sweeps the queue and claims a batch; the deliveries of the batch are sent at the
same time, but one after the other on each channel, and each outcome is recorded when it is there.
What a send returns comes from outside.
-/

set_option autoImplicit true

namespace CcReminder

open Lib

/-- The result of a send. -/
abbrev SendResult := Except DeliveryError DeliveryReceipt

/-- The channel of the first job; a claim has at least one. -/
def claimChannel : ClaimedDelivery → ChannelId
  | .single job => job.channelId
  | .aggregate _ jobs => (jobs.head?.map (·.channelId)).getD 0

/-- The three kinds that count as strikes against a channel. -/
def isCredentialFailure (error : DeliveryError) : Bool :=
  error.kind = .authentication ∨ error.kind = .signature ∨ error.kind = .permission

def channelNotFound : AppError :=
  storageError "storage.not_found" "channel referenced by delivery job was not found"

namespace Worker

/-- Sweep first, so that no slot is wasted on expired jobs, then claim. -/
def claimBatch (now : DateTime) (leaseDuration : Duration) (maxBatch : Nat) :
    Tx (List ClaimedDelivery) := do
  let _ ← expireDue now
  claimDue "cc-reminder-worker" now leaseDuration maxBatch

/-- What is read before a send. -/
def channelFor (claim : ClaimedDelivery) : Tx ChannelRecord :=
  (getChannel (claimChannel claim)).mapError fun _ => channelNotFound

def completeClaim (claim : ClaimedDelivery) (now : DateTime) (receipt : DeliveryReceipt) : Tx Unit :=
  match claim.constituentIds with
  | [id] => complete id now receipt
  | _ => completeAggregate claim now receipt

def retryClaim (claim : ClaimedDelivery) (now : DateTime) (error : DeliveryError) : Tx RetryOutcome :=
  match claim.constituentIds with
  | [id] => retry id now error
  | _ => retryAggregate claim now error

/-- The error of the retry is dropped. A strike for an authentication failure is counted inside the
retry, one for a signature or permission failure here. -/
def recordFailure (claim : ClaimedDelivery) (now : DateTime) (error : DeliveryError) : Tx Unit := do
  let _ ← (retryClaim claim now error).result
  if isCredentialFailure error ∧ error.kind ≠ .authentication then
    bumpAuthFailure (claimChannel claim) now

/-- The part of `process_claim` after the send. -/
def recordOutcome (claim : ClaimedDelivery) (now : DateTime) : SendResult → Tx Unit
  | .ok receipt => do
    completeClaim claim now receipt
    resetAuthFailures (claimChannel claim) now
  | .error error => recordFailure claim now error

end Worker

/-! ## What they do -/

namespace Worker

theorem completeClaim_eq (claim : ClaimedDelivery) (now : DateTime) (receipt : DeliveryReceipt) :
    (∃ id, claim.constituentIds = [id] ∧
      completeClaim claim now receipt = complete id now receipt) ∨
    completeClaim claim now receipt = completeAggregate claim now receipt := by
  unfold completeClaim
  split
  · rename_i id hid
    exact .inl ⟨id, hid, rfl⟩
  · exact .inr rfl

theorem retryClaim_eq (claim : ClaimedDelivery) (now : DateTime) (error : DeliveryError) :
    (∃ id, claim.constituentIds = [id] ∧ retryClaim claim now error = retry id now error) ∨
    retryClaim claim now error = retryAggregate claim now error := by
  unfold retryClaim
  split
  · rename_i id hid
    exact .inl ⟨id, hid, rfl⟩
  · exact .inr rfl

/-- A success leaves the channels as they were. -/
theorem completeClaim_channels (h : completeClaim claim now receipt c = (.ok u, c')) :
    c'.db.channels = c.db.channels := by
  rcases completeClaim_eq claim now receipt with ⟨id, -, heq⟩ | heq
  · rw [heq, complete] at h
    obtain ⟨c₁, h₁, rfl⟩ := immediate_ok h
    have hch := completeOne_channels h₁
    exact hch
  · rw [heq, completeAggregate] at h
    obtain ⟨c₁, h₁, rfl⟩ := immediate_ok h
    have hch := each_completeOne_channels h₁
    exact hch

/-- A failure is recorded for each job of the claim in turn, after the draws of a transaction. -/
theorem retryClaim_retries (h : retryClaim claim now error c = (.ok r, c')) : ∃ c₀ c₁ : Conn,
    c₀.db = c.db ∧ c.Precedes c₀ ∧ c₀.RetriesEach now error claim.constituentIds c₁ ∧
      c'.db = c₁.db := by
  rcases retryClaim_eq claim now error with ⟨id, hid, heq⟩ | heq
  · rw [heq, retry] at h
    obtain ⟨c₁, h₁, rfl⟩ := immediate_ok h
    exact ⟨{ c with world := fun n => c.world (n + 2) }, c₁, rfl, ⟨2, rfl⟩, hid ▸ .cons (applyRetry_retries h₁) .nil, rfl⟩
  · rw [heq, retryAggregate] at h
    obtain ⟨c₁, h₁, rfl⟩ := immediate_ok h
    exact ⟨{ c with world := fun n => c.world (n + 2) }, c₁, rfl, ⟨2, rfl⟩, retryEach_retries h₁, rfl⟩

theorem retryClaim_error (h : retryClaim claim now error c = (.error e, c')) : c'.db = c.db := by
  rcases retryClaim_eq claim now error with ⟨id, -, heq⟩ | heq
  · exact immediate_error (heq ▸ h)
  · exact immediate_error (heq ▸ h)

theorem completeClaim_error (h : completeClaim claim now receipt c = (.error e, c')) :
    c'.db = c.db := by
  rcases completeClaim_eq claim now receipt with ⟨id, -, heq⟩ | heq
  · exact immediate_error (heq ▸ h)
  · exact immediate_error (heq ▸ h)

/-- A pass leaves the channels as they were. -/
theorem claimBatch_channels (now : DateTime) (lease : Duration) (n : Nat) (c : Conn) :
    (claimBatch now lease n c).2.db.channels = c.db.channels := by
  rw [claimBatch, Txn.bind_run]
  rcases hsweep : expireDue now c with ⟨e | u, c₁⟩
  · exact congrArg Database.channels (immediate_error hsweep)
  · have hch : c₁.db.channels = c.db.channels := by rw [(ensures_expireDue hsweep).2]
    dsimp only
    rcases hclaim : claimDue "cc-reminder-worker" now lease n c₁ with ⟨e | claims, c'⟩
    · have hdb : c'.db = c₁.db := by
        unfold claimDue at hclaim
        split at hclaim
        · simp at hclaim
        · exact immediate_error hclaim
      rw [← hch, ← hdb]
    · rw [← hch, (ensures_claimDue hclaim).rest]

/-- As long as the jobs of a bucket are on one channel, the channel of a claim is available. -/
theorem claimBatch_available (h : claimBatch now lease n c = (.ok claims, c'))
    (hone : c.db.OneChannel) : ∀ claim ∈ claims, ∃ row,
      c.db.channels.find? (claimChannel claim) = some row ∧ row.available now := by
  obtain ⟨u, c₁, hsweep, hclaim⟩ := Txn.bind_ok_iff.mp h
  obtain ⟨hjobs, hrest⟩ := ensures_expireDue hsweep
  have hch : c₁.db.channels = c.db.channels := by rw [hrest]
  have hback : ∀ j ∈ c₁.db.deliveryJobs.rows, ∃ i ∈ c.db.deliveryJobs.rows,
      j.channelId = i.channelId ∧ j.aggregateKey = i.aggregateKey := by
    intro j hj
    have hfind := Table.mem_rows_iff.mp hj
    rw [hjobs] at hfind
    obtain ⟨i, hi, rfl⟩ := Option.map_eq_some_iff.mp hfind
    refine ⟨i, (Table.find?_eq_some_iff.mp hi).1, ?_, ?_⟩ <;> split <;> rfl
  have hone₁ : c₁.db.OneChannel := by
    intro i hi j hj hkey hsame
    obtain ⟨i₀, hi₀, hich, hikey⟩ := hback i hi
    obtain ⟨j₀, hj₀, hjch, hjkey⟩ := hback j hj
    rw [hich, hjch]
    exact hone i₀ hi₀ j₀ hj₀ (hikey ▸ hkey) (hjkey ▸ hikey ▸ hsame)
  have hgrants := ensures_claimDue hclaim
  intro claim hmem
  -- the channel of a claim is that of its first job
  obtain ⟨job, hjob, hchannel⟩ : ∃ job ∈ claim.jobs, claimChannel claim = job.channelId := by
    have hne := claimDue_jobs_ne_nil hclaim claim hmem
    cases claim with
    | single job => exact ⟨job, List.mem_singleton_self job, rfl⟩
    | aggregate key jobs =>
      cases jobs with
      | nil => exact absurd rfl hne
      | cons job jobs => exact ⟨job, List.mem_cons_self, rfl⟩
  obtain ⟨j, hj, hcand, rfl, -⟩ := hgrants.granted job (List.mem_flatMap.mpr ⟨claim, hmem, hjob⟩)
  obtain ⟨row, hrow, havail⟩ := (Option.any_eq_true _ _).mp
    (hone₁.available (Table.find?_eq_some_iff.mp hj).1 hcand)
  rw [hch] at hrow
  exact ⟨row, hchannel ▸ hrow, havail⟩

/-! ## The channel of a failed send -/

/-- The strikes that a failed send counts: one for each job that is alive if it is an authentication
failure, and one if it is another credential failure. -/
def strikes (db : Database) (claim : ClaimedDelivery) (now : DateTime) (error : DeliveryError) : Nat :=
  if error.kind = .authentication then claim.constituentIds.countP (db.isAlive now)
  else if isCredentialFailure error then 1 else 0

section

variable {c : Conn} {claim : ClaimedDelivery} {now : DateTime} {error : DeliveryError}

theorem recordFailure_run : recordFailure claim now error c =
    (if isCredentialFailure error ∧ error.kind ≠ .authentication then
      bumpAuthFailure (claimChannel claim) now
    else pure ()) (retryClaim claim now error c).2 := rfl

/-- **The rule for the channel of a failed send**: what each charge and a strike do, all of it
does. -/
theorem recordFailure_row {R : ChannelRow → ChannelRow → Prop} (hrefl : ∀ r, R r r)
    (htrans : ∀ r₁ r₂ r₃, R r₁ r₂ → R r₂ r₃ → R r₁ r₃)
    (hon : Conn.RetriesEach.OnChannel c claim.constituentIds (claimChannel claim))
    (hcharge : ∀ k ∈ claim.constituentIds, ∀ j f, c.db.deliveryJobs.find? k = some j →
      j.Charges c.Reads now error f → ∀ r, R r (f r))
    (hbump : ∀ r, R r (r.bumpAuthFailure PAUSE_AUTH_REASON now))
    (hrow : c.db.channels.find? (claimChannel claim) = some row) :
    ∃ row', (recordFailure claim now error c).2.db.channels.find? (claimChannel claim) = some row' ∧
      R row row' := by
  obtain ⟨row₁, hrow₁, hR₁⟩ : ∃ row₁, (retryClaim claim now error c).2.db.channels.find?
      (claimChannel claim) = some row₁ ∧ R row row₁ := by
    rcases hrun : retryClaim claim now error c with ⟨e | r, c'⟩
    · exact ⟨row, by rw [retryClaim_error hrun]; exact hrow, hrefl row⟩
    · obtain ⟨c₀, c₁, hdb, hp, hretries, hc'⟩ := retryClaim_retries hrun
      rw [show (Except.ok r, c').2.db = c₁.db from hc']
      exact hretries.row hrefl htrans (fun k hk j hj => hon k hk j (hdb ▸ hj))
        (fun k hk j f hj hf => hcharge k hk j f (hdb ▸ hj) (hf.mono fun u => hp.reads)) (hdb ▸ hrow)
  rw [recordFailure_run]
  split
  · rcases hrun : bumpAuthFailure (claimChannel claim) now (retryClaim claim now error c).2 with
      ⟨e | u, c'⟩
    · exact ⟨row₁, by rw [connect_statement_error hrun]; exact hrow₁, hR₁⟩
    · refine ⟨_, ?_, htrans _ _ _ hR₁ (hbump row₁)⟩
      rw [(ensures_updateChannel_row hrun).1, if_pos rfl, hrow₁, Option.map_some]
  · exact ⟨row₁, hrow₁, hR₁⟩

/-- A failure for which no job is retried is just strikes. -/
theorem recordFailure_struck
    (hon : Conn.RetriesEach.OnChannel c claim.constituentIds (claimChannel claim))
    (hfinal : ∀ k ∈ claim.constituentIds, ∀ j, c.db.deliveryJobs.find? k = some j →
      ∀ jitter t, j.decision jitter now error ≠ .retryAt t)
    (hrow : c.db.channels.find? (claimChannel claim) = some row) :
    ∃ m ≤ strikes c.db claim now error, ∃ row',
      (recordFailure claim now error c).2.db.channels.find? (claimChannel claim) = some row' ∧
        row.Struck m row' := by
  by_cases hauth : error.kind = .authentication
  · rw [recordFailure_run, if_neg fun h => h.2 hauth, strikes, if_pos hauth]
    rcases hrun : retryClaim claim now error c with ⟨e | r, c'⟩
    · exact ⟨0, Nat.zero_le _, row, by rw [Txn.pure_run, retryClaim_error hrun]; exact hrow, .refl row⟩
    · obtain ⟨c₀, c₁, hdb, -, hretries, hc'⟩ := retryClaim_retries hrun
      obtain ⟨row', hrow', hstruck⟩ := hretries.struck hauth
        (fun k hk j hj => hon k hk j (hdb ▸ hj)) (hdb ▸ hrow)
      exact ⟨_, by rw [hdb], row', by rw [Txn.pure_run, hc']; exact hrow', hstruck⟩
  · -- the retry leaves the row alone
    have hretry : (retryClaim claim now error c).2.db.channels.find? (claimChannel claim) = some row := by
      rcases hrun : retryClaim claim now error c with ⟨e | r, c'⟩
      · rw [retryClaim_error hrun]
        exact hrow
      · obtain ⟨c₀, c₁, hdb, -, hretries, hc'⟩ := retryClaim_retries hrun
        have hcharge : ∀ k ∈ claim.constituentIds, ∀ j f, c₀.db.deliveryJobs.find? k = some j →
            j.Charges c₀.Reads now error f → ∀ r, r = f r := by
          intro k hk j f hj hf r
          cases hf with
          | cool hd => exact absurd hd (hfinal k hk j (hdb ▸ hj) _ _)
          | strike _ hkind => exact absurd hkind hauth
          | fail => rfl
          | expire => rfl
        obtain ⟨row', hrow', rfl⟩ := hretries.row (R := Eq) (fun _ => rfl) (fun _ _ _ => .trans)
          (fun k hk j hj => hon k hk j (hdb ▸ hj)) hcharge (hdb ▸ hrow)
        rw [hc']
        exact hrow'
    have hstrikes : strikes c.db claim now error = if isCredentialFailure error then 1 else 0 :=
      if_neg hauth
    by_cases hcred : isCredentialFailure error
    · rw [recordFailure_run, if_pos ⟨hcred, hauth⟩, hstrikes, if_pos hcred]
      rcases hrun : bumpAuthFailure (claimChannel claim) now (retryClaim claim now error c).2 with
        ⟨e | u, c'⟩
      · exact ⟨0, Nat.zero_le _, row, by rw [connect_statement_error hrun]; exact hretry, .refl row⟩
      · refine ⟨1, le_rfl, _, ?_, .bump row now⟩
        rw [(ensures_updateChannel_row hrun).1, if_pos rfl, hretry, Option.map_some]
    · rw [recordFailure_run, if_neg fun h => hcred h.1]
      exact ⟨0, Nat.zero_le _, row, hretry, .refl row⟩

/-- A success leaves the row of the channel, or ends its strikes. -/
theorem recordOutcome_ok_row (now : DateTime) (receipt : DeliveryReceipt)
    (hrow : c.db.channels.find? (claimChannel claim) = some row) :
    ∃ row', (recordOutcome claim now (.ok receipt) c).2.db.channels.find? (claimChannel claim) =
      some row' ∧ (row' = row ∨ row' = row.reset now) := by
  simp only [recordOutcome, Txn.bind_run]
  rcases hrun : completeClaim claim now receipt c with ⟨e | u, c₁⟩
  · exact ⟨row, by rw [completeClaim_error hrun]; exact hrow, .inl rfl⟩
  · have hrow₁ : c₁.db.channels.find? (claimChannel claim) = some row := by
      rw [completeClaim_channels hrun]
      exact hrow
    dsimp only
    rcases hreset : resetAuthFailures (claimChannel claim) now c₁ with ⟨e | v, c₂⟩
    · exact ⟨row, by rw [connect_statement_error hreset]; exact hrow₁, .inl rfl⟩
    · refine ⟨row.reset now, ?_, .inr rfl⟩
      rw [(ensures_updateChannel_row hreset).1, if_pos rfl, hrow₁]
      rfl

end

end Worker

end CcReminder
