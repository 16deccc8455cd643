import CcReminder.Worker
import CcReminder.Lib.Reach

/-!
# Three strikes

A channel is paused after three sends in a row that failed with an authentication, signature or
permission error. The worker counts a signature or permission failure once for each send, but an
authentication failure is counted inside the retry, once for each job whose time to live is not
over. So the counter is right just as long as each such send has exactly one of these jobs.
-/

set_option autoImplicit true

namespace CcReminder

open Lib

/-- The tables with the number of credential failures since the last success on the channel. -/
structure Strikes where
  conn : Conn
  strikes : Nat

def SendResult.strikes : SendResult → Nat → Nat
  | .ok _, _ => 0
  | .error error, n => if isCredentialFailure error then n + 1 else n

namespace Strikes

inductive Act where
  | send (claim : ClaimedDelivery) (now : DateTime) (result : SendResult)
  | other

/-- A send on the channel comes back, with any result, and its outcome is recorded if that is
possible; or something else happens that leaves the row of the channel alone. -/
inductive Step (channelId : ChannelId) : Strikes → Act → Strikes → Prop
  | send {s : Strikes} {claim : ClaimedDelivery} {now : DateTime} {result : SendResult}
    (hclaim : claimChannel claim = channelId)
    (hon : Conn.RetriesEach.OnChannel s.conn claim.constituentIds channelId) :
    Step channelId s (.send claim now result)
      ⟨(Worker.recordOutcome claim now result s.conn).2, result.strikes s.strikes⟩
  | other {s : Strikes} {c' : Conn}
    (hrow : c'.db.channels.find? channelId = s.conn.db.channels.find? channelId) :
    Step channelId s .other { s with conn := c' }

/-- A channel as it is saved. -/
def Initial (channelId : ChannelId) (s : Strikes) : Prop :=
  s.strikes = 0 ∧ ∃ row, s.conn.db.channels.find? channelId = some row ∧
    row.consecutiveAuthFailures = 0 ∧ row.pausedReasonCode = none

/-- A success, and a signature or permission failure, is recorded without a failure of the database
or a lost lease, and there are fewer than 256 credential failures in a row. An authentication
failure is recorded too, for a claim of which exactly one job is alive. -/
def OneStrike (s : Strikes) : Act → Prop
  | .send claim now (.ok receipt) =>
    s.strikes = 0 ∨ (Worker.recordOutcome claim now (.ok receipt) s.conn).1 = .ok ()
  | .send claim now (.error error) =>
    isCredentialFailure error → s.strikes < 255 ∧
      if error.kind = .authentication then
        (∃ outcome, (Worker.retryClaim claim now error s.conn).1 = .ok outcome) ∧
          claim.constituentIds.countP (s.conn.db.isAlive now) = 1
      else (Worker.recordOutcome claim now (.error error) s.conn).1 = .ok ()
  | .other => True

/-! ## The invariant -/

/-- The row counts the strikes, and is paused from the third on. -/
structure Counts (strikes : Nat) (row : ChannelRow) : Prop where
  count : row.consecutiveAuthFailures = strikes
  paused : row.pausedReasonCode = if 3 ≤ strikes then some PAUSE_AUTH_REASON else none

theorem Counts.struck {r r' : ChannelRow} (h : Counts n r) (hr : r.Struck m r') :
    Counts (n + m) r' := by
  have hcount : r'.consecutiveAuthFailures = (n + m : Nat) := by
    rw [hr.count, h.count]
    push_cast
    rfl
  refine ⟨hcount, ?_⟩
  have hthree : AUTH_PAUSE_THRESHOLD ≤ r'.consecutiveAuthFailures ↔ 3 ≤ n + m := by
    rw [hcount, AUTH_PAUSE_THRESHOLD]
    omega
  rw [hr.paused, h.paused]
  by_cases hm : 0 < m ∧ AUTH_PAUSE_THRESHOLD ≤ r'.consecutiveAuthFailures
  · rw [if_pos hm, if_pos (hthree.mp hm.2)]
  · rw [if_neg hm]
    have hiff : 3 ≤ n ↔ 3 ≤ n + m := by
      refine ⟨fun hn => by omega, fun hn => ?_⟩
      obtain rfl : m = 0 := by
        by_contra hne
        exact hm ⟨Nat.pos_of_ne_zero hne, hthree.mpr hn⟩
      exact hn
    simp only [hiff]

theorem Counts.reset (row : ChannelRow) (now : DateTime) : Counts 0 (row.reset now) := ⟨rfl, rfl⟩

/-- The columns that the strikes are kept in. -/
def SameStrikes (r r' : ChannelRow) : Prop :=
  r'.consecutiveAuthFailures = r.consecutiveAuthFailures ∧ r'.pausedReasonCode = r.pausedReasonCode

theorem SameStrikes.counts (h : SameStrikes r r') (hr : Counts n r) : Counts n r' :=
  ⟨h.1.trans hr.count, h.2.trans hr.paused⟩

/-! ## Retries -/

section

variable {c c' : Conn} {ks : List Uuid}

/-- Only an authentication failure touches the strikes. -/
theorem sameStrikes_of_charges {j : JobRow} (h : j.Charges times now error f)
    (hkind : error.kind ≠ .authentication) (r : ChannelRow) : SameStrikes r (f r) := by
  cases h with
  | cool => exact ⟨rfl, rfl⟩
  | strike _ hauth => exact absurd hauth hkind
  | fail => exact ⟨rfl, rfl⟩
  | expire => exact ⟨rfl, rfl⟩

end

/-! ## One step -/

section

variable {s : Strikes}

/-- The invariant of a run. -/
def Inv (channelId : ChannelId) (s : Strikes) : Prop :=
  ∃ row, s.conn.db.channels.find? channelId = some row ∧ Counts s.strikes row ∧ s.strikes ≤ 255

/-- Without an authentication failure the retry leaves the strikes alone, recorded or not. -/
theorem retryClaim_sameStrikes (now : DateTime) (hkind : error.kind ≠ .authentication)
    (hon : Conn.RetriesEach.OnChannel c claim.constituentIds channelId)
    (hrow : c.db.channels.find? channelId = some row) :
    ∃ row', (Worker.retryClaim claim now error c).2.db.channels.find? channelId = some row' ∧
      SameStrikes row row' := by
  rcases hrun : Worker.retryClaim claim now error c with ⟨e | r, c'⟩
  · exact ⟨row, by rw [Worker.retryClaim_error hrun]; exact hrow, rfl, rfl⟩
  · obtain ⟨c₀, c₁, hdb, -, hretries, hc'⟩ := Worker.retryClaim_retries hrun
    dsimp only
    rw [hc']
    refine hretries.row (fun _ => ⟨rfl, rfl⟩)
      (fun _ _ _ h h' => ⟨h'.1.trans h.1, h'.2.trans h.2⟩) ?_ ?_ (hdb ▸ hrow)
    · exact fun k hk j hj => hon k hk j (hdb ▸ hj)
    · exact fun k _ j f _ hf r => sameStrikes_of_charges hf hkind r

theorem Inv.failed (h : Inv channelId s) (hclaim : claimChannel claim = channelId)
    (hon : Conn.RetriesEach.OnChannel s.conn claim.constituentIds channelId)
    (hok : OneStrike s (.send claim now (.error error))) :
    Inv channelId ⟨(Worker.recordOutcome claim now (.error error) s.conn).2,
      SendResult.strikes (.error error) s.strikes⟩ := by
  obtain ⟨row, hrow, hcounts, hle⟩ := h
  -- the connection after the retry, and the strike that may follow it
  have hrecord : ∀ c₁, (Worker.retryClaim claim now error s.conn).2 = c₁ →
      Worker.recordOutcome claim now (.error error) s.conn =
        (if isCredentialFailure error ∧ error.kind ≠ .authentication then
          bumpAuthFailure channelId now else pure ()) c₁ := by
    rintro c₁ rfl
    subst hclaim
    rfl
  by_cases hauth : error.kind = .authentication
  · have hcred : isCredentialFailure error = true := by simp [isCredentialFailure, hauth]
    obtain ⟨hlt, hrest⟩ := hok hcred
    rw [if_pos hauth] at hrest
    obtain ⟨⟨outcome, hrun⟩, hone⟩ := hrest
    obtain ⟨c', hrun⟩ : ∃ c', Worker.retryClaim claim now error s.conn = (.ok outcome, c') :=
      ⟨_, Prod.ext hrun rfl⟩
    obtain ⟨c₀, c₁, hdb, -, hretries, hc'⟩ := Worker.retryClaim_retries hrun
    obtain ⟨row', hrow', hstruck⟩ := hretries.struck hauth
      (fun k hk j hj => hon k hk j (hdb ▸ hj)) (hdb ▸ hrow)
    have hcounts' := hcounts.struck hstruck
    rw [hrecord c' (by rw [hrun]), if_neg (by simp [hauth])]
    refine ⟨row', hc' ▸ hrow', ?_, ?_⟩
    · simp only [SendResult.strikes, hcred, if_true]
      rwa [hdb, hone] at hcounts'
    · simp only [SendResult.strikes, hcred, if_true]
      omega
  · obtain ⟨row₁, hrow₁, hsame⟩ := retryClaim_sameStrikes now hauth hon hrow
    have hcounts₁ := hsame.counts hcounts
    by_cases hcred : isCredentialFailure error
    · obtain ⟨hlt, hrest⟩ := hok hcred
      rw [if_neg hauth] at hrest
      rw [hrecord _ rfl, if_pos ⟨hcred, hauth⟩] at hrest ⊢
      rcases hbump : bumpAuthFailure channelId now (Worker.retryClaim claim now error s.conn).2 with
        ⟨r, c'⟩
      rw [hbump] at hrest
      obtain rfl : r = .ok () := hrest
      have hbecomes := (ensures_updateChannel_row hbump).1
      refine ⟨row₁.bumpAuthFailure PAUSE_AUTH_REASON now, ?_, ?_, ?_⟩
      · rw [hbecomes, if_pos rfl, hrow₁, Option.map_some]
      · simp only [SendResult.strikes, hcred, if_true]
        exact hcounts₁.struck (.bump row₁ now)
      · simp only [SendResult.strikes, hcred, if_true]
        omega
    · rw [hrecord _ rfl, if_neg fun h => hcred h.1]
      refine ⟨row₁, hrow₁, ?_, ?_⟩
      · simpa only [SendResult.strikes, hcred, Bool.false_eq_true, if_false] using hcounts₁
      · simpa only [SendResult.strikes, hcred, Bool.false_eq_true, if_false] using hle

theorem Inv.delivered (h : Inv channelId s) (hclaim : claimChannel claim = channelId)
    (hok : OneStrike s (.send claim now (.ok receipt))) :
    Inv channelId ⟨(Worker.recordOutcome claim now (.ok receipt) s.conn).2, 0⟩ := by
  obtain ⟨row, hrow, hcounts, -⟩ := h
  subst hclaim
  rcases hrun : Worker.completeClaim claim now receipt s.conn with ⟨e | u, c₁⟩
  · -- nothing was recorded, and nothing had to be reset
    have hrecord : Worker.recordOutcome claim now (.ok receipt) s.conn = (.error e, c₁) := by
      simp only [Worker.recordOutcome, Txn.bind_run, hrun]
    rw [hrecord]
    have hzero : s.strikes = 0 := hok.resolve_right fun h => by
      rw [hrecord] at h
      cases h
    exact ⟨row, by rw [Worker.completeClaim_error hrun]; exact hrow, hzero ▸ hcounts, Nat.zero_le _⟩
  · have hrecord : Worker.recordOutcome claim now (.ok receipt) s.conn =
        resetAuthFailures (claimChannel claim) now c₁ := by
      simp only [Worker.recordOutcome, Txn.bind_run, hrun]
    have hrow₁ : c₁.db.channels.find? (claimChannel claim) = some row := by
      rw [Worker.completeClaim_channels hrun]
      exact hrow
    rcases hreset : resetAuthFailures (claimChannel claim) now c₁ with ⟨e | v, c₂⟩
    · rw [hrecord, hreset]
      have hzero : s.strikes = 0 := hok.resolve_right fun h => by
        rw [hrecord, hreset] at h
        cases h
      exact ⟨row, by rw [connect_statement_error hreset]; exact hrow₁, hzero ▸ hcounts, Nat.zero_le _⟩
    · rw [hrecord, hreset]
      refine ⟨row.reset now, ?_, .reset row now, Nat.zero_le _⟩
      rw [(ensures_updateChannel_row hreset).1, if_pos rfl, hrow₁]
      rfl

theorem Step.inv {s' : Strikes} (h : Step channelId s act s') (hok : OneStrike s act)
    (hinv : Inv channelId s) : Inv channelId s' := by
  cases h with
  | @send claim now result hclaim hon =>
    cases result with
    | ok receipt => exact hinv.delivered hclaim hok
    | error error => exact hinv.failed hclaim hon hok
  | other hrow =>
    obtain ⟨row, hrow', hcounts, hle⟩ := hinv
    exact ⟨row, hrow.trans hrow', hcounts, hle⟩

end

/-- **Three strikes.** In every run in which each authentication failure is recorded for a claim of
which exactly one job is alive, the other outcomes that bear on the counter are recorded, and there
are fewer than 256 credential failures in a row, the counter of the channel is the number of
credential failures since the last success, the channel is paused for authentication just when
there are three of them, and the row decodes. -/
theorem three_strikes (h : Reach (Initial channelId) (Step channelId) OneStrike s) :
    ∃ row, s.conn.db.channels.find? channelId = some row ∧
      row.consecutiveAuthFailures = s.strikes ∧
      (row.pausedReasonCode = some PAUSE_AUTH_REASON ↔ 3 ≤ s.strikes) ∧ row.toRecord?.isSome := by
  obtain ⟨row, hrow, hcounts, hle⟩ := h.invariant (P := Inv channelId)
    (fun s ⟨hzero, row, hrow, hcount, hpaused⟩ => by
      refine ⟨row, hrow, ⟨by simp [hzero, hcount], by simp [hzero, hpaused]⟩, by omega⟩)
    fun _ _ _ ih hstep hok => hstep.inv hok ih
  refine ⟨row, hrow, hcounts.count, ?_, ?_⟩
  · rw [hcounts.paused]
    split
    · rename_i hthree
      simp [hthree]
    · rename_i hthree
      simp [hthree]
  · have hbound : 0 ≤ row.consecutiveAuthFailures ∧ row.consecutiveAuthFailures < 256 := by
      rw [hcounts.count]
      omega
    simp [ChannelRow.toRecord?, hbound]

/-! ## One failed send -/

def unauthorized : DeliveryError :=
  { Sample.timeout with kind := .authentication, code := "delivery.unauthorized" }

/-- The jobs of the given identifiers are queued, in the bucket if there is one, and claimed. -/
def claimed (bucket : Option String) (ids : List Uuid) :
    Except AppError (List ClaimedDelivery) × Conn :=
  claimDue "worker" 0 (Duration.seconds 30) 8
    (runOps id (ids.map fun k => ⟨_, .enqueue (Sample.job k bucket)⟩) Sample.start)

/-- The claim that all of them are in, or the first of them. -/
def firstClaim (bucket : Option String) (ids : List Uuid) : Option ClaimedDelivery :=
  (claimed bucket ids).1.toOption.bind List.head?

def afterSend (bucket : Option String) (ids : List Uuid) (claim : ClaimedDelivery) : Conn :=
  (Worker.recordOutcome claim 0 (.error unauthorized) (claimed bucket ids).2).2

theorem initial_claimed {bucket : Option String} {ids : List Uuid}
    (h : ((claimed bucket ids).2.db.channels.find? 1).any fun row =>
      row.consecutiveAuthFailures = 0 ∧ row.pausedReasonCode = none) :
    Initial 1 ⟨(claimed bucket ids).2, 0⟩ := by
  obtain ⟨row, hrow, hzero⟩ := (Option.any_eq_true _ _).mp h
  exact ⟨rfl, row, hrow, of_decide_eq_true hzero⟩

theorem step_unauthorized {bucket : Option String} {ids : List Uuid} {claim : ClaimedDelivery}
    (hclaim : claimChannel claim = 1)
    (hon : claim.constituentIds.all fun k =>
      ((claimed bucket ids).2.db.deliveryJobs.find? k).all (·.channelId = 1)) :
    Step 1 ⟨(claimed bucket ids).2, 0⟩ (.send claim 0 (.error unauthorized))
      ⟨afterSend bucket ids claim, 1⟩ := by
  unfold afterSend
  generalize (claimed bucket ids).2 = c at *
  refine .send hclaim fun k hk j hj => ?_
  have hall := List.all_eq_true.mp hon k hk
  rw [hj] at hall
  simpa using hall

/-- A bucket of three jobs is sent once and refused once, and the channel is paused. -/
theorem three_strikes_at_once : ∃ c' row,
    Reach (Initial 1) (Step 1) (fun _ _ => True) ⟨c', 1⟩ ∧
      c'.db.channels.find? 1 = some row ∧ row.consecutiveAuthFailures = 3 ∧
      row.pausedReasonCode = some PAUSE_AUTH_REASON := by
  have hinit : Initial 1 ⟨(claimed (some "bucket") [1, 2, 3]).2, 0⟩ :=
    initial_claimed (by decide +kernel)
  have hclaim : (firstClaim (some "bucket") [1, 2, 3]).any fun claim => claimChannel claim = 1 ∧
      claim.constituentIds.all fun k =>
        ((claimed (some "bucket") [1, 2, 3]).2.db.deliveryJobs.find? k).all (·.channelId = 1) := by
    decide +kernel
  have hrow : (firstClaim (some "bucket") [1, 2, 3]).all fun claim =>
      ((afterSend (some "bucket") [1, 2, 3] claim).db.channels.find? 1).any fun row =>
        row.consecutiveAuthFailures = 3 ∧ row.pausedReasonCode = some PAUSE_AUTH_REASON := by
    decide +kernel
  obtain ⟨claim, hsome, hone⟩ := (Option.any_eq_true _ _).mp hclaim
  rw [hsome, Option.all_some] at hrow
  obtain ⟨row, hfind, hthree⟩ := (Option.any_eq_true _ _).mp hrow
  obtain ⟨hchannel, hon⟩ := of_decide_eq_true hone
  obtain ⟨hcount, hpaused⟩ := of_decide_eq_true hthree
  exact ⟨_, row, (Reach.start hinit).next (step_unauthorized hchannel hon) trivial, hfind, hcount,
    hpaused⟩

/-- One send that counts as one strike. -/
theorem oneStrike_unauthorized {s : Strikes} {claim : ClaimedDelivery} (hlt : s.strikes < 255)
    (hrun : (Worker.retryClaim claim 0 unauthorized s.conn).1.toOption.isSome)
    (halive : claim.constituentIds.countP (s.conn.db.isAlive 0) = 1) :
    OneStrike s (.send claim 0 (.error unauthorized)) := by
  have hkind : unauthorized.kind = .authentication := rfl
  have hok : ∃ outcome, (Worker.retryClaim claim 0 unauthorized s.conn).1 = .ok outcome := by
    revert hrun
    generalize (Worker.retryClaim claim 0 unauthorized s.conn).1 = result
    cases result with
    | error e => simp [Except.toOption]
    | ok outcome => simp
  intro _
  rw [if_pos hkind]
  exact ⟨hlt, hok, halive⟩

/-- A single job that is refused is one strike. -/
theorem three_strikes_single : ∃ (c' : Conn) (row : ChannelRow),
    c'.db.channels.find? 1 = some row ∧ row.consecutiveAuthFailures = 1 ∧
      row.pausedReasonCode ≠ some PAUSE_AUTH_REASON := by
  have hinit : Initial 1 ⟨(claimed none [1]).2, 0⟩ := initial_claimed (by decide +kernel)
  have hclaim : (firstClaim none [1]).any fun claim => claimChannel claim = 1 ∧
      (claim.constituentIds.all fun k =>
        ((claimed none [1]).2.db.deliveryJobs.find? k).all (·.channelId = 1)) ∧
      (Worker.retryClaim claim 0 unauthorized (claimed none [1]).2).1.toOption.isSome ∧
      claim.constituentIds.countP ((claimed none [1]).2.db.isAlive 0) = 1 := by
    decide +kernel
  obtain ⟨claim, -, hone⟩ := (Option.any_eq_true _ _).mp hclaim
  obtain ⟨hchannel, hon, hrun, halive⟩ := of_decide_eq_true hone
  have hreach : Reach (Initial 1) (Step 1) OneStrike ⟨afterSend none [1] claim, 1⟩ :=
    (Reach.start hinit).next (step_unauthorized hchannel hon)
      (oneStrike_unauthorized (Nat.zero_lt_succ _) hrun halive)
  obtain ⟨row, hrow, hcount, hpaused, -⟩ := three_strikes hreach
  have hlt : ¬3 ≤ 1 := by decide
  exact ⟨_, row, hrow, hcount, fun h => hlt (hpaused.mp h)⟩

end Strikes

end CcReminder
