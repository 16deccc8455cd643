import CcReminder.Worker
import CcReminder.Lib.Reach

/-!
# Pacing

After a failure a channel cools down: `next_allowed_at` holds back the next batch. But the column is
read when a batch is claimed, not when a send of the batch starts. So the pace of a channel is kept
just as long as no outcome slows the channel down while another delivery of the same batch waits for
it.
-/

set_option autoImplicit true

namespace CcReminder

open Lib

/-- The tables, the time of the last thing that happened on the channel, the deliveries of the
running pass that wait for the channel, and the one that is being sent. -/
structure Pacing where
  conn : Conn
  clock : DateTime
  waiting : List ClaimedDelivery
  flying : Option ClaimedDelivery

namespace Pacing

inductive Act where
  | pass (now : DateTime) (leaseDuration : Duration) (maxBatch : Nat)
  | start (claim : ClaimedDelivery) (now : DateTime)
  | drop (claim : ClaimedDelivery)
  | finish (claim : ClaimedDelivery) (now : DateTime) (result : SendResult)
  | crash
  | other

section

variable (channelId : ChannelId)

/-- The deliveries on the channel of a batch, none if there was an error. -/
def onChannel (result : Except AppError (List ClaimedDelivery)) : List ClaimedDelivery :=
  (result.toOption.getD []).filter (claimChannel · = channelId)

def pass (now : DateTime) (leaseDuration : Duration) (maxBatch : Nat) (c : Conn) : Pacing where
  conn := (Worker.claimBatch now leaseDuration maxBatch c).2
  clock := now
  waiting := onChannel channelId (Worker.claimBatch now leaseDuration maxBatch c).1
  flying := none

def started (s : Pacing) (claim : ClaimedDelivery) (now : DateTime) : Pacing where
  conn := s.conn
  clock := now
  waiting := s.waiting.erase claim
  flying := some claim

def finished (s : Pacing) (claim : ClaimedDelivery) (now : DateTime) (result : SendResult) :
    Pacing where
  conn := (Worker.recordOutcome claim now result s.conn).2
  clock := now
  waiting := s.waiting
  flying := none

/-- One step of the worker on the channel. A pass begins when the one before it is over; a delivery
is sent when no other is, or given up before it is sent; its outcome is recorded if that is possible.
The process may be killed. Other things happen that leave the row of the channel alone. -/
inductive Step : Pacing → Act → Pacing → Prop
  | pass {s : Pacing} (hidle : s.waiting = [] ∧ s.flying = none) :
    Step s (.pass now lease n) (pass channelId now lease n s.conn)
  | start {s : Pacing} (hwaiting : claim ∈ s.waiting) (hfree : s.flying = none) :
    Step s (.start claim now) (s.started claim now)
  | drop {s : Pacing} : Step s (.drop claim) { s with waiting := s.waiting.erase claim }
  | finish {s : Pacing} (hflying : s.flying = some claim)
    (hclaim : claimChannel claim = channelId)
    (hon : Conn.RetriesEach.OnChannel s.conn claim.constituentIds channelId) :
    Step s (.finish claim now result) (s.finished claim now result)
  | crash {s : Pacing} : Step s .crash { s with waiting := [], flying := none }
  | other {s : Pacing} {c' : Conn}
    (hrow : c'.db.channels.find? channelId = s.conn.db.channels.find? channelId) :
    Step s .other { s with conn := c' }

end

/-- No delivery is under way. -/
def Initial (s : Pacing) : Prop := s.waiting = [] ∧ s.flying = none

/-- What is recorded for the claim slows nothing down: it is a success, or no job of the claim is
retried and the strikes do not pause the channel. -/
def Unhindered (db : Database) (claim : ClaimedDelivery) (now : DateTime) : SendResult → Prop
  | .ok _ => True
  | .error error =>
    (∀ k ∈ claim.constituentIds, ∀ j, db.deliveryJobs.find? k = some j →
      ∀ jitter t, j.decision jitter now error ≠ .retryAt t) ∧
    (0 < Worker.strikes db claim now error →
      ∀ row, db.channels.find? (claimChannel claim) = some row →
        row.consecutiveAuthFailures + Worker.strikes db claim now error < AUTH_PAUSE_THRESHOLD)

/-- The clock does not run backwards, the jobs of a bucket are on one channel when a batch is
claimed, and an outcome that is recorded while another delivery waits slows nothing down. -/
def Paced (s : Pacing) : Act → Prop
  | .pass now _ _ => s.clock ≤ now ∧ s.conn.db.OneChannel
  | .start _ now => s.clock ≤ now
  | .finish claim now result =>
    s.clock ≤ now ∧ (∀ t, s.conn.Reads t → now ≤ t) ∧
      (s.waiting ≠ [] → Unhindered s.conn.db claim now result)
  | .drop _ | .crash | .other => True

/-! ## The row of the channel -/

/-- The cool-down of the row is over at `t`. -/
def Over (row : ChannelRow) (t : DateTime) : Prop := row.nextAllowedAt.all (· ≤ t)

/-- The end of a cool-down stays, or is set to `t` or later. -/
def Later (t : DateTime) (r r' : ChannelRow) : Prop :=
  r'.nextAllowedAt = r.nextAllowedAt ∨ ∃ u, r'.nextAllowedAt = some u ∧ t ≤ u

theorem Later.trans {r r₁ r₂ : ChannelRow} (h : Later t r r₁) (h' : Later t r₁ r₂) :
    Later t r r₂ := by
  rcases h' with h' | h'
  · exact h.imp h'.trans fun ⟨u, hu, hle⟩ => ⟨u, h'.trans hu, hle⟩
  · exact .inr h'

/-- A cool-down that is over at `t` is not cut short. -/
theorem Later.le {r r' : ChannelRow} (h : Later t r r') (hover : Over r t)
    (hu : r.nextAllowedAt = some u) : ∃ u', r'.nextAllowedAt = some u' ∧ u ≤ u' := by
  have hut : u ≤ t := by simpa [Over, hu] using hover
  rcases h with h | ⟨u', hu', hle⟩
  · exact ⟨u, h.trans hu, le_rfl⟩
  · exact ⟨u', hu', hut.trans hle⟩

section

variable {c : Conn} {claim : ClaimedDelivery} {now : DateTime}

/-- Each charge ends the cool-down a second after it was made, or later. -/
theorem later_of_charges {j : JobRow} (h : j.Charges times now error f)
    (htimes : ∀ t, times t → now ≤ t) (r : ChannelRow) : Later now r (f r) := by
  cases h with
  | cool hd hu =>
    refine .inr ⟨_, rfl, le_max_of_le_right ?_⟩
    have hle := htimes _ hu
    simp only [Duration.seconds]
    dsimp only [DateTime, Duration] at *
    omega
  | strike => exact .inl (ChannelRow.Struck.bump r now).nextAllowedAt
  | fail => exact .inl rfl
  | expire => exact .inl rfl

/-- No recorded outcome cuts a cool-down short that is over. -/
theorem recordOutcome_later {result : SendResult}
    (hon : Conn.RetriesEach.OnChannel c claim.constituentIds (claimChannel claim))
    (hclock : ∀ t, c.Reads t → now ≤ t) (hrow : c.db.channels.find? (claimChannel claim) = some row) :
    ∃ row', (Worker.recordOutcome claim now result c).2.db.channels.find? (claimChannel claim) =
      some row' ∧ Later now row row' := by
  cases result with
  | error error =>
    exact Worker.recordFailure_row (fun _ => .inl rfl) (fun _ _ _ => .trans) hon
      (fun _ _ _ _ _ hf r => later_of_charges hf hclock r)
      (fun r => .inl (ChannelRow.Struck.bump r now).nextAllowedAt) hrow
  | ok receipt =>
    obtain ⟨row', hrow', hreset⟩ := Worker.recordOutcome_ok_row now receipt hrow
    exact ⟨row', hrow', hreset.elim (fun h => .inl (by rw [h])) fun h => .inl (by rw [h]; rfl)⟩

/-- An outcome that slows nothing down leaves the cool-down, and no pause. -/
theorem recordOutcome_unhindered {result : SendResult}
    (hon : Conn.RetriesEach.OnChannel c claim.constituentIds (claimChannel claim))
    (hslow : Unhindered c.db claim now result)
    (hrow : c.db.channels.find? (claimChannel claim) = some row) (hpaused : row.pausedReasonCode = none) :
    ∃ row', (Worker.recordOutcome claim now result c).2.db.channels.find? (claimChannel claim) =
      some row' ∧ row'.nextAllowedAt = row.nextAllowedAt ∧ row'.pausedReasonCode = none := by
  cases result with
  | ok receipt =>
    obtain ⟨row', hrow', rfl | rfl⟩ := Worker.recordOutcome_ok_row now receipt hrow
    · exact ⟨row', hrow', rfl, hpaused⟩
    · exact ⟨_, hrow', rfl, rfl⟩
  | error error =>
    obtain ⟨hfinal, hstrikes⟩ := hslow
    obtain ⟨m, hm, row', hrow', hstruck⟩ := Worker.recordFailure_struck hon hfinal hrow
    refine ⟨row', hrow', hstruck.nextAllowedAt, ?_⟩
    rw [hstruck.paused, if_neg, hpaused]
    rintro ⟨hpos, hle⟩
    have hlt := hstrikes (hpos.trans_le hm) row hrow
    rw [hstruck.count] at hle
    omega

end

/-! ## Runs -/

/-- While a delivery waits or is sent the cool-down of the channel is over, and while one waits the
channel is not paused. -/
def Inv (channelId : ChannelId) (s : Pacing) : Prop :=
  s.waiting ≠ [] ∨ s.flying ≠ none → ∃ row, s.conn.db.channels.find? channelId = some row ∧
    Over row s.clock ∧ (s.waiting ≠ [] → row.pausedReasonCode = none)

section

variable {channelId : ChannelId} {s s' : Pacing}

theorem Over.mono {row : ChannelRow} (h : Over row t) (hle : t ≤ t') : Over row t' := by
  simp only [Over, Option.all_eq_true, decide_eq_true_eq] at h ⊢
  exact fun u hu => (h u hu).trans hle

theorem erase_ne_nil {claims : List ClaimedDelivery} (h : claims.erase claim ≠ []) : claims ≠ [] := by
  rintro rfl
  exact h rfl

theorem Inv.pass {c : Conn} (hone : c.db.OneChannel) : Inv channelId (pass channelId now lease n c) := by
  intro hbusy
  have hne : onChannel channelId (Worker.claimBatch now lease n c).1 ≠ [] :=
    hbusy.resolve_right fun h => h rfl
  obtain ⟨claim, hclaim⟩ := List.exists_mem_of_ne_nil _ hne
  rcases hrun : Worker.claimBatch now lease n c with ⟨e | claims, c'⟩
  · simp [hrun, onChannel, Except.toOption] at hclaim
  · rw [hrun] at hclaim
    obtain ⟨hmem, hchannel⟩ := List.mem_filter.mp hclaim
    obtain rfl : claimChannel claim = channelId := of_decide_eq_true hchannel
    obtain ⟨row, hrow, havail⟩ := Worker.claimBatch_available hrun hone claim hmem
    simp only [ChannelRow.available, decide_eq_true_eq, Option.isNone_iff_eq_none] at havail
    refine ⟨row, ?_, havail.2, fun _ => havail.1⟩
    rw [← hrow, Pacing.pass, Worker.claimBatch_channels]

theorem Step.inv (h : Step channelId s act s') (hok : Paced s act) (hinv : Inv channelId s) :
    Inv channelId s' := by
  cases h with
  | pass => exact .pass hok.2
  | start hwaiting hfree =>
    have hne : s.waiting ≠ [] := List.ne_nil_of_mem hwaiting
    obtain ⟨row, hrow, hover, hpaused⟩ := hinv (.inl hne)
    exact fun _ => ⟨row, hrow, hover.mono hok, fun _ => hpaused hne⟩
  | drop =>
    intro hbusy
    obtain ⟨row, hrow, hover, hpaused⟩ := hinv (hbusy.imp_left erase_ne_nil)
    exact ⟨row, hrow, hover, fun h => hpaused (erase_ne_nil h)⟩
  | @finish claim now result _ hflying hclaim hon =>
    subst hclaim
    obtain ⟨hclock, -, hslow⟩ := hok
    intro hbusy
    have hne : s.waiting ≠ [] := hbusy.resolve_right fun h => h rfl
    obtain ⟨row, hrow, hover, hpaused⟩ := hinv (.inl hne)
    obtain ⟨row', hrow', hsame, hpaused'⟩ :=
      recordOutcome_unhindered hon (hslow hne) hrow (hpaused hne)
    have hover' : Over row' now := by
      rw [Over, hsame]
      exact hover.mono hclock
    exact ⟨row', hrow', hover', fun _ => hpaused'⟩
  | crash => exact fun hbusy => absurd rfl (hbusy.resolve_left fun h => h rfl)
  | other hrow' =>
    intro hbusy
    obtain ⟨row, hrow, hrest⟩ := hinv hbusy
    exact ⟨row, hrow'.trans hrow, hrest⟩

end

/-- What a step owes the pace of the channel: a send starts when the channel is not paused and its
cool-down is over, and an outcome does not bring the end of the cool-down forward. -/
def KeepsPace (channelId : ChannelId) (s s' : Pacing) : Act → Prop
  | .start _ now => ∀ row, s.conn.db.channels.find? channelId = some row →
    row.pausedReasonCode = none ∧ ∀ t, row.nextAllowedAt = some t → t ≤ now
  | .finish .. => ∀ row, s.conn.db.channels.find? channelId = some row →
    ∃ row', s'.conn.db.channels.find? channelId = some row' ∧
      ∀ t, row.nextAllowedAt = some t → ∃ t', row'.nextAllowedAt = some t' ∧ t ≤ t'
  | _ => True

/-- **Pacing.** In every run in which the clock does not run backwards, the jobs of a bucket are on
one channel, and no outcome slows the channel down while another delivery of the same batch waits
for it, each step keeps the pace of the channel. -/
theorem keeps_pace (h : Reach Initial (Step channelId) Paced s) (hstep : Step channelId s act s')
    (hok : Paced s act) : KeepsPace channelId s s' act := by
  have hinv : Inv channelId s := h.invariant
    (fun s hs hbusy => absurd hbusy (by simp [hs.1, hs.2]))
    fun _ _ _ ih hstep hok => hstep.inv hok ih
  cases hstep with
  | start hwaiting hfree =>
    have hne : s.waiting ≠ [] := List.ne_nil_of_mem hwaiting
    obtain ⟨row₀, hrow₀, hover, hpaused⟩ := hinv (.inl hne)
    intro row hrow
    obtain rfl : row₀ = row := by simpa [hrow₀] using hrow
    refine ⟨hpaused hne, fun t ht => ?_⟩
    simpa [Over, ht] using hover.mono hok
  | finish hflying hclaim hon =>
    subst hclaim
    obtain ⟨hclock, hreads, -⟩ := hok
    obtain ⟨row₀, hrow₀, hover, -⟩ := hinv (.inr (by simp [hflying]))
    intro row hrow
    obtain rfl : row₀ = row := by simpa [hrow₀] using hrow
    obtain ⟨row', hrow', hlater⟩ := recordOutcome_later hon hreads hrow
    exact ⟨row', hrow', fun t ht => hlater.le (hover.mono hclock) ht⟩
  | pass => trivial
  | drop => trivial
  | crash => trivial
  | other => trivial

/-! ## A batch of two

Two jobs of one channel are claimed together. The server asks the first send to wait for a minute. -/

def slowDown : DeliveryError := { Sample.timeout with retryAfterSeconds := some 60 }

def queued (ids : List Uuid) : Conn :=
  runOps id (ids.map fun k => ⟨_, .enqueue (Sample.job k none)⟩) Sample.start

/-- The batch that is claimed when the jobs are queued. -/
def batch (ids : List Uuid) : Pacing := pass 1 0 (Duration.seconds 30) 8 (queued ids)

def sent (s : Pacing) (claim : ClaimedDelivery) (error : DeliveryError) : Pacing :=
  (s.started claim 0).finished claim 0 (.error error)

/-- The jobs of the claim are on the first channel. -/
def onFirst (s : Pacing) (claim : ClaimedDelivery) : Bool :=
  claimChannel claim = 1 ∧ claim.constituentIds.all fun k =>
    (s.conn.db.deliveryJobs.find? k).all (·.channelId = 1)

/-- The end of the cool-down of the first channel. -/
def cooled (s : Pacing) : Option DateTime :=
  (s.conn.db.channels.find? 1).bind (·.nextAllowedAt)

theorem reach_batch (ids : List Uuid) (h : ok ⟨queued ids, 0, [], none⟩
    (.pass 0 (Duration.seconds 30) 8)) : Reach Initial (Step 1) ok (batch ids) :=
  (Reach.start (s := ⟨queued ids, 0, [], none⟩) ⟨rfl, rfl⟩).next (.pass ⟨rfl, rfl⟩) h

theorem step_finish {s : Pacing} (h : onFirst s claim) :
    Step 1 (s.started claim 0) (.finish claim 0 (.error error)) (s.sent claim error) := by
  obtain ⟨hclaim, hall⟩ := of_decide_eq_true h
  refine .finish rfl hclaim fun k hk j hj => ?_
  have hchannel := List.all_eq_true.mp hall k hk
  rw [show s.conn.db.deliveryJobs.find? k = some j from hj] at hchannel
  simpa using hchannel

theorem reach_sent {s : Pacing} (h : Reach Initial (Step 1) (fun _ _ => True) s)
    (hmem : claim ∈ s.waiting) (hfree : s.flying = none) (hfirst : onFirst s claim) :
    Reach Initial (Step 1) (fun _ _ => True) (s.sent claim error) :=
  (h.next (Step.start hmem hfree) trivial).next (step_finish hfirst) trivial

theorem exists_cooled {s : Pacing} (h : cooled s = some t) :
    ∃ row, s.conn.db.channels.find? 1 = some row ∧ row.nextAllowedAt = some t :=
  Option.bind_eq_some_iff.mp h

/-- Within the minute the second delivery of the batch is sent, and its outcome ends the minute. -/
theorem pace_lost : ∃ s₁ s₂ claim,
    (Reach Initial (Step 1) (fun _ _ => True) s₁ ∧ Step 1 s₁ (.start claim 0) s₂ ∧
      ¬KeepsPace 1 s₁ s₂ (.start claim 0)) ∧
    ∃ s₃, Step 1 s₂ (.finish claim 0 (.error Sample.timeout)) s₃ ∧
      ¬KeepsPace 1 s₂ s₃ (.finish claim 0 (.error Sample.timeout)) := by
  obtain ⟨a, b, hpair⟩ : ∃ a b, (batch [1, 2]).waiting = [a, b] := by
    have hlen : (batch [1, 2]).waiting.length = 2 := by decide +kernel
    exact List.length_eq_two.mp hlen
  have hreach : Reach Initial (Step 1) (fun _ _ => True) (batch [1, 2]) := reach_batch _ trivial
  have hfirst : (batch [1, 2]).waiting.head?.all fun a => onFirst (batch [1, 2]) a ∧
      cooled ((batch [1, 2]).sent a slowDown) = some (Duration.seconds 60) := by
    decide +kernel
  have hsecond : (batch [1, 2]).waiting.head?.all fun a => (batch [1, 2]).waiting.getLast?.all fun b =>
      onFirst ((batch [1, 2]).sent a slowDown) b ∧
        cooled (((batch [1, 2]).sent a slowDown).sent b Sample.timeout) =
          some (Duration.seconds 1) := by
    decide +kernel
  have hfree : (batch [1, 2]).flying = none := rfl
  generalize batch [1, 2] = s at hpair hreach hfirst hsecond hfree
  rw [hpair] at hfirst hsecond
  obtain ⟨ha, hminute⟩ := of_decide_eq_true hfirst
  obtain ⟨hb, hsecond⟩ := of_decide_eq_true hsecond
  obtain ⟨row, hrow, hnext⟩ := exists_cooled hminute
  obtain ⟨row', hrow', hnext'⟩ := exists_cooled hsecond
  have hwaiting : b ∈ (s.sent a slowDown).waiting := by simp [sent, finished, started, hpair]
  refine ⟨s.sent a slowDown, (s.sent a slowDown).started b 0, b,
    ⟨reach_sent hreach (by simp [hpair]) hfree ha, .start hwaiting rfl, fun hpace => ?_⟩,
    (s.sent a slowDown).sent b Sample.timeout, step_finish hb, fun hpace => ?_⟩
  · exact absurd ((hpace row hrow).2 _ hnext) (by decide)
  · obtain ⟨row'', hrow'', hle⟩ := hpace row hrow
    obtain rfl : row' = row'' := Option.some.inj (hrow'.symm.trans hrow'')
    obtain ⟨t, ht, hle⟩ := hle _ hnext
    obtain rfl : t = Duration.seconds 1 := by simpa [hnext'] using ht.symm
    exact absurd hle (by decide)

/-- The same state, from which on the clock stands still. -/
def still (s : Pacing) : Pacing := { s with conn := { s.conn with world := fun n => { uuid := n } } }

theorem still_reads (s : Pacing) (h : s.still.conn.Reads t) : 0 ≤ t := by
  obtain ⟨n, rfl⟩ := h
  exact le_rfl

theorem reach_still {s : Pacing} (h : Reach Initial (Step 1) Paced s) :
    Reach Initial (Step 1) Paced s.still :=
  h.next (.other rfl) trivial

/-- A delivery that is alone in its batch may be asked to wait. -/
theorem keeps_pace_alone : ∃ s s' claim, KeepsPace 1 s s' (.finish claim 0 (.error slowDown)) ∧
    cooled s = none ∧ cooled s' = some (Duration.seconds 60) := by
  obtain ⟨a, hone⟩ : ∃ a, (batch [1]).waiting = [a] := by
    have hlen : (batch [1]).waiting.length = 1 := by decide +kernel
    exact List.length_eq_one_iff.mp hlen
  have hchannel : (queued [1]).db.OneChannel := by
    have hrows : (queued [1]).db.deliveryJobs.rows.all fun i =>
        (queued [1]).db.deliveryJobs.rows.all fun j => j.channelId = i.channelId := by
      decide +kernel
    intro i hi j hj _ _
    exact of_decide_eq_true (List.all_eq_true.mp (List.all_eq_true.mp hrows i hi) j hj)
  have hreach : Reach Initial (Step 1) Paced (batch [1]) := reach_batch _ ⟨le_rfl, hchannel⟩
  have hfirst : (batch [1]).waiting.head?.all fun a => onFirst (batch [1]).still a ∧
      cooled (batch [1]).still = none ∧
      cooled ((batch [1]).still.sent a slowDown) = some (Duration.seconds 60) := by
    decide +kernel
  have hbatch : (batch [1]).flying = none ∧ (batch [1]).clock = 0 := ⟨rfl, rfl⟩
  generalize batch [1] = s at hone hreach hfirst hbatch
  rw [hone] at hfirst
  obtain ⟨ha, hnone, hminute⟩ := of_decide_eq_true hfirst
  have hmem : a ∈ s.still.waiting := by simp [still, hone]
  have halone : (s.still.started a 0).waiting = [] := by simp [started, still, hone]
  have hstarted : Reach Initial (Step 1) Paced (s.still.started a 0) :=
    (reach_still hreach).next (.start hmem hbatch.1) (le_of_eq hbatch.2)
  have hpaced : Paced (s.still.started a 0) (.finish a 0 (.error slowDown)) :=
    ⟨le_rfl, fun t => still_reads s, fun h => absurd halone h⟩
  exact ⟨s.still.started a 0, s.still.sent a slowDown, a,
    keeps_pace hstarted (step_finish ha) hpaced, hnone, hminute⟩

end Pacing

end CcReminder
