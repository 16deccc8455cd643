import CcReminder.Lib.Newest
import CcReminder.Pipeline.Spec
import CcReminder.Rules.Validate

/-!
# The limit of a window

The cool-down and the limit of a window look at the last deliveries of the rule: the newest eight of
every channel that can be listed, and of these the newest thirty-two. A limit that needs more of
them is never reached.
-/

set_option autoImplicit true

namespace CcReminder

open Lib

/-! ## Decisions -/

/-- The event goes out, now or with others. -/
def PolicyDecision.sends : PolicyDecision → Bool
  | .sendNow | .aggregate _ _ => true
  | _ => false

/-- None of the checks before the cool-down stops the event. -/
def PolicyInput.passes (input : PolicyInput) : Bool :=
  input.capability.sourceEvent = input.event.sourceEvent ∧ input.rule.enabled ∧
    matchesFilters input.event input.rule.filters ∧
    ¬Duration.seconds input.rule.delivery.ttlSeconds.toNat ≤ input.now - input.event.occurredAt ∧
    !isPaused input ∧ quietDecision input = none

theorem quietDecision_sends {input : PolicyInput} (h : quietDecision input = some decision) :
    decision.sends = false := by
  obtain rfl | ⟨t, rfl, -⟩ := quietDecision_cases h
  · rfl
  · rfl

theorem evaluatePolicy_of_passes {sv : Services} {input : PolicyInput} (h : input.passes) :
    evaluatePolicy sv input = deliveryDecision sv input := by
  simp only [PolicyInput.passes, Bool.decide_and, Bool.and_eq_true, decide_eq_true_eq] at h
  obtain ⟨hsource, henabled, hmatch, httl, hpause, hquiet⟩ := h
  unfold evaluatePolicy
  rw [if_neg (not_not.mpr hsource), if_neg (by simp [henabled]), if_neg (by simp [hmatch]),
    if_neg httl, if_neg (by simpa using hpause), hquiet]

theorem sends_of_not_passes {sv : Services} {input : PolicyInput} (h : ¬input.passes) :
    (evaluatePolicy sv input).sends = false := by
  simp only [PolicyInput.passes, Bool.decide_and, Bool.and_eq_true, decide_eq_true_eq] at h
  unfold evaluatePolicy
  split
  · rfl
  rename_i hsource
  split
  · rfl
  rename_i henabled
  split
  · rfl
  rename_i hmatch
  split
  · rfl
  rename_i httl
  split
  · rfl
  rename_i hpause
  split
  · rename_i decision hquiet
    exact quietDecision_sends hquiet
  · rename_i hquiet
    refine absurd ⟨not_not.mp hsource, ?_, ?_, httl, ?_, hquiet⟩ h <;> simp_all

theorem deliveryDecision_cooldown_iff {sv : Services} {input : PolicyInput} :
    deliveryDecision sv input = .suppress .cooldown ↔
      input.rule.delivery.cooldownSeconds > 0 ∧
        deliveriesSince input input.rule.delivery.cooldownSeconds ≠ [] := by
  unfold deliveryDecision aggregateDecision
  simp only
  split
  · rename_i h
    simp [h]
  · rename_i h
    simp only [h, iff_false]
    split
    · simp
    split
    · simp
    split
    · simp
    split <;> simp

theorem deliveryDecision_sends_iff {sv : Services} {input : PolicyInput} :
    (deliveryDecision sv input).sends ↔
      deliveryDecision sv input ≠ .suppress .cooldown ∧
        (deliveriesSince input input.rule.delivery.windowSeconds).length <
          input.rule.delivery.maxPerWindow.toNat := by
  unfold deliveryDecision aggregateDecision
  simp only
  split
  · simp [PolicyDecision.sends]
  split
  · rename_i h
    simp only [ge_iff_le] at h
    simp [PolicyDecision.sends, h]
  · rename_i h
    have hlt := not_le.mp h
    simp only [hlt, and_true]
    split
    · simp [PolicyDecision.sends]
    split
    · simp [PolicyDecision.sends]
    split <;> simp [PolicyDecision.sends]

/-! ## The look-up -/

/-- The channels that the look-up goes through: none, when they cannot be listed. -/
def Conn.listed (c : Conn) : List ChannelRecord := (listChannels c).1.toOption.getD []

/-- How many deliveries of a rule after a time the look-up finds. -/
def Conn.foundAfter (c : Conn) (ruleId : RuleId) (time : DateTime) : Nat :=
  min POLICY_RECENT_DELIVERY_LOOKUP
    (c.listed.map fun channel => min 8 (countAfter (c.db.deliveryTimes ruleId channel.id) time)).sum

/-- How many of them lie in the last seconds. -/
def Conn.foundWithin (c : Conn) (ruleId : RuleId) (seconds : UInt32) (now : DateTime) : Nat :=
  c.foundAfter ruleId (now - Duration.seconds seconds.toNat) - c.foundAfter ruleId now

theorem foundWithin_zero (c : Conn) (ruleId : RuleId) (now : DateTime) :
    c.foundWithin ruleId 0 now = 0 := by
  have hzero : now - Duration.seconds (0 : UInt32).toNat = now := Int.sub_zero now
  rw [Conn.foundWithin, hzero, Nat.sub_self]

namespace EventPipeline

theorem ensures_collect (ruleId : RuleId) (channels : List ChannelRecord) :
    Ensures (recentDeliveryTimesForRule.collect ruleId channels) fun db times db' =>
      times = channels.flatMap (fun channel =>
        (newestFirst (db.deliveryTimes ruleId channel.id)).take 8) ∧ db' = db := by
  induction channels with
  | nil =>
    intro c times c' h
    obtain ⟨rfl, rfl⟩ := by simpa [recentDeliveryTimesForRule.collect] using h
    exact ⟨rfl, rfl⟩
  | cons channel channels ih =>
    intro c times c' h
    obtain ⟨own, c₁, h₁, h⟩ := Txn.bind_ok_iff.mp h
    obtain ⟨others, c₂, h₂, h⟩ := Txn.bind_ok_iff.mp h
    obtain ⟨rfl, rfl⟩ := by simpa using h
    obtain ⟨hown, hc₁⟩ := ensures_read h₁
    obtain ⟨hothers, hc₂⟩ := ih h₂
    rw [hc₁] at hothers hc₂
    rw [hothers, hown]
    exact ⟨rfl, hc₂⟩

/-- What the look-up finds after a time. -/
theorem countAfter_recent (h : recentDeliveryTimesForRule ruleId c = (.ok times, c'))
    (time : DateTime) : countAfter times time = c.foundAfter ruleId time := by
  obtain ⟨channels, c₁, h₁, h⟩ := Txn.bind_ok_iff.mp h
  obtain ⟨all, c₂, h₂, h⟩ := Txn.bind_ok_iff.mp h
  obtain ⟨rfl, -⟩ := by simpa using h
  have hlisted : channels.getD [] = c.listed := by
    simp only [attempt, Txn.step_run] at h₁
    unfold Conn.listed
    split at h₁ <;> (rename_i hrun; cases h₁; rw [hrun]; rfl)
  have hc₁ : c₁.db = c.db := ReadsOnly.attempt .listChannels |>.ok h₁
  obtain ⟨hall, -⟩ := ensures_collect ruleId _ h₂
  rw [newestFirst, countAfter_newest, hall, hlisted, hc₁, Conn.foundAfter]
  congr 1
  induction c.listed with
  | nil => rfl
  | cons channel channels ih =>
    rw [List.flatMap_cons, countAfter_append, newestFirst, countAfter_newest, ih, List.map_cons,
      List.sum_cons]

/-- So many deliveries in the last seconds has the policy. -/
theorem length_deliveriesSince {input : PolicyInput}
    (h : recentDeliveryTimesForRule ruleId c = (.ok input.recentDeliveryTimes, c'))
    (seconds : UInt32) :
    (deliveriesSince input seconds).length = c.foundWithin ruleId seconds input.now := by
  have hle : input.now - Duration.seconds seconds.toNat ≤ input.now := by
    dsimp only [DateTime, Duration, Duration.seconds]
    omega
  rw [deliveriesSince, ← List.countP_eq_length_filter, Conn.foundWithin, ← countAfter_recent h,
    ← countAfter_recent h, ← countP_between hle]

end EventPipeline

/-! ## The cap -/

/-- The jobs of a rule that succeeded after `start` and not after `now`. -/
def Database.succeededIn (db : Database) (ruleId : RuleId) (start now : DateTime) : List JobRow :=
  db.deliveryJobs.rows.filter fun j => j.ruleId = ruleId ∧ db.deliveryAttempts.rows.any fun a =>
    a.jobId = j.id ∧ a.outcome = "succeeded" ∧ start < a.completedAt ∧ a.completedAt ≤ now

/-- Those of the last seconds. -/
def Database.succeededWithin (db : Database) (ruleId : RuleId) (seconds : UInt32) (now : DateTime) :
    List JobRow :=
  db.succeededIn ruleId (now - Duration.seconds seconds.toNat) now

/-- The cap and the cool-down of a rule, over the history of its jobs. -/
structure Capped (sv : Services) (db : Database) (ruleId : RuleId) (input : PolicyInput) : Prop where
  window : input.rule.delivery.maxPerWindow.toNat ≤
      (db.succeededWithin ruleId input.rule.delivery.windowSeconds input.now).length →
    ¬(evaluatePolicy sv input).sends
  cooldown : db.succeededWithin ruleId input.rule.delivery.cooldownSeconds input.now ≠ [] →
    input.passes → evaluatePolicy sv input = .suppress .cooldown

/-- The look-up finds enough of the history. -/
structure FindsEnough (c : Conn) (ruleId : RuleId) (delivery : DeliveryPolicy) (now : DateTime) :
    Prop where
  window : delivery.maxPerWindow.toNat ≤
      (c.db.succeededWithin ruleId delivery.windowSeconds now).length →
    0 < c.foundWithin ruleId delivery.cooldownSeconds now ∨
      delivery.maxPerWindow.toNat ≤ c.foundWithin ruleId delivery.windowSeconds now
  cooldown : c.db.succeededWithin ruleId delivery.cooldownSeconds now ≠ [] →
    0 < c.foundWithin ruleId delivery.cooldownSeconds now

/-- **Window cap.** The cap and the cool-down hold of a decision exactly when an earlier check stops
the event, or the look-up finds enough. -/
theorem window_cap {sv : Services} {input : PolicyInput}
    (h : EventPipeline.recentDeliveryTimesForRule ruleId c =
      (.ok input.recentDeliveryTimes, c')) :
    Capped sv c.db ruleId input ↔
      (input.passes → FindsEnough c ruleId input.rule.delivery input.now) := by
  by_cases hpass : input.passes
  · have hcooldown : evaluatePolicy sv input = .suppress .cooldown ↔
        0 < c.foundWithin ruleId input.rule.delivery.cooldownSeconds input.now := by
      rw [evaluatePolicy_of_passes hpass, deliveryDecision_cooldown_iff, ← List.length_pos_iff,
        EventPipeline.length_deliveriesSince h]
      refine ⟨And.right, fun hfound => ⟨?_, hfound⟩⟩
      by_contra hnone
      have hzero : input.rule.delivery.cooldownSeconds = 0 := by simpa using hnone
      rw [hzero, foundWithin_zero] at hfound
      exact absurd hfound (lt_irrefl 0)
    have hsends : ¬(evaluatePolicy sv input).sends ↔
        0 < c.foundWithin ruleId input.rule.delivery.cooldownSeconds input.now ∨
          input.rule.delivery.maxPerWindow.toNat ≤
            c.foundWithin ruleId input.rule.delivery.windowSeconds input.now := by
      rw [← hcooldown, evaluatePolicy_of_passes hpass, deliveryDecision_sends_iff,
        EventPipeline.length_deliveriesSince h, not_and_or, not_not, not_lt]
    constructor
    · intro hcapped _
      exact ⟨fun hmax => hsends.mp (hcapped.window hmax),
        fun hsome => hcooldown.mp (hcapped.cooldown hsome hpass)⟩
    · intro hfinds
      obtain ⟨hwindow, hcool⟩ := hfinds hpass
      exact ⟨fun hmax => hsends.mpr (hwindow hmax), fun hsome _ => hcooldown.mpr (hcool hsome)⟩
  · refine ⟨fun _ hpass' => absurd hpass' hpass, fun _ => ⟨fun _ => ?_, fun _ hpass' => ?_⟩⟩
    · simp [sends_of_not_passes hpass]
    · exact absurd hpass' hpass

/-! ## Nine deliveries -/

namespace WindowCap.Sample

open CcReminder.Sample

def event : EventEnvelope where
  id := 0
  source := .claudeCode
  sourceVersion := { major := 2, minor := 1, patch := 218 }
  sourceEvent := "Stop"
  category := .completion
  occurredAt := 0
  receivedAt := 0
  projectId := none
  projectDisplayName := none
  unmatchedCwdFingerprint := none
  sessionRef := none
  turnRef := none
  model := none
  permissionMode := none
  severity := .info
  publicFields := []
  encryptedSensitiveFields := none
  correlationId := 0
  actionId := none
  actionCapabilities := []

/-- An event of now for a rule with a cap in the last hour. -/
def input (cap : UInt32) (times : List DateTime) : PolicyInput where
  event := event
  capability := {
    sourceEvent := "Stop", labelZh := "Done", category := .completion, phase := "end",
    inputFields := [] }
  rule := { rule with delivery := { rule.delivery with maxPerWindow := cap }, quietHours := none }
  notificationPause := none
  now := 0
  localOffset := 0
  recentDeliveryTimes := times

/-- A job that succeeded now. -/
def job (jobId : Uuid) : JobRow where
  id := jobId
  eventId := 0
  ruleId := 1
  ruleVersion := ""
  channelId := 1
  idempotencyKey := ""
  document := { title := "", severity := .info, facts := [], body := "", footer := none }
  state := .succeeded
  attempts := 0
  nextAttemptAt := 0
  expiresAt := 0
  leaseOwner := none
  leaseExpiresAt := none
  aggregateKey := none
  aggregateReleaseAt := none
  lastErrorCode := none
  createdAt := 0
  updatedAt := 0

def attempt (jobId : Uuid) : AttemptRow where
  id := jobId
  jobId := jobId
  attemptNumber := 1
  startedAt := 0
  completedAt := 0
  outcome := "succeeded"
  httpStatus := none
  platformCode := none
  errorCode := none
  retryAt := none

/-- Jobs of one rule on one channel. -/
def delivered (jobIds : List Uuid) (h : jobIds.Nodup) : Conn :=
  { conn 0 with
    db := { (conn 0).db with
      deliveryJobs := ⟨jobIds.map job, by simpa [Function.comp_def, job] using h⟩
      deliveryAttempts := ⟨jobIds.map attempt, by simpa [Function.comp_def, attempt] using h⟩ } }

def nine : Conn := delivered [1, 2, 3, 4, 5, 6, 7, 8, 9] (by decide)

def one : Conn := delivered [1] (by decide)

end WindowCap.Sample

/-- The tenth delivery of a rule that may make nine in an hour goes out: the look-up finds eight. -/
theorem window_exceeded : ∃ (sv : Services) (ruleId : RuleId) (input : PolicyInput) (c c' : Conn),
    validateRule input.rule = .ok () ∧
    EventPipeline.recentDeliveryTimesForRule ruleId c = (.ok input.recentDeliveryTimes, c') ∧
    input.rule.delivery.maxPerWindow.toNat ≤
      (c.db.succeededWithin ruleId input.rule.delivery.windowSeconds input.now).length ∧
    evaluatePolicy sv input = .sendNow := by
  have hrun : (EventPipeline.recentDeliveryTimesForRule 1 WindowCap.Sample.nine).1.toOption =
      some (List.replicate 8 0) := by decide +kernel
  have hcount : 9 ≤ (WindowCap.Sample.nine.db.succeededWithin 1 3600 0).length := by decide +kernel
  exact ⟨Sample.services, 1, WindowCap.Sample.input 9 (List.replicate 8 0), _, _, rfl,
    ok_run hrun, hcount, by decide +kernel⟩

/-- With a cap of one the second delivery does not. -/
theorem window_cap_one : ∃ c',
    EventPipeline.recentDeliveryTimesForRule 1 WindowCap.Sample.one = (.ok [0], c') ∧
    Capped Sample.services WindowCap.Sample.one.db 1 (WindowCap.Sample.input 1 [0]) := by
  have hrun : (EventPipeline.recentDeliveryTimesForRule 1 WindowCap.Sample.one).1.toOption =
      some [0] := by decide +kernel
  refine ⟨_, ok_run hrun, (window_cap (c := WindowCap.Sample.one) (ok_run hrun)).mpr fun _ => ⟨?_, ?_⟩⟩
  · decide +kernel
  · decide +kernel

end CcReminder
