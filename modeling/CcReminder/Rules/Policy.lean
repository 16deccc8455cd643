import CcReminder.Rules.Resolve

/-!
# Notification policy

`evaluate_policy` of `rules/policy.rs`: whether an event is sent now, with others, later or not
at all.
-/

set_option autoImplicit true

namespace CcReminder

/-- Seconds east of UTC. -/
abbrev FixedOffset := Int

/-- An offset is less than a day. -/
def FixedOffset.eastOpt (seconds : Int32) : Option FixedOffset :=
  if -86400 < seconds.toInt ∧ seconds.toInt < 86400 then some seconds.toInt else none

inductive SuppressReason where
  | unsupportedCapability
  | disabled
  | filterMismatch
  | globalPause
  | quietHours
  | cooldown
  | windowLimit
  deriving DecidableEq, Repr

inductive PolicyDecision where
  | sendNow
  | aggregate (bucketKey : String) (releaseAt : DateTime)
  | deferUntil (time : DateTime)
  | suppress (reason : SuppressReason)
  | expire
  deriving DecidableEq, Repr

structure PolicyInput where
  event : EventEnvelope
  capability : HookCapability
  rule : RuleConfig
  notificationPause : Option NotificationPause
  now : DateTime
  localOffset : FixedOffset
  recentDeliveryTimes : List DateTime

/-! ## Filters -/

def matchesDimension (expected : List String) (actual : Option String) : Bool :=
  expected = [] ∨ actual.any (expected.contains ·)

def publicString (event : EventEnvelope) (field : String) : Option String :=
  match event.publicFields.get field with
  | some (.string value) => some value
  | _ => none

def matchesFilters (event : EventEnvelope) (filters : FilterGroup) : Bool :=
  matchesDimension filters.toolNames (publicString event "tool_name") ∧
    matchesDimension filters.eventSubtypes (publicString event "event_subtype") ∧
    matchesDimension filters.permissionModes event.permissionMode ∧
    matchesDimension filters.models event.model ∧
    matchesDimension filters.statuses (publicString event "status")

/-! ## Quiet hours -/

def pauseContains (pause : NotificationPause) (instant : DateTime) : Bool :=
  pause.startedAt ≤ instant ∧ instant < pause.until'

/-- A local date and time: the day since the epoch and the time of that day. -/
structure LocalTime where
  day : Int
  time : NaiveTime

def localTime (now : DateTime) (offset : FixedOffset) : LocalTime where
  day := (now + Duration.seconds offset) / Duration.days 1
  time := (now + Duration.seconds offset) % Duration.days 1

def LocalTime.toUtc (t : LocalTime) (offset : FixedOffset) : DateTime :=
  Duration.days t.day + t.time - Duration.seconds offset

/-- `weekday().number_from_monday()`; the epoch was a Thursday. -/
def LocalTime.weekday (t : LocalTime) : UInt8 := UInt8.ofNat ((t.day + 3) % 7 + 1).toNat

/-- Whether a time is quiet, and the weekday on which the quiet period began. -/
def quietMembership (time : NaiveTime) (weekday : UInt8) (start stop : NaiveTime) : Bool × UInt8 :=
  if start < stop then (start ≤ time ∧ time < stop, weekday)
  else if start > stop then
    if time ≥ start then (true, weekday)
    else if time < stop then (true, if weekday = 1 then 7 else weekday - 1)
    else (false, weekday)
  else (true, weekday)

def quietEnd (now : LocalTime) (start stop : NaiveTime) : LocalTime where
  day := if start ≥ stop ∧ now.time ≥ start ∨ start = stop then now.day + 1 else now.day
  time := stop

/-- The severity of an event lets it through quiet hours. -/
def bypassesQuiet (quiet : QuietHours) (severity : Severity) : Bool :=
  quiet.bypassAtOrAbove.any fun least => least.rank ≤ severity.rank

def quietDecision (input : PolicyInput) : Option PolicyDecision := do
  let quiet ← input.rule.quietHours
  if bypassesQuiet quiet input.event.severity then none
  else
    let start ← parseQuietTime quiet.startLocal
    let stop ← parseQuietTime quiet.endLocal
    let now := localTime input.now input.localOffset
    let membership := quietMembership now.time now.weekday start stop
    if !membership.1 ∨ !quiet.weekdays.contains membership.2 then none
    else
      match input.rule.delivery.quietBehavior with
      | .suppress => some (.suppress .quietHours)
      | .defer => some (.deferUntil ((quietEnd now start stop).toUtc input.localOffset))

/-! ## The decision -/

variable (sv : Services)

def aggregateDecision (input : PolicyInput) (windowSeconds : Int) : PolicyDecision :=
  let releaseTimestamp := (input.now / Duration.seconds 1 / windowSeconds + 1) * windowSeconds
  .aggregate
    (hexEncode (sv.sha256 (hashPart (utf8Bytes input.event.source.asStr) ++
      hashPart (utf8Bytes input.event.sourceEvent) ++
      hashPart ((input.event.projectId.map (·.asBytes)).getD []) ++
      hashPart (sv.encodeRule input.rule) ++
      hashPart (wordBytes (releaseTimestamp % 2 ^ 64).toNat))))
    (Duration.seconds releaseTimestamp)

/-- The deliveries after `start` and not after `now`. -/
def deliveriesSince (input : PolicyInput) (seconds : UInt32) : List DateTime :=
  input.recentDeliveryTimes.filter fun delivery =>
    input.now - Duration.seconds seconds.toNat < delivery ∧ delivery ≤ input.now

/-- The pause covers the moment of the decision or that of the event. -/
def isPaused (input : PolicyInput) : Bool :=
  input.notificationPause.any fun pause =>
    pauseContains pause input.now ∨ pauseContains pause input.event.occurredAt

/-- The cool-down, the limit of the window and the mode of the rule, in this order. -/
def deliveryDecision (input : PolicyInput) : PolicyDecision :=
  let delivery := input.rule.delivery
  if delivery.cooldownSeconds > 0 ∧ deliveriesSince input delivery.cooldownSeconds ≠ [] then
    .suppress .cooldown
  else if (deliveriesSince input delivery.windowSeconds).length ≥ delivery.maxPerWindow.toNat then
    .suppress .windowLimit
  else
    match delivery.mode with
    | .immediate => .sendNow
    | .aggregate windowSeconds =>
      if input.event.sourceEvent = "PermissionRequest" then .sendNow
      else if windowSeconds > 0 then aggregateDecision sv input windowSeconds.toNat
      else .sendNow

def evaluatePolicy (input : PolicyInput) : PolicyDecision :=
  if input.capability.sourceEvent ≠ input.event.sourceEvent then
    .suppress .unsupportedCapability
  else if !input.rule.enabled then .suppress .disabled
  else if !matchesFilters input.event input.rule.filters then .suppress .filterMismatch
  else if Duration.seconds input.rule.delivery.ttlSeconds.toNat ≤ input.now - input.event.occurredAt
  then .expire
  else if isPaused input then .suppress .globalPause
  else
    match quietDecision input with
    | some decision => decision
    | none => deliveryDecision sv input

/-! ## Deferral -/

theorem LocalTime.toUtc_localTime (now : DateTime) (offset : FixedOffset) :
    (localTime now offset).toUtc offset = now := by
  simp only [LocalTime.toUtc, localTime, Duration.days]
  have h := Int.mul_ediv_add_emod (now + Duration.seconds offset) (Duration.seconds 86400)
  simp only [Duration.seconds] at h ⊢
  dsimp only [DateTime, FixedOffset, Duration] at *
  omega

/-- The end of the quiet period lies after every time in it. -/
theorem quietEnd_gt {now : DateTime} {offset : FixedOffset} {start stop : NaiveTime} (hstop : 0 ≤ stop)
    (h : (quietMembership (localTime now offset).time (localTime now offset).weekday start stop).1 =
      true) :
    now < (quietEnd (localTime now offset) start stop).toUtc offset := by
  have htime : (localTime now offset).time < Duration.days 1 :=
    Int.emod_lt_of_pos _ (by decide)
  have hnow := LocalTime.toUtc_localTime now offset
  generalize localTime now offset = t at h hnow htime ⊢
  subst hnow
  simp only [LocalTime.toUtc, quietEnd, Duration.days, Duration.seconds] at htime ⊢
  unfold quietMembership at h
  dsimp only [DateTime, NaiveTime, FixedOffset, Duration] at *
  split at h
  · rename_i hlt
    rw [if_neg (by omega)]
    simp only [Bool.decide_and, Bool.and_eq_true, decide_eq_true_eq] at h
    omega
  split at h
  · rename_i hgt
    split at h
    · rename_i hge
      rw [if_pos (.inl ⟨by omega, hge⟩)]
      omega
    · split at h
      · rw [if_neg (by omega)]
        omega
      · cases h
  · rw [if_pos (.inr (by omega))]
    omega

/-! ## Where a decision comes from -/

/-- Quiet hours suppress, or defer to a time that lies in the future. -/
theorem quietDecision_cases {input : PolicyInput} (h : quietDecision input = some decision) :
    decision = .suppress .quietHours ∨
      ∃ t, decision = .deferUntil t ∧ input.rule.delivery.quietBehavior = .defer ∧ input.now < t := by
  unfold quietDecision at h
  obtain ⟨quiet, -, h⟩ := Option.bind_eq_some_iff.mp h
  split at h
  · cases h
  obtain ⟨start, -, h⟩ := Option.bind_eq_some_iff.mp h
  obtain ⟨stop, hstop, h⟩ := Option.bind_eq_some_iff.mp h
  simp only at h
  split at h
  · cases h
  rename_i hin
  split at h
  · exact .inl (Option.some.inj h).symm
  · rename_i hdefer
    refine .inr ⟨_, (Option.some.inj h).symm, hdefer, quietEnd_gt (parseQuietTime_lt hstop).1 ?_⟩
    by_contra hne
    exact hin (.inl (by simpa using hne))

theorem quietDecision_deferUntil {input : PolicyInput}
    (h : quietDecision input = some (.deferUntil t)) :
    input.rule.delivery.quietBehavior = .defer ∧ input.now < t := by
  obtain h | ⟨t', h, hdefer, hnow⟩ := quietDecision_cases h
  · cases h
  · cases h
    exact ⟨hdefer, hnow⟩

variable {sv} in
/-- Past the two limits, an event goes out at once or with the others of its window. -/
theorem deliveryDecision_cases {input : PolicyInput} (h : deliveryDecision sv input = decision) :
    decision = .suppress .cooldown ∨ decision = .suppress .windowLimit ∨ decision = .sendNow ∨
      ∃ windowSeconds : UInt32, input.rule.delivery.mode = .aggregate windowSeconds ∧
        0 < windowSeconds ∧ decision = aggregateDecision sv input windowSeconds.toNat := by
  unfold deliveryDecision at h
  simp only at h
  split at h
  · exact .inl h.symm
  split at h
  · exact .inr (.inl h.symm)
  split at h
  · exact .inr (.inr (.inl h.symm))
  · rename_i windowSeconds hmode
    split at h
    · exact .inr (.inr (.inl h.symm))
    split at h
    · rename_i hpos
      exact .inr (.inr (.inr ⟨windowSeconds, hmode, hpos, h.symm⟩))
    · exact .inr (.inr (.inl h.symm))

variable {sv} in
/-- The checks in front of the quiet hours suppress or expire. -/
theorem evaluatePolicy_cases {input : PolicyInput} (h : evaluatePolicy sv input = decision) :
    (∃ reason, decision = .suppress reason) ∨ decision = .expire ∨
      quietDecision input = some decision ∨ deliveryDecision sv input = decision := by
  unfold evaluatePolicy at h
  split at h
  · exact .inl ⟨_, h.symm⟩
  split at h
  · exact .inl ⟨_, h.symm⟩
  split at h
  · exact .inl ⟨_, h.symm⟩
  split at h
  · exact .inr (.inl h.symm)
  split at h
  · exact .inl ⟨_, h.symm⟩
  split at h
  · rename_i hquiet
    exact .inr (.inr (.inl (h ▸ hquiet)))
  · exact .inr (.inr (.inr h))

/-- **Deferral looks ahead.** `DeferUntil t` is decided only by quiet hours with `defer`, and `t`
is after the moment of the decision. -/
theorem evaluatePolicy_deferUntil {input : PolicyInput}
    (h : evaluatePolicy sv input = .deferUntil t) :
    input.rule.delivery.quietBehavior = .defer ∧ input.now < t := by
  obtain ⟨_, h⟩ | h | hquiet | hdelivery := evaluatePolicy_cases h
  · cases h
  · cases h
  · exact quietDecision_deferUntil hquiet
  · obtain h | h | h | ⟨_, _, _, h⟩ := deliveryDecision_cases hdelivery
    · cases h
    · cases h
    · cases h
    · cases h

variable {sv} in
/-- An event is aggregated in the mode of its rule, for the window that it has. -/
theorem evaluatePolicy_aggregate {input : PolicyInput}
    (h : evaluatePolicy sv input = .aggregate key releaseAt) :
    ∃ windowSeconds : UInt32, input.rule.delivery.mode = .aggregate windowSeconds ∧
      0 < windowSeconds ∧ aggregateDecision sv input windowSeconds.toNat = .aggregate key releaseAt := by
  obtain ⟨_, h⟩ | h | hquiet | hdelivery := evaluatePolicy_cases h
  · cases h
  · cases h
  · obtain h | ⟨_, h, _⟩ := quietDecision_cases hquiet
    · cases h
    · cases h
  · obtain h | h | h | ⟨windowSeconds, hmode, hpos, h⟩ := deliveryDecision_cases hdelivery
    · cases h
    · cases h
    · cases h
    · exact ⟨windowSeconds, hmode, hpos, h.symm⟩

end CcReminder
