import CcReminder.Rules.Policy
import CcReminder.Rules.Validate

/-!
# The end of quiet hours

`QuietOn` says what quiet hours are, by the day on which a period begins: it ends on that day, on
the next one when it crosses midnight, and it is the whole day when it starts and stops at one
time. `quiet_membership` decides that, and `quiet_end` is the end of the period except in the last
case, where it is `end` on the next day.
-/

set_option autoImplicit true

namespace CcReminder

/-- The weekday of a day, from Monday. -/
def weekdayOf (day : Int) : UInt8 := UInt8.ofNat ((day + 3) % 7 + 1).toNat

/-- The quiet period that begins on `day` contains the local time `t`. -/
def QuietOn (start stop : NaiveTime) (day : Int) (t : LocalTime) : Prop :=
  if start < stop then t.day = day ∧ start ≤ t.time ∧ t.time < stop
  else if stop < start then t.day = day ∧ start ≤ t.time ∨ t.day = day + 1 ∧ t.time < stop
  else t.day = day

/-! ## The calendar -/

theorem LocalTime.weekday_eq (t : LocalTime) : t.weekday = weekdayOf t.day := rfl

theorem weekdayOf_toNat (day : Int) : ((weekdayOf day).toNat : Int) = (day + 3) % 7 + 1 := by
  have h := Int.emod_nonneg (day + 3) (show (7 : Int) ≠ 0 by decide)
  have h' := Int.emod_lt_of_pos (day + 3) (show (0 : Int) < 7 by decide)
  rw [weekdayOf, UInt8.toNat_ofNat']
  omega

/-- The weekday before that of a day. -/
theorem weekdayOf_pred (day : Int) :
    (if weekdayOf day = 1 then 7 else weekdayOf day - 1) = weekdayOf (day - 1) := by
  have h := weekdayOf_toNat day
  have h' := weekdayOf_toNat (day - 1)
  split
  · rename_i hone
    rw [hone] at h
    refine UInt8.toNat_inj.mp ?_
    have hseven : (7 : UInt8).toNat = 7 := rfl
    have hone : (1 : UInt8).toNat = 1 := rfl
    omega
  · rename_i hne
    have hle : (1 : UInt8) ≤ weekdayOf day := by
      rw [UInt8.le_iff_toNat_le]
      have hone : (1 : UInt8).toNat = 1 := rfl
      omega
    have hpos : (weekdayOf day).toNat ≠ 1 := fun h => hne (UInt8.toNat_inj.mp h)
    refine UInt8.toNat_inj.mp ?_
    rw [UInt8.toNat_sub_of_le _ _ hle]
    have hone : (1 : UInt8).toNat = 1 := rfl
    omega

theorem localTime_bounds (now : DateTime) (offset : FixedOffset) :
    0 ≤ (localTime now offset).time ∧ (localTime now offset).time < Duration.days 1 :=
  ⟨Int.emod_nonneg _ (by decide), Int.emod_lt_of_pos _ (by decide)⟩

theorem localTime_toUtc {t : LocalTime} (h : 0 ≤ t.time ∧ t.time < Duration.days 1) :
    localTime (t.toUtc offset) offset = t := by
  obtain ⟨day, time⟩ := t
  have heq : (LocalTime.mk day time).toUtc offset + Duration.seconds offset =
      time + Duration.days 1 * day := by
    simp only [LocalTime.toUtc, Duration.days, Duration.seconds]
    dsimp only [DateTime, NaiveTime, FixedOffset, Duration] at *
    omega
  simp only [localTime, heq, LocalTime.mk.injEq]
  exact ⟨by rw [Int.add_mul_ediv_left _ _ (by decide), Int.ediv_eq_zero_of_lt h.1 h.2, zero_add],
    by rw [Int.add_mul_emod_self_left, Int.emod_eq_of_lt h.1 h.2]⟩

/-- Two instants compare as their local times. -/
theorem localTime_le_iff {x y : DateTime} (offset : FixedOffset) : x ≤ y ↔
    (localTime x offset).day < (localTime y offset).day ∨
      (localTime x offset).day = (localTime y offset).day ∧
        (localTime x offset).time ≤ (localTime y offset).time := by
  have hx := LocalTime.toUtc_localTime x offset
  have hy := LocalTime.toUtc_localTime y offset
  obtain ⟨hx₀, hx₁⟩ := localTime_bounds x offset
  obtain ⟨hy₀, hy₁⟩ := localTime_bounds y offset
  generalize localTime x offset = s at *
  generalize localTime y offset = t at *
  subst hx hy
  simp only [LocalTime.toUtc, Duration.days, Duration.seconds] at *
  dsimp only [DateTime, NaiveTime, FixedOffset, Duration] at *
  omega

/-! ## Membership -/

/-- `quiet_membership` finds the day on which the period of a time began. -/
theorem quietMembership_iff {t : LocalTime} {allowed : UInt8 → Bool} :
    ((quietMembership t.time t.weekday start stop).1 = true ∧
      allowed (quietMembership t.time t.weekday start stop).2 = true) ↔
    ∃ day, QuietOn start stop day t ∧ allowed (weekdayOf day) = true := by
  unfold quietMembership QuietOn
  rw [LocalTime.weekday_eq]
  rcases lt_trichotomy start stop with hlt | heq | hgt
  · simp only [if_pos hlt, Bool.decide_and, Bool.and_eq_true, decide_eq_true_eq]
    constructor
    · rintro ⟨hin, hw⟩
      exact ⟨t.day, ⟨rfl, hin⟩, hw⟩
    · rintro ⟨_, ⟨rfl, hin⟩, hw⟩
      exact ⟨hin, hw⟩
  · subst heq
    simp
  · simp only [if_neg (not_lt.mpr hgt.le), if_pos hgt, gt_iff_lt]
    by_cases hge : start ≤ t.time
    · have hnot : ¬t.time < stop := not_lt.mpr (hgt.le.trans hge)
      rw [if_pos hge]
      simp only [hge, hnot, and_true, and_false, or_false, true_and]
      exact ⟨fun hw => ⟨t.day, rfl, hw⟩, fun ⟨_, hd, hw⟩ => hd ▸ hw⟩
    · rw [if_neg hge]
      simp only [hge, and_false, false_or]
      by_cases hlt : t.time < stop
      · rw [if_pos hlt, weekdayOf_pred]
        simp only [hlt, and_true, true_and]
        constructor
        · exact fun hw => ⟨t.day - 1, by omega, hw⟩
        · rintro ⟨day, hday, hw⟩
          rwa [show t.day - 1 = day by omega]
      · simp [hlt]

/-! ## The rule -/

/-- The quiet hours of a rule that hold for the event, with their parsed times. -/
structure QuietPeriod (input : PolicyInput) (quiet : QuietHours) (start stop : NaiveTime) :
    Prop where
  rule : input.rule.quietHours = some quiet
  heeded : bypassesQuiet quiet input.event.severity = false
  starts : parseQuietTime quiet.startLocal = some start
  stops : parseQuietTime quiet.endLocal = some stop

/-- Quiet hours are active at `x`, because of the period that begins on `day`. -/
def QuietAt (input : PolicyInput) (day : Int) (x : DateTime) : Prop :=
  ∃ quiet start stop, QuietPeriod input quiet start stop ∧
    QuietOn start stop day (localTime x input.localOffset) ∧
    quiet.weekdays.contains (weekdayOf day) = true

def QuietActive (input : PolicyInput) (x : DateTime) : Prop := ∃ day, QuietAt input day x

/-- What active quiet hours decide. -/
def quietOutcome (input : PolicyInput) (start stop : NaiveTime) : PolicyDecision :=
  match input.rule.delivery.quietBehavior with
  | .suppress => .suppress .quietHours
  | .defer => .deferUntil
    ((quietEnd (localTime input.now input.localOffset) start stop).toUtc input.localOffset)

theorem QuietPeriod.unique {input : PolicyInput} (h : QuietPeriod input quiet start stop)
    (h' : QuietPeriod input quiet' start' stop') :
    quiet' = quiet ∧ start' = start ∧ stop' = stop := by
  obtain rfl : quiet' = quiet := Option.some.inj (h'.rule.symm.trans h.rule)
  exact ⟨rfl, Option.some.inj (h'.starts.symm.trans h.starts),
    Option.some.inj (h'.stops.symm.trans h.stops)⟩

theorem QuietPeriod.quietAt_iff {input : PolicyInput} (h : QuietPeriod input quiet start stop) :
    QuietAt input day x ↔ QuietOn start stop day (localTime x input.localOffset) ∧
      quiet.weekdays.contains (weekdayOf day) = true := by
  constructor
  · rintro ⟨quiet', start', stop', h', hon, hw⟩
    obtain ⟨rfl, rfl, rfl⟩ := h.unique h'
    exact ⟨hon, hw⟩
  · exact fun hx => ⟨quiet, start, stop, h, hx⟩

/-- Quiet hours decide something exactly while they are active. -/
theorem QuietPeriod.quietDecision {input : PolicyInput} (h : QuietPeriod input quiet start stop) :
    (QuietActive input input.now → quietDecision input = some (quietOutcome input start stop)) ∧
      (¬QuietActive input input.now → quietDecision input = none) := by
  have hactive : QuietActive input input.now ↔ ∃ day,
      QuietOn start stop day (localTime input.now input.localOffset) ∧
        quiet.weekdays.contains (weekdayOf day) = true :=
    exists_congr fun day => h.quietAt_iff
  rw [hactive, ← quietMembership_iff]
  simp only [CcReminder.quietDecision, h.rule, h.heeded, h.starts, h.stops, Option.bind_eq_bind,
    Option.bind_some, Bool.false_eq_true, if_false]
  constructor
  · rintro ⟨hin, hw⟩
    rw [if_neg (by rw [hin, hw]; decide), quietOutcome]
    cases input.rule.delivery.quietBehavior <;> rfl
  · intro hnot
    refine if_pos ?_
    rw [Bool.not_eq_true', Bool.not_eq_true', ← Bool.not_eq_true, ← Bool.not_eq_true]
    exact not_and_or.mp hnot

/-- Without quiet hours that hold for the event nothing is decided. -/
theorem quietDecision_eq_none {input : PolicyInput}
    (h : ∀ quiet start stop, ¬QuietPeriod input quiet start stop) : quietDecision input = none := by
  unfold quietDecision
  cases hrule : input.rule.quietHours with
  | none => rfl
  | some quiet =>
    cases hheeded : bypassesQuiet quiet input.event.severity with
    | true => simp [hheeded]
    | false =>
      cases hstart : parseQuietTime quiet.startLocal with
      | none => simp [hheeded, hstart]
      | some start =>
        cases hstop : parseQuietTime quiet.endLocal with
        | none => simp [hheeded, hstart, hstop]
        | some stop => exact absurd ⟨hrule, hheeded, hstart, hstop⟩ (h quiet start stop)

/-- **Quiet hours end.** Active quiet hours with deferral put the event off until a later time up to
which they stay active, and at which the period that is under way is over; quiet hours that are not
active decide nothing. -/
structure QuietHoursEnd (input : PolicyInput) : Prop where
  active : ∀ day, QuietAt input day input.now → input.rule.delivery.quietBehavior = .defer →
    ∃ t, quietDecision input = some (.deferUntil t) ∧ input.now < t ∧
      (∀ x, input.now ≤ x → x < t → QuietActive input x) ∧ ¬QuietAt input day t
  inactive : ¬QuietActive input input.now → quietDecision input = none

/-- Quiet hours that last the whole day, and are deferred past midnight, are on for the next day
too. -/
def NextDayQuiet (input : PolicyInput) : Prop :=
  ∀ quiet start stop, QuietPeriod input quiet start stop → start = stop → 0 < stop →
    QuietActive input input.now → input.rule.delivery.quietBehavior = .defer →
    quiet.weekdays.contains (weekdayOf ((localTime input.now input.localOffset).day + 1)) = true

/-- The end that `quiet_end` computes, as a local time. -/
theorem localTime_quietEnd {now : LocalTime} (hstop : parseQuietTime text = some stop) :
    localTime ((quietEnd now start stop).toUtc offset) offset = quietEnd now start stop :=
  localTime_toUtc (parseQuietTime_lt hstop)

/-- The period under way is over at its end. -/
theorem not_quietOn_quietEnd {now : LocalTime} (h : QuietOn start stop day now) :
    ¬QuietOn start stop day (quietEnd now start stop) := by
  unfold QuietOn quietEnd at *
  dsimp only [NaiveTime, Duration] at *
  split at h
  · rename_i hlt
    rw [if_pos hlt]
    omega
  split at h
  · rename_i hle hgt
    rw [if_neg hle, if_pos hgt]
    split <;> omega
  · rename_i hle hge
    rw [if_neg hle, if_neg hge]
    split <;> omega

/-- Up to its end a period that is not a whole day goes on. -/
theorem quietOn_until {now t : LocalTime} (h : QuietOn start stop day now) (hne : start ≠ stop)
    (hfrom : now.day < t.day ∨ now.day = t.day ∧ now.time ≤ t.time)
    (hto : ¬((quietEnd now start stop).day < t.day ∨
      (quietEnd now start stop).day = t.day ∧ (quietEnd now start stop).time ≤ t.time)) :
    QuietOn start stop day t := by
  unfold QuietOn quietEnd at *
  dsimp only [NaiveTime, Duration] at *
  split at h
  · rename_i hlt
    rw [if_pos hlt]
    rw [if_neg (by omega)] at hto
    omega
  split at h
  · rename_i hle hgt
    rw [if_neg hle, if_pos hgt]
    split at hto <;> omega
  · omega

theorem QuietPeriod.decides {input : PolicyInput} (h : QuietPeriod input quiet start stop)
    (hday : QuietAt input day input.now) (hdefer : input.rule.delivery.quietBehavior = .defer) :
    CcReminder.quietDecision input = some (.deferUntil
      ((quietEnd (localTime input.now input.localOffset) start stop).toUtc input.localOffset)) := by
  rw [h.quietDecision.1 ⟨day, hday⟩, quietOutcome, hdefer]

/-- When whole-day quiet hours are deferred past midnight, the instant at midnight is quiet because
of the next day. -/
theorem QuietHoursEnd.nextDayQuiet {input : PolicyInput} (hends : QuietHoursEnd input) :
    NextDayQuiet input := by
  rintro quiet start stop h rfl hpos ⟨day, hday⟩ hdefer
  obtain ⟨t, hdec, -, hall, -⟩ := hends.active day hday hdefer
  obtain rfl : _ = t :=
    PolicyDecision.deferUntil.inj (Option.some.inj ((h.decides hday hdefer).symm.trans hdec))
  let midnight : LocalTime := ⟨(localTime input.now input.localOffset).day + 1, 0⟩
  have hmid : localTime (midnight.toUtc input.localOffset) input.localOffset = midnight :=
    localTime_toUtc ⟨le_rfl, show (0 : Int) < Duration.days 1 by decide⟩
  have hfrom : input.now ≤ midnight.toUtc input.localOffset := by
    rw [localTime_le_iff input.localOffset, hmid]
    exact .inl (Int.lt_succ _)
  have hto : midnight.toUtc input.localOffset <
      (quietEnd (localTime input.now input.localOffset) start start).toUtc input.localOffset := by
    rw [← not_le, localTime_le_iff input.localOffset, hmid, localTime_quietEnd h.stops]
    simp only [quietEnd, ge_iff_le, le_refl, or_true, if_true, midnight, true_and, lt_irrefl,
      false_or, not_le]
    exact hpos
  obtain ⟨day', hday'⟩ := hall _ hfrom hto
  obtain ⟨hon, hw⟩ := h.quietAt_iff.mp hday'
  rw [hmid] at hon
  obtain rfl : midnight.day = day' := by simpa [QuietOn] using hon
  exact hw

/-- Every instant from now up to the end is quiet. -/
theorem QuietPeriod.active_until {input : PolicyInput} (h : QuietPeriod input quiet start stop)
    (hnext : NextDayQuiet input) (hday : QuietAt input day input.now)
    (hdefer : input.rule.delivery.quietBehavior = .defer) (hfrom : input.now ≤ x)
    (hto : x < (quietEnd (localTime input.now input.localOffset) start stop).toUtc
      input.localOffset) : QuietActive input x := by
  have hon := h.quietAt_iff.mp hday
  rw [localTime_le_iff input.localOffset] at hfrom
  rw [← not_le, localTime_le_iff input.localOffset, localTime_quietEnd h.stops] at hto
  by_cases hne : start = stop
  · subst hne
    obtain rfl : (localTime input.now input.localOffset).day = day := by
      simpa [QuietOn] using hon.1
    simp only [quietEnd, ge_iff_le, le_refl, or_true, if_true] at hto
    refine ⟨(localTime x input.localOffset).day, h.quietAt_iff.mpr ⟨by simp [QuietOn], ?_⟩⟩
    rcases hfrom with hlater | ⟨hsame, -⟩
    · -- the day after, before `end`
      have htime := (localTime_bounds x input.localOffset).1
      have hpos : 0 < start := by
        dsimp only [NaiveTime, Duration] at *
        omega
      have hlast : (localTime x input.localOffset).day =
          (localTime input.now input.localOffset).day + 1 := by omega
      rw [hlast]
      exact hnext quiet start start h rfl hpos ⟨_, hday⟩ hdefer
    · rw [← hsame]
      exact hon.2
  · exact ⟨day, h.quietAt_iff.mpr ⟨quietOn_until hon.1 hne hfrom hto, hon.2⟩⟩

/-- **Quiet hours end right exactly when the day after whole-day quiet hours is quiet too.** -/
theorem quietHoursEnd_iff {input : PolicyInput} : QuietHoursEnd input ↔ NextDayQuiet input := by
  refine ⟨(·.nextDayQuiet), fun hnext => ⟨?_, fun hnot => ?_⟩⟩
  · rintro day ⟨quiet, start, stop, h, hday⟩ hdefer
    have hat : QuietAt input day input.now := ⟨quiet, start, stop, h, hday⟩
    refine ⟨_, h.decides hat hdefer, (quietDecision_deferUntil (h.decides hat hdefer)).2,
      fun x => h.active_until hnext hat hdefer, fun hafter => ?_⟩
    have hover := h.quietAt_iff.mp hafter
    rw [localTime_quietEnd h.stops] at hover
    exact not_quietOn_quietEnd hday.1 hover.1
  · by_cases hex : ∃ quiet start stop, QuietPeriod input quiet start stop
    · obtain ⟨quiet, start, stop, h⟩ := hex
      exact h.quietDecision.2 hnot
    · exact quietDecision_eq_none fun quiet start stop h => hex ⟨quiet, start, stop, h⟩

/-- Quiet from 22:00 to 22:00 on Mondays, with deferral. -/
def mondays : RuleConfig :=
  let rule := defaultRule .claudeCode "Stop"
  { rule with
    delivery := { rule.delivery with quietBehavior := .defer }
    quietHours := some
      { startLocal := "22:00", endLocal := "22:00", weekdays := [1], bypassAtOrAbove := none } }

/-- A Monday at 10:00. -/
def mondayMorning : PolicyInput where
  event := {
    id := 1, source := .claudeCode, sourceVersion := { major := 2, minor := 0, patch := 0 },
    sourceEvent := "Stop", category := .completion, occurredAt := 0, receivedAt := 0,
    projectId := none, projectDisplayName := none, unmatchedCwdFingerprint := none,
    sessionRef := none, turnRef := none, model := none, permissionMode := none,
    severity := .info, publicFields := [], encryptedSensitiveFields := none,
    correlationId := 1, actionId := none, actionCapabilities := [] }
  capability := {
    sourceEvent := "Stop", labelZh := "", category := .completion, phase := "", inputFields := [] }
  rule := mondays
  notificationPause := none
  now := Duration.days 4 + Duration.minutes 600
  localOffset := 0
  recentDeliveryTimes := []

/-- On Monday morning an event is put off until Tuesday at 22:00, though Tuesdays are not quiet. -/
theorem quietHoursEnd_mondays : validateRule mondayMorning.rule = .ok () ∧
    ¬QuietHoursEnd mondayMorning := by
  have h : QuietPeriod mondayMorning
      { startLocal := "22:00", endLocal := "22:00", weekdays := [1], bypassAtOrAbove := none }
      (Duration.minutes 1320) (Duration.minutes 1320) :=
    ⟨rfl, rfl, by decide +kernel, by decide +kernel⟩
  refine ⟨by decide +kernel, fun hends => ?_⟩
  have hactive : QuietActive mondayMorning mondayMorning.now :=
    ⟨4, h.quietAt_iff.mpr ⟨by rw [QuietOn, if_neg (lt_irrefl _), if_neg (lt_irrefl _)]; decide +kernel,
      by decide +kernel⟩⟩
  exact absurd (hends.nextDayQuiet _ _ _ h rfl (by decide) hactive rfl) (by decide +kernel)

end CcReminder
