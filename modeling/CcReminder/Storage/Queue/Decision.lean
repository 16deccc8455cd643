import CcReminder.Channels.Http
import CcReminder.Storage.Queue.Retry
import Mathlib.Data.Rat.Floor

/-!
# Retry decisions

`RetryPolicy::classify` with the arithmetic of chrono, in which an instant outside the calendar is a
panic, and a jitter that is drawn as a number below one. What the adapters make of a `Retry-After`
header (`channels/http.rs`) bounds the delay that a server can ask for.
-/

set_option autoImplicit true

namespace CcReminder

/-- The first and the last instant of chrono's calendar, in the years -262143 and 262142. -/
def MIN_UTC : DateTime := Duration.seconds (-8334601228800)
def MAX_UTC : DateTime := Duration.seconds 8210266876799 + 999999999

/-- `DateTime + Duration`, or `none` where that panics. -/
def checkedAdd (t : DateTime) (d : Duration) : Option DateTime :=
  if MIN_UTC ≤ t + d ∧ t + d ≤ MAX_UTC then some (t + d) else none

/-- `Duration::seconds`, or `none` where that panics. -/
def Duration.checkedSeconds (n : Int) : Option Duration :=
  if -((2 ^ 63 - 1) / 1000) ≤ n ∧ n ≤ (2 ^ 63 - 1) / 1000 then some (.seconds n) else none

/-! ## Samples -/

/-- What the generator of random numbers returns. -/
structure JitterSample where
  value : ℚ
  nonneg : 0 ≤ value
  lt_one : value < 1

/-- The product with the sample, rounded half away from zero. -/
def JitterSample.delay (q : JitterSample) (cap : Nat) : Nat := ⌊(cap : ℚ) * q.value + 1 / 2⌋.toNat

theorem JitterSample.delay_le (q : JitterSample) (cap : Nat) : q.delay cap ≤ cap := by
  have hle : (cap : ℚ) * q.value ≤ cap := mul_le_of_le_one_right (Nat.cast_nonneg cap) q.lt_one.le
  have hfloor : ⌊(cap : ℚ) * q.value + 1 / 2⌋ < (cap : Int) + 1 := by
    rw [Int.floor_lt]
    push_cast
    linarith
  unfold delay
  omega

def JitterSample.toJitter (q : JitterSample) : Jitter := { delay := q.delay, delay_le := q.delay_le }

namespace RetryPolicy

/-- The default policy, with the sample that it draws. -/
def sampled (q : JitterSample) : RetryPolicy := { jitter := q.toJitter }

def checkedNextAttemptAt (policy : RetryPolicy) (classifiedAt : DateTime)
    (attemptsCompleted : UInt8) (error : DeliveryError) : Option DateTime :=
  match error.retryAfterSeconds.filter fun seconds => 0 < seconds with
  | some seconds => do
    let retryAfter ← Duration.checkedSeconds (asI64 seconds)
    checkedAdd classifiedAt retryAfter
  | none =>
    checkedAdd classifiedAt
      (Duration.milliseconds (policy.jitter.delay (policy.cappedBackoff attemptsCompleted)))

/-- `classify`, or `none` where it panics. -/
def checkedClassify (policy : RetryPolicy) (attempt : AttemptInput) (error : DeliveryError) :
    Option RetryDecision :=
  if attempt.expiresAt ≤ attempt.classifiedAt then some .expire
  else if !isRetryable error then some .fail
  else if attempt.attempts ≥ policy.maxAttempts then some .fail
  else do
    let time ← policy.checkedNextAttemptAt attempt.classifiedAt attempt.attempts error
    pure (if time > attempt.expiresAt then .expire else .retryAt time)

/-- What a decision says, about a delay that is at most an hour. -/
structure Sound (q : JitterSample) (attempt : AttemptInput) (error : DeliveryError)
    (decision : RetryDecision) : Prop where
  /-- A retry is for a retryable error, below the last attempt and not after the expiry. -/
  retryAt : ∀ t, decision = .retryAt t → isRetryable error ∧ attempt.attempts < MAX_ATTEMPTS ∧
    t ≤ attempt.expiresAt
  /-- The server's delay is taken as it is. -/
  retryAfter : ∀ t seconds, decision = .retryAt t → error.retryAfterSeconds = some seconds →
    0 < seconds → t = attempt.classifiedAt + Duration.seconds seconds.toNat
  /-- Without one, the delay is within the backoff. -/
  backoff : ∀ t, decision = .retryAt t → (∀ seconds, error.retryAfterSeconds = some seconds → seconds = 0) →
    0 ≤ t - attempt.classifiedAt ∧ t - attempt.classifiedAt ≤
      min (Duration.minutes 5) (Duration.seconds 2 * 2 ^ (max attempt.attempts.toNat 1 - 1))
  expired : attempt.expiresAt ≤ attempt.classifiedAt → decision = .expire
  late : isRetryable error → attempt.attempts < MAX_ATTEMPTS →
    attempt.expiresAt < (sampled q).nextAttemptAt attempt.classifiedAt attempt.attempts error →
    decision = .expire

/-- An error of an adapter, whose response may have had a `Retry-After` header. -/
def FromAdapter (error : DeliveryError) : Prop :=
  ∃ header : Option String, error.retryAfterSeconds = header.bind parseRetryAfter

theorem FromAdapter.le {error : DeliveryError} (h : FromAdapter error) {seconds : UInt64}
    (hseconds : error.retryAfterSeconds = some seconds) : seconds.toNat ≤ 3600 := by
  obtain ⟨header, hheader⟩ := h
  rw [hseconds] at hheader
  obtain ⟨text, -, htext⟩ := Option.bind_eq_some_iff.mp hheader.symm
  exact parseRetryAfter_le htext

variable {q : JitterSample} {attempt : AttemptInput} {error : DeliveryError}

/-- A delay of seconds fits, and it does not become negative. -/
theorem checkedSeconds_asI64 {seconds : UInt64} (h : seconds.toNat ≤ 3600) :
    Duration.checkedSeconds (asI64 seconds) = some (Duration.seconds seconds.toNat) ∧
      Duration.seconds (asI64 seconds) = Duration.seconds seconds.toNat := by
  have hcast : asI64 seconds = seconds.toNat := if_pos (by omega)
  rw [hcast]
  exact ⟨if_pos (by omega), rfl⟩

/-- The computed time, and how it is computed: from a delay that the server asked for, or from the
backoff. -/
theorem nextAttemptAt_cases (h : FromAdapter error) (t : DateTime) (n : UInt8) :
    let time := (sampled q).nextAttemptAt t n error
    (sampled q).checkedNextAttemptAt t n error = (if MIN_UTC ≤ time ∧ time ≤ MAX_UTC then some time else none) ∧
      ((∃ seconds, error.retryAfterSeconds = some seconds ∧ 0 < seconds ∧
          time = t + Duration.seconds seconds.toNat) ∨
        (∀ seconds, error.retryAfterSeconds = some seconds → seconds = 0) ∧
          time = t + Duration.milliseconds (q.delay ((sampled q).cappedBackoff n))) := by
  unfold nextAttemptAt checkedNextAttemptAt retryAfterDuration
  cases hseconds : error.retryAfterSeconds with
  | none => exact ⟨rfl, .inr ⟨nofun, rfl⟩⟩
  | some seconds =>
    by_cases hpos : 0 < seconds
    · obtain ⟨hchecked, hcast⟩ := checkedSeconds_asI64 (h.le hseconds)
      simp only [Option.filter_some, decide_eq_true hpos, if_true, Option.map_some, hchecked, hcast,
        Option.bind_eq_bind, Option.bind_some]
      exact ⟨rfl, .inl ⟨seconds, rfl, hpos, rfl⟩⟩
    · simp only [Option.filter_some, decide_eq_false hpos, Bool.false_eq_true, if_false,
        Option.map_none]
      refine ⟨rfl, .inr ⟨fun s hs => ?_, rfl⟩⟩
      cases hs
      exact UInt64.toNat_inj.mp (Nat.eq_zero_of_not_pos hpos)

/-- The backoff doubles from two seconds on, up to five minutes. -/
theorem cappedBackoff_le (n : UInt8) :
    Duration.milliseconds ((sampled q).cappedBackoff n) ≤
      min (Duration.minutes 5) (Duration.seconds 2 * 2 ^ (max n.toNat 1 - 1)) := by
  have hbase : ((sampled q).base / 1000000).toNat = 2000 := rfl
  have hcap : ((sampled q).cap / 1000000).toNat = 300000 := rfl
  rw [cappedBackoff, hbase, hcap]
  generalize max n.toNat 1 - 1 = e
  have hmultiplier : (if 2 ^ e < 2 ^ 63 then 2 ^ e else 2 ^ 63 - 1) ≤ 2 ^ e := by
    split <;> omega
  generalize (if 2 ^ e < 2 ^ 63 then 2 ^ e else 2 ^ 63 - 1) = multiplier at hmultiplier ⊢
  have hpow : ((2 : Int) ^ e) = ((2 ^ e : Nat) : Int) := by push_cast; rfl
  rw [hpow]
  generalize 2 ^ e = power at hmultiplier ⊢
  simp only [Duration, Duration.milliseconds, Duration.minutes, Duration.seconds]
  omega

theorem nextAttemptAt_ge (h : FromAdapter error) (t : DateTime) (n : UInt8) :
    t ≤ (sampled q).nextAttemptAt t n error := by
  obtain ⟨-, ⟨seconds, -, -, htime⟩ | ⟨-, htime⟩⟩ := nextAttemptAt_cases (q := q) h t n <;>
    rw [htime]
  · simp only [DateTime, Duration, Duration.seconds]
    omega
  · simp only [DateTime, Duration, Duration.milliseconds]
    omega

/-- **Deciding.** The decision is sound, and there is one unless the job is still alive, may be
retried and the time of the retry is after the end of the calendar. -/
theorem checkedClassify_sound (q : JitterSample) (attempt : AttemptInput) (error : DeliveryError)
    (hclock : MIN_UTC ≤ attempt.classifiedAt) (herror : FromAdapter error) :
    ((sampled q).checkedClassify attempt error = none ↔
      attempt.classifiedAt < attempt.expiresAt ∧ isRetryable error ∧
        attempt.attempts < MAX_ATTEMPTS ∧
        MAX_UTC < (sampled q).nextAttemptAt attempt.classifiedAt attempt.attempts error) ∧
    ∀ decision, (sampled q).checkedClassify attempt error = some decision →
      Sound q attempt error decision := by
  obtain ⟨hchecked, htime⟩ := nextAttemptAt_cases (q := q) herror attempt.classifiedAt attempt.attempts
  have hge := nextAttemptAt_ge (q := q) herror attempt.classifiedAt attempt.attempts
  generalize hcomputed : (sampled q).nextAttemptAt attempt.classifiedAt attempt.attempts error = time at *
  unfold checkedClassify
  split
  · rename_i hexpired
    refine ⟨iff_of_false nofun fun h => absurd hexpired (Int.not_le.mpr h.1), ?_⟩
    rintro _ ⟨⟩
    exact ⟨nofun, nofun, nofun, fun _ => rfl, fun _ _ _ => rfl⟩
  rename_i halive
  split
  · rename_i hpermanent
    refine ⟨iff_of_false nofun fun h => ?_, ?_⟩
    · simp [h.2.1] at hpermanent
    · rintro _ ⟨⟩
      exact ⟨nofun, nofun, nofun, fun h => absurd h halive, fun h => by simp [h] at hpermanent⟩
  rename_i hretryable
  have hretryable : isRetryable error := by simpa using hretryable
  split
  · rename_i hlast
    refine ⟨iff_of_false nofun fun h => absurd hlast (UInt8.not_le.mpr h.2.2.1), ?_⟩
    rintro _ ⟨⟩
    exact ⟨nofun, nofun, nofun, fun h => absurd h halive,
      fun _ h => absurd hlast (UInt8.not_le.mpr h)⟩
  rename_i hattempts
  have hattempts : attempt.attempts < MAX_ATTEMPTS := UInt8.not_le.mp hattempts
  rw [hchecked]
  by_cases hrange : time ≤ MAX_UTC
  · rw [if_pos ⟨hclock.trans hge, hrange⟩]
    refine ⟨iff_of_false nofun fun h => absurd hrange (Int.not_le.mpr h.2.2.2), ?_⟩
    rintro decision hdecision
    obtain rfl := Option.some.inj hdecision
    split
    · rename_i hlate
      exact ⟨nofun, nofun, nofun, fun h => absurd h halive, fun _ _ _ => rfl⟩
    · rename_i hearly
      have hearly : time ≤ attempt.expiresAt := Int.not_lt.mp hearly
      constructor
      · rintro t ⟨⟩
        exact ⟨hretryable, hattempts, hearly⟩
      · rintro t seconds ⟨⟩ hseconds hpos
        rcases htime with ⟨seconds', hseconds', -, htime⟩ | ⟨hzero, -⟩
        · rw [hseconds] at hseconds'
          cases hseconds'
          exact htime
        · rw [hzero seconds hseconds] at hpos
          exact absurd hpos (by decide)
      · rintro t ⟨⟩ hzero
        rcases htime with ⟨seconds, hseconds, hpos, -⟩ | ⟨-, htime⟩
        · rw [hzero seconds hseconds] at hpos
          exact absurd hpos (by decide)
        · have hle := cappedBackoff_le (q := q) attempt.attempts
          have hdelay := q.delay_le ((sampled q).cappedBackoff attempt.attempts)
          simp only [DateTime, Duration, Duration.milliseconds] at hle htime ⊢
          omega
      · exact fun h => absurd h halive
      · intro _ _ hlate
        rw [hcomputed] at hlate
        exact absurd hearly (Int.not_le.mpr hlate)
  · rw [if_neg fun h => hrange h.2]
    refine ⟨iff_of_true rfl ⟨Int.not_le.mp halive, hretryable, hattempts, Int.not_le.mp hrange⟩, ?_⟩
    exact nofun

namespace Sample

def half : JitterSample := { value := 1 / 2, nonneg := by norm_num, lt_one := by norm_num }

def timeout : DeliveryError where
  kind := .timeout
  code := "delivery.timeout"
  redactedMessage := "request timed out"
  httpStatus := none
  platformCode := none
  retryAfterSeconds := none

end Sample

/-- The first retry is after half of two seconds. -/
theorem checkedClassify_sound_half :
    ((sampled Sample.half).checkedClassify ⟨1, Duration.minutes 30, 0⟩ Sample.timeout = none ↔
      (0 : DateTime) < Duration.minutes 30 ∧ isRetryable Sample.timeout ∧ (1 : UInt8) < MAX_ATTEMPTS ∧
        MAX_UTC < (sampled Sample.half).nextAttemptAt 0 1 Sample.timeout) ∧
    ∀ decision, (sampled Sample.half).checkedClassify ⟨1, Duration.minutes 30, 0⟩ Sample.timeout =
      some decision → Sound Sample.half ⟨1, Duration.minutes 30, 0⟩ Sample.timeout decision :=
  checkedClassify_sound Sample.half ⟨1, Duration.minutes 30, 0⟩ Sample.timeout (by decide) ⟨none, rfl⟩

/-- At the end of the calendar there is no retry, and no decision either. -/
theorem checkedClassify_overflow : MIN_UTC ≤ MAX_UTC - 1 ∧ FromAdapter Sample.timeout ∧
    (sampled Sample.half).checkedClassify ⟨1, MAX_UTC, MAX_UTC - 1⟩ Sample.timeout = none :=
  ⟨by decide, ⟨none, rfl⟩, by decide +kernel⟩

end RetryPolicy

end CcReminder
