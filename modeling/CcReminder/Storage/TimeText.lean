import CcReminder.Lib.Calendar
import CcReminder.Lib.FixedWidth
import CcReminder.Storage.Queue.Ops
import CcReminder.Storage.Retention

/-!
# Times as text

The tables hold times as the text of `DateTime::to_rfc3339`, and SQL compares the bytes. For the years 0
to 9999 this is the order of the times: the fields have fixed widths but for the fraction, and what ends a
fraction, or stands in the place of one, is a `+`, which is before `.` and before every digit.
-/

set_option autoImplicit true

namespace CcReminder

open Lib

/-! ## Times -/

/-- chrono's time in UTC: the day since the epoch, the second of the day, and nanoseconds, which go beyond
one second in a leap second. -/
structure UtcTime where
  day : Int
  secs : Nat
  frac : Nat
  secs_lt : secs < 86400
  frac_lt : frac < 2000000000
  leap : 1000000000 ≤ frac → secs % 60 = 59

namespace UtcTime

def date (t : UtcTime) : Date := Date.ofDayNumber t.day

/-- The derived order. -/
def Before (t t' : UtcTime) : Prop :=
  t.day < t'.day ∨ t.day = t'.day ∧ (t.secs < t'.secs ∨ t.secs = t'.secs ∧ t.frac < t'.frac)

/-- The years that are printed with four digits. -/
def Printable (t : UtcTime) : Prop := 0 ≤ t.date.year ∧ t.date.year ≤ 9999

end UtcTime

/-! ## Text -/

/-- `+00:00`. -/
def offsetText : List UInt8 := [43, 48, 48, 58, 48, 48]

/-- Four digits, or else a sign and at least four. -/
def yearText (year : Int) : List UInt8 :=
  if 0 ≤ year ∧ year ≤ 9999 then digits 4 year.toNat
  else
    let text := utf8Bytes (Nat.repr year.natAbs)
    (if year < 0 then 45 else 43) :: List.replicate (4 - text.length) 48 ++ text

/-- No digits, or three, six or nine. -/
def fractionText (nano : Nat) : List UInt8 :=
  if nano = 0 then []
  else if nano % 1000000 = 0 then 46 :: digits 3 (nano / 1000000)
  else if nano % 1000 = 0 then 46 :: digits 6 (nano / 1000)
  else 46 :: digits 9 nano

/-- The nanoseconds of a leap second count as its second 60. -/
def UtcTime.toRfc3339 (t : UtcTime) : List UInt8 :=
  yearText t.date.year ++ 45 :: (digits 2 t.date.month ++ 45 :: (digits 2 t.date.day ++
    84 :: (digits 2 (t.secs / 3600) ++ 58 :: (digits 2 (t.secs / 60 % 60) ++
      58 :: (digits 2 (t.secs % 60 + t.frac / 1000000000) ++
        (fractionText (t.frac % 1000000000) ++ offsetText))))))

/-! ## Fractions -/

/-- Groups of three digits, as far as there is something behind them, and then the offset. -/
def groupText : Nat → Nat → List UInt8
  | 0, _ => offsetText
  | k + 1, n => if n = 0 then offsetText else digits 3 (n / 1000 ^ k) ++ groupText k (n % 1000 ^ k)

/-- A sign is before every digit. -/
theorem offsetText_lt_digits (hn : n < 1000) : offsetText < digits 3 n ++ xs := by
  have hhead : n / 10 ^ 2 < 10 := by omega
  rw [offsetText, digits, List.cons_append, List.cons_lt_cons_iff, UInt8.lt_iff_toNat_lt,
    UInt8.toNat_ofNat']
  refine .inl ?_
  change 43 < _
  omega

theorem groupText_lt_iff (hm : m < 1000 ^ k) (hn : n < 1000 ^ k) :
    groupText k m < groupText k n ↔ m < n := by
  induction k generalizing m n with
  | zero =>
    rw [pow_zero] at hm hn
    obtain rfl : m = n := by omega
    simp
  | succ k ih =>
    have hpos : 0 < 1000 ^ k := Nat.pow_pos (by decide)
    rw [pow_succ] at hm hn
    have hhead : m / 1000 ^ k < 1000 := Nat.div_lt_of_lt_mul hm
    have hhead' : n / 1000 ^ k < 1000 := Nat.div_lt_of_lt_mul hn
    rw [groupText, groupText]
    by_cases hzero : m = 0
    · by_cases hzero' : n = 0
      · rw [if_pos hzero, if_pos hzero', hzero, hzero']
        simp
      · rw [if_pos hzero, if_neg hzero']
        exact ⟨fun _ => by omega, fun _ => offsetText_lt_digits hhead'⟩
    · by_cases hzero' : n = 0
      · rw [if_neg hzero, if_pos hzero']
        refine ⟨fun h => absurd (offsetText_lt_digits hhead) (List.lt_asymm h), fun h => ?_⟩
        omega
      · rw [if_neg hzero, if_neg hzero', digits_append_lt_iff hhead hhead',
          ih (Nat.mod_lt m hpos) (Nat.mod_lt n hpos)]
        exact div_mod_lt_iff m n (1000 ^ k)

theorem fractionText_append (hn : n < 1000000000) :
    fractionText n ++ offsetText = if n = 0 then offsetText else 46 :: groupText 3 n := by
  rw [fractionText]
  split
  · rfl
  rename_i hzero
  rw [groupText, if_neg hzero]
  split
  · rename_i hmillis
    rw [show n % 1000 ^ 2 = 0 from hmillis, groupText, if_pos rfl]
    rfl
  rename_i hmillis
  rw [groupText, if_neg (show ¬n % 1000 ^ 2 = 0 from hmillis)]
  split
  · rename_i hmicros
    have hlast : n % 1000 ^ 2 % 1000 ^ 1 = 0 := by omega
    have hfirst : n / 1000 / 10 ^ 3 = n / 1000 ^ 2 := by omega
    have hsecond : n / 1000 % 10 ^ 3 = n % 1000 ^ 2 / 1000 ^ 1 := by omega
    rw [hlast, groupText, if_pos rfl, show 6 = 3 + 3 from rfl, digits_add (by omega), hfirst, hsecond,
      List.cons_append, List.append_assoc]
  · rename_i hmicros
    have hlast : ¬n % 1000 ^ 2 % 1000 ^ 1 = 0 := by omega
    have hsecond : n % 10 ^ 6 / 10 ^ 3 = n % 1000 ^ 2 / 1000 ^ 1 := by omega
    have hthird : n % 10 ^ 6 % 10 ^ 3 = n % 1000 ^ 2 % 1000 ^ 1 / 1000 ^ 0 := by omega
    rw [groupText, if_neg hlast, show 9 = 3 + 6 from rfl, digits_add (by omega), show 6 = 3 + 3 from rfl,
      digits_add (by omega), hsecond, hthird, List.cons_append, List.append_assoc, List.append_assoc]
    rfl

theorem fractionText_lt_iff (hm : m < 1000000000) (hn : n < 1000000000) :
    fractionText m ++ offsetText < fractionText n ++ offsetText ↔ m < n := by
  rw [fractionText_append hm, fractionText_append hn]
  by_cases hzero : m = 0
  · by_cases hzero' : n = 0
    · rw [if_pos hzero, if_pos hzero', hzero, hzero']
      simp
    · rw [if_pos hzero, if_neg hzero']
      exact ⟨fun _ => by omega, fun _ => List.cons_lt_cons_iff.mpr (.inl (by decide))⟩
  · by_cases hzero' : n = 0
    · rw [if_neg hzero, if_pos hzero']
      refine ⟨fun h => ?_, fun h => by omega⟩
      rcases List.cons_lt_cons_iff.mp h with hhead | ⟨hhead, -⟩
      · exact absurd hhead (by decide)
      · exact absurd hhead (by decide)
    · rw [if_neg hzero, if_neg hzero', List.cons_lt_cons_self]
      exact groupText_lt_iff hm hn

/-! ## The order of the text -/

namespace UtcTime

variable {t t' : UtcTime}

/-- Hours, minutes, seconds and their fraction in order. A leap second follows the last second of a
minute. -/
theorem clock_lt_iff (t t' : UtcTime) :
    (t.secs / 3600 < t'.secs / 3600 ∨ t.secs / 3600 = t'.secs / 3600 ∧
      (t.secs / 60 % 60 < t'.secs / 60 % 60 ∨ t.secs / 60 % 60 = t'.secs / 60 % 60 ∧
        (t.secs % 60 + t.frac / 1000000000 < t'.secs % 60 + t'.frac / 1000000000 ∨
          t.secs % 60 + t.frac / 1000000000 = t'.secs % 60 + t'.frac / 1000000000 ∧
            t.frac % 1000000000 < t'.frac % 1000000000))) ↔
      t.secs < t'.secs ∨ t.secs = t'.secs ∧ t.frac < t'.frac := by
  have hleap := t.leap
  have hleap' := t'.leap
  have hfrac := t.frac_lt
  have hfrac' := t'.frac_lt
  generalize t.secs = secs, t.frac = frac, t'.secs = secs', t'.frac = frac' at *
  constructor
  · rintro (hhour | ⟨hhour, hminute | ⟨hminute, hsecond | ⟨hsecond, hnano⟩⟩⟩)
    · exact .inl (by omega)
    · exact .inl (by omega)
    · omega
    · omega
  · rintro (hsecs | ⟨rfl, hlt⟩)
    · omega
    · omega

/-- Each field but the year has two digits. -/
theorem fields_lt (t : UtcTime) : t.date.month < 10 ^ 2 ∧ t.date.day < 10 ^ 2 ∧ t.secs / 3600 < 10 ^ 2 ∧
    t.secs / 60 % 60 < 10 ^ 2 ∧ t.secs % 60 + t.frac / 1000000000 < 10 ^ 2 := by
  have hdate : t.date.month ≤ 12 ∧ t.date.day ≤ 31 := Date.ofDayNumber_bounds t.day
  have hsecs := t.secs_lt
  have hfrac := t.frac_lt
  omega

theorem date_before_iff (t t' : UtcTime) : t.date.Before t'.date ↔ t.day < t'.day :=
  Date.before_ofDayNumber_iff t.day t'.day

theorem date_eq_iff (t t' : UtcTime) : t.date = t'.date ↔ t.day = t'.day :=
  ⟨Date.ofDayNumber_injective, congrArg Date.ofDayNumber⟩

theorem Printable.yearText (h : t.Printable) : yearText t.date.year = digits 4 t.date.year.toNat ∧
    t.date.year.toNat < 10 ^ 4 ∧ (t.date.year.toNat : Int) = t.date.year := by
  obtain ⟨hlower, hupper⟩ := h
  exact ⟨if_pos ⟨hlower, hupper⟩, by omega, by omega⟩

/-- **Order.** The texts of two times of the years 0 to 9999 compare as the times do. -/
theorem toRfc3339_lt_iff (h : t.Printable) (h' : t'.Printable) :
    t.toRfc3339 < t'.toRfc3339 ↔ t.Before t' := by
  obtain ⟨htext, hlt, hyear⟩ := h.yearText
  obtain ⟨htext', hlt', hyear'⟩ := h'.yearText
  obtain ⟨hmonth, hday, hhour, hminute, hsecond⟩ := t.fields_lt
  obtain ⟨hmonth', hday', hhour', hminute', hsecond'⟩ := t'.fields_lt
  have hnano : t.frac % 1000000000 < 1000000000 := Nat.mod_lt _ (by decide)
  have hnano' : t'.frac % 1000000000 < 1000000000 := Nat.mod_lt _ (by decide)
  rw [toRfc3339, toRfc3339, htext, htext', digits_append_lt_iff hlt hlt', List.cons_lt_cons_self,
    digits_append_lt_iff hmonth hmonth', List.cons_lt_cons_self, digits_append_lt_iff hday hday',
    List.cons_lt_cons_self, digits_append_lt_iff hhour hhour', List.cons_lt_cons_self,
    digits_append_lt_iff hminute hminute', List.cons_lt_cons_self, digits_append_lt_iff hsecond hsecond',
    fractionText_lt_iff hnano hnano', clock_lt_iff, Before, ← date_before_iff, ← date_eq_iff, Date.Before,
    Date.ext_iff, ← hyear, ← hyear', Int.ofNat_lt, Int.ofNat_inj]
  tauto

theorem before_irrefl (t : UtcTime) : ¬t.Before t := by
  simp [Before]

theorem before_asymm (h : t.Before t') : ¬t'.Before t := by
  unfold Before at *
  omega

end UtcTime

/-! ## Instants -/

/-- An instant, without leap seconds, as chrono has it. -/
def DateTime.toUtc (t : DateTime) : UtcTime where
  day := t / Duration.days 1
  secs := (t % Duration.days 1 / Duration.seconds 1).toNat
  frac := (t % Duration.seconds 1).toNat
  secs_lt := by
    simp only [Duration.days, Duration.seconds]
    dsimp only [DateTime, Duration]
    omega
  frac_lt := by
    simp only [Duration.seconds]
    dsimp only [DateTime, Duration]
    omega
  leap h := by
    simp only [Duration.seconds] at h
    dsimp only [DateTime, Duration] at h
    omega

theorem DateTime.before_iff (t t' : DateTime) : (DateTime.toUtc t).Before (DateTime.toUtc t') ↔ t < t' := by
  simp only [UtcTime.Before, DateTime.toUtc, Duration.days, Duration.seconds]
  dsimp only [DateTime, Duration] at *
  omega

namespace DateTime

def toRfc3339 (t : DateTime) : List UInt8 := (DateTime.toUtc t).toRfc3339

def Printable (t : DateTime) : Prop := (DateTime.toUtc t).Printable

variable {t t' : DateTime}

theorem toRfc3339_lt_iff (h : DateTime.Printable t) (h' : DateTime.Printable t') :
    DateTime.toRfc3339 t < DateTime.toRfc3339 t' ↔ t < t' :=
  (UtcTime.toRfc3339_lt_iff h h').trans (before_iff t t')

theorem toRfc3339_inj (h : DateTime.Printable t) (h' : DateTime.Printable t') :
    DateTime.toRfc3339 t = DateTime.toRfc3339 t' ↔ t = t' := by
  refine ⟨fun hsame => ?_, fun hsame => hsame ▸ rfl⟩
  rcases Int.lt_trichotomy t t' with hlt | heq | hlt
  · exact absurd ((toRfc3339_lt_iff h h').mpr hlt) (hsame ▸ List.lt_irrefl _)
  · exact heq
  · exact absurd ((toRfc3339_lt_iff h' h).mpr hlt) (hsame ▸ List.lt_irrefl _)

theorem toRfc3339_le_iff (h : DateTime.Printable t) (h' : DateTime.Printable t') :
    DateTime.toRfc3339 t ≤ DateTime.toRfc3339 t' ↔ t ≤ t' := by
  rw [← List.not_lt, toRfc3339_lt_iff h' h]
  exact Int.not_lt

end DateTime

/-! ## Statements over text

The conditions and orders of `claim_due` and `expire_due`, as SQL evaluates them on the columns. -/

def textLe (t t' : DateTime) : Bool := DateTime.toRfc3339 t ≤ DateTime.toRfc3339 t'

def textLt (t t' : DateTime) : Bool := DateTime.toRfc3339 t < DateTime.toRfc3339 t'

def textEq (t t' : DateTime) : Bool := DateTime.toRfc3339 t = DateTime.toRfc3339 t'

/-- `MAX` of a column of texts. -/
def textMax : List DateTime → Option DateTime
  | [] => none
  | t :: ts => some (ts.foldl (fun m t => if textLe m t then t else m) t)

namespace SqlText

def leaseOver (j : JobRow) (now : DateTime) : Bool := j.leaseExpiresAt.all (textLe · now)

def claimableState (j : JobRow) (now : DateTime) : Bool :=
  j.state = .pending ∨ j.state = .retryWait ∨
    j.state = .sending ∧ j.leaseExpiresAt.any (textLe · now)

def mayClaim (j : JobRow) (leaseExpiresAt : DateTime) : Bool :=
  claimableState j leaseExpiresAt ∧ leaseOver j leaseExpiresAt

def channelAvailable (db : Database) (j : JobRow) (now : DateTime) : Bool :=
  (db.channels.find? j.channelId).any fun c =>
    c.pausedReasonCode.isNone ∧ c.nextAllowedAt.all (textLe · now)

def dueOrder (i j : JobRow) : Prop :=
  textLt i.nextAttemptAt j.nextAttemptAt ∨ textEq i.nextAttemptAt j.nextAttemptAt ∧
    (textLt i.createdAt j.createdAt ∨ textEq i.createdAt j.createdAt ∧ i.id.toNat ≤ j.id.toNat)

def creationOrder (i j : JobRow) : Prop :=
  textLt i.createdAt j.createdAt ∨ textEq i.createdAt j.createdAt ∧ i.id.toNat ≤ j.id.toNat

def bucketOrder (a b : DateTime × String) : Prop := textLt a.1 b.1 ∨ textEq a.1 b.1 ∧ a.2 ≤ b.2

instance : DecidableRel dueOrder := fun _ _ => inferInstanceAs (Decidable (_ ∨ _))
instance : DecidableRel creationOrder := fun _ _ => inferInstanceAs (Decidable (_ ∨ _))
instance : DecidableRel bucketOrder := fun _ _ => inferInstanceAs (Decidable (_ ∨ _))

variable (db : Database) (now : DateTime)

def isCandidateSingle (j : JobRow) : Bool :=
  claimableState j now ∧ textLe j.nextAttemptAt now ∧ leaseOver j now ∧ j.aggregateKey = none ∧
    channelAvailable db j now

def candidateSingles : List Uuid :=
  ((db.deliveryJobs.rows.filter (isCandidateSingle db now)).insertionSort dueOrder).map (·.id)

def isBucketRow (j : JobRow) : Bool :=
  claimableState j now ∧ j.aggregateKey.isSome ∧ channelAvailable db j now

def isBlocked (j : JobRow) : Bool :=
  !(j.aggregateReleaseAt.any (textLe · now) ∧ leaseOver j now)

def readyBucket (key : String) : Option (DateTime × String) :=
  let rows := db.deliveryJobs.rows.filter fun j => isBucketRow db now j ∧ j.aggregateKey = some key
  match textMax (rows.filterMap (·.aggregateReleaseAt)) with
  | some release =>
    if textLe release now ∧ rows.countP (isBlocked now) = 0 then some (release, key) else none
  | none => none

def candidateBuckets : List String :=
  (((((db.deliveryJobs.rows.filter (isBucketRow db now)).filterMap (·.aggregateKey)).dedup.filterMap
    (readyBucket db now)).insertionSort bucketOrder)).map (·.2)

def bucketJobIds (key : String) : List Uuid :=
  ((db.deliveryJobs.rows.filter fun j => j.aggregateKey = some key ∧ claimableState j now ∧
    j.aggregateReleaseAt.any (textLe · now) ∧ leaseOver j now).insertionSort creationOrder).map (·.id)

/-- The condition of `expire_due`. -/
def isOverdue (j : JobRow) : Bool := j.isWaiting ∧ textLe j.expiresAt now

end SqlText

/-- The times that the statements compare are of the years 0 to 9999. -/
structure JobRow.Printable (j : JobRow) : Prop where
  nextAttemptAt : DateTime.Printable j.nextAttemptAt
  expiresAt : DateTime.Printable j.expiresAt
  leaseExpiresAt : ∀ t ∈ j.leaseExpiresAt, DateTime.Printable t
  aggregateReleaseAt : ∀ t ∈ j.aggregateReleaseAt, DateTime.Printable t
  createdAt : DateTime.Printable j.createdAt

structure Database.Printable (db : Database) : Prop where
  jobs : ∀ j ∈ db.deliveryJobs.rows, j.Printable
  channels : ∀ c ∈ db.channels.rows, ∀ t ∈ c.nextAllowedAt, DateTime.Printable t

theorem textLe_eq {t t' : DateTime} (h : DateTime.Printable t) (h' : DateTime.Printable t') :
    textLe t t' = decide (t ≤ t') :=
  decide_eq_decide.mpr (DateTime.toRfc3339_le_iff h h')

theorem textLt_eq {t t' : DateTime} (h : DateTime.Printable t) (h' : DateTime.Printable t') :
    textLt t t' = decide (t < t') :=
  decide_eq_decide.mpr (DateTime.toRfc3339_lt_iff h h')

theorem textEq_eq {t t' : DateTime} (h : DateTime.Printable t) (h' : DateTime.Printable t') :
    textEq t t' = decide (t = t') :=
  decide_eq_decide.mpr (DateTime.toRfc3339_inj h h')

theorem any_textLe {column : Option DateTime} (h : ∀ t ∈ column, DateTime.Printable t)
    (hnow : DateTime.Printable now) : column.any (textLe · now) = column.any (· ≤ now) := by
  cases column with
  | none => rfl
  | some t => exact textLe_eq (h t rfl) hnow

theorem all_textLe {column : Option DateTime} (h : ∀ t ∈ column, DateTime.Printable t)
    (hnow : DateTime.Printable now) : column.all (textLe · now) = column.all (· ≤ now) := by
  cases column with
  | none => rfl
  | some t => exact textLe_eq (h t rfl) hnow

theorem textMax_eq {ts : List DateTime} (h : ∀ t ∈ ts, DateTime.Printable t) :
    textMax ts = ts.max? := by
  cases ts with
  | nil => rfl
  | cons t ts =>
    rw [textMax, List.max?_cons']
    refine congrArg some ?_
    have hall : ∀ t' ∈ ts, DateTime.Printable t' := fun t' ht' => h t' (List.mem_cons_of_mem t ht')
    have hstart := h t List.mem_cons_self
    clear h
    induction ts generalizing t with
    | nil => rfl
    | cons t' ts ih =>
      have ht' := hall t' List.mem_cons_self
      have hmax : (if textLe t t' then t' else t) = max t t' := by
        rw [textLe_eq hstart ht', max_def]
        simp only [decide_eq_true_eq]
      rw [List.foldl_cons, List.foldl_cons, hmax]
      refine ih (max t t') (fun s hs => hall s (List.mem_cons_of_mem t' hs)) ?_
      rcases max_choice t t' with hchoice | hchoice
      · rwa [hchoice]
      · rwa [hchoice]

namespace SqlText

section

variable {j : JobRow} {now : DateTime} (hj : j.Printable) (hnow : DateTime.Printable now)

include hj hnow

theorem leaseOver_eq : leaseOver j now = j.leaseOver now := all_textLe hj.leaseExpiresAt hnow

theorem claimableState_eq : claimableState j now = j.claimableState now := by
  rw [claimableState, any_textLe hj.leaseExpiresAt hnow, JobRow.claimableState]

theorem mayClaim_eq : mayClaim j now = j.mayClaim now := by
  rw [mayClaim, claimableState_eq hj hnow, leaseOver_eq hj hnow, JobRow.mayClaim]

theorem isBlocked_eq : isBlocked now j = Database.isBlocked now j := by
  rw [isBlocked, any_textLe hj.aggregateReleaseAt hnow, leaseOver_eq hj hnow, Database.isBlocked]

theorem isOverdue_eq : isOverdue now j = decide (j.isWaiting ∧ j.expiresAt ≤ now) := by
  rw [isOverdue, textLe_eq hj.expiresAt hnow]
  simp

end

theorem dueOrder_iff {i j : JobRow} (hi : i.Printable) (hj : j.Printable) :
    dueOrder i j ↔ Database.dueOrder i j := by
  rw [dueOrder, textLt_eq hi.nextAttemptAt hj.nextAttemptAt, textEq_eq hi.nextAttemptAt hj.nextAttemptAt,
    textLt_eq hi.createdAt hj.createdAt, textEq_eq hi.createdAt hj.createdAt, Database.dueOrder]
  simp only [decide_eq_true_eq]

theorem creationOrder_iff {i j : JobRow} (hi : i.Printable) (hj : j.Printable) :
    creationOrder i j ↔ Database.creationOrder i j := by
  rw [creationOrder, textLt_eq hi.createdAt hj.createdAt, textEq_eq hi.createdAt hj.createdAt,
    Database.creationOrder]
  simp only [decide_eq_true_eq]

/-- Orders that agree on the elements of a list sort it the same way. -/
theorem insertionSort_congr {α : Type} {r s : α → α → Prop} [DecidableRel r] [DecidableRel s] {xs : List α}
    (h : ∀ a ∈ xs, ∀ b ∈ xs, r a b ↔ s a b) : xs.insertionSort r = xs.insertionSort s := by
  have hmap := List.map_insertionSort r s id xs h
  rwa [List.map_id, List.map_id] at hmap

theorem bucketRows_printable {db : Database} (hdb : db.Printable) {now : DateTime} {key : String} :
    ∀ t ∈ (db.bucketRows now key).filterMap (·.aggregateReleaseAt), DateTime.Printable t := by
  intro t ht
  obtain ⟨j, hj, hrelease⟩ := List.mem_filterMap.mp ht
  exact (hdb.jobs j (List.mem_of_mem_filter hj)).aggregateReleaseAt t hrelease

/-- The release of a bucket is that of one of its jobs. -/
theorem readyBuckets_printable {db : Database} (hdb : db.Printable) (now : DateTime) :
    ∀ bucket ∈ db.readyBuckets now, DateTime.Printable bucket.1 := by
  intro bucket hbucket
  obtain ⟨key, -, hready⟩ := List.mem_filterMap.mp hbucket
  simp only at hready
  split at hready
  · rename_i release hmax
    split at hready
    · cases hready
      exact bucketRows_printable hdb release (List.max?_mem hmax)
    · cases hready
  · cases hready

section

variable {db : Database} {now : DateTime} (hdb : db.Printable) (hnow : DateTime.Printable now)

include hdb hnow

theorem channelAvailable_eq (j : JobRow) : channelAvailable db j now = db.channelAvailable j now := by
  rw [channelAvailable, Database.channelAvailable]
  cases hfind : db.channels.find? j.channelId with
  | none => rfl
  | some c =>
    have hmem := (Table.find?_eq_some_iff.mp hfind).1
    change decide (_ ∧ _) = ChannelRow.available c now
    rw [all_textLe (hdb.channels c hmem) hnow, ChannelRow.available]

theorem isCandidateSingle_eq {j : JobRow} (hj : j ∈ db.deliveryJobs.rows) :
    isCandidateSingle db now j = db.isCandidateSingle now j := by
  have hjob := hdb.jobs j hj
  rw [isCandidateSingle, claimableState_eq hjob hnow, textLe_eq hjob.nextAttemptAt hnow,
    leaseOver_eq hjob hnow, channelAvailable_eq hdb hnow, Database.isCandidateSingle]
  simp only [decide_eq_true_eq]

theorem candidateSingles_eq : candidateSingles db now = db.candidateSingles now := by
  rw [candidateSingles, Database.candidateSingles,
    List.filter_congr fun j hj => isCandidateSingle_eq hdb hnow hj]
  refine congrArg (List.map _) (insertionSort_congr fun i hi j hj => ?_)
  exact dueOrder_iff (hdb.jobs i (List.mem_of_mem_filter hi)) (hdb.jobs j (List.mem_of_mem_filter hj))

theorem isBucketRow_eq {j : JobRow} (hj : j ∈ db.deliveryJobs.rows) :
    isBucketRow db now j = db.isBucketRow now j := by
  rw [isBucketRow, claimableState_eq (hdb.jobs j hj) hnow, channelAvailable_eq hdb hnow,
    Database.isBucketRow]

theorem readyBucket_eq (key : String) : readyBucket db now key =
    match Database.bucketRelease (db.bucketRows now key) with
    | some release =>
      if release ≤ now ∧ (db.bucketRows now key).countP (Database.isBlocked now) = 0 then
        some (release, key)
      else none
    | none => none := by
  have hrows : (db.deliveryJobs.rows.filter fun j =>
      isBucketRow db now j ∧ j.aggregateKey = some key) = db.bucketRows now key :=
    List.filter_congr fun j hj => by rw [isBucketRow_eq hdb hnow hj]
  have hjobs : ∀ j ∈ db.bucketRows now key, j.Printable :=
    fun j hj => hdb.jobs j (List.mem_of_mem_filter hj)
  have htimes := @bucketRows_printable db hdb now key
  have hblocked : (db.bucketRows now key).countP (isBlocked now) =
      (db.bucketRows now key).countP (Database.isBlocked now) :=
    List.countP_congr fun j hj => by rw [isBlocked_eq (hjobs j hj) hnow]
  rw [readyBucket, hrows, textMax_eq htimes, hblocked, Database.bucketRelease]
  cases hmax : ((db.bucketRows now key).filterMap (·.aggregateReleaseAt)).max? with
  | none => rfl
  | some release =>
    have hrelease := htimes release (List.max?_mem hmax)
    simp only [textLe_eq hrelease hnow, decide_eq_true_eq]

theorem candidateBuckets_eq : candidateBuckets db now = db.candidateBuckets now := by
  have hready : ((db.deliveryJobs.rows.filter (isBucketRow db now)).filterMap
      (·.aggregateKey)).dedup.filterMap (readyBucket db now) = db.readyBuckets now := by
    rw [Database.readyBuckets, List.filter_congr fun j hj => isBucketRow_eq hdb hnow hj]
    exact List.filterMap_congr fun key _ => readyBucket_eq hdb hnow key
  have htimes := readyBuckets_printable hdb now
  rw [candidateBuckets, hready, Database.candidateBuckets]
  refine congrArg (List.map _) (insertionSort_congr fun a ha b hb => ?_)
  rw [bucketOrder, textLt_eq (htimes a ha) (htimes b hb), textEq_eq (htimes a ha) (htimes b hb),
    Database.bucketOrder]
  simp only [decide_eq_true_eq]

theorem bucketJobIds_eq (key : String) : bucketJobIds db now key = db.bucketJobIds key now := by
  rw [bucketJobIds, Database.bucketJobIds]
  have hrows : (db.deliveryJobs.rows.filter fun j => j.aggregateKey = some key ∧ claimableState j now ∧
      j.aggregateReleaseAt.any (textLe · now) ∧ leaseOver j now) =
      db.deliveryJobs.rows.filter (Database.isBucketJob now key) :=
    List.filter_congr fun j hj => by
      have hjob := hdb.jobs j hj
      rw [claimableState_eq hjob hnow, any_textLe hjob.aggregateReleaseAt hnow, leaseOver_eq hjob hnow,
        Database.isBucketJob]
  rw [hrows]
  refine congrArg (List.map _) (insertionSort_congr fun i hi j hj => ?_)
  exact creationOrder_iff (hdb.jobs i (List.mem_of_mem_filter hi)) (hdb.jobs j (List.mem_of_mem_filter hj))

end

/-- **Statements over text.** The texts of the years 0 to 9999 compare as their times do, in leap seconds
too, so the statements of `claim_due` and `expire_due` select and order the rows by time, and so do the
cutoffs of retention. -/
theorem text_order :
    (∀ t t' : UtcTime, t.Printable → t'.Printable → (t.toRfc3339 < t'.toRfc3339 ↔ t.Before t')) ∧
    (∀ t t' : DateTime, DateTime.Printable t → DateTime.Printable t' →
      textLe t t' = decide (t ≤ t') ∧ textLt t t' = decide (t < t') ∧ textEq t t' = decide (t = t')) ∧
    ∀ (db : Database) (now : DateTime), db.Printable → DateTime.Printable now →
      candidateSingles db now = db.candidateSingles now ∧
      candidateBuckets db now = db.candidateBuckets now ∧
      (∀ key, bucketJobIds db now key = db.bucketJobIds key now) ∧
      ∀ j ∈ db.deliveryJobs.rows,
        (∀ leaseExpiresAt, DateTime.Printable leaseExpiresAt →
          mayClaim j leaseExpiresAt = j.mayClaim leaseExpiresAt) ∧
        isOverdue now j = decide (j.isWaiting ∧ j.expiresAt ≤ now) := by
  refine ⟨fun _ _ h h' => UtcTime.toRfc3339_lt_iff h h',
    fun _ _ h h' => ⟨textLe_eq h h', textLt_eq h h', textEq_eq h h'⟩, fun db now hdb hnow => ?_⟩
  exact ⟨candidateSingles_eq hdb hnow, candidateBuckets_eq hdb hnow, bucketJobIds_eq hdb hnow,
    fun j hj => ⟨fun _ hlease => mayClaim_eq (hdb.jobs j hj) hlease, isOverdue_eq (hdb.jobs j hj) hnow⟩⟩

/-- Half past eight, and a millisecond later: a sign stands where the other text has a point. -/
theorem text_order_millisecond : textLt 1785141000000000000 1785141000001000000 = true := by
  have hprintable : DateTime.Printable 1785141000000000000 ∧ DateTime.Printable 1785141000001000000 := by
    unfold DateTime.Printable UtcTime.Printable
    decide +kernel
  rw [(text_order.2.1 _ _ hprintable.1 hprintable.2).2.1]
  decide

example : DateTime.toRfc3339 1785141000001000000 = utf8Bytes "2026-07-27T08:30:00.001+00:00" := by
  decide +kernel

end SqlText

end CcReminder
