import CcReminder.Lib.Reach
import CcReminder.Rules.Policy
import CcReminder.Storage.ConfigWrites

/-!
# Settings commands

The settings are one row. The commands of `commands/settings.rs` and the offset that the window
reports at its start (`commands/mod.rs`) each read that row in one connection, change some of its
fields and write all of it in another.
-/

set_option autoImplicit true

namespace CcReminder

open Lib

/-! ## The row -/

def MAX_RETENTION_DAYS : UInt16 := 365

def validateSettings (settings : AppSettings) : Except AppError Unit :=
  if ¬(1 ≤ settings.eventRetentionDays ∧ settings.eventRetentionDays ≤ MAX_RETENTION_DAYS) ∨
      ¬(1 ≤ settings.logRetentionDays ∧ settings.logRetentionDays ≤ MAX_RETENTION_DAYS) ∨
      (settings.notificationPause.any fun pause => pause.until' ≤ pause.startedAt) ∨
      FixedOffset.eastOpt settings.localOffsetSeconds = none then
    .error (configurationError "settings_invalid" "settings are invalid")
  else .ok ()

def saveSettings (settings : AppSettings) : Tx AppSettings := do
  liftExcept (validateSettings settings)
  immediate do
    execute fun db => ((), { db with settings })
  pure settings

/-! ## The commands -/

structure SaveSettingsInput where
  autostart : Bool
  closeToTray : Bool
  locale : Locale
  theme : Theme
  eventRetentionDays : UInt16
  logRetentionDays : UInt16
  onboardingCompleted : Bool
  notificationTemplate : Option String

inductive PauseDuration where
  | fifteenMinutes
  | oneHour
  | today
  deriving DecidableEq, Repr

def localeCode : Locale → String
  | .zhCn => "zh_cn"
  | .en => "en"

def themeCode : Theme → String
  | .system => "system"
  | .light => "light"
  | .dark => "dark"

structure SettingsView where
  autostart : Bool
  closeToTray : Bool
  locale : String
  theme : String
  eventRetentionDays : UInt16
  logRetentionDays : UInt16
  onboardingCompleted : Bool
  pausedUntil : Option DateTime
  notificationTemplate : Option String

def AppSettings.toView (s : AppSettings) : SettingsView where
  autostart := s.autostart
  closeToTray := s.closeToTray
  locale := localeCode s.locale
  theme := themeCode s.theme
  eventRetentionDays := s.eventRetentionDays
  logRetentionDays := s.logRetentionDays
  onboardingCompleted := s.onboardingCompleted
  pausedUntil := s.notificationPause.map (·.until')
  notificationTemplate := s.notificationTemplate

/-- The registration of the application with the system. -/
abbrev AutostartControl := Bool → Except String Unit

def autostartFailed (message : String) : AppError where
  domain := .configuration
  code := "configuration.autostart_failed"
  message := message
  suggestedAction := some "re-save settings to retry"

def SaveSettingsInput.apply (input : SaveSettingsInput) (settings : AppSettings) : AppSettings :=
  { settings with
    autostart := input.autostart
    closeToTray := input.closeToTray
    locale := input.locale
    theme := input.theme
    eventRetentionDays := input.eventRetentionDays
    logRetentionDays := input.logRetentionDays
    onboardingCompleted := input.onboardingCompleted
    notificationTemplate := input.notificationTemplate.filter fun t => trimText t ≠ "" }

def registerAutostart (control : AutostartControl) (autostart : Bool) : Tx Unit :=
  match control autostart with
  | .ok () => pure ()
  | .error message => .fail (autostartFailed message)

def saveSettingsImpl (control : AutostartControl) (input : SaveSettingsInput) : Tx SettingsView := do
  let settings ← getSettings
  if settings.autostart ≠ input.autostart then registerAutostart control input.autostart
  let saved ← saveSettings (input.apply settings)
  pure saved.toView

/-- The next local midnight is reckoned from the last one. -/
def pauseUntil (duration : PauseDuration) (now : DateTime) (offset : FixedOffset) : DateTime :=
  match duration with
  | .fifteenMinutes => now + Duration.minutes 15
  | .oneHour => now + Duration.minutes 60
  | .today =>
    let todayMidnight := LocalTime.toUtc { localTime now offset with time := 0 } offset
    if todayMidnight > now then todayMidnight else todayMidnight + Duration.days 1

def setNotificationPauseImpl (duration : PauseDuration) (now : DateTime) (offset : FixedOffset) :
    Tx SettingsView := do
  let until' := pauseUntil duration now offset
  let settings ← getSettings
  let saved ← saveSettings { settings with notificationPause := some { startedAt := now, until' } }
  pure saved.toView

def clearNotificationPauseImpl : Tx SettingsView := do
  let settings ← getSettings
  let saved ← saveSettings { settings with notificationPause := none }
  pure saved.toView

/-- The offset that the window reports is stored as well as can be. -/
def persistReportedOffset (offsetSeconds : Option Int32) : Tx Unit :=
  match offsetSeconds with
  | none => pure ()
  | some seconds =>
    if FixedOffset.eastOpt seconds = none then pure ()
    else do
      let settings ← getSettings
      if settings.localOffsetSeconds ≠ seconds then do
        let _ ← attempt (saveSettings { settings with localOffsetSeconds := seconds })
        pure ()
      else pure ()

/-! ## Their two halves -/

/-- A command with what it was given. -/
inductive SettingsOp where
  | save (input : SaveSettingsInput)
  | setPause (duration : PauseDuration) (now : DateTime) (offset : FixedOffset)
  | clearPause
  | reportOffset (offsetSeconds : Option Int32)

/-- How a command ended: with an error, with `Ok`, or with `Ok` although its row was not stored. -/
inductive Ending where
  | failed
  | ok
  | unsaved
  deriving DecidableEq

namespace SettingsOp

/-- The whole command. -/
def run (control : AutostartControl) : SettingsOp → Tx Unit
  | .save input => do
    let _ ← saveSettingsImpl control input
    pure ()
  | .setPause duration now offset => do
    let _ ← setNotificationPauseImpl duration now offset
    pure ()
  | .clearPause => do
    let _ ← clearNotificationPauseImpl
    pure ()
  | .reportOffset offsetSeconds => persistReportedOffset offsetSeconds

/-- The row that a command writes when it has read `settings`. -/
def change (settings : AppSettings) : SettingsOp → AppSettings
  | .save input => input.apply settings
  | .setPause duration now offset =>
    { settings with
      notificationPause := some { startedAt := now, until' := pauseUntil duration now offset } }
  | .clearPause => { settings with notificationPause := none }
  | .reportOffset offsetSeconds =>
    { settings with localOffsetSeconds := offsetSeconds.getD settings.localOffsetSeconds }

/-- Up to the end of the first connection: the row that was read, when there is one to write. -/
def start (control : AutostartControl) : SettingsOp → Tx (Option AppSettings)
  | .save input => do
    let settings ← getSettings
    if settings.autostart ≠ input.autostart then registerAutostart control input.autostart
    pure (some settings)
  | .setPause _ _ _ | .clearPause => do
    let settings ← getSettings
    pure (some settings)
  | .reportOffset offsetSeconds =>
    match offsetSeconds with
    | none => pure none
    | some seconds =>
      if FixedOffset.eastOpt seconds = none then pure none
      else do
        let settings ← getSettings
        if settings.localOffsetSeconds ≠ seconds then pure (some settings) else pure none

/-- The second connection. -/
def finish (settings : AppSettings) (op : SettingsOp) : Tx Ending :=
  match op with
  | .reportOffset _ => do
    match ← attempt (saveSettings (op.change settings)) with
    | some _ => pure .ok
    | none => pure .unsaved
  | _ => do
    let _ ← saveSettings (op.change settings)
    pure .ok

/-- The fields that a command does not set are the same. -/
def SameRest (s s' : AppSettings) : SettingsOp → Prop
  | .save _ => s.notificationPause = s'.notificationPause ∧ s.debugUntil = s'.debugUntil ∧
      s.localOffsetSeconds = s'.localOffsetSeconds
  | .setPause _ _ _ | .clearPause =>
    { s with notificationPause := none } = { s' with notificationPause := none }
  | .reportOffset _ => { s with localOffsetSeconds := 0 } = { s' with localOffsetSeconds := 0 }

theorem change_eq {op : SettingsOp} (h : op.SameRest s s') (hoff : op ≠ .reportOffset none) :
    op.change s = op.change s' := by
  cases s
  cases s'
  cases op with
  | save input => simp_all [SameRest, change, SaveSettingsInput.apply]
  | setPause duration now offset => simp_all [SameRest, change]
  | clearPause => simp_all [SameRest, change]
  | reportOffset offsetSeconds =>
    cases offsetSeconds with
    | none => exact absurd rfl hoff
    | some seconds => simp_all [SameRest, change]

/-- A command is its first half followed by its second. -/
theorem run_eq (control : AutostartControl) (op : SettingsOp) : op.run control = (do
    match ← op.start control with
    | none => pure ()
    | some settings => do
      let _ ← op.finish settings
      pure ()) := by
  cases op with
  | save input =>
    simp only [run, start, finish, saveSettingsImpl, change, bind_assoc, pure_bind]
    congr 1
    funext s
    split <;> simp only [bind_assoc, pure_bind]
  | setPause duration now offset =>
    simp only [run, start, finish, setNotificationPauseImpl, change, bind_assoc, pure_bind]
  | clearPause =>
    simp only [run, start, finish, clearNotificationPauseImpl, change, bind_assoc, pure_bind]
  | reportOffset offsetSeconds =>
    cases offsetSeconds with
    | none => rfl
    | some seconds =>
      simp only [run, start, finish, persistReportedOffset, change, Option.getD_some]
      split
      · rfl
      · simp only [bind_assoc]
        congr 1
        funext s
        split
        · simp only [pure_bind]
          congr 1
          funext r
          cases r <;> rfl
        · rfl

/-- Whether a command that finds `settings` has a row to write. -/
def saves (settings : AppSettings) : SettingsOp → Bool
  | .save _ | .setPause _ _ _ | .clearPause => true
  | .reportOffset none => false
  | .reportOffset (some seconds) =>
    (FixedOffset.eastOpt seconds).isSome ∧ settings.localOffsetSeconds ≠ seconds

/-- What a command that is alone leaves. -/
def result (op : SettingsOp) (settings : AppSettings) : AppSettings :=
  if op.saves settings then op.change settings else settings

/-- The command, alone and without a failure, returns `Ok` and makes `s'` of `s`. -/
def Alone (op : SettingsOp) (s s' : AppSettings) : Prop :=
  ∃ control c c', (∀ n, (c.world n).fault = false) ∧ c.db.settings = s ∧
    op.run control c = (.ok (), c') ∧ c'.db.settings = s'

end SettingsOp

/-! ## What the halves do -/

theorem ensures_saveSettings : Ensures (saveSettings settings) fun db _ db' =>
    validateSettings settings = .ok () ∧ db' = { db with settings } := by
  refine ensures_liftExcept.bind (fun _ => ?_) (Q := fun _ db _ db' => db' = { db with settings })
    fun db _ db' _ db'' h₁ h₂ => ⟨h₁.1, h₂.trans (by rw [h₁.2])⟩
  refine (ensures_immediate ensures_execute).bind (fun _ => ?_)
    (Q := fun _ db _ db' => db' = db) fun db _ db' _ db'' h₁ h₂ => ?_
  · exact Ensures.ret (R := fun db _ db' => db' = db) fun _ => rfl
  · simp only [Prod.mk.injEq, true_and] at h₁
    exact h₂.trans h₁.symm

theorem saveSettings_error (h : saveSettings settings c = (.error e, c')) : c'.db = c.db := by
  rcases Txn.bind_error h with h | ⟨u, c₁, h₁, h⟩
  · exact (ReadsOnly.liftExcept _).run h
  · have hc₁ : c₁.db = c.db := (ReadsOnly.liftExcept _).run h₁
    rcases Txn.bind_error h with h | ⟨u, c₂, h₂, h⟩
    · exact (immediate_error h).trans hc₁
    · simp at h

namespace SettingsOp

theorem readsOnly_registerAutostart (control : AutostartControl) (autostart : Bool) :
    ReadsOnly (registerAutostart control autostart) := by
  unfold registerAutostart
  split
  · exact ReadsOnly.pure ()
  · exact ReadsOnly.fail _

theorem readsOnly_start (control : AutostartControl) (op : SettingsOp) :
    ReadsOnly (op.start control) := by
  have hread : ReadsOnly getSettings := ReadsOnly.read
  cases op with
  | save input =>
    refine hread.bind fun settings => ?_
    dsimp only
    split
    · exact (readsOnly_registerAutostart _ _).bind fun _ => ReadsOnly.pure _
    · exact ReadsOnly.pure _
  | setPause duration now offset => exact hread.bind fun _ => ReadsOnly.pure _
  | clearPause => exact hread.bind fun _ => ReadsOnly.pure _
  | reportOffset offsetSeconds =>
    simp only [start]
    split
    · exact ReadsOnly.pure _
    · split
      · exact ReadsOnly.pure _
      · refine hread.bind fun settings => ?_
        split <;> exact ReadsOnly.pure _

theorem ensures_start {control : AutostartControl} {op : SettingsOp} :
    Ensures (op.start control) fun db found _ =>
      found = if op.saves db.settings then some db.settings else none := by
  intro c found c' h
  cases op with
  | save input =>
    obtain ⟨settings, c₁, h₁, h⟩ := Txn.bind_ok_iff.mp h
    obtain ⟨rfl, -⟩ := ensures_read h₁
    dsimp only at h
    split at h
    · obtain ⟨u, c₂, -, h⟩ := Txn.bind_ok_iff.mp h
      cases h
      rfl
    · cases h
      rfl
  | setPause duration now offset =>
    obtain ⟨settings, c₁, h₁, h⟩ := Txn.bind_ok_iff.mp h
    obtain ⟨rfl, -⟩ := ensures_read h₁
    cases h
    rfl
  | clearPause =>
    obtain ⟨settings, c₁, h₁, h⟩ := Txn.bind_ok_iff.mp h
    obtain ⟨rfl, -⟩ := ensures_read h₁
    cases h
    rfl
  | reportOffset offsetSeconds =>
    cases offsetSeconds with
    | none =>
      cases h
      rfl
    | some seconds =>
      simp only [start] at h
      split at h
      · rename_i hoff
        cases h
        simp [saves, hoff]
      · rename_i hoff
        obtain ⟨settings, c₁, h₁, h⟩ := Txn.bind_ok_iff.mp h
        obtain ⟨rfl, -⟩ := ensures_read h₁
        have hsome : (FixedOffset.eastOpt seconds).isSome := Option.isSome_iff_ne_none.mpr hoff
        split at h
        · rename_i hne
          cases h
          simp [saves, hsome, hne]
        · rename_i heq
          cases h
          simp only [ne_eq, not_not] at heq
          simp [saves, heq]

/-- The second half stores the row, or leaves the tables alone. -/
theorem finish_run {op : SettingsOp} (h : op.finish settings c = (r, c')) :
    r = .ok .ok ∧ validateSettings (op.change settings) = .ok () ∧
        c'.db = { c.db with settings := op.change settings } ∨
      r ≠ .ok .ok ∧ r ≠ .ok .failed ∧ c'.db = c.db := by
  have hsave : (do
      let _ ← saveSettings (op.change settings)
      pure .ok : Tx Ending) c = (r, c') →
      r = .ok .ok ∧ validateSettings (op.change settings) = .ok () ∧
          c'.db = { c.db with settings := op.change settings } ∨
        r ≠ .ok .ok ∧ r ≠ .ok .failed ∧ c'.db = c.db := by
    intro h
    rcases Txn.bind_cases h with ⟨e, h₁, rfl⟩ | ⟨saved, c₁, h₁, h⟩
    · exact .inr ⟨by simp, by simp, saveSettings_error h₁⟩
    · cases h
      exact .inl ⟨rfl, ensures_saveSettings h₁⟩
  cases op with
  | save input => exact hsave h
  | setPause duration now offset => exact hsave h
  | clearPause => exact hsave h
  | reportOffset offsetSeconds =>
    simp only [finish, Txn.bind_run, attempt, Txn.step_run] at h
    rcases hrun : saveSettings ((reportOffset offsetSeconds).change settings) c with ⟨e | saved, c₁⟩ <;>
      rw [hrun] at h <;> cases h
    · exact .inr ⟨by simp, by simp, saveSettings_error hrun⟩
    · exact .inl ⟨rfl, ensures_saveSettings hrun⟩

/-- A command that had a row to write leaves that row, also when it would find nothing to write. -/
theorem result_eq {op : SettingsOp} (h : op.saves found) : op.result s = op.change s := by
  unfold result
  split
  · rfl
  · rename_i hsaves
    cases op with
    | reportOffset offsetSeconds =>
      cases offsetSeconds with
      | none => cases h
      | some seconds =>
        simp only [saves, ne_eq, Bool.decide_and, Bool.and_eq_true, decide_eq_true_eq] at h hsaves
        have heq : s.localOffsetSeconds = seconds := by
          by_contra hne
          exact hsaves ⟨by simpa using h.1, hne⟩
        cases s
        simp_all [change]
    | _ => exact absurd rfl hsaves

/-- A connection on which nothing fails. -/
def calm (settings : AppSettings) : Conn where
  db := { settings }
  world := fun _ => {}

theorem start_calm (op : SettingsOp) : op.start (fun _ => .ok ()) (calm s) =
    (.ok (if op.saves s then some s else none), calm s) := by
  have hread : getSettings (calm s) = (.ok s, calm s) := rfl
  cases op with
  | save input =>
    simp only [start, registerAutostart, Txn.bind_run, hread, saves, if_true]
    split <;> rfl
  | setPause duration now offset => rfl
  | clearPause => rfl
  | reportOffset offsetSeconds =>
    cases offsetSeconds with
    | none => rfl
    | some seconds =>
      simp only [start, saves]
      by_cases hoff : FixedOffset.eastOpt seconds = none
      · simp [hoff]
      · have hsome : (FixedOffset.eastOpt seconds).isSome := Option.isSome_iff_ne_none.mpr hoff
        by_cases heq : s.localOffsetSeconds = seconds <;>
          simp [hoff, hsome, heq, Txn.bind_run, hread]

theorem saveSettings_calm (h : validateSettings settings = .ok ()) :
    saveSettings settings (calm s) = (.ok settings, calm settings) := by
  simp only [saveSettings, h]
  rfl

theorem finish_calm {op : SettingsOp} (h : validateSettings (op.change found) = .ok ()) :
    op.finish found (calm s) = (.ok .ok, calm (op.change found)) := by
  have hsave := saveSettings_calm (s := s) h
  cases op with
  | reportOffset offsetSeconds =>
    simp only [finish, Txn.bind_run, attempt, Txn.step_run, hsave, Txn.pure_run]
  | _ => simp only [finish, Txn.bind_run, hsave, Txn.pure_run]

/-- A command that may write its row does so when nothing fails. -/
theorem alone {op : SettingsOp} (h : op.saves s → validateSettings (op.change s) = .ok ()) :
    op.Alone s (op.result s) := by
  refine ⟨fun _ => .ok (), calm s, calm (op.result s), fun _ => rfl, rfl, ?_, rfl⟩
  rw [run_eq, Txn.bind_run, start_calm]
  by_cases hsaves : op.saves s
  · simp only [hsaves, if_true, result, Txn.bind_run, finish_calm (h hsaves), Txn.pure_run]
  · simp only [hsaves, if_false, result, Txn.pure_run, Bool.false_eq_true]

/-- What a command that always writes its row leaves. -/
theorem Alone.settings {op : SettingsOp} (h : op.Alone s s') (hop : ∀ off, op ≠ .reportOffset off) :
    s' = op.change s := by
  obtain ⟨control, c, c', hcalm, rfl, hrun, rfl⟩ := h
  have hsaves : ∀ settings, op.saves settings = true := by
    cases op with
    | reportOffset off => exact absurd rfl (hop off)
    | _ => exact fun _ => rfl
  rw [run_eq] at hrun
  obtain ⟨found, c₁, h₁, hrun⟩ := Txn.bind_ok_iff.mp hrun
  have hc₁ : c₁.db = c.db := (readsOnly_start control op).run h₁
  rw [ensures_start h₁, hsaves] at hrun
  obtain ⟨ending, c₂, h₂, hrun⟩ := Txn.bind_ok_iff.mp hrun
  cases hrun
  rcases finish_run h₂ with ⟨-, -, hdb⟩ | ⟨hok, hfailed, -⟩
  · rw [hdb]
  · cases op with
    | reportOffset off => exact absurd rfl (hop off)
    | _ =>
      obtain ⟨saved, c₃, -, h₂⟩ := Txn.bind_ok_iff.mp h₂
      cases h₂
      exact absurd rfl hok

end SettingsOp

/-! ## Interleaved -/

/-- How far a command has come, with the settings that it has read. -/
inductive Phase where
  | waiting
  | saving (found : AppSettings)
  | done (ending : Ending)

/-- The connection that the commands share, and how far each of them has come. -/
structure SettingsCalls where
  conn : Conn
  phase : Nat → Phase

namespace SettingsCalls

def Start (settings : AppSettings) (s : SettingsCalls) : Prop :=
  s.conn.db.settings = settings ∧ ∀ i, s.phase i = .waiting

inductive Act where
  | start (i : Nat) (control : AutostartControl)
  | finish (i : Nat)

/-- The phase after the first half. -/
def started : Except AppError (Option AppSettings) → Phase
  | .ok (some settings) => .saving settings
  | .ok none => .done .ok
  | .error _ => .done .failed

def finished : Except AppError Ending → Phase
  | .ok ending => .done ending
  | .error _ => .done .failed

/-- One of the commands takes its first or its second half. -/
inductive Step (ops : List SettingsOp) : SettingsCalls → Act → SettingsCalls → Prop
  | start {s : SettingsCalls} {control : AutostartControl} (hop : ops[i]? = some op) (hphase : s.phase i = .waiting)
      (hrun : op.start control s.conn = (r, c')) :
      Step ops s (.start i control) { conn := c', phase := Function.update s.phase i (started r) }
  | finish {s : SettingsCalls} (hop : ops[i]? = some op) (hphase : s.phase i = .saving found)
      (hrun : op.finish found s.conn = (r, c')) :
      Step ops s (.finish i) { conn := c', phase := Function.update s.phase i (finished r) }

/-- A command that writes its row writes the other fields as they are stored. -/
def Meets (ops : List SettingsOp) (s : SettingsCalls) : Act → Prop
  | .start _ _ => True
  | .finish i => ∀ op found, ops[i]? = some op → s.phase i = .saving found →
      op.SameRest found s.conn.db.settings

/-- What a command that returned `Ok` does to the settings in a serial order. One whose row could
not be stored leaves them. -/
def Serves (op : SettingsOp) (s s' : AppSettings) : Phase → Prop
  | .done .ok => op.Alone s s'
  | .done .unsaved => s' = s
  | _ => False

/-- The commands of `order`, one after the other, make `s'` of `s`. -/
inductive Serially (ops : List SettingsOp) (phase : Nat → Phase) :
    List Nat → AppSettings → AppSettings → Prop
  | nil : Serially ops phase [] s s
  | snoc : Serially ops phase order s s₁ → ops[i]? = some op → Serves op s₁ s₂ (phase i) →
      Serially ops phase (order ++ [i]) s s₂

/-- The commands that returned `Ok`. -/
def ReturnedOk (s : SettingsCalls) (i : Nat) : Prop :=
  s.phase i = .done .ok ∨ s.phase i = .done .unsaved

/-- The settings are those that the commands that returned `Ok` leave, each once, in some order. -/
def Serializable (ops : List SettingsOp) (settings : AppSettings) (s : SettingsCalls) : Prop :=
  ∃ order : List Nat, order.Nodup ∧ (∀ i, i ∈ order ↔ s.ReturnedOk i) ∧
    Serially ops s.phase order settings s.conn.db.settings

theorem Serially.update {phase : Nat → Phase} {p : Phase} (h : Serially ops phase order s s') (hi : i ∉ order) :
    Serially ops (Function.update phase i p) order s s' := by
  induction h with
  | nil => exact .nil
  | @snoc order s s₁ j op s₂ _ hop hserves ih =>
    simp only [List.mem_append, List.mem_singleton, not_or] at hi
    refine .snoc (ih hi.1) hop ?_
    rwa [Function.update_of_ne (Ne.symm hi.2)]

section Steps

variable {ops : List SettingsOp} {settings : AppSettings} {s : SettingsCalls}

/-- A phase that stands for no `Ok` leaves the order as it is. -/
theorem Serializable.skip {p : Phase} (h : Serializable ops settings s) (hold : ¬ s.ReturnedOk i)
    (hdb : c'.db.settings = s.conn.db.settings) (hok : p ≠ .done .ok) (hunsaved : p ≠ .done .unsaved) :
    Serializable ops settings { conn := c', phase := Function.update s.phase i p } := by
  obtain ⟨order, hnodup, hmem, hserially⟩ := h
  refine ⟨order, hnodup, fun j => ?_, ?_⟩
  · by_cases hj : j = i
    · subst hj
      simp [ReturnedOk, hok, hunsaved, (hmem j).not.mpr hold]
    · simp only [ReturnedOk, Function.update_of_ne hj]
      exact hmem j
  · rw [hdb]
    exact hserially.update ((hmem i).not.mpr hold)

/-- A command that returns `Ok` comes last in the order. -/
theorem Serializable.serve {p : Phase} (h : Serializable ops settings s) (hold : ¬ s.ReturnedOk i)
    (hop : ops[i]? = some op) (hserves : SettingsCalls.Serves op s.conn.db.settings c'.db.settings p) :
    Serializable ops settings { conn := c', phase := Function.update s.phase i p } := by
  obtain ⟨order, hnodup, hmem, hserially⟩ := h
  have hi : i ∉ order := (hmem i).not.mpr hold
  refine ⟨order ++ [i], ?_, fun j => ?_, ?_⟩
  · rw [List.nodup_append]
    refine ⟨hnodup, List.nodup_singleton i, fun a ha b hb hab => hi ?_⟩
    rw [List.mem_singleton] at hb
    rwa [← hb, ← hab]
  · by_cases hj : j = i
    · subst hj
      have hp : p = .done .ok ∨ p = .done .unsaved := by
        unfold Serves at hserves
        split at hserves
        · exact .inl rfl
        · exact .inr rfl
        · exact hserves.elim
      simp [ReturnedOk, hp]
    · simp only [ReturnedOk, Function.update_of_ne hj, List.mem_append, List.mem_singleton, hj,
        or_false]
      exact hmem j
  · refine .snoc (hserially.update hi) hop ?_
    dsimp only
    rwa [Function.update_self]

/-- What holds of the settings and of the commands that are about to write. -/
structure Kept (ops : List SettingsOp) (settings : AppSettings) (s : SettingsCalls) : Prop where
  serializable : Serializable ops settings s
  saves : ∀ {i op found}, ops[i]? = some op → s.phase i = .saving found → op.saves found

theorem Kept.saves_update {p : Phase} (h : Kept ops settings s)
    (hp : ∀ op found, ops[i]? = some op → p = .saving found → op.saves found) :
    ∀ {j op found}, ops[j]? = some op → Function.update s.phase i p j = .saving found → op.saves found := by
  intro j op found hop hphase
  by_cases hj : j = i
  · subst hj
    rw [Function.update_self] at hphase
    exact hp op found hop hphase
  · rw [Function.update_of_ne hj] at hphase
    exact h.saves hop hphase

theorem Kept.start {control : AutostartControl} (h : Kept ops settings s) (hop : ops[i]? = some op)
    (hphase : s.phase i = .waiting) (hrun : op.start control s.conn = (r, c')) :
    Kept ops settings { conn := c', phase := Function.update s.phase i (started r) } := by
  have hold : ¬ s.ReturnedOk i := by simp [ReturnedOk, hphase]
  have hdb : c'.db.settings = s.conn.db.settings := by
    rw [(SettingsOp.readsOnly_start control op).run hrun]
  rcases r with e | found
  · exact ⟨h.serializable.skip hold hdb nofun nofun, h.saves_update (by rintro _ _ _ ⟨⟩)⟩
  have hread := SettingsOp.ensures_start hrun
  by_cases hsaves : op.saves s.conn.db.settings
  · simp only [hsaves, if_true] at hread
    subst hread
    refine ⟨h.serializable.skip hold hdb nofun nofun, h.saves_update ?_⟩
    intro op' found' hop' hread'
    cases hop.symm.trans hop'
    cases hread'
    exact hsaves
  · simp only [hsaves, Bool.false_eq_true, if_false] at hread
    subst hread
    have halone : op.Alone s.conn.db.settings (op.result s.conn.db.settings) :=
      SettingsOp.alone fun hs => absurd hs hsaves
    rw [SettingsOp.result, if_neg hsaves, ← hdb] at halone
    rw [hdb] at halone
    refine ⟨h.serializable.serve hold hop (p := .done .ok) ?_, h.saves_update (by rintro _ _ _ ⟨⟩)⟩
    rw [hdb]
    exact halone

theorem Kept.finish (h : Kept ops settings s) (hop : ops[i]? = some op)
    (hphase : s.phase i = .saving found) (hrun : op.finish found s.conn = (r, c'))
    (hrest : op.SameRest found s.conn.db.settings) :
    Kept ops settings { conn := c', phase := Function.update s.phase i (finished r) } := by
  have hold : ¬ s.ReturnedOk i := by simp [ReturnedOk, hphase]
  have hsaving : ∀ op' found', ops[i]? = some op' → finished r = .saving found' → op'.saves found' := by
    intro op' found' _ hfinished
    cases r <;> cases hfinished
  refine ⟨?_, h.saves_update hsaving⟩
  have hsaves : op.saves found := h.saves hop hphase
  rcases SettingsOp.finish_run hrun with ⟨rfl, hvalid, hdb⟩ | ⟨hok, hfailed, hdb⟩
  · refine h.serializable.serve hold hop (p := .done .ok) ?_
    have hchange : op.change found = op.change s.conn.db.settings :=
      SettingsOp.change_eq hrest (by rintro rfl; simp [SettingsOp.saves] at hsaves)
    have halone : op.Alone s.conn.db.settings (op.result s.conn.db.settings) :=
      SettingsOp.alone fun _ => hchange ▸ hvalid
    rw [SettingsOp.result_eq hsaves, ← hchange] at halone
    rw [hdb]
    exact halone
  · rcases r with e | ending
    · exact h.serializable.skip hold (by rw [hdb]) nofun nofun
    · cases ending with
      | failed => exact absurd rfl hfailed
      | ok => exact absurd rfl hok
      | unsaved => exact h.serializable.serve hold hop (p := .done .unsaved) (by rw [hdb]; rfl)

/-- Where every command that writes its row finds the fields that it does not set as it read them,
the stored settings are those of a serial order of the commands that returned `Ok`. -/
theorem settings_serializable (h : Reach (Start settings) (Step ops) (Meets ops) s) :
    Serializable ops settings s := by
  suffices Kept ops settings s from this.serializable
  refine h.invariant (fun s hstart => ?_) (fun s a s' hkept hstep hmeets => ?_)
  · refine ⟨⟨[], List.nodup_nil, fun i => ?_, ?_⟩, fun {i _ _} _ hphase => ?_⟩
    · simp [ReturnedOk, hstart.2 i]
    · rw [hstart.1]
      exact .nil
    · rw [hstart.2 i] at hphase
      cases hphase
  · cases hstep with
    | start hop hphase hrun => exact hkept.start hop hphase hrun
    | finish hop hphase hrun => exact hkept.finish hop hphase hrun (hmeets _ _ hop hphase)

end Steps

/-! ## The settings page and the tray -/

namespace Sample

def input : SaveSettingsInput where
  autostart := false
  closeToTray := true
  locale := .zhCn
  theme := .dark
  eventRetentionDays := 30
  logRetentionDays := 7
  onboardingCompleted := true
  notificationTemplate := none

def save : SettingsOp := .save input

def pause : SettingsOp := .setPause .oneHour 0 0

def ops : List SettingsOp := [save, pause]

/-- The system when nothing fails. -/
def calls (settings : AppSettings) (phase : Nat → Phase) : SettingsCalls where
  conn := SettingsOp.calm settings
  phase

theorem ops_cases (hop : ops[i]? = some op) : i = 0 ∧ op = save ∨ i = 1 ∧ op = pause := by
  match i with
  | 0 =>
    cases hop
    exact .inl ⟨rfl, rfl⟩
  | 1 =>
    cases hop
    exact .inr ⟨rfl, rfl⟩
  | n + 2 => simp [ops] at hop

theorem starts {phase : Nat → Phase} (hop : ops[i]? = some op) (hphase : phase i = .waiting) :
    Step ops (calls settings phase) (.start i fun _ => .ok ())
      (calls settings (Function.update phase i (.saving settings))) := by
  have hsaves : op.saves settings = true := by
    rcases ops_cases hop with ⟨-, rfl⟩ | ⟨-, rfl⟩ <;> rfl
  have hrun := SettingsOp.start_calm (s := settings) op
  rw [hsaves] at hrun
  exact .start (s := calls settings phase) hop hphase hrun

theorem finishes {phase : Nat → Phase} (hop : ops[i]? = some op) (hphase : phase i = .saving found)
    (hvalid : validateSettings (op.change found) = .ok ()) :
    Step ops (calls settings phase) (.finish i)
      (calls (op.change found) (Function.update phase i (.done .ok))) :=
  .finish (s := calls settings phase) hop hphase (SettingsOp.finish_calm hvalid)

/-- A pause that is stored stays through every command of the sample. -/
theorem pause_stays {phase : Nat → Phase} (hok : phase 1 = .done .ok)
    (h : Serially ops phase order settings s) (hmem : 1 ∈ order) : s.notificationPause.isSome := by
  induction h with
  | nil => simp at hmem
  | @snoc order s s₁ i op s₂ _ hop hserves ih =>
    rw [List.mem_append, List.mem_singleton] at hmem
    unfold Serves at hserves
    split at hserves
    · rcases ops_cases hop with ⟨rfl, rfl⟩ | ⟨rfl, rfl⟩
      · rw [hserves.settings nofun]
        exact ih (hmem.resolve_right (by decide))
      · rw [hserves.settings nofun]
        rfl
    · rename_i hphase
      rcases ops_cases hop with ⟨rfl, -⟩ | ⟨rfl, -⟩
      · rw [hserves]
        exact ih (hmem.resolve_right (by decide))
      · cases hok.symm.trans hphase
    · exact hserves.elim

end Sample

/-- One after the other the two commands are serial. -/
theorem settings_serializable_turns : ∃ s, s.phase 0 = .done .ok ∧ s.phase 1 = .done .ok ∧
    Serializable Sample.ops {} s := by
  have h₀ : Reach (Start {}) (Step Sample.ops) (Meets Sample.ops) (Sample.calls {} fun _ => .waiting) :=
    .start ⟨rfl, fun _ => rfl⟩
  have h₁ := h₀.next (Sample.starts (i := 0) rfl rfl) trivial
  have h₂ := h₁.next (Sample.finishes (i := 0) rfl rfl (by decide)) (by
    rintro op found ⟨⟩ ⟨⟩
    exact ⟨rfl, rfl, rfl⟩)
  have h₃ := h₂.next (Sample.starts (i := 1) rfl rfl) trivial
  have h₄ := h₃.next (Sample.finishes (i := 1) rfl rfl (by decide)) (by
    rintro op found ⟨⟩ ⟨⟩
    rfl)
  exact ⟨_, rfl, rfl, settings_serializable h₄⟩

/-- A pause that is set while the settings page is being saved is lost, and both return `Ok`. -/
theorem pause_lost : ∃ ops settings s, Reach (Start settings) (Step ops) (fun _ _ => True) s ∧
    (∀ i < ops.length, s.phase i = .done .ok) ∧ ¬ Serializable ops settings s := by
  have h₀ : Reach (Start {}) (Step Sample.ops) (fun _ _ => True) (Sample.calls {} fun _ => .waiting) :=
    .start ⟨rfl, fun _ => rfl⟩
  have h₁ := h₀.next (Sample.starts (i := 0) rfl rfl) trivial
  have h₂ := h₁.next (Sample.starts (i := 1) rfl rfl) trivial
  have h₃ := h₂.next (Sample.finishes (i := 1) rfl rfl (by decide)) trivial
  have h₄ := h₃.next (Sample.finishes (i := 0) rfl rfl (by decide)) trivial
  refine ⟨_, _, _, h₄, fun i hi => ?_, ?_⟩
  · have hlt : i < 2 := hi
    rcases Sample.ops_cases (List.getElem?_eq_getElem hi) with ⟨rfl, -⟩ | ⟨rfl, -⟩ <;> rfl
  · rintro ⟨order, -, hmem, hserially⟩
    have hone : 1 ∈ order := (hmem 1).mpr (.inl rfl)
    have hpause := Sample.pause_stays rfl hserially hone
    exact absurd hpause (by decide)

end SettingsCalls

end CcReminder
