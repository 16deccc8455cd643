import CcReminder.Lib.Reach
import CcReminder.Pipeline.Record
import CcReminder.Storage.ConfigWrites
import CcReminder.Storage.Lockstep

/-!
# Processable rules

What is checked of a rule is checked field by field, so a rule that is merged from accepted parts is
as good as they are. But of a redaction pattern only the length is checked, and it is compiled first
when a job is made: a pattern that does not compile stops the transaction that records the event.
-/

set_option autoImplicit true

namespace CcReminder

open Lib

/-! ## The fields of a rule -/

def validTargets (targets : List TargetConfig) : Prop :=
  targets.length ≤ 20 ∧
    targets.all fun target => target.template.all (·.utf8ByteSize ≤ MAX_TEMPLATE_BYTES)

def validFilters (filters : FilterGroup) : Prop := filters.values.all validRuleStrings

def validPrivacy (privacy : PrivacyPolicy) : Prop :=
  privacy.maxBodyChars ≤ 4000 ∧ validRuleStrings privacy.allowedSensitiveFields ∧
    validRedactionPatterns privacy.extraRedactionPatterns

def validDelivery (delivery : DeliveryPolicy) : Prop :=
  (1 ≤ delivery.ttlSeconds ∧ delivery.ttlSeconds ≤ 86400) ∧
    (1 ≤ delivery.maxAttempts ∧ delivery.maxAttempts ≤ 10) ∧ validAggregateWindow delivery.mode ∧
    delivery.cooldownSeconds ≤ 86400 ∧ delivery.windowSeconds ≤ 86400 ∧
    1 ≤ delivery.maxPerWindow ∧ delivery.maxPerWindow ≤ 100

def validQuietHours (quietHours : Option QuietHours) : Prop := quietHours.all (·.isValid)

/-- A rule is accepted when each of its fields is. -/
theorem validateRule_ok_iff {rule : RuleConfig} : validateRule rule = .ok () ↔
    validTargets rule.targets ∧ validFilters rule.filters ∧ validPrivacy rule.privacy ∧
      validDelivery rule.delivery ∧ validQuietHours rule.quietHours := by
  have hfields : ¬(rule.targets.length > 20 ∨ rule.privacy.maxBodyChars > 4000 ∨
      ¬(1 ≤ rule.delivery.ttlSeconds ∧ rule.delivery.ttlSeconds ≤ 86400) ∨
      ¬(1 ≤ rule.delivery.maxAttempts ∧ rule.delivery.maxAttempts ≤ 10) ∨
      !validAggregateWindow rule.delivery.mode ∨ rule.delivery.cooldownSeconds > 86400 ∨
      rule.delivery.windowSeconds > 86400 ∨
      ¬(1 ≤ rule.delivery.maxPerWindow ∧ rule.delivery.maxPerWindow ≤ 100) ∨
      !rule.quietHours.all (·.isValid) ∨ !rule.isBounded) ↔
        validTargets rule.targets ∧ validFilters rule.filters ∧ validPrivacy rule.privacy ∧
          validDelivery rule.delivery ∧ validQuietHours rule.quietHours := by
    simp only [not_or, not_not, Bool.not_eq_true', Bool.not_eq_false, RuleConfig.isBounded,
      decide_eq_true_eq, validTargets, validFilters, validPrivacy, validDelivery, validQuietHours,
      gt_iff_lt, not_lt, UInt32.not_lt]
    constructor
    · rintro ⟨h₁, h₂, h₃, h₄, h₅, h₆, h₇, h₈, h₉, h₁₀, h₁₁, h₁₂, h₁₃⟩
      exact ⟨⟨h₁, h₁₃⟩, h₁₀, ⟨h₂, h₁₁, h₁₂⟩, ⟨h₃, h₄, h₅, h₆, h₇, h₈⟩, h₉⟩
    · rintro ⟨⟨h₁, h₁₃⟩, h₁₀, ⟨h₂, h₁₁, h₁₂⟩, ⟨h₃, h₄, h₅, h₆, h₇, h₈⟩, h₉⟩
      exact ⟨h₁, h₂, h₃, h₄, h₅, h₆, h₇, h₈, h₉, h₁₀, h₁₁, h₁₂, h₁₃⟩
  rw [← hfields]
  unfold validateRule
  simp only
  split
  · rename_i hbad
    exact iff_of_false (by simp) (not_not.mpr hbad)
  · rename_i hgood
    exact iff_of_true rfl hgood

/-- Each field that a patch has is valid. -/
structure ValidPatch (patch : RulePatch) : Prop where
  targets : ∀ targets, patch.targets = some targets → validTargets targets
  filters : ∀ filters, patch.filters = some filters → validFilters filters
  privacy : ∀ privacy, patch.privacy = some privacy → validPrivacy privacy
  delivery : ∀ delivery, patch.delivery = some delivery → validDelivery delivery
  quietHours : ∀ quietHours, patch.quietHours = some quietHours → validQuietHours quietHours

/-- What an accepted patch has is valid: it is checked in a rule of defaults. -/
theorem validPatch_of_ok {patch : RulePatch} (h : validatePatch patch = .ok ()) : ValidPatch patch := by
  unfold validatePatch at h
  split at h
  · rename_i rule hrule
    unfold patchToRule at hrule
    split at hrule <;> cases hrule
    obtain ⟨htargets, hfilters, hprivacy, hdelivery, hquiet⟩ := validateRule_ok_iff.mp h
    constructor
    · intro targets hsome
      simpa only [hsome, Option.getD_some] using htargets
    · intro filters hsome
      simpa only [hsome, Option.getD_some] using hfilters
    · intro privacy hsome
      simpa only [hsome, Option.getD_some] using hprivacy
    · intro delivery hsome
      simpa only [hsome, Option.getD_some] using hdelivery
    · intro quietHours hsome
      simpa only [hsome, Option.getD_some] using hquiet
  · rename_i hnone
    unfold patchToRule at hnone
    split at hnone
    · cases hnone
    · rename_i hempty
      simp only [not_or, Option.not_isSome_iff_eq_none] at hempty
      obtain ⟨h₁, h₂, h₃, h₄, h₅⟩ := hempty
      exact ⟨by simp [h₁], by simp [h₂], by simp [h₃], by simp [h₄], by simp [h₅]⟩

theorem ValidPatch.clear {patch : RulePatch} (h : ValidPatch patch) (field : PatchField) :
    ValidPatch (clearPatchField patch field) := by
  cases field with
  | enabled => exact ⟨h.targets, h.filters, h.privacy, h.delivery, h.quietHours⟩
  | targets => exact ⟨nofun, h.filters, h.privacy, h.delivery, h.quietHours⟩
  | filters => exact ⟨h.targets, nofun, h.privacy, h.delivery, h.quietHours⟩
  | privacy => exact ⟨h.targets, h.filters, nofun, h.delivery, h.quietHours⟩
  | delivery => exact ⟨h.targets, h.filters, h.privacy, nofun, h.quietHours⟩
  | quietHours => exact ⟨h.targets, h.filters, h.privacy, h.delivery, nofun⟩

/-- A field comes from the patch or from the rule. -/
theorem getD_of_some {P : α → Prop} {value : Option α} {default : α}
    (hvalue : ∀ a, value = some a → P a) (hdefault : P default) : P (value.getD default) := by
  cases value with
  | none => exact hdefault
  | some a => exact hvalue a rfl

/-- **Merging.** A valid patch on an accepted rule gives an accepted rule. -/
theorem validateRule_resolveRule {rule : RuleConfig} {patch : Option RulePatch}
    (hrule : validateRule rule = .ok ()) (hpatch : ∀ p, patch = some p → ValidPatch p) :
    validateRule (resolveRule rule patch) = .ok () := by
  cases patch with
  | none => exact hrule
  | some patch =>
    have hvalid := hpatch patch rfl
    obtain ⟨htargets, hfilters, hprivacy, hdelivery, hquiet⟩ := validateRule_ok_iff.mp hrule
    exact validateRule_ok_iff.mpr ⟨getD_of_some hvalid.targets htargets,
      getD_of_some hvalid.filters hfilters, getD_of_some hvalid.privacy hprivacy,
      getD_of_some hvalid.delivery hdelivery, getD_of_some hvalid.quietHours hquiet⟩

/-! ## Documents -/

/-- What `enqueue_jobs` does before the first job. -/
def EventPipeline.buildDocument (p : EventPipeline) (plan : Plan) : Tx NotificationDocument := do
  let targets := plan.resolved.config.targets
  let privacy := plan.resolved.config.privacy
  let redactor ← liftExcept (Redactor.compile p.sv privacy.extraRedactionPatterns)
  let envelope ← loadEnvelopeForTemplate plan.envelope.id
  let ctx := buildTemplateContext p.sv envelope privacy.allowedSensitiveFields p.localOffset
  pure (documentFor (customTemplate targets plan.globalTemplate) ctx redactor
    privacy.maxBodyChars.toNat)

theorem EventPipeline.enqueueJobs_eq (p : EventPipeline) (plan : Plan) : p.enqueueJobs plan = (do
    let document ← p.buildDocument plan
    let now := (← draw).utcNow
    enqueueTargets p.sv plan document now plan.resolved.config.targets) := by
  funext c
  simp only [EventPipeline.enqueueJobs, EventPipeline.buildDocument, Txn.bind_run]
  rcases liftExcept _ c with ⟨e | redactor, c₁⟩
  · rfl
  · simp only
    rcases loadEnvelopeForTemplate plan.envelope.id c₁ with ⟨e | envelope, c₂⟩ <;> rfl

/-- The patterns compile, and do not match everything. -/
def Compiles (sv : Services) (patterns : List String) : Prop :=
  (∀ pattern ∈ patterns, ∃ regex, sv.boundedRegex pattern = .ok regex ∧ !regex.matchesEmpty) ∧
    (patterns ≠ [] → ∃ regex,
      sv.boundedRegex ("|".intercalate (patterns.map fun p => "(?:" ++ p ++ ")")) = .ok regex)

/-- The loop over the patterns ends when each of them compiles. -/
theorem checkPatterns_ok_iff {sv : Services} {patterns : List String} :
    (forIn patterns PUnit.unit fun pattern _ => do
      let compiled ← sv.boundedRegex pattern
      if compiled.matchesEmpty = true then do
        Except.error invalidPattern
        pure (ForInStep.yield PUnit.unit)
      else pure (ForInStep.yield PUnit.unit)) = (.ok PUnit.unit : Except AppError PUnit) ↔
    ∀ pattern ∈ patterns, ∃ regex, sv.boundedRegex pattern = .ok regex ∧ !regex.matchesEmpty := by
  induction patterns with
  | nil => simp [pure, Except.pure]
  | cons pattern patterns ih =>
    rw [List.forIn_cons, List.forall_mem_cons, ← ih]
    cases hregex : sv.boundedRegex pattern with
    | error e => simp [bind, Except.bind]
    | ok regex =>
      cases hempty : regex.matchesEmpty with
      | true => simp [bind, Except.bind, hempty]
      | false => simp [bind, Except.bind, pure, Except.pure, hempty]

/-- Accepted patterns are few and short enough. Whether they compile is another question. -/
theorem compile_ok_iff {sv : Services} {patterns : List String}
    (hvalid : validRedactionPatterns patterns) :
    (∃ redactor, Redactor.compile sv patterns = .ok redactor) ↔ Compiles sv patterns := by
  have hshort : ¬(patterns.length > MAX_PATTERNS ∨ patterns.any (·.length > MAX_PATTERN_CHARS)) := by
    simp only [validRedactionPatterns, decide_eq_true_eq] at hvalid
    simp only [not_or, not_lt, gt_iff_lt, List.any_eq_true, decide_eq_true_eq, not_exists, not_and]
    exact ⟨hvalid.1, fun p hp => of_decide_eq_true (List.all_eq_true.mp hvalid.2 p hp)⟩
  unfold Redactor.compile Compiles
  rw [if_neg hshort, ← checkPatterns_ok_iff]
  simp only
  generalize (forIn patterns PUnit.unit _ : Except AppError PUnit) = checked
  rcases checked with e | ⟨⟨⟩⟩
  · simp [bind, Except.bind]
  · by_cases hnil : patterns = []
    · simp [bind, Except.bind, pure, Except.pure, hnil]
    · generalize sv.boundedRegex ("|".intercalate _) = combined
      cases combined with
      | error e => simp [bind, Except.bind, Functor.map, Except.map, hnil]
      | ok regex => simp [bind, Except.bind, pure, Except.pure, Functor.map, Except.map, hnil]

/-- A rule is accepted, and the document of any recorded event is made under it as long as no
statement fails. -/
structure Processable (sv : Services) (resolved : ResolvedRule) : Prop where
  accepted : validateRule resolved.config = .ok ()
  builds : ∀ (p : EventPipeline) (plan : Plan) (c : Conn) (time : DateTime), p.sv = sv →
    plan.resolved = resolved → c.Calm time → (c.db.events.find? plan.envelope.id).isSome →
      ∃ document c', p.buildDocument plan c = (.ok document, c')

theorem Conn.Calm.loadEnvelopeForTemplate {c : Conn} {row : EventRow} (h : c.Calm time)
    (hrow : c.db.events.find? eventId = some row) : CcReminder.loadEnvelopeForTemplate eventId c =
      (.ok { row.envelope with encryptedSensitiveFields := none }, c.skip 1) :=
  statement_ok_iff.mpr ⟨(h 0).1, c.db, by rw [hrow], rfl⟩

/-- The document is made when the patterns compile. -/
theorem buildDocument_ok_iff {p : EventPipeline} {plan : Plan} {c : Conn} (h : c.Calm time)
    (hrow : (c.db.events.find? plan.envelope.id).isSome) :
    (∃ document c', p.buildDocument plan c = (.ok document, c')) ↔ ∃ redactor,
      Redactor.compile p.sv plan.resolved.config.privacy.extraRedactionPatterns = .ok redactor := by
  constructor
  · rintro ⟨document, c', hrun⟩
    obtain ⟨redactor, c₁, h₁, -⟩ := Txn.bind_ok_iff.mp hrun
    exact ⟨redactor, (liftExcept_ok h₁).1⟩
  · rintro ⟨redactor, hredactor⟩
    obtain ⟨row, hfind⟩ := Option.isSome_iff_exists.mp hrow
    have hlift : liftExcept (Redactor.compile p.sv
        plan.resolved.config.privacy.extraRedactionPatterns) c = (.ok redactor, c) := by
      rw [hredactor]
      rfl
    exact ⟨_, _, Txn.bind_ok_iff.mpr ⟨redactor, c, hlift, Txn.bind_ok_iff.mpr
      ⟨_, _, h.loadEnvelopeForTemplate hfind, rfl⟩⟩⟩

/-! ## An event to try a rule on -/

def blankEnvelope : EventEnvelope where
  id := 0
  source := .claudeCode
  sourceVersion := { major := 0, minor := 0, patch := 0 }
  sourceEvent := ""
  category := .other
  occurredAt := 0
  receivedAt := 0
  projectId := none
  projectDisplayName := none
  unmatchedCwdFingerprint := none
  sessionRef := none
  turnRef := none
  model := none
  permissionMode := none
  severity := .info
  publicFields := []
  encryptedSensitiveFields := none
  correlationId := 0
  actionId := none
  actionCapabilities := []

/-- A quiet database with this event. -/
def blankConn : Conn where
  db := {
    events := ⟨[{
      envelope := blankEnvelope, sensitiveFieldsBlob := none, processingOutcome := .queued
      outcomeReasonCode := none, createdAt := 0 }], List.nodup_singleton _⟩ }
  world n := { uuid := n, utcNow := 0 }

/-- An accepted rule is processable when its patterns compile. -/
theorem processable_of_accepted {sv : Services} {resolved : ResolvedRule}
    (h : validateRule resolved.config = .ok ()) : Processable sv resolved ↔
      Compiles sv resolved.config.privacy.extraRedactionPatterns := by
  rw [← compile_ok_iff (validateRule_ok_iff.mp h).2.2.1.2.2]
  constructor
  · intro hprocessable
    have hbuilt := hprocessable.builds ⟨sv, [], .unix, [], 0⟩
      ⟨blankEnvelope, none, resolved, .sendNow, none⟩ blankConn 0 rfl rfl (fun _ => ⟨rfl, rfl⟩) rfl
    exact (buildDocument_ok_iff (fun _ => ⟨rfl, rfl⟩) rfl).mp hbuilt
  · intro hcompiles
    refine ⟨h, fun p plan c time hsv hplan hcalm hrow => ?_⟩
    subst hsv hplan
    exact (buildDocument_ok_iff hcalm hrow).mpr hcompiles

/-! ## Runs -/

namespace Rules

inductive Act where
  | write (op : ConfigOp)
  | other

/-- A write with any result, or a step of something else: it may seed default rules, and drop rules
and patches. -/
inductive Step : Conn → Act → Conn → Prop
  | write (h : op.run c = (r, c')) : Step c (.write op) c'
  | other (hrules : ∀ key rule, c'.db.globalRules.find? key = some rule →
        c.db.globalRules.find? key = some rule ∨
          rule.config = defaultRule rule.agent rule.sourceEvent)
      (hpatches : ∀ key row, c'.db.ruleOverrides.find? key = some row →
        c.db.ruleOverrides.find? key = some row) : Step c .other c'

/-- Every rule is accepted, and every patch is valid. -/
structure Accepted (c : Conn) : Prop where
  rules : ∀ key rule, c.db.globalRules.find? key = some rule → validateRule rule.config = .ok ()
  patches : ∀ key row, c.db.ruleOverrides.find? key = some row → ValidPatch row.patch

namespace Accepted

variable {c c' : Conn}

theorem of_rules (h : Accepted c) (hrules : c'.db.globalRules = c.db.globalRules)
    (hpatches : c'.db.ruleOverrides = c.db.ruleOverrides) : Accepted c' :=
  ⟨hrules ▸ h.rules, hpatches ▸ h.patches⟩

theorem storeRule (h : Accepted c) (hdb : c'.db = c.db.storeRule rule)
    (hvalid : validateRule rule.config = .ok ()) : Accepted c' := by
  refine ⟨fun key stored hstored => ?_, by rw [hdb]; exact h.patches⟩
  rw [hdb, Database.storeRule, Table.find?_upsert] at hstored
  split at hstored
  · cases hstored
    exact hvalid
  · exact h.rules key stored hstored

theorem storePatch (h : Accepted c)
    (hdb : c'.db = c.db.storePatch projectId agent sourceEvent patch) (hvalid : ValidPatch patch) :
    Accepted c' := by
  refine ⟨by rw [hdb]; exact h.rules, fun key row hrow => ?_⟩
  rw [hdb, Database.storePatch, Table.find?_upsert] at hrow
  split at hrow
  · cases hrow
    exact hvalid
  · exact h.patches key row hrow

/-- What a write accepts, and what a reset leaves of it, is valid. -/
theorem write {op : ConfigOp} (h : Accepted c) (hrun : op.run c = (.ok (), c')) : Accepted c' := by
  cases op with
  | saveGlobalRule rule =>
    obtain ⟨hvalid, -, hdb⟩ := ensures_saveGlobalRule hrun
    exact h.storeRule hdb hvalid
  | saveProjectPatch projectId agent sourceEvent patch =>
    obtain ⟨hvalid, -, hdb⟩ := ensures_saveProjectPatch hrun
    exact h.storePatch hdb (validPatch_of_ok hvalid)
  | resetProjectPatchField projectId agent sourceEvent field =>
    obtain ⟨stored, hstored, hdb⟩ := ensures_resetProjectPatchField hrun
    split at hdb
    · refine ⟨by rw [hdb]; exact h.rules, fun key row hrow => ?_⟩
      rw [hdb, Table.find?_delete, Option.filter_eq_some_iff] at hrow
      exact h.patches key row hrow.1
    · exact h.storePatch hdb ((h.patches _ stored hstored).clear field)
  | saveChannel channel =>
    obtain ⟨-, now, -, hdb⟩ := ensures_saveChannel hrun
    exact h.of_rules (by rw [hdb]) (by rw [hdb])
  | deleteChannel channelId =>
    have hdb : c'.db = c.db.deleteChannel channelId := (ensures_deleteChannel hrun).1
    exact h.of_rules (by rw [hdb]; rfl) (by rw [hdb]; rfl)

theorem run {op : ConfigOp} (h : Accepted c) (hrun : op.run c = (r, c')) : Accepted c' := by
  cases r with
  | ok u => exact h.write hrun
  | error e =>
    have hdb := ConfigOp.run_error hrun
    exact h.of_rules (by rw [hdb]) (by rw [hdb])

theorem step (h : Accepted c) (hstep : Step c act c') : Accepted c' := by
  cases hstep with
  | write hrun => exact h.run hrun
  | other hrules hpatches =>
    refine ⟨fun key rule hrule => ?_, fun key row hrow => h.patches key row (hpatches key row hrow)⟩
    rcases hrules key rule hrule with hold | hdefault
    · exact h.rules key rule hold
    · rw [hdefault]
      exact validateRule_defaultRule _ _

end Accepted

theorem accepted (h : Reach Accepted Step (fun _ _ => True) c) : Accepted c :=
  h.invariant (fun _ h => h) fun _ _ _ h hstep _ => h.step hstep

/-- **Every accepted rule.** In every state that writes lead to, the rule that a stored rule and a
stored patch make is accepted; and it is processable exactly when its patterns compile. -/
theorem processable_iff {sv : Services} {patch : Option RuleOverrideRow}
    (h : Reach Accepted Step (fun _ _ => True) c)
    (hglobal : c.db.globalRules.find? (agent, sourceEvent) = some global)
    (hpatch : ∀ row, patch = some row → row ∈ c.db.ruleOverrides.rows) :
    validateRule (resolveStoredRule sv global patch).config = .ok () ∧
      (Processable sv (resolveStoredRule sv global patch) ↔
        Compiles sv (resolveStoredRule sv global patch).config.privacy.extraRedactionPatterns) := by
  have haccepted := accepted h
  have hvalid : validateRule (resolveStoredRule sv global patch).config = .ok () := by
    refine validateRule_resolveRule (haccepted.rules _ _ hglobal) fun p hp => ?_
    obtain ⟨row, hrow, rfl⟩ := Option.map_eq_some_iff.mp hp
    exact haccepted.patches _ row (Table.mem_rows_iff.mp (hpatch row hrow))
  exact ⟨hvalid, processable_of_accepted hvalid⟩

/-! ## A pattern that does not compile -/

namespace Sample

open CcReminder.Sample

/-- A rule with redaction patterns. -/
def ruleWith (patterns : List String) : GlobalRuleRow where
  id := 1
  agent := .claudeCode
  sourceEvent := "Stop"
  config := { rule with privacy := { rule.privacy with extraRedactionPatterns := patterns } }

/-- One channel and no rules. -/
def unruled : Conn := { conn 0 with db := { (conn 0).db with globalRules := ∅ } }

theorem unruled_accepted : Accepted unruled where
  rules _ _ h := by simp [unruled] at h
  patches _ _ h := by simp [unruled, conn] at h

def saved (patterns : List String) : Except AppError Unit × Conn :=
  (ConfigOp.saveGlobalRule (ruleWith patterns)).run unruled

/-- The live path fails, and leaves no event behind. -/
def isLost (r : Except AppError LiveOutcome × Conn) : Bool :=
  r.1.toOption.isNone ∧ r.2.db.events.rows = []

end Sample

/-- A rule with an unclosed group is accepted, and then no event for it is recorded. -/
theorem pattern_stops_recording : ∃ (p : EventPipeline) (rule : GlobalRuleRow) (c c' : Conn)
    (request : IngressRequest), Accepted c ∧
      (ConfigOp.saveGlobalRule rule).run c = (.ok (), c') ∧
      c'.db.globalRules.find? (rule.agent, rule.sourceEvent) = some rule ∧
      ¬Processable p.sv (resolveStoredRule p.sv rule none) ∧
      Sample.isLost (p.processLive request c') := by
  have hsaved : (Sample.saved ["("]).1.toOption.isSome := by decide +kernel
  have hstored : (Sample.saved ["("]).2.db.globalRules.find? (.claudeCode, "Stop") =
      some (Sample.ruleWith ["("]) := by decide +kernel
  have hlost : Sample.isLost (CcReminder.Sample.pipeline.processLive (CcReminder.Sample.request 0)
      (Sample.saved ["("]).2) := by decide +kernel
  refine ⟨CcReminder.Sample.pipeline, Sample.ruleWith ["("], Sample.unruled, _,
    CcReminder.Sample.request 0, Sample.unruled_accepted, unit_run hsaved, hstored, fun h => ?_,
    hlost⟩
  obtain ⟨regex, hregex, -⟩ := ((processable_of_accepted h.accepted).mp h).1 "("
    (List.mem_singleton_self _)
  cases hregex

/-- A rule without patterns is processable once it is saved. -/
theorem processable_plain : ∃ c : Conn, c.db.globalRules.find? (.claudeCode, "Stop") =
      some (Sample.ruleWith []) ∧
    Processable CcReminder.Sample.services
      (resolveStoredRule CcReminder.Sample.services (Sample.ruleWith []) none) := by
  have hsaved : (Sample.saved []).1.toOption.isSome := by decide +kernel
  have hstored : (Sample.saved []).2.db.globalRules.find? (.claudeCode, "Stop") =
      some (Sample.ruleWith []) := by decide +kernel
  refine ⟨_, hstored, (processable_iff (.next (.start Sample.unruled_accepted)
    (.write (unit_run hsaved)) trivial) hstored fun _ h => by cases h).2.mpr ⟨fun _ h => ?_, fun h => absurd rfl h⟩⟩
  cases h

end Rules

end CcReminder
