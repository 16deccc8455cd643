import CcReminder.Rules.Resolve
import CcReminder.Rules.Template

/-!
# Rule validation

`validate_rule` and `default_rule` of `rules/resolve.rs`. A rule is checked field by field; nothing
is checked of two fields together.
-/

namespace CcReminder

def MAX_RULE_LIST_ITEMS : Nat := 100
def MAX_RULE_VALUE_BYTES : Nat := 256

def ruleInvalid : AppError where
  domain := .configuration
  code := "rule_invalid"
  message := "notification rule is invalid"

def validRuleStrings (values : List String) : Bool :=
  values.length ≤ MAX_RULE_LIST_ITEMS ∧
    values.all (·.utf8ByteSize ≤ MAX_RULE_VALUE_BYTES)

def validRedactionPatterns (values : List String) : Bool :=
  values.length ≤ MAX_PATTERNS ∧ values.all (·.length ≤ MAX_PATTERN_CHARS)

def validAggregateWindow : DeliveryMode → Bool
  | .immediate => true
  | .aggregate windowSeconds => 10 ≤ windowSeconds ∧ windowSeconds ≤ 3600

def QuietHours.isValid (quiet : QuietHours) : Bool :=
  (parseQuietTime quiet.startLocal).isSome ∧ (parseQuietTime quiet.endLocal).isSome ∧
    quiet.weekdays.all fun day => 1 ≤ day ∧ day ≤ 7

def FilterGroup.values (filters : FilterGroup) : List (List String) :=
  [filters.toolNames, filters.eventSubtypes, filters.permissionModes, filters.models,
    filters.statuses]

/-- The lists and the texts of a rule are bounded. -/
def RuleConfig.isBounded (rule : RuleConfig) : Bool :=
  rule.filters.values.all validRuleStrings ∧
    validRuleStrings rule.privacy.allowedSensitiveFields ∧
    validRedactionPatterns rule.privacy.extraRedactionPatterns ∧
    rule.targets.all fun target =>
      target.template.all fun template => template.utf8ByteSize ≤ MAX_TEMPLATE_BYTES

def validateRule (rule : RuleConfig) : Except AppError Unit :=
  let delivery := rule.delivery
  if rule.targets.length > 20 ∨
      rule.privacy.maxBodyChars > 4000 ∨
      ¬(1 ≤ delivery.ttlSeconds ∧ delivery.ttlSeconds ≤ 86400) ∨
      ¬(1 ≤ delivery.maxAttempts ∧ delivery.maxAttempts ≤ 10) ∨
      !validAggregateWindow delivery.mode ∨
      delivery.cooldownSeconds > 86400 ∨
      delivery.windowSeconds > 86400 ∨
      ¬(1 ≤ delivery.maxPerWindow ∧ delivery.maxPerWindow ≤ 100) ∨
      !rule.quietHours.all (·.isValid) ∨
      !rule.isBounded then .error ruleInvalid
  else .ok ()

def defaultRule (agent : AgentKind) (event : String) : RuleConfig where
  enabled :=
    match agent with
    | .claudeCode => ["PermissionRequest", "Notification", "Stop", "StopFailure"].contains event
    | .codex => ["PermissionRequest", "Stop"].contains event
  targets := []
  filters := {}
  privacy :=
    let nativeSummary := ["Stop", "StopFailure", "PostToolUseFailure"].contains event
    { allowedSensitiveFields := []
      maxBodyChars := if nativeSummary then 500 else 0
      summaryMode := if nativeSummary then .nativeSummary else .metadataOnly
      extraRedactionPatterns := [] }
  delivery := {
    mode := .immediate
    cooldownSeconds := 0
    maxPerWindow := 100
    windowSeconds := 3600
    quietBehavior := .suppress
    ttlSeconds := if event = "PermissionRequest" then 600 else 1800
    maxAttempts := 5 }
  quietHours := none

/-- Every default passes the check. -/
theorem validateRule_defaultRule (agent : AgentKind) (event : String) :
    validateRule (defaultRule agent event) = .ok () := by
  refine if_neg ?_
  have hbody : ∀ b : Bool, ¬(if b then (500 : UInt32) else 0) > 4000 := by decide
  have httl : ∀ b : Bool, 1 ≤ (if b then (600 : UInt32) else 1800) ∧
      (if b then (600 : UInt32) else 1800) ≤ 86400 := by decide
  have httl' := httl (decide (event = "PermissionRequest"))
  simp only [decide_eq_true_eq] at httl'
  simp only [defaultRule, not_or]
  refine ⟨by decide, hbody _, ?_, by decide, by decide, by decide, by decide, by decide, by decide,
    ?_⟩
  · exact fun h => h httl'
  · simp [RuleConfig.isBounded, FilterGroup.values, validRuleStrings, validRedactionPatterns]

/-- The bounds of the time to live of a rule that was accepted. -/
theorem ttlSeconds_of_validateRule {rule : RuleConfig} (h : validateRule rule = .ok ()) :
    1 ≤ rule.delivery.ttlSeconds ∧ rule.delivery.ttlSeconds ≤ 86400 := by
  unfold validateRule at h
  simp only at h
  split at h
  · cases h
  · rename_i hok
    simp only [not_or, not_not] at hok
    exact hok.2.2.1

/-- An accepted window is not empty. -/
theorem windowSeconds_of_validateRule {rule : RuleConfig} (h : validateRule rule = .ok ())
    (hmode : rule.delivery.mode = .aggregate windowSeconds) :
    10 ≤ windowSeconds ∧ windowSeconds ≤ 3600 := by
  unfold validateRule at h
  simp only at h
  split at h
  · cases h
  · rename_i hok
    simp only [not_or] at hok
    have hwindow := hok.2.2.2.2.1
    simpa [validAggregateWindow, hmode] using hwindow

end CcReminder
