import CcReminder.Services
import CcReminder.Storage.Queue.Basic

/-!
# Effective rules

`rules/resolve.rs`: a project's patch replaces fields of the global rule, and the version of the
result is a hash of the rule's identity and of its fields.
-/

namespace CcReminder

structure ResolvedRule where
  id : RuleId
  version : String
  config : RuleConfig
  deriving DecidableEq

def resolveRule (global : RuleConfig) : Option RulePatch → RuleConfig
  | none => global
  | some patch => {
    enabled := patch.enabled.getD global.enabled
    targets := patch.targets.getD global.targets
    filters := patch.filters.getD global.filters
    privacy := patch.privacy.getD global.privacy
    delivery := patch.delivery.getD global.delivery
    quietHours := patch.quietHours.getD global.quietHours }

/-- `to_be_bytes` of a 64-bit word. -/
def wordBytes (n : Nat) : List UInt8 := (List.range 8).map fun i => UInt8.ofNat (n >>> (8 * (7 - i)))

/-- A hashed part, after its length. -/
def hashPart (value : List UInt8) : List UInt8 := wordBytes value.length ++ value

def resolveStoredRule (sv : Services) (global : GlobalRuleRow) (patch : Option RuleOverrideRow) :
    ResolvedRule :=
  let config := resolveRule global.config (patch.map (·.patch))
  { id := global.id
    version := hexEncode (sv.sha256 (hashPart global.id.asBytes ++
      hashPart ((patch.map (·.projectId.asBytes)).getD []) ++ hashPart (sv.encodeRule config)))
    config }

/-- A time of day, in nanoseconds since midnight. -/
abbrev NaiveTime := Int

def isAsciiDigit (b : UInt8) : Bool := 48 ≤ b ∧ b ≤ 57

/-- `HH:MM`, exactly five bytes. -/
def parseQuietTime (value : String) : Option NaiveTime :=
  match utf8Bytes value with
  | [h₁, h₂, colon, m₁, m₂] =>
    if colon ≠ 58 ∨ !([h₁, h₂, m₁, m₂].all isAsciiDigit) then none
    else
      let hour := (h₁.toNat - 48) * 10 + (h₂.toNat - 48)
      let minute := (m₁.toNat - 48) * 10 + (m₂.toNat - 48)
      if hour < 24 ∧ minute < 60 then some (Duration.minutes (hour * 60 + minute)) else none
  | _ => none

/-- A parsed time lies within the day. -/
theorem parseQuietTime_lt {value : String} {t : NaiveTime} (h : parseQuietTime value = some t) :
    0 ≤ t ∧ t < Duration.days 1 := by
  unfold parseQuietTime at h
  split at h
  · split at h
    · cases h
    · simp only at h
      split at h
      · rename_i hlt
        cases h
        obtain ⟨hhour, hminute⟩ := hlt
        change (0 : Int) ≤ _ ∧ (_ : Int) < _
        simp only [Duration.minutes, Duration.seconds, Duration.days]
        omega
      · cases h
  · cases h

end CcReminder
