import CcReminder.Lib.Regex
import CcReminder.Pipeline.Spec

/-!
# What redaction leaves

`security/redact.rs`: the pattern of the secrets that are always redacted, and one pass for it and one for
the patterns of the user. What stands between the replacements has no match; beside a replacement there may
be one.
-/

set_option autoImplicit true

namespace CcReminder

open Lib.Regex

/-! ## The mandatory pattern -/

/-- Simple case folding: two letters of ASCII have a third form. -/
def sameLetter (c d : Char) : Bool :=
  d.toLower = c.toLower ∨ c.toLower = 's' ∧ d = '\u017f' ∨ c.toLower = 'k' ∧ d = '\u212a'

/-- `[a-z]` under `i`. -/
def isLetterFold (c : Char) : Bool := c.isAlpha ∨ c = '\u017f' ∨ c = '\u212a'

/-- `\s`. -/
def isSpace (c : Char) : Bool :=
  c = ' ' ∨ 0x9 ≤ c.toNat ∧ c.toNat ≤ 0xd ∨
    c.toNat ∈ [0x85, 0xa0, 0x1680, 0x2028, 0x2029, 0x202f, 0x205f, 0x3000] ∨
    0x2000 ≤ c.toNat ∧ c.toNat ≤ 0x200a

def isNewline (c : Char) : Bool := c = '\r' ∨ c = '\n'

namespace MandatoryPattern

open Pattern

/-- A text, and a text under `i`. -/
def exactly (text : String) : Pattern := seq (text.toList.map fun c => one fun d => d = c)
def folded (text : String) : Pattern := seq (text.toList.map fun c => one (sameLetter c))

def privateKey : Pattern :=
  let label := star fun c => !(c = '-' ∨ isNewline c)
  seq [folded "-----BEGIN ", label, folded "PRIVATE KEY-----", .many (fun _ => true) 0 none false,
    folded "-----END ", label, folded "PRIVATE KEY-----"]

def authorization : Pattern :=
  let blanks := star fun c => c = ' ' ∨ c = '\t'
  seq [.boundary, folded "Authorization", blanks, exactly ":", blanks, atLeast 1 fun c => !isNewline c]

def bearer : Pattern :=
  seq [.boundary, folded "Bearer", atLeast 1 isSpace,
    atLeast 10 fun c => isLetterFold c ∨ c.isDigit ∨ c ∈ "._~+/-".toList,
    .many (fun c => c = '=') 0 (some 2) true]

def secretKey : Pattern :=
  seq [.boundary, folded "sk-", optional (folded "ant-"),
    atLeast 10 fun c => isLetterFold c ∨ c.isDigit ∨ c = '_' ∨ c = '-']

def gitHubToken : Pattern :=
  seq [.boundary, oneOf
    (seq [folded "gh", one fun c => "pousr".toList.any (sameLetter · c), folded "_",
      atLeast 10 fun c => isLetterFold c ∨ c.isDigit])
    [seq [folded "github_pat_", atLeast 10 fun c => isLetterFold c ∨ c.isDigit ∨ c = '_']]]

def awsKey : Pattern :=
  seq [.boundary, oneOf (exactly "AKIA") [exactly "ASIA"],
    .many (fun c => c.isUpper ∨ c.isDigit) 16 (some 16) true, .boundary]

def googleKey : Pattern :=
  seq [.boundary, exactly "AIza", atLeast 10 fun c => c.isAlphanum ∨ c = '_' ∨ c = '-', .boundary]

def webhookUrl : Pattern :=
  let maybeS := Pattern.many (sameLetter 's') 0 (some 1) true
  seq [folded "http", maybeS, folded "://", star fun c => !isSpace c,
    oneOf (folded "webhook") [seq [folded "hook", maybeS]], star fun c => !isSpace c]

def secretParameter : Pattern :=
  seq [one fun c => c = '?' ∨ c = '&', oneOf (folded "access_token") [folded "key", folded "secret"],
    exactly "=", atLeast 1 fun c => !(c = '&' ∨ c = '#' ∨ isSpace c)]

def namedSecret : Pattern :=
  let word := star fun c => isLetterFold c ∨ c.isDigit ∨ c = '_'
  let upTo := fun quote : Char => star fun c => !(c = quote ∨ isNewline c)
  seq [.boundary, word, oneOf (folded "secret") [folded "token", folded "password", folded "credential"],
    word, star isSpace, exactly "=", star isSpace, oneOf
      (seq [exactly "\"", upTo '"', exactly "\""])
      [seq [exactly "'", upTo '\'', exactly "'"], star fun c => !isNewline c]]

end MandatoryPattern

open MandatoryPattern in
/-- `MANDATORY_PATTERN`. -/
def mandatoryPattern : Pattern :=
  .oneOf privateKey [authorization, bearer, secretKey, gitHubToken, awsKey, googleKey, webhookUrl,
    secretParameter, namedSecret]

theorem mandatoryPattern_leastLength : 0 < mandatoryPattern.leastLength := by decide +kernel

def REPLACEMENT : String := "[REDACTED]"

/-! ## Compiled patterns -/

/-- What `regex` makes of a matcher. -/
def compiled (m : Matcher) : Regex where
  matchesEmpty := (m none []).isSome
  replaceAll := fun text => String.ofList (replaceAll id m REPLACEMENT.toList text.toList)

/-- The crate finds leftmost-first matches, of the mandatory pattern and of every other that it accepts. -/
structure Services.LeftmostFirst (sv : Services) (isWord : Char → Bool) (matcherOf : String → Matcher) :
    Prop where
  mandatory : sv.mandatory = compiled (mandatoryPattern.matcher isWord)
  bounded : ∀ pattern regex, sv.boundedRegex pattern = .ok regex → regex = compiled (matcherOf pattern)

/-- The one matcher of all extra patterns. -/
def customMatcher (matcherOf : String → Matcher) (patterns : List String) : Option Matcher :=
  if patterns = [] then none
  else some (matcherOf ("|".intercalate (patterns.map fun p => "(?:" ++ p ++ ")")))

/-- What is compiled of accepted patterns. -/
def redactorOf (isWord : Char → Bool) (custom : Option Matcher) : Redactor where
  mandatory := compiled (mandatoryPattern.matcher isWord)
  custom := custom.map compiled

theorem Services.LeftmostFirst.compile_ok {sv : Services} (hsv : sv.LeftmostFirst isWord matcherOf)
    (h : Redactor.compile sv patterns = .ok redactor) :
    redactor = redactorOf isWord (customMatcher matcherOf patterns) := by
  unfold Redactor.compile at h
  by_cases hlong : patterns.length > MAX_PATTERNS ∨ patterns.any (·.length > MAX_PATTERN_CHARS)
  · rw [if_pos hlong] at h
    cases h
  rw [if_neg hlong] at h
  simp only at h
  generalize (forIn patterns PUnit.unit _ : Except AppError PUnit) = checked at h
  rcases checked with e | ⟨⟨⟩⟩
  · cases h
  by_cases hnil : patterns = []
  · rw [if_pos hnil] at h
    cases h
    rw [redactorOf, customMatcher, if_pos hnil, hsv.mandatory]
    rfl
  · rw [if_neg hnil] at h
    cases hcombined : sv.boundedRegex ("|".intercalate (patterns.map fun p => "(?:" ++ p ++ ")")) with
    | error e =>
      rw [hcombined] at h
      cases h
    | ok regex =>
      rw [hcombined] at h
      cases h
      rw [redactorOf, customMatcher, if_neg hnil, hsv.mandatory, hsv.bounded _ _ hcombined]
      rfl

/-! ## What the replacements write -/

/-- The output, with what the replacements wrote marked. -/
def written (isWord : Char → Bool) (custom : Option Matcher) (input : String) : List (Char × Bool) :=
  let replacement := REPLACEMENT.toList.map (·, true)
  let mandatory := replaceAll Prod.fst (mandatoryPattern.matcher isWord) replacement
    (input.toList.map (·, false))
  match custom with
  | some m => replaceAll Prod.fst m replacement mandatory
  | none => mandatory

theorem map_fst_replaceAll (m : Matcher) (text : List (Char × Bool)) :
    (replaceAll Prod.fst m (REPLACEMENT.toList.map (·, true)) text).map Prod.fst =
      replaceAll id m REPLACEMENT.toList (text.map Prod.fst) := by
  have hmap : (replaceFrom (fun a => id (Prod.fst a)) m (REPLACEMENT.toList.map (·, true)) none false 0
      text).map Prod.fst = _ := map_replaceFrom m (REPLACEMENT.toList.map (·, true)) text none false 0
  rw [List.map_map] at hmap
  exact hmap

theorem map_fst_written (isWord : Char → Bool) (custom : Option Matcher) (input : String) :
    (written isWord custom input).map Prod.fst = ((redactorOf isWord custom).redact input).toList := by
  have hinput : (input.toList.map (·, false)).map Prod.fst = input.toList := by
    rw [List.map_map]
    exact List.map_id _
  cases custom with
  | none =>
    rw [written, map_fst_replaceAll, hinput]
    exact (String.toList_ofList).symm
  | some m =>
    rw [written, map_fst_replaceAll, map_fst_replaceAll, hinput]
    simp only [Redactor.redact, redactorOf, Option.map_some, compiled, String.toList_ofList]

/-- A match of the mandatory pattern in a text. -/
def MatchIn (isWord : Char → Bool) (pre w post : List (Char × Bool)) : Prop :=
  Matches isWord mandatoryPattern (pre.getLast?.map Prod.fst) ((w ++ post).map Prod.fst) w.length

/-- Something that a replacement wrote is in a part of a text or beside it. -/
def Touches (pre w post : List (Char × Bool)) : Prop :=
  ∃ item ∈ pre.getLast?.toList ++ w ++ post.head?.toList, item.2 = true

theorem touches_of_match (h : written isWord custom input = pre ++ w ++ post)
    (hmatch : MatchIn isWord pre w post) : Touches pre w post := by
  by_contra huntouched
  have hnone : ∀ item ∈ pre.getLast?.toList ++ w ++ post.head?.toList, ¬ item.2 = true :=
    fun item hitem hmark => huntouched ⟨item, hitem, hmark⟩
  have hne : REPLACEMENT.toList.map (·, true) ≠ [] := by decide +kernel
  have hmarked : ∀ item ∈ REPLACEMENT.toList.map (·, true), item.2 = true := fun item hitem => by
    obtain ⟨c, -, rfl⟩ := List.mem_map.mp hitem
    rfl
  have hw₀ : w ≠ [] := by
    rintro rfl
    exact absurd (leastLength_le _ hmatch) (by decide +kernel)
  have hbefore : ∀ a ∈ pre.getLast?, ¬ a.2 = true := fun a ha => hnone a (by simp_all)
  have hw : ∀ a ∈ w, ¬ a.2 = true := fun a ha => hnone a (by simp_all)
  have hpost : ∀ a ∈ post.head?, ¬ a.2 = true := fun a ha => hnone a (by simp_all)
  cases custom with
  | none =>
    have hstands := replaceAll_stands hne hmarked h hw₀ hbefore hw hpost
    exact hstands.not_matches mandatoryPattern_leastLength rfl hmatch
  | some m =>
    obtain ⟨pre₁, post₁, htext, hpre₁, hpost₁, -⟩ := replaceAll_stands hne hmarked h hw₀ hbefore hw hpost
    rw [Option.or_none] at hpre₁
    have hstands := replaceAll_stands hne hmarked htext hw₀ (hpre₁ ▸ hbefore) hw (hpost₁ ▸ hpost)
    refine hstands.not_matches mandatoryPattern_leastLength rfl ?_
    rw [hpre₁]
    exact hmatch.of_neighbours hpost₁

/-- Another pass of the mandatory pattern changes nothing, or there is a match. -/
theorem replaceAll_written (isWord : Char → Bool) (custom : Option Matcher) (input : String) :
    (compiled (mandatoryPattern.matcher isWord)).replaceAll ((redactorOf isWord custom).redact input) =
        (redactorOf isWord custom).redact input ∨
      ∃ pre w post, written isWord custom input = pre ++ w ++ post ∧ MatchIn isWord pre w post := by
  have hor : replaceFrom Prod.fst (mandatoryPattern.matcher isWord) (REPLACEMENT.toList.map (·, true)) none
      false 0 (written isWord custom input) = written isWord custom input ∨ _ :=
    replaceFrom_eq_or (written isWord custom input) none false [] rfl
  rcases hor with hsame | ⟨pre, rest, k, hsplit, hk⟩
  · refine .inl ?_
    have hchars := map_fst_replaceAll (mandatoryPattern.matcher isWord) (written isWord custom input)
    rw [replaceAll, hsame, map_fst_written] at hchars
    simp only [compiled]
    rw [← hchars, String.ofList_toList]
  · obtain ⟨ks, hks⟩ := List.head?_eq_some_iff.mp hk
    have hmatch : Matches isWord mandatoryPattern (pre.getLast?.map Prod.fst) (rest.map Prod.fst) k := by
      rw [Matches, hks]
      exact List.mem_cons_self
    have hle := hmatch.le_length
    rw [List.length_map] at hle
    refine .inr ⟨pre, rest.take k, rest.drop k, ?_, ?_⟩
    · rw [List.append_assoc, List.take_append_drop]
      exact hsplit
    · rw [MatchIn, List.take_append_drop, List.length_take, Nat.min_eq_left hle]
      exact hmatch

/-- Every match of the mandatory pattern in the output touches what a replacement wrote, and another pass
of it changes nothing where there is none. -/
structure Redacts (isWord : Char → Bool) (custom : Option Matcher) (redactor : Redactor) (input : String) :
    Prop where
  output : (written isWord custom input).map Prod.fst = (redactor.redact input).toList
  touches : ∀ pre w post, written isWord custom input = pre ++ w ++ post → MatchIn isWord pre w post →
    Touches pre w post
  again : redactor.mandatory.replaceAll (redactor.redact input) = redactor.redact input ∨
    ∃ pre w post, written isWord custom input = pre ++ w ++ post ∧ MatchIn isWord pre w post ∧
      Touches pre w post

/-- **Redaction**, for every text and all accepted patterns. -/
theorem Services.LeftmostFirst.redacts {sv : Services} (hsv : sv.LeftmostFirst isWord matcherOf)
    (h : Redactor.compile sv patterns = .ok redactor) (input : String) :
    Redacts isWord (customMatcher matcherOf patterns) redactor input := by
  obtain rfl := hsv.compile_ok h
  refine ⟨map_fst_written _ _ _, fun _ _ _ => touches_of_match, ?_⟩
  refine (replaceAll_written isWord (customMatcher matcherOf patterns) input).imp id ?_
  rintro ⟨pre, w, post, hsplit, hmatch⟩
  exact ⟨pre, w, post, hsplit, hmatch, touches_of_match hsplit hmatch⟩

namespace Sample

/-- The words of ASCII. -/
def isAsciiWord (c : Char) : Bool := c.isAlphanum ∨ c = '_'

def redacting : Services :=
  { services with mandatory := compiled (mandatoryPattern.matcher isAsciiWord) }

theorem redacting_leftmostFirst : redacting.LeftmostFirst isAsciiWord fun _ _ _ => none where
  mandatory := rfl
  bounded := fun _ _ h => nomatch h

theorem redacts_token : Redacts isAsciiWord (customMatcher (fun _ _ _ => none) [])
    { mandatory := redacting.mandatory, custom := none } "token=hunter2" :=
  redacting_leftmostFirst.redacts rfl "token=hunter2"

/-- Behind one secret another one begins, which the word boundary hides until the first is replaced. -/
theorem not_complete : ¬ ∀ (sv : Services) (isWord : Char → Bool) (matcherOf : String → Matcher)
    (patterns : List String) (redactor : Redactor), sv.LeftmostFirst isWord matcherOf →
      Redactor.compile sv patterns = .ok redactor → ∀ (input : String) (pre w post : List Char),
        (redactor.redact input).toList = pre ++ w ++ post →
          ¬ Matches isWord mandatoryPattern pre.getLast? (w ++ post) w.length := by
  intro h
  have houtput : ((redactorOf isAsciiWord none).redact "ghp_0123456789_token=hunter2").toList =
      "[REDACTED]".toList ++ "_token=hunter2".toList ++ [] := by
    rw [← map_fst_written]
    decide +kernel
  refine h redacting isAsciiWord _ [] _ redacting_leftmostFirst rfl _ _ _ _ houtput ?_
  decide +kernel

end Sample

end CcReminder
