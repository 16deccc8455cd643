import CcReminder.Installer.Words
import CcReminder.Lib.Bytes
import CcReminder.Pipeline.WindowCap

/-!
# Keys

Four keys are hashes of several values: the idempotency key of a job, the version of a rule with its patch,
the key of a bucket, and that of the bucket of one channel. The hashed bytes tell the values: what has no
fixed length stands between parts that do, or after its length. An absent project has length 0 and a
present one has 16.
-/

set_option autoImplicit true

namespace CcReminder

open Lib

/-! ## Parts -/

@[simp] theorem Uuid.asBytes_length (id : Uuid) : id.asBytes.length = 16 := by
  rw [Uuid.asBytes, List.length_map, List.length_range]

theorem wordBytes_eq (n : Nat) : wordBytes n = (littleEndian 8 n).reverse := by
  simp [wordBytes, littleEndian, List.range_succ, Nat.shiftRight_eq_div_pow]

@[simp] theorem wordBytes_length (n : Nat) : (wordBytes n).length = 8 := by
  rw [wordBytes_eq, List.length_reverse, littleEndian_length]

theorem wordBytes_injective (hm : m < 2 ^ 64) (hn : n < 2 ^ 64) (h : wordBytes m = wordBytes n) :
    m = n := by
  rw [wordBytes_eq, wordBytes_eq] at h
  exact littleEndian_injective (k := 8) hm hn (List.reverse_injective h)

@[simp] theorem hashPart_length (part : List UInt8) : (hashPart part).length = 8 + part.length := by
  rw [hashPart, List.length_append, wordBytes_length]

/-- A part is told from what follows it by its length. -/
theorem hashPart_append_inj (hpart : part.length < 2 ^ 64) (hpart' : part'.length < 2 ^ 64)
    (h : hashPart part ++ rest = hashPart part' ++ rest') : part = part' ∧ rest = rest' := by
  simp only [hashPart, List.append_assoc] at h
  obtain ⟨hword, h⟩ := List.append_inj h (by rw [wordBytes_length, wordBytes_length])
  exact List.append_inj h (wordBytes_injective hpart hpart' hword)

/-- A part is told from what precedes a rest of known length. -/
theorem hashPart_append_inj_right (hrest : rest.length = rest'.length)
    (h : hashPart part ++ rest = hashPart part' ++ rest') : part = part' ∧ rest = rest' := by
  obtain ⟨hframed, h⟩ := List.append_inj' h hrest
  exact ⟨List.append_inj_right hframed (by rw [wordBytes_length, wordBytes_length]), h⟩

theorem hashPart_injective (h : hashPart part = hashPart part') : part = part' := by
  have hnil : hashPart part ++ [] = hashPart part' ++ [] := by rw [h]
  exact (hashPart_append_inj_right rfl hnil).1

theorem AgentKind.asStr_injective {source source' : AgentKind} (h : source.asStr = source'.asStr) :
    source = source' := by
  cases source <;> cases source' <;> first | rfl | exact absurd h (by decide)

theorem AgentKind.asStr_lt (source : AgentKind) : (utf8Bytes source.asStr).length < 2 ^ 64 := by
  cases source <;> decide

/-- The bytes of an identifier that may be absent. -/
def optionBytes (project : Option Uuid) : List UInt8 := (project.map (·.asBytes)).getD []

theorem optionBytes_lt (project : Option Uuid) : (optionBytes project).length < 2 ^ 64 := by
  cases project with
  | none => decide
  | some project => exact project.asBytes_length ▸ by decide

theorem optionBytes_injective (h : optionBytes project = optionBytes project') : project = project' := by
  cases project with
  | none => cases project' with
    | none => rfl
    | some project' => exact absurd (congrArg List.length h) (by simp [optionBytes])
  | some project => cases project' with
    | none => exact absurd (congrArg List.length h) (by simp [optionBytes])
    | some project' => exact congrArg some (Uuid.asBytes_injective h)

section

variable {sv : Services} (hsha : Function.Injective sv.sha256)

include hsha

/-! ## Jobs and versions -/

theorem idempotencyKey_inj : idempotencyKey sv.sha256 eventId version channelId =
    idempotencyKey sv.sha256 eventId' version' channelId' ↔
      eventId = eventId' ∧ version = version' ∧ channelId = channelId' := by
  constructor
  · intro h
    have hbytes := hsha (hexEncode_injective h)
    obtain ⟨hbytes, hchannel⟩ := List.append_inj' hbytes (by simp)
    obtain ⟨hbytes, -⟩ := List.append_inj' hbytes rfl
    obtain ⟨hbytes, hversion⟩ := List.append_inj hbytes (by simp)
    obtain ⟨hevent, -⟩ := List.append_inj hbytes (by simp)
    exact ⟨Uuid.asBytes_injective hevent, utf8Bytes_injective hversion, Uuid.asBytes_injective hchannel⟩
  · rintro ⟨rfl, rfl, rfl⟩
    rfl

theorem perChannelAggregateKey_inj :
    perChannelAggregateKey sv base channelId = perChannelAggregateKey sv base' channelId' ↔
      base = base' ∧ channelId = channelId' := by
  constructor
  · intro h
    have hbytes := hsha (hexEncode_injective h)
    obtain ⟨hbytes, hchannel⟩ := List.append_inj' hbytes (by simp)
    obtain ⟨hbase, -⟩ := List.append_inj' hbytes rfl
    exact ⟨utf8Bytes_injective hbase, Uuid.asBytes_injective hchannel⟩
  · rintro ⟨rfl, rfl⟩
    rfl

variable {rules : Set RuleConfig} (hserde : Set.InjOn sv.encodeRule rules)

include hserde

theorem resolveStoredRule_version_inj (hrule : (resolveStoredRule sv global patch).config ∈ rules)
    (hrule' : (resolveStoredRule sv global' patch').config ∈ rules) : (resolveStoredRule sv global patch).version =
    (resolveStoredRule sv global' patch').version ↔
      global.id = global'.id ∧ patch.map (·.projectId) = patch'.map (·.projectId) ∧
        (resolveStoredRule sv global patch).config = (resolveStoredRule sv global' patch').config := by
  have hproject (patch : Option RuleOverrideRow) :
      (patch.map (·.projectId.asBytes)).getD [] = optionBytes (patch.map (·.projectId)) := by
    rw [optionBytes, Option.map_map]
    rfl
  constructor
  · intro h
    have hbytes := hsha (hexEncode_injective h)
    rw [hproject, hproject, List.append_assoc, List.append_assoc] at hbytes
    obtain ⟨hid, hbytes⟩ := hashPart_append_inj (by simp) (by simp) hbytes
    obtain ⟨hpatch, hconfig⟩ := hashPart_append_inj (optionBytes_lt _) (optionBytes_lt _) hbytes
    have hconfig := hashPart_injective hconfig
    exact ⟨Uuid.asBytes_injective hid, optionBytes_injective hpatch, hserde hrule hrule' hconfig⟩
  · rintro ⟨hid, hpatch, hconfig⟩
    change hexEncode (sv.sha256 (hashPart global.id.asBytes ++ hashPart _ ++
      hashPart (sv.encodeRule (resolveStoredRule sv global patch).config))) = _
    rw [hproject, hid, hpatch, hconfig, ← hproject]
    rfl

end

/-! ## Buckets -/

/-- What `aggregate_decision` hashes. -/
def bucketBytes (sv : Services) (event : EventEnvelope) (rule : RuleConfig) (releaseTimestamp : Int) :
    List UInt8 :=
  hashPart (utf8Bytes event.source.asStr) ++ hashPart (utf8Bytes event.sourceEvent) ++
    hashPart (optionBytes event.projectId) ++ hashPart (sv.encodeRule rule) ++
    hashPart (wordBytes (releaseTimestamp % 2 ^ 64).toNat)

/-- What the types of the source promise: the length of a string is a word, and `DateTime<Utc>` has a
first and a last instant. -/
structure PolicyInput.Representable (input : PolicyInput) : Prop where
  sourceEvent : (utf8Bytes input.event.sourceEvent).length < 2 ^ 64
  first : Duration.seconds (-8334601228800) ≤ input.now
  last : input.now < Duration.seconds 8210266876800

/-- Two events have the same values in all that a bucket depends on. -/
structure SameBucket (input input' : PolicyInput) (releaseAt releaseAt' : DateTime) : Prop where
  source : input.event.source = input'.event.source
  sourceEvent : input.event.sourceEvent = input'.event.sourceEvent
  projectId : input.event.projectId = input'.event.projectId
  rule : input.rule = input'.rule
  releaseAt : releaseAt = releaseAt'

/-- The end of the window that an instant lies in. -/
theorem ediv_window_bounds (t : Int) (hpos : 0 < w) : t < (t / w + 1) * w ∧ (t / w + 1) * w ≤ t + w := by
  have hsum := Int.mul_ediv_add_emod t w
  have hnonneg := Int.emod_nonneg t hpos.ne'
  have hlt := Int.emod_lt_of_pos t hpos
  have hend : (t / w + 1) * w = w * (t / w) + w := by ring
  omega

/-- The key is a hash, and the release is a whole second that fits an `i64`. -/
theorem evaluatePolicy_bucket {sv : Services} {input : PolicyInput} (hinput : input.Representable)
    (h : evaluatePolicy sv input = .aggregate key releaseAt) :
    ∃ releaseTimestamp : Int, -2 ^ 63 ≤ releaseTimestamp ∧ releaseTimestamp < 2 ^ 63 ∧
      releaseAt = Duration.seconds releaseTimestamp ∧
      key = hexEncode (sv.sha256 (bucketBytes sv input.event input.rule releaseTimestamp)) := by
  obtain ⟨windowSeconds, -, hpos, h⟩ := evaluatePolicy_aggregate h
  obtain ⟨hkey, hrelease⟩ := PolicyDecision.aggregate.inj h
  have hwindowpos : (0 : Int) < windowSeconds.toNat := by exact_mod_cast hpos
  obtain ⟨hlower, hupper⟩ := ediv_window_bounds (input.now / Duration.seconds 1) hwindowpos
  have hwindow := windowSeconds.toNat_lt
  have hfirst := hinput.first
  have hlast := hinput.last
  simp only [Duration.seconds] at hfirst hlast hlower hupper
  dsimp only [DateTime, Duration] at hfirst hlast hlower hupper
  refine ⟨_, ?_, ?_, hrelease.symm, hkey.symm⟩
  · simp only [Duration.seconds]
    omega
  · simp only [Duration.seconds]
    omega

theorem bucketBytes_inj {sv : Services} {rules : Set RuleConfig} (hserde : Set.InjOn sv.encodeRule rules)
    (hrule : rule ∈ rules) (hrule' : rule' ∈ rules)
    (hevent : (utf8Bytes event.sourceEvent).length < 2 ^ 64)
    (hevent' : (utf8Bytes event'.sourceEvent).length < 2 ^ 64)
    (hlower : -2 ^ 63 ≤ release) (hupper : release < 2 ^ 63)
    (hlower' : -2 ^ 63 ≤ release') (hupper' : release' < 2 ^ 63)
    (h : bucketBytes sv event rule release = bucketBytes sv event' rule' release') :
    event.source = event'.source ∧ event.sourceEvent = event'.sourceEvent ∧
      event.projectId = event'.projectId ∧ rule = rule' ∧ release = release' := by
  simp only [bucketBytes, List.append_assoc] at h
  obtain ⟨hsource, h⟩ := hashPart_append_inj event.source.asStr_lt event'.source.asStr_lt h
  obtain ⟨hname, h⟩ := hashPart_append_inj hevent hevent' h
  obtain ⟨hproject, h⟩ := hashPart_append_inj (optionBytes_lt _) (optionBytes_lt _) h
  -- the encoded rule has any length: the release behind it is one word
  obtain ⟨hencoded, h⟩ := hashPart_append_inj_right (by simp) h
  have hword := hashPart_injective h
  have hrelease := wordBytes_injective (by omega) (by omega) hword
  exact ⟨AgentKind.asStr_injective (utf8Bytes_injective hsource), utf8Bytes_injective hname,
    optionBytes_injective hproject, hserde hrule hrule' hencoded, by omega⟩

/-- The key of a bucket tells all that the bucket depends on. -/
theorem bucketKey_inj {sv : Services} {input input' : PolicyInput} {rules : Set RuleConfig}
    (hsha : Function.Injective sv.sha256) (hserde : Set.InjOn sv.encodeRule rules)
    (hrule : input.rule ∈ rules) (hrule' : input'.rule ∈ rules) (hinput : input.Representable)
    (hinput' : input'.Representable) (h : evaluatePolicy sv input = .aggregate key releaseAt)
    (h' : evaluatePolicy sv input' = .aggregate key' releaseAt') :
    key = key' ↔ SameBucket input input' releaseAt releaseAt' := by
  obtain ⟨release, hlower, hupper, hat, hkey⟩ := evaluatePolicy_bucket hinput h
  obtain ⟨release', hlower', hupper', hat', hkey'⟩ := evaluatePolicy_bucket hinput' h'
  subst hat hat' hkey hkey'
  constructor
  · intro hsame
    obtain ⟨hsource, hname, hproject, hsame, hrelease⟩ := bucketBytes_inj hserde hrule hrule'
      hinput.sourceEvent hinput'.sourceEvent hlower hupper hlower' hupper'
      (hsha (hexEncode_injective hsame))
    exact ⟨hsource, hname, hproject, hsame, congrArg Duration.seconds hrelease⟩
  · rintro ⟨hsource, hname, hproject, hsame, hrelease⟩
    have hnanos : release * 1000000000 = release' * 1000000000 := hrelease
    have hseconds : release = release' := by omega
    rw [bucketBytes, bucketBytes, hsource, hname, hproject, hsame, hseconds]

/-- **Keys.** Each key tells the values that it is made of, and two aggregated events have jobs in the same
bucket just if they agree in all that the bucket of a channel depends on. -/
theorem keys_injective {sv : Services} {rules : Set RuleConfig} (hsha : Function.Injective sv.sha256)
    (hserde : Set.InjOn sv.encodeRule rules) :
    (∀ eventId version channelId eventId' version' channelId',
      idempotencyKey sv.sha256 eventId version channelId =
          idempotencyKey sv.sha256 eventId' version' channelId' ↔
        eventId = eventId' ∧ version = version' ∧ channelId = channelId') ∧
    (∀ global patch global' patch', (resolveStoredRule sv global patch).config ∈ rules →
      (resolveStoredRule sv global' patch').config ∈ rules →
      ((resolveStoredRule sv global patch).version = (resolveStoredRule sv global' patch').version ↔
        global.id = global'.id ∧ patch.map (·.projectId) = patch'.map (·.projectId) ∧
          (resolveStoredRule sv global patch).config = (resolveStoredRule sv global' patch').config)) ∧
    (∀ base channelId base' channelId',
      perChannelAggregateKey sv base channelId = perChannelAggregateKey sv base' channelId' ↔
        base = base' ∧ channelId = channelId') ∧
    ∀ input input' key key' releaseAt releaseAt', input.rule ∈ rules → input'.rule ∈ rules →
      input.Representable → input'.Representable →
      evaluatePolicy sv input = .aggregate key releaseAt →
      evaluatePolicy sv input' = .aggregate key' releaseAt' →
        (key = key' ↔ SameBucket input input' releaseAt releaseAt') ∧
        ∀ plan plan' document document' now now' id id' target target',
          plan.decision = evaluatePolicy sv input → plan'.decision = evaluatePolicy sv input' →
            ((jobFor sv plan document now id target).aggregateKey =
                (jobFor sv plan' document' now' id' target').aggregateKey ↔
              SameBucket input input' releaseAt releaseAt' ∧ target.channelId = target'.channelId) := by
  refine ⟨fun _ _ _ _ _ _ => idempotencyKey_inj hsha, fun _ _ _ _ hrule hrule' => ?_,
    fun _ _ _ _ => perChannelAggregateKey_inj hsha, ?_⟩
  · exact resolveStoredRule_version_inj hsha hserde hrule hrule'
  intro input input' key key' releaseAt releaseAt' hrule hrule' hinput hinput' h h'
  have hbucket := bucketKey_inj hsha hserde hrule hrule' hinput hinput' h h'
  refine ⟨hbucket, ?_⟩
  intro plan plan' document document' now now' id id' target target' hplan hplan'
  rw [jobFor, jobFor, hplan, hplan', h, h']
  change some (perChannelAggregateKey sv key target.channelId) =
    some (perChannelAggregateKey sv key' target'.channelId) ↔ _
  rw [Option.some_inj, perChannelAggregateKey_inj hsha, hbucket]

/-! ## Two projects -/

namespace Keys.Sample

open WindowCap.Sample

/-- A rule that collects the events of ten seconds. -/
def collecting : RuleConfig :=
  { CcReminder.Sample.rule with
    delivery := { CcReminder.Sample.rule.delivery with mode := .aggregate 10 }, quietHours := none }

/-- The rule as JSON. -/
def ruleText : String :=
  "\x7b\"enabled\":true,\"targets\":[\x7b\"channel_id\":\"00000000-0000-0000-0000-000000000001\"," ++
  "\"template\":null\x7d],\"filters\":\x7b\"tool_names\":[],\"event_subtypes\":[]," ++
  "\"permission_modes\":[],\"models\":[],\"statuses\":[]\x7d,\"privacy\":\x7b" ++
  "\"allowed_sensitive_fields\":[],\"max_body_chars\":0,\"summary_mode\":\"metadata_only\"," ++
  "\"extra_redaction_patterns\":[]\x7d,\"delivery\":\x7b\"mode\":\x7b\"mode\":\"aggregate\"," ++
  "\"window_seconds\":10\x7d,\"cooldown_seconds\":0,\"max_per_window\":100,\"window_seconds\":3600," ++
  "\"quiet_behavior\":\"defer\",\"ttl_seconds\":1800,\"max_attempts\":5\x7d,\"quiet_hours\":null\x7d"

def services : Services :=
  { CcReminder.Sample.services with encodeRule := fun _ => utf8Bytes ruleText }

def collected (project : Option ProjectId) : PolicyInput :=
  { input 100 [] with rule := collecting, event := { event with projectId := project } }

theorem keys_of_projects : ∃ key key' releaseAt,
    evaluatePolicy services (collected none) = .aggregate key releaseAt ∧
      evaluatePolicy services (collected (some 7)) = .aggregate key' releaseAt ∧ key ≠ key' := by
  have hinput (project : Option ProjectId) : (collected project).Representable :=
    { sourceEvent := show (utf8Bytes "Stop").length < 2 ^ 64 by decide
      first := show Duration.seconds (-8334601228800) ≤ 0 by decide
      last := show 0 < Duration.seconds 8210266876800 by decide }
  obtain ⟨-, -, -, hbuckets⟩ := @keys_injective services {collecting}
    Function.injective_id (Set.injOn_singleton _ _)
  refine ⟨_, _, _, rfl, rfl, ?_⟩
  intro hkeys
  have hsame := (hbuckets (collected none) (collected (some 7)) _ _ _ _ rfl rfl (hinput none)
    (hinput (some 7)) rfl rfl).1.mp hkeys
  exact nomatch hsame.projectId

end Keys.Sample

end CcReminder
