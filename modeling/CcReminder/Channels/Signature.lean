import CcReminder.Channels.DingTalk

/-!
# The signature in the URL

What the server reads in the query of a signed request. `dingtalk_signature` percent-encodes the
Base64 of the HMAC, and `append_pair` encodes it once more: one decoding gives the percent-encoded
text, which is never the Base64, since 32 bytes are padded with a `=`.
-/

set_option autoImplicit true

namespace CcReminder

open Lib

/-! ## The hand-written encoding -/

theorem mem_urlEncodeQueryValue {value : String} {c : Char}
    (h : c ∈ (urlEncodeQueryValue value).toList) :
    ∃ b, c = Char.ofUInt8 b ∧ (isUnreserved b = true ∨ b = 37) := by
  rw [urlEncodeQueryValue, String.toList_ofList] at h
  obtain ⟨b, hb, rfl⟩ := List.mem_map.mp h
  refine ⟨b, rfl, ?_⟩
  rcases Form.mem_percentEncode hb with h | h | h
  · exact .inl h
  · exact .inr h
  · exact .inl (by simp [isUnreserved, h])

theorem lt_of_isUnreserved {b : UInt8} (h : isUnreserved b = true) : b.toNat < 128 := by
  simp only [isUnreserved, Form.isAlphanumeric, decide_eq_true_eq, UInt8.le_iff_toNat_le] at h
  rcases h with rfl | rfl | rfl | rfl | ⟨-, h⟩ | ⟨-, h⟩ | ⟨-, h⟩
  · decide
  · decide
  · decide
  · decide
  all_goals exact Nat.lt_of_le_of_lt h (by decide)

/-- A text with a reserved character is changed. -/
theorem urlEncodeQueryValue_ne {value : String} (h : '=' ∈ value.toList) :
    urlEncodeQueryValue value ≠ value := by
  intro heq
  rw [← heq] at h
  obtain ⟨b, hc, hb⟩ := mem_urlEncodeQueryValue h
  obtain rfl : b = 61 := by
    have := congrArg Char.toNat hc
    exact UInt8.toNat_inj.mp (this.symm.trans (by rfl))
  rcases hb with hb | hb <;> exact absurd hb (by decide)

/-- The Base64 of 32 bytes is padded. -/
theorem pad_mem_signatureBase64 (sv : ChannelServices) (timestamp : Int) (secret : String) :
    '=' ∈ (sv.signatureBase64 timestamp secret).toList := by
  rw [ChannelServices.signatureBase64, String.toList_ofList, Base64.pad_mem_encode_iff,
    (sv.hmacSha256 _ _).property]
  decide

/-! ## The query -/

namespace WebhookUrl

/-- Pairs that are appended to an empty query are read back. -/
theorem queryPairs_foldl_appendPair (url : WebhookUrl) (ps : List (String × String)) :
    (ps.foldl appendPair url.clearQuery).queryPairs = ps := by
  have hquery : ∀ (ps : List (String × String)) (url : WebhookUrl) (query : List UInt8),
      url.query = some query → (ps.foldl appendPair url).query =
        some ((ps.map fun p => (p.1.toList, p.2.toList)).foldl Form.appendPair query) := by
    intro ps
    induction ps with
    | nil => exact fun url query h => h
    | cons p ps ih =>
      intro url query h
      exact ih _ _ (by simp [appendPair, h])
  rw [queryPairs, hquery ps url.clearQuery [] rfl, Option.getD_some, Form.parse_foldl_appendPair,
    List.map_map]
  exact (List.map_congr_left fun p _ => by simp).trans (List.map_id _)

end WebhookUrl

namespace DingTalkSender

/-- What the server reads in the query of a signed request. -/
theorem queryPairs_signedRequestUrl {sv : ChannelServices} {sender : DingTalkSender}
    (hparse : sv.parseUrl sender.endpoint = some url) (hsecret : sender.signingSecret = some secret)
    (now : DateTime) : ∃ signed, signedRequestUrl sv sender now = .ok signed ∧
      signed.queryPairs = preserved url ++
        [("timestamp", toString (timestampMillis now)),
          ("sign", sv.dingtalkSignature (timestampMillis now) secret)] := by
  refine ⟨(preserved url ++ [("timestamp", toString (timestampMillis now)),
    ("sign", sv.dingtalkSignature (timestampMillis now) secret)]).foldl WebhookUrl.appendPair
      url.clearQuery, ?_, url.queryPairs_foldl_appendPair _⟩
  simp only [signedRequestUrl, hparse, hsecret, List.foldl_append, List.foldl_cons, List.foldl_nil]

/-- A second decoding would give the Base64. -/
theorem decode_dingtalkSignature (sv : ChannelServices) (timestamp : Int) (secret : String) :
    Form.percentDecode (utf8Bytes (sv.dingtalkSignature timestamp secret)) =
      utf8Bytes (sv.signatureBase64 timestamp secret) := by
  have hascii : ∀ b ∈ Form.percentEncode isUnreserved
      (utf8Bytes (sv.signatureBase64 timestamp secret)), b.toNat < 128 := by
    intro b hb
    rcases Form.mem_percentEncode hb with h | h | h
    · exact lt_of_isUnreserved h
    · rw [h]
      decide
    · exact lt_of_isUnreserved (by simp [isUnreserved, h])
  have hbytes : utf8Bytes (sv.dingtalkSignature timestamp secret) = Form.percentEncode isUnreserved
      (utf8Bytes (sv.signatureBase64 timestamp secret)) := by
    rw [ChannelServices.dingtalkSignature, urlEncodeQueryValue, utf8Bytes, String.toList_ofList]
    exact utf8_map_ofUInt8 hascii
  rw [hbytes, Form.percentDecode_percentEncode (by decide)]

/-- The query holds what was in it, the timestamp, and the Base64 of the HMAC. -/
def CarriesSignature (sv : ChannelServices) (url signed : WebhookUrl) (timestamp : Int)
    (secret : String) : Prop :=
  signed.queryPairs = preserved url ++
    [("timestamp", toString timestamp), ("sign", sv.signatureBase64 timestamp secret)]

/-- **The signature never survives**: whatever the endpoint, the secret and the time, the server
reads something else than the Base64 of the HMAC. -/
theorem signature_lost {sv : ChannelServices} {sender : DingTalkSender}
    (hparse : sv.parseUrl sender.endpoint = some url) (hsecret : sender.signingSecret = some secret)
    (now : DateTime) : ∃ signed, signedRequestUrl sv sender now = .ok signed ∧
      ¬CarriesSignature sv url signed (timestampMillis now) secret := by
  obtain ⟨signed, hrun, hpairs⟩ := queryPairs_signedRequestUrl hparse hsecret now
  refine ⟨signed, hrun, fun hcarries => ?_⟩
  have heq := List.append_cancel_left (hpairs.symm.trans hcarries)
  have hsign : urlEncodeQueryValue (sv.signatureBase64 (timestampMillis now) secret) =
      sv.signatureBase64 (timestampMillis now) secret := by
    simpa [ChannelServices.dingtalkSignature] using heq
  exact urlEncodeQueryValue_ne (pad_mem_signatureBase64 sv _ _) hsign

namespace Sample

def endpoint : WebhookUrl where
  base := "https://oapi.dingtalk.com/robot/send"
  query := some (utf8Bytes "access_token=t")
  fragment := none

/-- The HMAC of `1609459200000` and `SECtest` under the key `SECtest`. -/
def mac : List UInt8 :=
  [167, 153, 151, 84, 183, 87, 252, 20, 235, 115, 98, 173, 186, 20, 236, 233,
    151, 6, 57, 123, 108, 41, 78, 96, 214, 129, 55, 90, 215, 199, 226, 22]

def services : ChannelServices where
  parseUrl raw :=
    if raw = "https://oapi.dingtalk.com/robot/send?access_token=t" then some endpoint else none
  parseResponse _ := none
  hmacSha256 key text :=
    if key = utf8Bytes "SECtest" ∧ text = utf8Bytes "1609459200000\nSECtest" then ⟨mac, rfl⟩
    else ⟨List.replicate 32 0, by simp⟩

def robot : DingTalkSender where
  endpoint := "https://oapi.dingtalk.com/robot/send?access_token=t"
  signingSecret := some "SECtest"
  keywordPrefix := none

def now : DateTime := Duration.milliseconds 1609459200000

theorem parseUrl_robot : services.parseUrl robot.endpoint = some endpoint := by
  simp [services, robot]

end Sample

theorem signature_lost_robot : ∃ signed,
    signedRequestUrl Sample.services Sample.robot Sample.now = .ok signed ∧
      ¬CarriesSignature Sample.services Sample.endpoint signed (timestampMillis Sample.now)
        "SECtest" :=
  signature_lost Sample.parseUrl_robot rfl Sample.now

/-- The server reads `p5mX…hY%3D` in the place of `p5mX…hY=`. -/
theorem signature_escaped : ∃ signed,
    signedRequestUrl Sample.services Sample.robot Sample.now = .ok signed ∧
      signed.queryPairs = [("access_token", "t"), ("timestamp", "1609459200000"),
        ("sign", "p5mXVLdX%2FBTrc2KtuhTs6ZcGOXtsKU5g1oE3WtfH4hY%3D")] ∧
      Sample.services.signatureBase64 1609459200000 "SECtest" =
        "p5mXVLdX/BTrc2KtuhTs6ZcGOXtsKU5g1oE3WtfH4hY=" ∧
      ¬CarriesSignature Sample.services Sample.endpoint signed 1609459200000 "SECtest" := by
  obtain ⟨signed, hrun, hpairs⟩ := queryPairs_signedRequestUrl Sample.parseUrl_robot
    (show Sample.robot.signingSecret = some "SECtest" from rfl) Sample.now
  have hread : signed.queryPairs = [("access_token", "t"), ("timestamp", "1609459200000"),
      ("sign", "p5mXVLdX%2FBTrc2KtuhTs6ZcGOXtsKU5g1oE3WtfH4hY%3D")] := by
    rw [hpairs]
    decide +kernel
  refine ⟨signed, hrun, hread, by decide +kernel, ?_⟩
  rw [CarriesSignature, hread]
  decide +kernel

end DingTalkSender

end CcReminder
