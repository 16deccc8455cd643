import CcReminder.Lib.Utf8
import CcReminder.Worker

/-!
# The document of a claim

`compose_document` of `worker.rs`. The jobs of a bucket are sent as one document, whose body is made
of theirs and cut after 4096 bytes. A cut within a character is a panic.
-/

set_option autoImplicit true

namespace CcReminder

open Lib

/-- `String::truncate`, or `none` where that panics. -/
def truncateString (s : String) (n : Nat) : Option String := (truncate s.toList n).map String.ofList

namespace Worker

/-- A body behind what there is, after a blank line if that is not empty. -/
def pushBody (body next : String) : String := (if body = "" then body else body ++ "\n\n") ++ next

/-- The loop over the jobs; the first cut ends it. -/
def appendBodies (body : String) : List DeliveryJob → Option String
  | [] => some body
  | job :: jobs =>
    let body := pushBody body job.document.body
    if body.utf8ByteSize > 4096 then (truncateString body 4096).map (· ++ "…")
    else appendBodies body jobs

/-- The title and the severity are those of the first job. -/
def aggregateDocument (jobs : List DeliveryJob) (body : String) : NotificationDocument where
  title := (jobs.head?.map (·.document.title)).getD ""
  severity := (jobs.head?.map (·.document.severity)).getD .info
  facts := [("Aggregated", toString jobs.length ++ " events")]
  body
  footer := some "CC Reminder aggregate"

def composeDocument : ClaimedDelivery → Option (List DeliveryJob × NotificationDocument)
  | .single job => some ([job], job.document)
  | .aggregate _ jobs => do
    let body ← appendBodies "" jobs
    pure (jobs, aggregateDocument jobs body)

/-! ## What it should be -/

/-- The bodies behind one another, with a blank line between any two. -/
def joinedBodies (jobs : List DeliveryJob) : String :=
  "\n\n".intercalate (jobs.map (·.document.body))

/-- The bodies, or their beginning up to the limit and an ellipsis. -/
def IsExcerpt (body joined : String) : Prop :=
  body = joined ∨ ∃ kept, kept <+: joined.toList ∧ (utf8 kept).length ≤ 4096 ∧
    body = String.ofList kept ++ "…"

/-- The claim has a document, which says what its jobs say and is as severe as each of them. -/
def Faithful (claim : ClaimedDelivery) : Prop :=
  ∃ document, composeDocument claim = some (claim.jobs, document) ∧
    IsExcerpt document.body (joinedBodies claim.jobs) ∧
    ∀ job ∈ claim.jobs, job.document.severity.rank ≤ document.severity.rank

/-! ## What it is -/

/-- The bodies from the first that is not empty on. -/
def shownBodies (bodies : List String) : String := "\n\n".intercalate (bodies.dropWhile (· = ""))

theorem utf8ByteSize_eq (s : String) : s.utf8ByteSize = (utf8 s.toList).length := by
  rw [← String.size_toByteArray, ← String.utf8Encode_toList]
  exact List.size_toByteArray

theorem pushBody_ne {body next : String} (h : body ≠ "") : pushBody body next ≠ "" := by
  rw [pushBody, if_neg h]
  intro hempty
  have := congrArg String.toList hempty
  simp at this

theorem foldl_pushBody (body : String) (bodies : List String) (h : body ≠ "") :
    bodies.foldl pushBody body = "\n\n".intercalate (body :: bodies) := by
  induction bodies generalizing body with
  | nil => simp
  | cons b bs ih =>
    rw [List.foldl_cons, ih _ (pushBody_ne h), pushBody, if_neg h, String.intercalate_cons_append,
      String.intercalate_cons_cons]

theorem foldl_pushBody_empty (bodies : List String) :
    bodies.foldl pushBody "" = shownBodies bodies := by
  induction bodies with
  | nil => rfl
  | cons b bs ih =>
    have hpush : pushBody "" b = b := by rw [pushBody, if_pos rfl, String.empty_append]
    rw [List.foldl_cons, hpush, shownBodies, List.dropWhile_cons]
    by_cases hb : b = ""
    · rw [hb, if_pos (decide_eq_true rfl)]
      exact ih
    · rw [if_neg (by simpa using hb)]
      exact foldl_pushBody b bs hb

theorem exists_foldl_pushBody (body : String) (bodies : List String) :
    ∃ rest, (bodies.foldl pushBody body).toList = body.toList ++ rest := by
  induction bodies generalizing body with
  | nil => exact ⟨[], (List.append_nil _).symm⟩
  | cons b bs ih =>
    obtain ⟨rest, hrest⟩ := ih (pushBody body b)
    rw [List.foldl_cons, hrest, pushBody]
    split
    · exact ⟨b.toList ++ rest, by rw [String.toList_append, List.append_assoc]⟩
    · exact ⟨"\n\n".toList ++ b.toList ++ rest, by simp [String.toList_append]⟩

/-- The loop ends with the whole text, or with its beginning. -/
theorem appendBodies_eq (body : String) (jobs : List DeliveryJob) (h : body.utf8ByteSize ≤ 4096) :
    appendBodies body jobs =
      let text := (jobs.map (·.document.body)).foldl pushBody body
      if text.utf8ByteSize > 4096 then (truncateString text 4096).map (· ++ "…") else some text := by
  induction jobs generalizing body with
  | nil => exact (if_neg (Nat.not_lt.mpr h)).symm
  | cons job jobs ih =>
    rw [appendBodies, List.map_cons, List.foldl_cons]
    dsimp only
    split
    · rename_i hlong
      -- the rest of the bodies comes behind the cut
      obtain ⟨rest, hrest⟩ := exists_foldl_pushBody (pushBody body job.document.body)
        (jobs.map (·.document.body))
      rw [utf8ByteSize_eq] at hlong
      have hsize : ((jobs.map (·.document.body)).foldl pushBody
          (pushBody body job.document.body)).utf8ByteSize > 4096 := by
        rw [utf8ByteSize_eq, hrest, utf8_append, List.length_append]
        omega
      rw [if_pos hsize, truncateString, truncateString, hrest, truncate_append _ _ _ (by omega)]
    · rename_i hshort
      exact ih _ (Nat.not_lt.mp hshort)

/-- The text that is shown. -/
abbrev shownText (jobs : List DeliveryJob) : String := shownBodies (jobs.map (·.document.body))

/-- A long text is cut where it can be. -/
theorem appendBodies_run (jobs : List DeliveryJob) :
    (shownText jobs).utf8ByteSize ≤ 4096 ∧ appendBodies "" jobs = some (shownText jobs) ∨
      4096 < (shownText jobs).utf8ByteSize ∧
        ((¬IsBoundary (shownText jobs).toList 4096 ∧ appendBodies "" jobs = none) ∨
          ∃ kept, kept <+: (shownText jobs).toList ∧ (utf8 kept).length = 4096 ∧
            appendBodies "" jobs = some (String.ofList kept ++ "…")) := by
  have heq : appendBodies "" jobs = if (shownText jobs).utf8ByteSize > 4096 then
      (truncateString (shownText jobs) 4096).map (· ++ "…") else some (shownText jobs) := by
    have := appendBodies_eq "" jobs (Nat.zero_le _)
    rwa [foldl_pushBody_empty] at this
  split at heq
  · rename_i hlong
    refine .inr ⟨hlong, ?_⟩
    have hsize := utf8ByteSize_eq (shownText jobs)
    cases hcut : truncate (shownText jobs).toList 4096 with
    | none =>
      refine .inl ⟨fun hboundary => ?_, ?_⟩
      · have := (truncate_isSome_iff (by omega)).mpr hboundary
        rw [hcut] at this
        cases this
      · rw [heq, truncateString, hcut]
        rfl
    | some kept =>
      obtain ⟨hkept, -, hlength⟩ := truncate_eq_some hcut
      refine .inr ⟨kept, hkept, hlength (by omega), ?_⟩
      rw [heq, truncateString, hcut]
      rfl
  · rename_i hshort
    exact .inl ⟨Nat.not_lt.mp hshort, heq⟩

/-! ### Empty bodies at the beginning -/

/-- Only the separators behind the empty bodies at the beginning are left out. -/
theorem joined_eq_shown (bodies : List String) : ∃ n,
    ("\n\n".intercalate bodies).toList = List.replicate n '\n' ++ (shownBodies bodies).toList ∧
      (0 < n ↔ bodies.head? = some "" ∧ 1 < bodies.length) := by
  induction bodies with
  | nil => exact ⟨0, rfl, by simp⟩
  | cons b bs ih =>
    by_cases hb : b = ""
    · subst hb
      obtain ⟨n, hn, -⟩ := ih
      have hshown : shownBodies ("" :: bs) = shownBodies bs := by
        rw [shownBodies, List.dropWhile_cons, if_pos (decide_eq_true rfl)]
        rfl
      rw [hshown]
      cases bs with
      | nil => exact ⟨0, rfl, by simp⟩
      | cons b' bs =>
        refine ⟨n + 2, ?_, by simp⟩
        rw [String.intercalate_cons_cons, String.toList_append, hn, Nat.add_comm,
          List.replicate_add, List.append_assoc]
        rfl
    · refine ⟨0, ?_, by simp [hb]⟩
      rw [shownBodies, List.dropWhile_cons, if_neg (by simpa using hb)]
      rfl

/-- A beginning that comes again behind a run of one character is such a run. -/
theorem eq_replicate_of_prefix {c : Char} {n : Nat} (hn : 0 < n) {ps : List Char}
    (h : ps <+: List.replicate n c ++ ps) : ps = List.replicate ps.length c := by
  induction hlen : ps.length using Nat.strong_induction_on generalizing ps with
  | _ m ih =>
    subst hlen
    rcases Nat.le_total ps.length n with hle | hle
    · have hps : ps <+: List.replicate n c :=
        List.prefix_of_prefix_length_le h (List.prefix_append _ _) (by simpa using hle)
      exact List.eq_replicate_of_mem fun d hd => List.eq_of_mem_replicate (hps.subset hd)
    · obtain ⟨qs, rfl⟩ : List.replicate n c <+: ps :=
        List.prefix_of_prefix_length_le (List.prefix_append _ _) h (by simpa using hle)
      have hqs := ih qs.length (by simp; omega) ((List.prefix_append_right_inj _).mp h) rfl
      rw [hqs, ← List.replicate_add, List.length_replicate]

/-- What is shown of the text is newlines. -/
def OnlyNewlines (text : String) : Prop :=
  if 4096 < text.utf8ByteSize then List.replicate 4096 '\n' <+: text.toList
  else ∃ n, text.toList = List.replicate n '\n' ++ ['…']

theorem utf8_newlines (n : Nat) : (utf8 (List.replicate n '\n')).length = n := by
  induction n with
  | zero => rfl
  | succ n ih =>
    rw [List.replicate_succ, utf8_length_cons, ih, show '\n'.utf8Size = 1 from rfl]
    omega

theorem toList_ellipsis (kept : List Char) :
    (String.ofList kept ++ "…").toList = kept ++ ['…'] := by
  rw [String.toList_append, String.toList_ofList]
  rfl

/-- The beginning of a text is also that of the bodies when they have newlines before it, and then
it has nothing but newlines. -/
theorem prefix_joined_iff {n : Nat} (hn : 0 < n) {kept text : List Char} (hkept : kept <+: text) :
    kept <+: List.replicate n '\n' ++ text ↔ kept = List.replicate kept.length '\n' := by
  obtain ⟨rest, rfl⟩ := hkept
  constructor
  · intro h
    apply eq_replicate_of_prefix hn
    rw [← List.append_assoc] at h
    exact List.prefix_of_prefix_length_le h (List.prefix_append _ _) (by simp)
  · intro h
    refine ⟨List.replicate n '\n' ++ rest, ?_⟩
    generalize kept.length = k at h
    rw [h, ← List.append_assoc, ← List.append_assoc, ← List.replicate_add, ← List.replicate_add,
      Nat.add_comm]

/-- With newlines left out before it, the text that is shown is an excerpt only when that is
newlines. -/
theorem isExcerpt_iff {jobs : List DeliveryJob} {body : String} (hbody : appendBodies "" jobs = some body) :
    IsExcerpt body (joinedBodies jobs) ↔
      ((jobs.map (·.document.body)).head? = some "" ∧ 1 < jobs.length →
        OnlyNewlines (shownText jobs)) := by
  obtain ⟨n, hjoined, hpos⟩ := joined_eq_shown (jobs.map (·.document.body))
  rw [List.length_map] at hpos
  rw [← hpos]
  change (joinedBodies jobs).toList = List.replicate n '\n' ++ (shownText jobs).toList at hjoined
  rcases Nat.eq_zero_or_pos n with rfl | hn
  · -- nothing is left out
    have heq : joinedBodies jobs = shownText jobs := String.toList_injective hjoined
    refine iff_of_true ?_ (fun h => absurd h (Nat.lt_irrefl 0))
    rw [heq]
    rcases appendBodies_run jobs with ⟨-, hrun⟩ | ⟨-, ⟨-, hrun⟩ | ⟨kept, hkept, hlength, hrun⟩⟩ <;>
      rw [hrun] at hbody <;> cases hbody
    · exact .inl rfl
    · exact .inr ⟨kept, hkept, hlength.le, rfl⟩
  simp only [hn, true_implies]
  rcases appendBodies_run jobs with ⟨hshort, hrun⟩ | ⟨hlong, ⟨-, hrun⟩ | ⟨kept, hkept, hlength, hrun⟩⟩ <;>
    rw [hrun] at hbody <;> cases hbody
  · rw [OnlyNewlines, if_neg (Nat.not_lt.mpr hshort)]
    constructor
    · rintro (heq | ⟨kept, hkept, -, heq⟩)
      · -- the bodies are longer than what is shown
        rw [← heq] at hjoined
        have := congrArg List.length hjoined
        rw [List.length_append, List.length_replicate] at this
        omega
      · have htext : (shownText jobs).toList = kept ++ ['…'] := by rw [heq, toList_ellipsis]
        rw [hjoined, prefix_joined_iff hn (htext ▸ List.prefix_append _ _)] at hkept
        exact ⟨kept.length, by rw [← hkept, htext]⟩
    · rintro ⟨k, htext⟩
      refine .inr ⟨List.replicate k '\n', ?_, ?_, ?_⟩
      · rw [hjoined, prefix_joined_iff hn (htext ▸ List.prefix_append _ _), List.length_replicate]
      · rw [utf8ByteSize_eq, htext, utf8_append, List.length_append] at hshort
        omega
      · apply String.toList_injective
        rw [htext, toList_ellipsis]
  · rw [OnlyNewlines, if_pos hlong]
    have hnewlines : kept <+: (joinedBodies jobs).toList ↔
        List.replicate 4096 '\n' <+: (shownText jobs).toList := by
      rw [hjoined, prefix_joined_iff hn hkept]
      constructor
      · intro h
        rw [h, utf8_newlines] at hlength
        rw [h, hlength] at hkept
        exact hkept
      · intro h
        have hlen : (utf8 kept).length = (utf8 (List.replicate 4096 '\n')).length := by
          rw [hlength, utf8_newlines]
        rcases List.prefix_or_prefix_of_prefix hkept h with h | h
        · exact List.eq_replicate_of_mem fun d hd => List.eq_of_mem_replicate (h.subset hd)
        · obtain ⟨rest, rfl⟩ := h
          have hrest : rest = [] := by
            cases rest with
            | nil => rfl
            | cons d ds =>
              have := d.utf8Size_pos
              rw [utf8_append, List.length_append, utf8_length_cons] at hlen
              omega
          rw [hrest, List.append_nil, List.length_replicate]
    rw [← hnewlines]
    constructor
    · rintro (heq | ⟨kept', hkept', -, heq⟩)
      · -- the bodies have one character more, and at least two are left out or cut off
        obtain ⟨rest, hrest⟩ := hkept
        rw [← heq, toList_ellipsis, ← hrest] at hjoined
        have hcount := congrArg List.length hjoined
        simp only [List.length_append, List.length_replicate, List.length_singleton] at hcount
        have hnil : rest = [] := List.eq_nil_of_length_eq_zero (by omega)
        rw [utf8ByteSize_eq, ← hrest, hnil, List.append_nil] at hlong
        omega
      · have := congrArg String.toList heq
        rw [toList_ellipsis, toList_ellipsis] at this
        rw [List.append_cancel_right this]
        exact hkept'
    · exact fun h => .inr ⟨kept, h, hlength.le, rfl⟩

/-- **Composing.** A claim of one job is sent as it is. The document of a bucket says what its jobs
say exactly when none of them is more severe than the first, the text can be cut after 4096 bytes if
it is longer, and the first body is not empty, unless it is the only one or what is shown is
newlines. -/
theorem composeDocument_faithful_iff (job : DeliveryJob) (key : String) (jobs : List DeliveryJob) :
    Faithful (.single job) ∧ (Faithful (.aggregate key jobs) ↔
      (∀ first ∈ jobs.head?, ∀ job ∈ jobs,
        job.document.severity.rank ≤ first.document.severity.rank) ∧
      (4096 < (shownText jobs).utf8ByteSize → IsBoundary (shownText jobs).toList 4096) ∧
      ((jobs.map (·.document.body)).head? = some "" ∧ 1 < jobs.length →
        OnlyNewlines (shownText jobs))) := by
  constructor
  · refine ⟨job.document, rfl, .inl ?_, ?_⟩
    · exact String.intercalate_singleton.symm
    · intro job' hjob'
      rw [List.mem_singleton.mp hjob']
  have hseverity : ∀ body, (∀ job ∈ jobs, job.document.severity.rank ≤
      (aggregateDocument jobs body).severity.rank) ↔
      ∀ first ∈ jobs.head?, ∀ job ∈ jobs,
        job.document.severity.rank ≤ first.document.severity.rank := by
    intro body
    cases jobs with
    | nil => simp
    | cons first jobs => simp [aggregateDocument]
  cases hbody : appendBodies "" jobs with
  | none =>
    refine iff_of_false ?_ ?_
    · rintro ⟨document, hcompose, -⟩
      simp [composeDocument, hbody] at hcompose
    · rintro ⟨-, hcut, -⟩
      rcases appendBodies_run jobs with ⟨-, h⟩ | ⟨hlong, ⟨hboundary, -⟩ | ⟨kept, -, -, h⟩⟩
      · rw [hbody] at h
        cases h
      · exact hboundary (hcut hlong)
      · rw [hbody] at h
        cases h
  | some body =>
    have hcut : 4096 < (shownText jobs).utf8ByteSize → IsBoundary (shownText jobs).toList 4096 := by
      intro hlong
      rcases appendBodies_run jobs with ⟨hshort, -⟩ | ⟨-, ⟨-, h⟩ | ⟨kept, hkept, hlength, -⟩⟩
      · omega
      · rw [hbody] at h
        cases h
      · exact ⟨kept, hkept, hlength⟩
    rw [← isExcerpt_iff hbody, ← hseverity body]
    constructor
    · rintro ⟨document, hcompose, hexcerpt, hle⟩
      simp only [composeDocument, hbody, Option.bind_eq_bind, Option.bind_some, Option.pure_def,
        Option.some.injEq, Prod.mk.injEq] at hcompose
      obtain ⟨-, rfl⟩ := hcompose
      exact ⟨hle, hcut, hexcerpt⟩
    · rintro ⟨hle, -, hexcerpt⟩
      refine ⟨aggregateDocument jobs body, ?_, hexcerpt, hle⟩
      simp only [composeDocument, hbody]
      rfl

/-! A reply in Chinese: each character has three bytes, and 4096 is not a multiple of three. -/

namespace Sample

def reply (body : String) : DeliveryJob where
  id := 1
  eventId := 2
  ruleId := 3
  ruleVersion := "1"
  channelId := 4
  idempotencyKey := "key"
  document := { title := "完成", severity := .info, facts := [], body, footer := none }
  state := .sending
  attempts := 0
  nextAttemptAt := 0
  expiresAt := 1
  leaseOwner := none
  leaseExpiresAt := none
  aggregateKey := some "bucket"
  aggregateReleaseAt := none

def chinese : String := String.ofList (List.replicate 1366 '中')

theorem utf8_chinese (n : Nat) : (utf8 (List.replicate n '中')).length = 3 * n := by
  induction n with
  | zero => rfl
  | succ n ih =>
    rw [List.replicate_succ, utf8_length_cons, ih, show '中'.utf8Size = 3 from rfl]
    omega

end Sample

/-- A bucket with such a reply cannot be sent: its text is cut within a character. -/
theorem composeDocument_panics :
    composeDocument (.aggregate "bucket" [Sample.reply Sample.chinese, Sample.reply "ok"]) = none ∧
      ¬Faithful (.aggregate "bucket" [Sample.reply Sample.chinese, Sample.reply "ok"]) := by
  have hchinese : Sample.chinese.toList = List.replicate 1366 '中' := String.toList_ofList
  have hpush : pushBody "" Sample.chinese = Sample.chinese := by
    rw [pushBody, if_pos rfl, String.empty_append]
  have hsize : Sample.chinese.utf8ByteSize > 4096 := by
    rw [utf8ByteSize_eq, hchinese, Sample.utf8_chinese]
    omega
  have hcut : truncateString Sample.chinese 4096 = none := by
    rw [truncateString, hchinese, Option.map_eq_none_iff, ← Option.not_isSome_iff_eq_none,
      truncate_isSome_iff (by rw [Sample.utf8_chinese]; omega)]
    rintro ⟨ps, hps, hlength⟩
    rw [List.prefix_replicate_iff] at hps
    rw [hps.2, Sample.utf8_chinese] at hlength
    omega
  have hnone : composeDocument
      (.aggregate "bucket" [Sample.reply Sample.chinese, Sample.reply "ok"]) = none := by
    simp only [composeDocument, appendBodies, Sample.reply, hpush, if_pos hsize, hcut,
      Option.map_none]
    rfl
  refine ⟨hnone, ?_⟩
  rintro ⟨document, hcompose, -⟩
  rw [hnone] at hcompose
  cases hcompose

end Worker

end CcReminder
