import CcReminder.Storage.Queue.Expiry
import CcReminder.Storage.Queue.Report

/-!
# Manual retry

What a manual retry is for: the next cycle of the worker, at the same time, hands the job out. A
claim of enough batches takes every candidate when no statement fails; so the question is whether
the revived job lives through the sweep and is a candidate after it.
-/

set_option autoImplicit true

namespace CcReminder

open Lib

/-! ## Claims that have room for every candidate -/

namespace Advances

theorem loadJob : Advances (loadJob k) := query

theorem claimSingles : ∀ ks claims, Advances (claimSingles worker L n ks claims)
  | [], claims => pure claims
  | k :: ks, claims => by
    unfold CcReminder.claimSingles
    split
    · exact pure claims
    refine execute.bind fun updated => ?_
    split
    · exact claimSingles ks claims
    · refine loadJob.bind fun job => ?_
      cases job with
      | some job => exact claimSingles ks _
      | none => exact claimSingles ks claims

theorem putBack (jobs : List DeliveryJob) : Advances (.each (fun earlier : DeliveryJob =>
    ignoreError (CcReminder.execute (·.updateJobs (·.id = earlier.id) (·.unclaim now)))) jobs) := by
  induction jobs with
  | nil => exact pure ()
  | cons job jobs ih =>
    have hone : Advances (ignoreError
        (CcReminder.execute (·.updateJobs (·.id = job.id) (·.unclaim now)))) :=
      fun c => execute c
    exact hone.bind fun _ => ih

theorem claimConstituents (key : String) : ∀ ks claimed,
    Advances (claimConstituents worker now L key ks claimed)
  | [], claimed => pure claimed
  | k :: ks, claimed => by
    unfold CcReminder.claimConstituents
    refine execute.bind fun updated => ?_
    split
    · exact (putBack claimed).bind fun _ => pure []
    · refine loadJob.bind fun job => ?_
      cases job with
      | some job => exact claimConstituents key ks _
      | none => exact claimConstituents key ks claimed

theorem claimBuckets : ∀ keys claims, Advances (claimBuckets worker now L n keys claims)
  | [], claims => pure claims
  | key :: keys, claims => by
    unfold CcReminder.claimBuckets
    split
    · exact pure claims
    refine query.bind fun ks => (claimConstituents key ks []).bind fun jobs => ?_
    split
    · exact claimBuckets keys claims
    · exact claimBuckets keys _

end Advances

namespace Conn.Quiet

variable {c : Conn}

/-- The single candidates are handed out, all of them while there is room. -/
theorem claimSingles (worker : String) : ∀ ks claims {c : Conn}, c.Quiet → ks.Nodup →
    (∀ k ∈ ks, ∃ j, c.db.deliveryJobs.find? k = some j ∧ j.mayClaim L) →
    claims.length + ks.length ≤ n → ∃ (jobs : List DeliveryJob) (c' : Conn),
      CcReminder.claimSingles worker L n ks claims c = (.ok (claims ++ jobs.map .single), c') ∧
        jobs.map (·.id) = ks
  | [], claims, c, _, _, _, _ => ⟨[], c, by simp [CcReminder.claimSingles], rfl⟩
  | k :: ks, claims, c, h, hnd, hks, hroom => by
    obtain ⟨hk, hnd⟩ := List.nodup_cons.mp hnd
    obtain ⟨j, hj, hmay⟩ := hks k List.mem_cons_self
    rw [List.length_cons] at hroom
    let updated := c.db.updateJobs (fun j => j.id = k ∧ j.mayClaim L) (·.toSending worker L)
    let c₁ : Conn := { c.skip 1 with db := updated.2 }
    have hrun₁ : CcReminder.execute (·.updateJobs (fun j => j.id = k ∧ j.mayClaim L)
        (·.toSending worker L)) c = (.ok updated.1, c₁) := h.execute
    have hupdated : c.db.updateJobs (fun j => j.id = k ∧ j.mayClaim L) (·.toSending worker L) =
        (updated.1, updated.2) := rfl
    rcases Database.updateJobs_one hupdated with
      ⟨-, -, hnot⟩ | ⟨hn, -, j', hj', -, hfind⟩
    · exact absurd hmay (hnot j hj)
    obtain rfl : j = j' := by simpa [hj] using hj'
    have hload : CcReminder.loadJob k c₁ = (.ok (some (j.toSending worker L).toJob), c₁.skip 1) := by
      have hrow : (c₁.db.deliveryJobs.find? k).map (·.toJob) =
          some (j.toSending worker L).toJob := by rw [hfind k, if_pos rfl, Option.map_some]
      rw [← hrow]
      exact query (c := c₁) (h.skip 1)
    have hquiet : (c₁.skip 1).Quiet := h.skip 2
    have hks' : ∀ k' ∈ ks, ∃ j, (c₁.skip 1).db.deliveryJobs.find? k' = some j ∧ j.mayClaim L := by
      intro k' hk'
      obtain ⟨j', hj', hmay'⟩ := hks k' (List.mem_cons_of_mem k hk')
      refine ⟨j', ?_, hmay'⟩
      change updated.2.deliveryJobs.find? k' = some j'
      rw [hfind k', if_neg fun heq : k' = k => hk (heq ▸ hk')]
      exact hj'
    obtain ⟨jobs, c', hrun, hids⟩ : ∃ (jobs : List DeliveryJob) (c' : Conn),
        CcReminder.claimSingles worker L n ks (claims ++ [.single (j.toSending worker L).toJob])
          (c₁.skip 1) = (.ok (claims ++ [.single (j.toSending worker L).toJob] ++ jobs.map .single), c') ∧
          jobs.map (·.id) = ks :=
      claimSingles worker ks _ hquiet hnd hks' (by rw [List.length_append, List.length_singleton]; omega)
    refine ⟨(j.toSending worker L).toJob :: jobs, c', ?_, ?_⟩
    · unfold CcReminder.claimSingles
      rw [if_neg (by omega), Txn.bind_run, hrun₁]
      dsimp only
      rw [if_neg hn, Txn.bind_run, hload]
      simpa using hrun
    · rw [List.map_cons, hids]
      have hid : j.id = k := Table.find?_key hj
      exact congrArg (· :: ks) hid

theorem executed (h : c.Quiet) (f : Database → α × Database) :
    ∃ c', CcReminder.execute f c = (.ok (f c.db).1, c') ∧ c'.Quiet :=
  ⟨{ c.skip 1 with db := (f c.db).2 }, h.execute, h.skip 1⟩

theorem putBack (now : DateTime) (jobs : List DeliveryJob) (c : Conn) : ∃ c', Txn.each (fun earlier : DeliveryJob =>
    ignoreError (CcReminder.execute (·.updateJobs (·.id = earlier.id) (·.unclaim now)))) jobs c =
      (.ok (), c') := by
  induction jobs generalizing c with
  | nil => exact ⟨c, rfl⟩
  | cons job jobs ih => exact ih _

theorem claimConstituents (worker : String) (now L : DateTime) (key : String) : ∀ ks claimed {c : Conn}, c.Quiet →
    ∃ jobs c', CcReminder.claimConstituents worker now L key ks claimed c = (.ok jobs, c')
  | [], claimed, c, _ => ⟨claimed, c, rfl⟩
  | k :: ks, claimed, c, h => by
    unfold CcReminder.claimConstituents
    obtain ⟨c₁, hrun₁, hquiet⟩ := h.executed (·.updateJobs
      (fun j => j.id = k ∧ j.aggregateKey = some key ∧ j.mayClaim L) (·.toSending worker L))
    rw [Txn.bind_run, hrun₁]
    dsimp only
    split
    · obtain ⟨c', hrun⟩ := putBack now claimed c₁
      exact ⟨[], c', Txn.bind_ok_iff.mpr ⟨_, _, hrun, rfl⟩⟩
    · rw [Txn.bind_run, CcReminder.loadJob, hquiet.query]
      dsimp only
      cases (c₁.db.deliveryJobs.find? k).map (·.toJob) with
      | some job => exact claimConstituents worker now L key ks (claimed ++ [job]) (hquiet.skip 1)
      | none => exact claimConstituents worker now L key ks claimed (hquiet.skip 1)

/-- Each ready bucket is handed out while there is room. -/
theorem claimBuckets (worker : String) (hL : now ≤ L) : ∀ keys claims {c : Conn}, c.Quiet → keys.Nodup →
    claims.length + keys.length ≤ n → ∃ (r : List ClaimedDelivery) (c' : Conn),
      CcReminder.claimBuckets worker now L n keys claims c = (.ok r, c') ∧
        claimedJobs claims ⊆ claimedJobs r ∧ ∀ key ∈ keys, ∀ k j,
          c.db.deliveryJobs.find? k = some j → Database.isBucketJob now key j →
            k ∈ (claimedJobs r).map (·.id)
  | [], claims, c, _, _, _ => ⟨claims, c, rfl, List.Subset.refl _, by simp⟩
  | key :: keys, claims, c, h, hnd, hroom => by
    obtain ⟨hkey, hnd⟩ := List.nodup_cons.mp hnd
    rw [List.length_cons] at hroom
    obtain ⟨jobs, c₂, hrun₂⟩ := claimConstituents worker now L key
      (c.db.bucketJobIds key now) [] (h.skip 1)
    have hquery : CcReminder.query (·.bucketJobIds key now) c = (.ok _, c.skip 1) := h.query
    have hgrants := ensures_claimBucket (Txn.bind_ok_iff.mpr ⟨_, _, hquery, hrun₂⟩)
    -- the lease does not end before the claim, so the bucket is taken whole
    have hids : jobs.map (·.id) = c.db.bucketJobIds key now := by
      rcases ensures_claimConstituents key _ _ hrun₂ Table.nodup_sorted_keys
        (fun k hk => Table.mem_sorted_keys.mp hk) with ⟨hneg, -⟩ | ⟨jobs', hr, hids, -⟩
      · exact absurd hL (Int.not_le.mpr hneg)
      · obtain rfl : jobs = jobs' := by simpa using hr
        exact hids
    obtain ⟨claims', hcl, hroom', hstep⟩ : ∃ claims', claimedJobs claims' = claimedJobs claims ++ jobs ∧
        claims'.length + keys.length ≤ n ∧
        CcReminder.claimBuckets worker now L n (key :: keys) claims c =
          CcReminder.claimBuckets worker now L n keys claims' c₂ := by
      have hhead : ∀ {β : Type} (f : List DeliveryJob → Tx β), (do
          let jobIds ← CcReminder.query (·.bucketJobIds key now)
          let claimedJobs ← CcReminder.claimConstituents worker now L key jobIds []
          f claimedJobs) c = f jobs c₂ := fun f => by
        rw [Txn.bind_run, hquery]
        dsimp only
        rw [Txn.bind_run, hrun₂]
      by_cases hjobs : jobs = []
      · refine ⟨claims, by simp [hjobs], by omega, ?_⟩
        conv_lhs => unfold CcReminder.claimBuckets
        rw [if_neg (by omega), hhead, if_pos hjobs]
      · refine ⟨claims ++ [.aggregate key jobs], by simp [claimedJobs, ClaimedDelivery.jobs], ?_, ?_⟩
        · rw [List.length_append, List.length_singleton]
          omega
        · conv_lhs => unfold CcReminder.claimBuckets
          rw [if_neg (by omega), hhead, if_neg hjobs]
    have hquiet : c₂.Quiet := (h.skip 1).precedes ((Advances.claimConstituents key _ []).ok hrun₂)
    obtain ⟨r, c', hrun, hsub, hrest⟩ := claimBuckets worker hL keys claims' hquiet hnd hroom'
    rw [hcl] at hsub
    refine ⟨r, c', hstep.trans hrun, fun job hjob => hsub (List.mem_append_left jobs hjob), ?_⟩
    intro key' hkey' k j hj hp
    rcases List.mem_cons.mp hkey' with rfl | hkey'
    · have hk : k ∈ jobs.map (·.id) := hids ▸ Table.mem_sorted_keys.mpr ⟨j, hj, hp⟩
      obtain ⟨job, hjob, rfl⟩ := List.mem_map.mp hk
      exact List.mem_map_of_mem (hsub (List.mem_append_right _ hjob))
    · -- the bucket that was handed out is another one
      refine hrest key' hkey' k j ((hgrants.untouched hj fun hp' => ?_).2.trans hj) hp
      simp only [Database.isBucketJob, decide_eq_true_eq] at hp hp'
      have hsame : some key' = some key := hp.1.symm.trans hp'.1
      exact hkey (Option.some.inj hsame ▸ hkey')

end Conn.Quiet

/-- There are no more candidates than jobs. -/
theorem Database.candidates_le (db : Database) (now : DateTime) :
    (db.candidateSingles now).length + (db.candidateBuckets now).length ≤
      db.deliveryJobs.rows.length := by
  have hsingles : (db.candidateSingles now).length =
      db.deliveryJobs.rows.countP (db.isCandidateSingle now) := by
    rw [candidateSingles, List.length_map, (List.perm_insertionSort _ _).length_eq,
      List.countP_eq_length_filter]
  have hbuckets : (db.candidateBuckets now).length ≤ db.deliveryJobs.rows.countP (db.isBucketRow now) := by
    rw [candidateBuckets, List.length_map, (List.perm_insertionSort _ _).length_eq,
      List.countP_eq_length_filter]
    exact (List.length_filterMap_le _ _).trans
      ((List.dedup_sublist _).length_le.trans (List.length_filterMap_le _ _))
  -- a single job has no aggregate key
  have hdisjoint : db.deliveryJobs.rows.countP (db.isBucketRow now) ≤
      db.deliveryJobs.rows.countP fun j => !db.isCandidateSingle now j := by
    refine List.countP_mono_left fun j _ hj => ?_
    simp only [isBucketRow, decide_eq_true_eq] at hj
    simp only [isCandidateSingle, Bool.not_eq_true', decide_eq_false_iff_not]
    rintro ⟨-, -, -, hkey, -⟩
    rw [hkey] at hj
    exact absurd hj.2.1 (by decide)
  have hlength := List.length_eq_countP_add_countP (l := db.deliveryJobs.rows) (db.isCandidateSingle now)
  simp only [Bool.not_eq_true, Bool.decide_eq_false] at hlength
  omega

/-- A bucket is ready when it has rows to claim and none of them holds it back. -/
theorem Database.mem_candidateBuckets_iff {db : Database} : key ∈ db.candidateBuckets now ↔
    (∃ i ∈ db.deliveryJobs.rows, db.isBucketRow now i ∧ i.aggregateKey = some key) ∧
      ∀ i ∈ db.deliveryJobs.rows, db.isBucketRow now i → i.aggregateKey = some key →
        isBlocked now i = false := by
  simp only [candidateBuckets, List.mem_map, List.mem_insertionSort, readyBuckets,
    List.mem_filterMap, List.mem_dedup, List.mem_filter]
  have hrows : ∀ i, i ∈ db.bucketRows now key ↔
      i ∈ db.deliveryJobs.rows ∧ db.isBucketRow now i ∧ i.aggregateKey = some key := fun i => by
    simp [bucketRows]
  constructor
  · rintro ⟨p, ⟨key', ⟨i, ⟨hi, hrow⟩, hkey⟩, hp⟩, rfl⟩
    split at hp
    · split at hp
      · rename_i hready
        cases hp
        exact ⟨⟨i, hi, hrow, hkey⟩, fun i' hi' hrow' hkey' =>
          Bool.eq_false_iff.mpr (List.countP_eq_zero.mp hready.2 i' ((hrows i').mpr ⟨hi', hrow', hkey'⟩))⟩
      · cases hp
    · cases hp
  · rintro ⟨⟨i, hi, hrow, hkey⟩, hfree⟩
    have hreleased : ∀ i ∈ db.bucketRows now key, ∃ t ≤ now, i.aggregateReleaseAt = some t := by
      intro i hi
      obtain ⟨hi, hrow, hkey⟩ := (hrows i).mp hi
      have hfree := hfree i hi hrow hkey
      simp only [isBlocked, Bool.not_eq_false', decide_eq_true_eq, Option.any_eq_true] at hfree
      obtain ⟨⟨t, ht, hle⟩, -⟩ := hfree
      exact ⟨t, hle, ht⟩
    obtain ⟨t, -, ht⟩ := hreleased i ((hrows i).mpr ⟨hi, hrow, hkey⟩)
    have hmem : t ∈ (db.bucketRows now key).filterMap (·.aggregateReleaseAt) :=
      List.mem_filterMap.mpr ⟨i, (hrows i).mpr ⟨hi, hrow, hkey⟩, ht⟩
    obtain ⟨release, hrelease⟩ : ∃ release, bucketRelease (db.bucketRows now key) = some release :=
      Option.isSome_iff_exists.mp (List.isSome_max?_of_mem hmem)
    have hle : release ≤ now := by
      obtain ⟨i', hi', hi'release⟩ := List.mem_filterMap.mp (List.max?_mem hrelease)
      obtain ⟨t', hle, ht'⟩ := hreleased i' hi'
      obtain rfl : release = t' := Option.some.inj (hi'release.symm.trans ht')
      exact hle
    have hzero : (db.bucketRows now key).countP (isBlocked now) = 0 :=
      List.countP_eq_zero.mpr fun i' hi' => by
        obtain ⟨hi', hrow', hkey'⟩ := (hrows i').mp hi'
        rw [hfree i' hi' hrow' hkey']
        exact Bool.false_ne_true
    refine ⟨(release, key), ⟨key, ⟨i, ⟨hi, hrow⟩, hkey⟩, ?_⟩, rfl⟩
    rw [hrelease]
    exact if_pos ⟨hle, hzero⟩

/-- Every candidate is handed out by a claim that has room for all of them. -/
theorem Conn.Quiet.claimDue {c : Conn} (h : c.Quiet) (worker : String) (hlease : 0 ≤ lease)
    (hroom : c.db.deliveryJobs.rows.length ≤ n) : ∃ claims c',
      CcReminder.claimDue worker now lease n c = (.ok claims, c') ∧
        ∀ k j, c.db.deliveryJobs.find? k = some j → c.db.isCandidate now j →
          k ∈ (claimedJobs claims).map (·.id) := by
  unfold CcReminder.claimDue
  by_cases hn : n = 0
  · refine ⟨[], c, by rw [if_pos hn]; rfl, fun k j hj _ => ?_⟩
    have hempty : c.db.deliveryJobs.rows = [] := List.eq_nil_of_length_eq_zero (by omega)
    have hmem := (Table.find?_eq_some_iff.mp hj).1
    rw [hempty] at hmem
    cases hmem
  rw [if_neg hn]
  have hroom := (c.db.candidates_le now).trans hroom
  have hL : now ≤ now + lease := Int.le_add_of_nonneg_right hlease
  have hmay : ∀ k ∈ c.db.candidateSingles now, ∃ j, c.db.deliveryJobs.find? k = some j ∧
      j.mayClaim (now + lease) := by
    intro k hk
    obtain ⟨j, hj, hcand⟩ := Table.mem_sorted_keys.mp hk
    simp only [Database.isCandidateSingle, decide_eq_true_eq] at hcand
    exact ⟨j, hj, by simp [JobRow.mayClaim, JobRow.claimableState_mono hcand.1 hL,
      JobRow.leaseOver_mono hcand.2.2.1 hL]⟩
  -- four draws are taken before the first job is claimed
  let c₄ : Conn := c.skip 4
  have hquiet₄ : c₄.Quiet := h.skip 4
  obtain ⟨jobs, c₅, hsingles, hids⟩ := claimSingles (n := n) worker (c.db.candidateSingles now) []
    hquiet₄ Table.nodup_sorted_keys hmay (by rw [List.length_nil]; omega)
  obtain ⟨jobs', hjobs', hgrants⟩ := ensures_claimSingles now _ _ hsingles Table.nodup_sorted_keys
  have hquiet₅ : c₅.Quiet := hquiet₄.precedes ((Advances.claimSingles _ _).ok hsingles)
  have hlength : jobs.length = (c.db.candidateSingles now).length := by
    rw [← hids, List.length_map]
  obtain ⟨claims, c₆, hbuckets, hsub, hrest⟩ := claimBuckets (n := n) worker hL
    (c.db.candidateBuckets now) ([] ++ jobs.map .single) hquiet₅ (c.db.nodup_candidateBuckets now) (by
      rw [List.nil_append, List.length_map]
      omega)
  have hbody : (do
      let singleIds ← CcReminder.query (·.candidateSingles now)
      let buckets ← CcReminder.query (·.candidateBuckets now)
      let claims ← CcReminder.claimSingles worker (now + lease) n singleIds []
      CcReminder.claimBuckets worker now (now + lease) n buckets claims) (c.skip 2) =
      (.ok claims, c₆) :=
    Txn.bind_ok_iff.mpr ⟨_, _, (h.skip 2).query, Txn.bind_ok_iff.mpr ⟨_, _, (h.skip 3).query,
      Txn.bind_ok_iff.mpr ⟨_, _, hsingles, hbuckets⟩⟩⟩
  obtain ⟨c', hrun⟩ := h.immediate (Advances.query.bind fun _ => Advances.query.bind fun _ =>
    (Advances.claimSingles _ _).bind fun _ => Advances.claimBuckets _ _) hbody
  refine ⟨claims, c', hrun, fun k j hj hcand => ?_⟩
  rcases hcand with hcand | ⟨key, hkey, hcand⟩
  · have hk : k ∈ jobs.map (·.id) := hids ▸ Table.mem_sorted_keys.mpr ⟨j, hj, hcand⟩
    obtain ⟨job, hjob, rfl⟩ := List.mem_map.mp hk
    refine List.mem_map_of_mem (hsub ?_)
    simpa [claimedJobs, List.flatMap_map, ClaimedDelivery.jobs] using hjob
  · -- the single jobs that were handed out are in no bucket
    have hsame : c₅.db.deliveryJobs.find? k = c.db.deliveryJobs.find? k := by
      refine (hgrants.untouched (k := k) hj fun hmem => ?_).2
      have hid : j.id = k := Table.find?_key hj
      obtain ⟨j', hj', hcand'⟩ := Table.mem_sorted_keys.mp (hid ▸ hmem)
      obtain rfl : j = j' := by simpa [hj] using hj'
      simp only [Database.isBucketJob, Database.isCandidateSingle, decide_eq_true_eq] at hcand hcand'
      cases hcand.1.symm.trans hcand'.2.2.2.1
    exact hrest key hkey k j (hsame.trans hj) hcand

/-! ## What a manual retry does -/

theorem ensures_manualRetry_available : Ensures (manualRetry k now) fun db _ db' => ∃ j,
    j.state = .failed ∧ db.channelAvailable j now ∧ db.JobBecomes k j (j.revive now) db' ∧
      db' = { db with deliveryJobs := db'.deliveryJobs } := by
  refine ensures_immediate fun c a c' h => ?_
  obtain ⟨row, c₁, h₁, h⟩ := Txn.bind_ok_iff.mp h
  obtain ⟨hrow, hc₁⟩ := ensures_query h₁
  rw [← hc₁] at hrow ⊢
  cases row with
  | none => simp at h
  | some row =>
    obtain ⟨state, paused, nextAllowed⟩ := row
    dsimp only at h
    split at h
    · simp at h
    split at h
    · simp at h
    split at h
    · simp at h
    rename_i hpaused
    split at h
    · simp at h
    rename_i hlimited
    obtain ⟨n, c₂, h₂, h₃⟩ := Txn.bind_ok_iff.mp h
    split at h₃
    · simp at h₃
    · rename_i hn
      obtain ⟨-, rfl⟩ := by simpa using h₃
      rcases Database.updateJobs_one (ensures_execute h₂) with ⟨h0, -⟩ | ⟨-, hdb, j, hj, hs, hk⟩
      · exact absurd h0 hn
      · refine ⟨j, hs, ?_, ⟨hj, hk⟩, hdb⟩
        simp only [hj, Option.bind_eq_bind, Option.bind_some] at hrow
        obtain ⟨ch, hch, hcols⟩ := Option.bind_eq_some_iff.mp hrow.symm
        cases hcols
        rw [Database.channelAvailable, hch]
        simp only [Option.any_some, ChannelRow.available, decide_eq_true_eq, Option.all_eq_true]
        refine ⟨by simpa using hpaused, fun t ht => Int.not_lt.mp fun hlt => hlimited ?_⟩
        rw [ht]
        exact decide_eq_true hlt

/-- A failed job whose channel is available is revived when no statement fails. -/
theorem manualRetry_ok {c : Conn} (h : c.Quiet) (hj : c.db.deliveryJobs.find? k = some j)
    (hs : j.state = .failed) (hchannel : c.db.channelAvailable j now) :
    ∃ c', manualRetry k now c = (.ok (), c') := by
  obtain ⟨ch, hch, havail⟩ := (Option.any_eq_true _ _).mp hchannel
  simp only [ChannelRow.available, decide_eq_true_eq, Option.isNone_iff_eq_none,
    Option.all_eq_true] at havail
  have hquery : query (fun db => do
      let j ← db.deliveryJobs.find? k
      let c ← db.channels.find? j.channelId
      pure (j.state, c.pausedReasonCode, c.nextAllowedAt)) (c.skip 2) =
        (.ok (some (.failed, none, ch.nextAllowedAt)), c.skip 3) := by
    have hrow : (do
        let j ← c.db.deliveryJobs.find? k
        let c ← c.db.channels.find? j.channelId
        pure (j.state, c.pausedReasonCode, c.nextAllowedAt)) =
          some (DeliveryStatus.failed, none, ch.nextAllowedAt) := by
      simp only [hj, hch, Option.bind_eq_bind, Option.bind_some, hs, havail.1]
      rfl
    rw [← hrow]
    exact (h.skip 2).query
  have hopen : ¬ch.nextAllowedAt.any (· > now) := by
    rw [Option.any_eq_true]
    rintro ⟨t, ht, hlt⟩
    exact absurd (of_decide_eq_true hlt) (Int.not_lt.mpr (havail.2 t ht))
  have hcount : c.db.deliveryJobs.count (fun j => j.id = k ∧ j.state = .failed) ≠ 0 := by
    intro hzero
    have hnone := Table.count_eq_zero_iff.mp hzero j (Table.find?_eq_some_iff.mp hj).1
    simp [Table.find?_key hj, hs] at hnone
  let updated := c.db.updateJobs (fun j => j.id = k ∧ j.state = .failed) (·.revive now)
  have hend : manualRetry k now c = (.ok (), { c.skip 5 with db := updated.2 }) := by
    refine immediate_ok_iff.mpr ⟨h 0, h 1, { c.skip 4 with db := updated.2 }, ?_, h 4, rfl⟩
    refine Txn.bind_ok_iff.mpr ⟨_, _, hquery, ?_⟩
    dsimp only
    rw [if_neg (by decide), if_neg (by decide), if_neg (by decide), if_neg hopen]
    exact Txn.bind_ok_iff.mpr ⟨updated.1, _, (h.skip 3).execute, congrFun (if_neg hcount) _⟩
  exact ⟨_, hend⟩

theorem ensures_expireDue_length : Ensures (expireDue now) fun db _ db' =>
    db'.deliveryJobs.rows.length = db.deliveryJobs.rows.length := by
  refine ensures_immediate (ensures_execute.mono fun db n db' h => ?_)
  cases h
  exact List.length_map _

/-! ## What it is for -/

/-- One cycle of a worker: the sweep, then a claim. -/
def sweepAndClaim (worker : String) (now : DateTime) (lease : Duration) (n : Nat) :
    Tx (List ClaimedDelivery) := do
  let _ ← expireDue now
  claimDue worker now lease n

namespace Database

/-- A cycle at `now` that has room for every job hands out the job `k`. -/
def HandsOut (db : Database) (now : DateTime) (k : Uuid) : Prop :=
  ∀ worker lease n (c : Conn), c.db = db → c.Quiet → 0 ≤ lease → db.deliveryJobs.rows.length ≤ n →
    ∃ claims c', sweepAndClaim worker now lease n c = (.ok claims, c') ∧
      k ∈ (claimedJobs claims).map (·.id)

/-- The job `k` failed, its channel is neither paused nor rate-limited, and it is alive. -/
def Revivable (db : Database) (now : DateTime) (k : Uuid) : Prop :=
  ∃ j, db.deliveryJobs.find? k = some j ∧ j.state = .failed ∧ db.channelAvailable j now ∧
    now < j.expiresAt

/-- A manual retry of the job `k` succeeds for jobs that may be revived alone, and the next cycle
hands out what it revived; and it changes nothing when it does not succeed. -/
def RetryEffective (db : Database) (now : DateTime) (k : Uuid) : Prop :=
  ∀ c : Conn, c.db = db →
    (∀ c', manualRetry k now c = (.ok (), c') → db.Revivable now k ∧ c'.db.HandsOut now k) ∧
    ∀ e c', manualRetry k now c = (.error e, c') → c'.db = db

/-- The bucket `key` is free once the sweep is done: no row of it that a claim may take holds it
back. -/
def BucketFree (db : Database) (now : DateTime) (key : String) : Prop :=
  ∀ i ∈ db.deliveryJobs.rows, i.aggregateKey = some key → db.isBucketRow now i →
    isBlocked now i → i.isWaiting ∧ i.expiresAt ≤ now

/-- If the job `k` failed and its channel is available, then it is alive, and if it has a bucket it
was released and the bucket is free. -/
def RetryReady (db : Database) (now : DateTime) (k : Uuid) : Prop :=
  ∀ j, db.deliveryJobs.find? k = some j → j.state = .failed → db.channelAvailable j now →
    now < j.expiresAt ∧ ∀ key, j.aggregateKey = some key →
      j.aggregateReleaseAt.any (· ≤ now) ∧ db.BucketFree now key

/-- `db'` is `db` after the failed job `j` was revived at `now` and the sweep ran. -/
structure RevivedAndSwept (db : Database) (now : DateTime) (k : Uuid) (j : JobRow) (db' : Database) :
    Prop where
  before : db.deliveryJobs.find? k = some j
  failed : j.state = .failed
  after : ∀ k', db'.deliveryJobs.find? k' =
    (if k' = k then some (j.revive now) else db.deliveryJobs.find? k').map fun i =>
      if i.isWaiting ∧ i.expiresAt ≤ now then i.sweep now else i
  rest : db' = { db with deliveryJobs := db'.deliveryJobs }

namespace RevivedAndSwept

variable {db db' : Database}

theorem channelAvailable (h : db.RevivedAndSwept now k j db') (i : JobRow) :
    db'.channelAvailable i now = db.channelAvailable i now := by
  rw [h.rest]
  rfl

/-- A claim takes no row that was swept. -/
theorem unswept {i i' : JobRow} (hi' : i'.claimableState now)
    (h : i' = if i.isWaiting ∧ i.expiresAt ≤ now then i.sweep now else i) :
    i' = i ∧ ¬(i.isWaiting ∧ i.expiresAt ≤ now) := by
  split at h
  · simp [h, JobRow.claimableState, JobRow.sweep] at hi'
  · rename_i hunswept
    exact ⟨h, hunswept⟩

theorem find?_of_claimable (h : db.RevivedAndSwept now k j db')
    (hj' : db'.deliveryJobs.find? k = some j') (hclaimable : j'.claimableState now) :
    j' = j.revive now ∧ now < j.expiresAt := by
  rw [h.after, if_pos rfl, Option.map_some] at hj'
  obtain ⟨rfl, hunswept⟩ := unswept hclaimable (Option.some.inj hj').symm
  exact ⟨rfl, Int.not_le.mp fun hexp => hunswept ⟨rfl, hexp⟩⟩

theorem find?_of_alive (h : db.RevivedAndSwept now k j db') (halive : now < j.expiresAt) :
    db'.deliveryJobs.find? k = some (j.revive now) := by
  rw [h.after, if_pos rfl, Option.map_some, if_neg]
  rintro ⟨-, hexp⟩
  exact absurd halive (Int.not_lt.mpr hexp)

/-- The other rows of a bucket are those that the sweep left. -/
theorem bucketFree_iff (h : db.RevivedAndSwept now k j db') (key : String) :
    db.BucketFree now key ↔ ∀ i ∈ db'.deliveryJobs.rows, i.id ≠ k → db'.isBucketRow now i →
      i.aggregateKey = some key → isBlocked now i = false := by
  simp only [BucketFree, isBucketRow, decide_eq_true_eq]
  constructor
  · rintro hfree i' hi' hne ⟨hclaimable, hsome, havail⟩ hkey
    have hfind := Table.mem_rows_iff.mp hi'
    rw [h.after, if_neg hne, Option.map_eq_some_iff] at hfind
    obtain ⟨i, hi, hsweep⟩ := hfind
    obtain ⟨rfl, hunswept⟩ := unswept hclaimable hsweep.symm
    rw [h.channelAvailable] at havail
    exact Bool.eq_false_iff.mpr fun hblocked => hunswept
      (hfree _ (Table.find?_eq_some_iff.mp hi).1 hkey ⟨hclaimable, hsome, havail⟩ hblocked)
  · rintro hfree i hi hkey ⟨hclaimable, hsome, havail⟩ hblocked
    by_contra hunswept
    have hne : i.id ≠ k := by
      intro hid
      have hfind := Table.mem_rows_iff.mp hi
      rw [hid, h.before] at hfind
      obtain rfl : j = i := Option.some.inj hfind
      simp [JobRow.claimableState, h.failed] at hclaimable
    have hfind : db'.deliveryJobs.find? i.id = some i := by
      rw [h.after, if_neg hne, Table.mem_rows_iff.mp hi, Option.map_some, if_neg hunswept]
    have hi' := (Table.find?_eq_some_iff.mp hfind).1
    rw [← h.channelAvailable] at havail
    rw [hfree i hi' hne ⟨hclaimable, hsome, havail⟩ hkey] at hblocked
    cases hblocked

/-- The revived job is a candidate just when it is alive and its bucket is free. -/
theorem isCandidate_iff (h : db.RevivedAndSwept now k j db') (hchannel : db.channelAvailable j now) :
    (∃ j', db'.deliveryJobs.find? k = some j' ∧ db'.isCandidate now j') ↔
      now < j.expiresAt ∧ ∀ key, j.aggregateKey = some key →
        j.aggregateReleaseAt.any (· ≤ now) ∧ db.BucketFree now key := by
  have hchannel' : db'.channelAvailable (j.revive now) now := by
    rw [h.channelAvailable]
    exact hchannel
  constructor
  · rintro ⟨j', hj', hcand⟩
    rcases hcand with hcand | ⟨key, hready, hcand⟩
    · simp only [isCandidateSingle, decide_eq_true_eq] at hcand
      obtain ⟨rfl, halive⟩ := h.find?_of_claimable hj' hcand.1
      refine ⟨halive, fun key hkey => ?_⟩
      cases hkey.symm.trans hcand.2.2.2.1
    · simp only [isBucketJob, decide_eq_true_eq] at hcand
      obtain ⟨rfl, halive⟩ := h.find?_of_claimable hj' hcand.2.1
      refine ⟨halive, fun key' hkey' => ?_⟩
      obtain rfl : key' = key := Option.some.inj (hkey'.symm.trans hcand.1)
      exact ⟨hcand.2.2.1, (h.bucketFree_iff key').mpr fun i hi _ hrow hkey =>
        (mem_candidateBuckets_iff.mp hready).2 i hi hrow hkey⟩
  · rintro ⟨halive, hbucket⟩
    have hj' := h.find?_of_alive halive
    have hclaimable : (j.revive now).claimableState now := rfl
    refine ⟨j.revive now, hj', ?_⟩
    cases hkey : j.aggregateKey with
    | none =>
      left
      simp only [isCandidateSingle, decide_eq_true_eq]
      exact ⟨hclaimable, Int.le_refl now, rfl, hkey, hchannel'⟩
    | some key =>
      obtain ⟨hreleased, hfree⟩ := hbucket key hkey
      have hrow : db'.isBucketRow now (j.revive now) := by
        simp only [isBucketRow, decide_eq_true_eq]
        exact ⟨hclaimable, Option.isSome_iff_exists.mpr ⟨key, hkey⟩, hchannel'⟩
      have hjob : isBucketJob now key (j.revive now) := by
        simp only [isBucketJob, decide_eq_true_eq]
        exact ⟨hkey, hclaimable, hreleased, rfl⟩
      refine .inr ⟨key, mem_candidateBuckets_iff.mpr
        ⟨⟨_, (Table.find?_eq_some_iff.mp hj').1, hrow, hkey⟩, fun i hi hirow hikey => ?_⟩, hjob⟩
      by_cases hid : i.id = k
      · obtain rfl : j.revive now = i :=
          Option.some.inj (hj'.symm.trans (hid ▸ Table.mem_rows_iff.mp hi))
        have hlease : (j.revive now).leaseOver now := rfl
        simp only [isBlocked, Bool.not_eq_false', decide_eq_true_eq]
        exact ⟨hreleased, hlease⟩
      · exact (h.bucketFree_iff key).mp hfree i hi hid hirow hikey

end RevivedAndSwept

/-- The next cycle hands the revived job out just when it is alive and its bucket is free. -/
theorem handsOut_iff {db db₁ : Database} (hs : j.state = .failed) (hchannel : db.channelAvailable j now)
    (hb : db.JobBecomes k j (j.revive now) db₁)
    (hrest : db₁ = { db with deliveryJobs := db₁.deliveryJobs }) :
    db₁.HandsOut now k ↔ now < j.expiresAt ∧ ∀ key, j.aggregateKey = some key →
      j.aggregateReleaseAt.any (· ≤ now) ∧ db.BucketFree now key := by
  -- the sweep on any connection that has the tables
  have hswept : ∀ c m (c₁ : Conn), c.db = db₁ → expireDue now c = (.ok m, c₁) →
      db.RevivedAndSwept now k j c₁.db := by
    rintro c m c₁ rfl hsweep
    obtain ⟨hjobs, hrest'⟩ := ensures_expireDue hsweep
    refine ⟨hb.before, hs, fun k' => by rw [hjobs, hb.after], ?_⟩
    rw [hrest']
    conv_lhs => rw [hrest]
  constructor
  · intro hout
    obtain ⟨claims, c', hrun, hk⟩ := hout "" 0 _ ⟨db₁, fun _ => {}⟩ rfl (fun _ => rfl) (Int.le_refl 0)
      (Nat.le_refl _)
    obtain ⟨m, c₁, hsweep, hclaim⟩ := Txn.bind_ok_iff.mp hrun
    obtain ⟨job, hjob, rfl⟩ := List.mem_map.mp hk
    obtain ⟨j', hj', hcand, -⟩ := (ensures_claimDue hclaim).granted job hjob
    exact ((hswept _ m c₁ rfl hsweep).isCandidate_iff hchannel).mp ⟨j', hj', hcand⟩
  · rintro hready worker lease n c rfl hquiet hlease hroom
    obtain ⟨c₁, hsweep⟩ : ∃ c₁, expireDue now c = (.ok _, c₁) :=
      hquiet.immediate Advances.execute (hquiet.skip 2).execute
    obtain ⟨j', hj', hcand⟩ := ((hswept c _ c₁ rfl hsweep).isCandidate_iff hchannel).mpr hready
    have hquiet₁ : c₁.Quiet := hquiet.precedes (Advances.immediate Advances.execute hsweep)
    obtain ⟨claims, c', hclaim, hall⟩ := hquiet₁.claimDue (n := n) worker hlease
      (ensures_expireDue_length hsweep ▸ hroom)
    exact ⟨claims, c', Txn.bind_ok_iff.mpr ⟨_, c₁, hsweep, hclaim⟩, hall k j' hj' hcand⟩

/-- **A manual retry is effective** just when the job is alive and its bucket is free. -/
theorem manualRetry_effective_iff (db : Database) (now : DateTime) (k : Uuid) :
    db.RetryEffective now k ↔ db.RetryReady now k := by
  constructor
  · intro heffective j hj hs hchannel
    obtain ⟨c', hrun⟩ := manualRetry_ok (c := ⟨db, fun _ => {}⟩) (fun _ => rfl) hj hs hchannel
    obtain ⟨-, hout⟩ := (heffective _ rfl).1 c' hrun
    obtain ⟨j', hs', hchannel', hb, hrest⟩ := ensures_manualRetry_available hrun
    obtain rfl : j = j' := Option.some.inj (hj.symm.trans hb.before)
    exact (handsOut_iff hs hchannel hb hrest).mp hout
  · rintro hready c rfl
    refine ⟨fun c' hrun => ?_, fun e c' hrun => immediate_error hrun⟩
    obtain ⟨j, hs, hchannel, hb, hrest⟩ := ensures_manualRetry_available hrun
    have hj := hready j hb.before hs hchannel
    exact ⟨⟨j, hb.before, hs, hchannel, hj.1⟩, (handsOut_iff hs hchannel hb hrest).mpr hj⟩

/-- A job with a TTL of one hour that was claimed and failed. -/
def failedJob : List ((α : Type) × QueueOp α) :=
  [⟨_, .enqueue (Sample.job 1 none)⟩, ⟨_, .claimDue "worker" 0 (Duration.seconds 30) 8⟩,
    ⟨_, .fail 1 (Duration.seconds 1) Sample.timeout⟩]

/-- Two hours later a manual retry of it succeeds, an hour past its TTL. -/
theorem manualRetry_not_effective : ∃ c, QueueRun id Sample.start c ∧
    ¬c.db.RetryEffective (Duration.minutes 120) 1 := by
  refine ⟨runOps id failedJob Sample.start, .ofOps failedJob Sample.start, fun heffective => ?_⟩
  have hrun := unit_run (x := manualRetry 1 (Duration.minutes 120))
    (c := runOps id failedJob Sample.start) (by decide +kernel)
  obtain ⟨j, hj, -, -, halive⟩ := ((heffective _ rfl).1 _ hrun).1
  have hexp : ∀ j ∈ (runOps id failedJob Sample.start).db.deliveryJobs.rows,
      j.expiresAt ≤ Duration.minutes 120 := by decide +kernel
  exact absurd halive (Int.not_lt.mpr (hexp j (Table.find?_eq_some_iff.mp hj).1))

end Database

end CcReminder
