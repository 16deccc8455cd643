import CcReminder.Storage.Queue.Spec

/-!
# What a claim does

`claim_due` leases single jobs one by one and buckets as a whole. `Database.Grants` says what
became of each row: the jobs handed out are leased, and every other row is as it was. A lease
that ends before the claim is an exception: a bucket may then be put back half way.
-/

set_option autoImplicit true

namespace CcReminder

open Lib

theorem JobRow.leaseOver_mono {j : JobRow} (h : j.leaseOver t) (ht : t ≤ t') : j.leaseOver t' := by
  simp only [leaseOver, Option.all_eq_true, decide_eq_true_eq] at h ⊢
  exact fun e he => Int.le_trans (h e he) ht

theorem JobRow.claimableState_mono {j : JobRow} (h : j.claimableState t) (ht : t ≤ t') :
    j.claimableState t' := by
  simp only [claimableState, decide_eq_true_eq, Option.any_eq_true] at h ⊢
  rcases h with h | h | ⟨hs, e, he, hle⟩
  · exact .inl h
  · exact .inr (.inl h)
  · exact .inr (.inr ⟨hs, e, he, Int.le_trans hle ht⟩)

/-! ## Rows that are leased or put back -/

/-- The row `j`, leased or put back by a claim at `now` whose leases end at `L`. -/
def JobRow.Disturbed (worker : String) (now L : DateTime) (j j' : JobRow) : Prop :=
  j' = j.toSending worker L ∨ j' = j.unclaim now

/-- Some of the jobs `ks` were leased or put back. -/
structure Database.Disturbs (db : Database) (worker : String) (now L : DateTime) (ks : List Uuid)
    (db' : Database) : Prop where
  jobs : ∀ k, db'.deliveryJobs.find? k = db.deliveryJobs.find? k ∨ k ∈ ks ∧
    ∃ j j', db.deliveryJobs.find? k = some j ∧ db'.deliveryJobs.find? k = some j' ∧
      j.Disturbed worker now L j'
  rest : db' = { db with deliveryJobs := db'.deliveryJobs }

namespace Database.Disturbs

theorem refl (db : Database) : db.Disturbs worker now L ks db := ⟨fun _ => .inl rfl, rfl⟩

theorem trans {db db₁ db₂ : Database} (h₁ : db.Disturbs worker now L ks db₁)
    (h₂ : db₁.Disturbs worker now L ks' db₂) (h : ks ⊆ ks'') (h' : ks' ⊆ ks'') :
    db.Disturbs worker now L ks'' db₂ := by
  refine ⟨fun k => ?_, ?_⟩
  · rcases h₂.jobs k with hk₂ | ⟨hk₂, j₁, j₂, hj₁, hj₂, hd₂⟩
    · rw [hk₂]
      exact (h₁.jobs k).imp id fun ⟨hk, hd⟩ => ⟨h hk, hd⟩
    rcases h₁.jobs k with hk₁ | ⟨-, j, j₁', hj, hj₁', hd₁⟩
    · exact .inr ⟨h' hk₂, j₁, j₂, hk₁ ▸ hj₁, hj₂, hd₂⟩
    · obtain rfl : j₁ = j₁' := by simpa [hj₁] using hj₁'
      refine .inr ⟨h' hk₂, j, j₂, hj, hj₂, ?_⟩
      rcases hd₁ with rfl | rfl <;> rcases hd₂ with rfl | rfl <;>
        simp [JobRow.Disturbed, JobRow.toSending, JobRow.unclaim]
  · rw [h₂.rest]
    conv_lhs => rw [h₁.rest]

theorem of_update {q : JobRow → Prop} [DecidablePred q] {f : JobRow → JobRow} {hf}
    {db db' : Database} (h : db.updateJobs (fun j => j.id = k ∧ q j) f hf = (n, db'))
    (hd : ∀ j : JobRow, j.Disturbed worker now L (f j)) : db.Disturbs worker now L [k] db' := by
  rcases updateJobs_one h with ⟨-, rfl, -⟩ | ⟨-, hrest, j, hj, -, hfind⟩
  · exact refl db'
  · refine ⟨fun k' => ?_, hrest⟩
    rw [hfind k']
    split
    · rename_i hk
      exact .inr ⟨by simp [hk], j, f j, hk ▸ hj, rfl, hd j⟩
    · exact .inl rfl

end Database.Disturbs

theorem ensures_loadJob : Ensures (loadJob k) fun db r db' =>
    r = (db.deliveryJobs.find? k).map (·.toJob) ∧ db' = db := ensures_query

theorem disturbs_putBack (jobs : List DeliveryJob) : Ensures (.each (fun earlier : DeliveryJob =>
      ignoreError (execute (·.updateJobs (·.id = earlier.id) (·.unclaim now)))) jobs)
    fun db _ db' => db.Disturbs worker now L (jobs.map (·.id)) db' := by
  refine Txn.Ensures.each
    (R := fun jobs (c c' : Conn) => c.db.Disturbs worker now L (jobs.map (·.id)) c'.db)
    (fun c => .refl c.db) (fun job jobs c c₁ c₂ h₁ h₂ => ?_) jobs
  have hone : c.db.Disturbs worker now L [job.id] c₁.db := by
    simp only [ignoreError, Txn.step_run, Prod.mk.injEq, true_and] at h₁
    subst h₁
    rcases hx : execute (·.updateJobs (·.id = job.id) (·.unclaim now)) c with ⟨e | a, c'⟩
    · rw [statement_error hx]
      exact .refl _
    · have he := ensures_execute hx
      have heq : (fun j : JobRow => decide (j.id = job.id)) = fun j => decide (j.id = job.id ∧ True) := by
        simp
      rw [heq] at he
      exact .of_update he fun j => .inr rfl
  exact hone.trans h₂ (by simp) (by simp)

theorem disturbs_claimConstituents (key : String) : ∀ ks claimed,
    Ensures (claimConstituents worker now L key ks claimed) fun db _ db' =>
      db.Disturbs worker now L (claimed.map (·.id) ++ ks) db'
  | [], _ => Ensures.ret .refl
  | k :: ks, claimed => by
    intro c r c' h
    obtain ⟨u, c₁, h₁, h⟩ := Txn.bind_ok_iff.mp h
    have hone : c.db.Disturbs worker now L [k] c₁.db :=
      .of_update (ensures_execute h₁) fun j => .inl rfl
    split at h
    · obtain ⟨v, c₂, h₂, h₃⟩ := Txn.bind_ok_iff.mp h
      obtain ⟨-, rfl⟩ := by simpa using h₃
      exact hone.trans (disturbs_putBack claimed h₂) (by simp) (by simp)
    · obtain ⟨loaded, c₂, h₂, h₃⟩ := Txn.bind_ok_iff.mp h
      obtain ⟨hl, hc₂⟩ := ensures_loadJob h₂
      rw [← hc₂] at hone
      cases loaded with
      | none =>
        exact hone.trans (disturbs_claimConstituents key ks claimed h₃) (by simp) (by grind)
      | some job =>
        obtain ⟨j, hj, rfl⟩ := Option.map_eq_some_iff.mp hl.symm
        obtain rfl : j.id = k := Table.find?_key hj
        refine hone.trans (disturbs_claimConstituents key ks _ h₃) (by simp) ?_
        simp [JobRow.toJob]

/-! ## Jobs that are handed out -/

/-- `db'` is `db` after a claim at `now` handed out `jobs`, all of them with a row that meets
`P`, on leases that end at `L`. -/
structure Database.Grants (db : Database) (worker : String) (now L : DateTime) (P : JobRow → Prop)
    (jobs : List DeliveryJob) (db' : Database) : Prop where
  nodup : (jobs.map (·.id)).Nodup
  granted : ∀ job ∈ jobs, ∃ j, db.deliveryJobs.find? job.id = some j ∧ P j ∧
    job = (j.toSending worker L).toJob ∧
    db'.deliveryJobs.find? job.id = some (j.toSending worker L)
  others : ∀ k ∉ jobs.map (·.id), db'.deliveryJobs.find? k = db.deliveryJobs.find? k ∨
    L < now ∧ ∃ j j', db.deliveryJobs.find? k = some j ∧ P j ∧
      db'.deliveryJobs.find? k = some j' ∧ j.Disturbed worker now L j'
  rest : db' = { db with deliveryJobs := db'.deliveryJobs }

namespace Database.Grants

theorem nil (db : Database) : db.Grants worker now L P [] db :=
  ⟨.nil, fun _ h => absurd h (by simp), fun _ _ => .inl rfl, rfl⟩

theorem one {db db' : Database} (hj : db.deliveryJobs.find? k = some j) (hP : P j)
    (hfind : ∀ k', db'.deliveryJobs.find? k' =
      if k' = k then some (j.toSending worker L) else db.deliveryJobs.find? k')
    (hrest : db' = { db with deliveryJobs := db'.deliveryJobs }) :
    db.Grants worker now L P [(j.toSending worker L).toJob] db' := by
  obtain rfl : j.id = k := Table.find?_key hj
  refine ⟨by simp, fun job hjob => ?_, fun k' hk' => .inl ?_, hrest⟩
  · obtain rfl := List.mem_singleton.mp hjob
    exact ⟨j, hj, hP, rfl, (hfind _).trans (if_pos rfl)⟩
  · exact (hfind k').trans (if_neg fun h => hk' (List.mem_singleton.mpr h))

theorem mono {db db' : Database} (h : db.Grants worker now L P jobs db')
    (hPQ : ∀ j, db.deliveryJobs.find? j.id = some j → P j → Q j) :
    db.Grants worker now L Q jobs db' := by
  refine ⟨h.nodup, fun job hjob => ?_, fun k hk => ?_, h.rest⟩
  · obtain ⟨j, hj, hp, heq⟩ := h.granted job hjob
    exact ⟨j, hj, hPQ j (Table.find?_key hj ▸ hj) hp, heq⟩
  · refine (h.others k hk).imp id fun ⟨hL, j, j', hj, hp, heq⟩ => ⟨hL, j, j', hj, ?_, heq⟩
    exact hPQ j (Table.find?_key hj ▸ hj) hp

/-- Rows that the condition `Q` of a claim misses are not touched by it. -/
theorem untouched {db db' : Database} (h : db.Grants worker now L Q jobs db')
    (hj : db.deliveryJobs.find? k = some j) (hQ : ¬Q j) :
    k ∉ jobs.map (·.id) ∧ db'.deliveryJobs.find? k = db.deliveryJobs.find? k := by
  have hk : k ∉ jobs.map (·.id) := by
    rintro hk
    obtain ⟨job, hjob, rfl⟩ := List.mem_map.mp hk
    obtain ⟨j', hj', hq, -⟩ := h.granted job hjob
    obtain rfl : j = j' := by simpa [hj] using hj'
    exact hQ hq
  refine ⟨hk, (h.others k hk).resolve_right ?_⟩
  rintro ⟨-, j', -, hj', hq, -⟩
  obtain rfl : j = j' := by simpa [hj] using hj'
  exact hQ hq

/-- Two claims in a row, the second of which selects none of the rows of the first, leased or
put back as they may be. -/
theorem append {db db₁ db₂ : Database} (h₁ : db.Grants worker now L P jobs db₁)
    (h₂ : db₁.Grants worker now L Q jobs' db₂)
    (hsep : ∀ j j', P j → j'.id = j.id → j'.aggregateKey = j.aggregateKey → ¬Q j') :
    db.Grants worker now L (fun j => P j ∨ Q j) (jobs ++ jobs') db₂ := by
  have hfirst : ∀ k ∈ jobs.map (·.id), k ∉ jobs'.map (·.id) ∧
      db₂.deliveryJobs.find? k = db₁.deliveryJobs.find? k := by
    intro k hk
    obtain ⟨job, hjob, rfl⟩ := List.mem_map.mp hk
    obtain ⟨j, -, hp, -, hj'⟩ := h₁.granted job hjob
    exact h₂.untouched hj' (hsep j _ hp rfl rfl)
  have hsecond : ∀ k j, db₁.deliveryJobs.find? k = some j → Q j →
      db₁.deliveryJobs.find? k = db.deliveryJobs.find? k := by
    intro k j hj hq
    by_cases hk : k ∈ jobs.map (·.id)
    · obtain ⟨job, hjob, rfl⟩ := List.mem_map.mp hk
      obtain ⟨j₀, -, hp, -, hj'⟩ := h₁.granted job hjob
      obtain rfl : j = j₀.toSending worker L := by simpa [hj] using hj'
      exact absurd hq (hsep j₀ _ hp rfl rfl)
    · refine (h₁.others k hk).resolve_right ?_
      rintro ⟨-, j₀, j', -, hp, hj', hd⟩
      obtain rfl : j = j' := by simpa [hj] using hj'
      rcases hd with rfl | rfl <;> exact absurd hq (hsep j₀ _ hp rfl rfl)
  refine ⟨?_, fun job hjob => ?_, fun k hk => ?_, ?_⟩
  · rw [List.map_append, List.nodup_append]
    exact ⟨h₁.nodup, h₂.nodup, fun k hk k' hk' heq => (hfirst k hk).1 (heq ▸ hk')⟩
  · rcases List.mem_append.mp hjob with hjob | hjob
    · obtain ⟨j, hj, hp, heq, hj'⟩ := h₁.granted job hjob
      exact ⟨j, hj, .inl hp, heq, (hfirst _ (List.mem_map_of_mem hjob)).2.trans hj'⟩
    · obtain ⟨j, hj, hq, heq, hj'⟩ := h₂.granted job hjob
      exact ⟨j, (hsecond _ j hj hq).symm.trans hj, .inr hq, heq, hj'⟩
  · rw [List.map_append, List.mem_append, not_or] at hk
    rcases h₂.others k hk.2 with h | ⟨hL, j, j', hj, hq, hj', hd⟩
    · rw [h]
      refine (h₁.others k hk.1).imp id ?_
      rintro ⟨hL, j, j', hj, hp, hj', hd⟩
      exact ⟨hL, j, j', hj, .inl hp, hj', hd⟩
    · exact .inr ⟨hL, j, j', (hsecond k j hj hq).symm.trans hj, .inr hq, hj', hd⟩
  · rw [h₂.rest]
    conv_lhs => rw [h₁.rest]

end Database.Grants

theorem ensures_claimSingles (now : DateTime) : ∀ ks claims,
    Ensures (claimSingles worker L n ks claims) fun db r db' => ks.Nodup → ∃ jobs,
      r = claims ++ jobs.map .single ∧ db.Grants worker now L (fun j => j.id ∈ ks) jobs db'
  | [], claims => Ensures.ret fun db _ => ⟨[], by simp, .nil db⟩
  | k :: ks, claims => by
    intro c r c' h hnd
    obtain ⟨hk, hnd⟩ := List.nodup_cons.mp hnd
    unfold claimSingles at h
    split at h
    · obtain ⟨rfl, rfl⟩ := by simpa using h
      exact ⟨[], by simp, .nil _⟩
    obtain ⟨u, c₁, h₁, h⟩ := Txn.bind_ok_iff.mp h
    rcases Database.updateJobs_one (ensures_execute h₁) with ⟨h0, hdb, -⟩ | ⟨hn, hdb, j, hj, -, hfind⟩
    · rw [if_pos h0] at h
      obtain ⟨jobs, hr, hgrant⟩ := ensures_claimSingles now ks claims h hnd
      exact ⟨jobs, hr, hdb ▸ hgrant.mono fun j _ hj => List.mem_cons_of_mem k hj⟩
    · rw [if_neg hn] at h
      obtain ⟨loaded, c₂, h₂, h⟩ := Txn.bind_ok_iff.mp h
      obtain ⟨hl, hc₂⟩ := ensures_loadJob h₂
      rw [hfind k, if_pos rfl] at hl
      subst hl
      obtain ⟨jobs, hr, hgrant⟩ := ensures_claimSingles now ks _ h hnd
      rw [hc₂] at hgrant
      have hone : c.db.Grants worker now L (·.id = k) _ c₁.db :=
        .one hj (Table.find?_key hj) hfind hdb
      refine ⟨(j.toSending worker L).toJob :: jobs, by simp [hr],
        (hone.append hgrant ?_).mono fun j _ h => by simpa using h⟩
      rintro j j' rfl hid - hmem
      exact hk (hid ▸ hmem)

/-- A bucket is claimed whole, or put back, and that only on a lease that ends in the past. -/
theorem ensures_claimConstituents (key : String) : ∀ ks claimed,
    Ensures (claimConstituents worker now L key ks claimed) fun db r db' =>
      ks.Nodup → (∀ k ∈ ks, ∃ j, db.deliveryJobs.find? k = some j ∧
        Database.isBucketJob now key j) →
      L < now ∧ r = [] ∨ ∃ jobs, r = claimed ++ jobs ∧ jobs.map (·.id) = ks ∧
        db.Grants worker now L (fun j => j.id ∈ ks) jobs db'
  | [], claimed => Ensures.ret fun db _ _ => .inr ⟨[], by simp, rfl, .nil db⟩
  | k :: ks, claimed => by
    intro c r c' h hnd hcl
    obtain ⟨hk, hnd⟩ := List.nodup_cons.mp hnd
    obtain ⟨j, hj, hp⟩ := hcl k List.mem_cons_self
    obtain ⟨u, c₁, h₁, h⟩ := Txn.bind_ok_iff.mp h
    rcases Database.updateJobs_one (ensures_execute h₁) with ⟨h0, -, hnot⟩ | ⟨hn, hdb, j', hj', -, hfind⟩
    · rw [if_pos h0] at h
      obtain ⟨v, c₂, -, h₃⟩ := Txn.bind_ok_iff.mp h
      obtain ⟨rfl, -⟩ := by simpa using h₃
      refine .inl ⟨Int.not_le.mp fun hL => hnot j hj ?_, rfl⟩
      simp only [Database.isBucketJob, decide_eq_true_eq] at hp
      exact ⟨hp.1, by simp [JobRow.mayClaim, JobRow.claimableState_mono hp.2.1 hL,
        JobRow.leaseOver_mono hp.2.2.2 hL]⟩
    obtain rfl : j = j' := by simpa [hj] using hj'
    rw [if_neg hn] at h
    obtain ⟨loaded, c₂, h₂, h⟩ := Txn.bind_ok_iff.mp h
    obtain ⟨hl, hc₂⟩ := ensures_loadJob h₂
    rw [hfind k, if_pos rfl] at hl
    subst hl
    have hcl' : ∀ k' ∈ ks, ∃ j, c₂.db.deliveryJobs.find? k' = some j ∧
        Database.isBucketJob now key j := by
      intro k' hk'
      obtain ⟨j', hj', hp'⟩ := hcl k' (List.mem_cons_of_mem _ hk')
      refine ⟨j', ?_, hp'⟩
      rw [hc₂, hfind k', if_neg (by rintro rfl; exact hk hk')]
      exact hj'
    refine (ensures_claimConstituents key ks _ h hnd hcl').imp id ?_
    rintro ⟨jobs, hr, hids, hgrant⟩
    rw [hc₂] at hgrant
    have hid : j.id = k := Table.find?_key hj
    have hone : c.db.Grants worker now L (·.id = k) _ c₁.db := .one hj hid hfind hdb
    refine ⟨(j.toSending worker L).toJob :: jobs, by simp [hr], ?_,
      (hone.append hgrant ?_).mono fun j _ h => by simpa using h⟩
    · rw [List.map_cons, hids]
      exact congrArg (· :: ks) hid
    · rintro j j' rfl hid - hmem
      exact hk (hid ▸ hmem)

/-- The claim of one bucket. -/
theorem ensures_claimBucket : Ensures (do
      let jobIds ← query (·.bucketJobIds key now)
      claimConstituents worker now L key jobIds []) fun db jobs db' =>
    db.Grants worker now L (fun j => Database.isBucketJob now key j) jobs db' := by
  intro c jobs c' h
  obtain ⟨ks, c₁, h₁, h₂⟩ := Txn.bind_ok_iff.mp h
  obtain ⟨rfl, hc₁⟩ := ensures_query h₁
  have hks : ∀ k ∈ c.db.bucketJobIds key now, ∃ j, c₁.db.deliveryJobs.find? k = some j ∧
      Database.isBucketJob now key j := fun k hk => hc₁ ▸ Table.mem_sorted_keys.mp hk
  rw [← hc₁]
  rcases ensures_claimConstituents key _ _ h₂ Table.nodup_sorted_keys hks with
    ⟨hL, rfl⟩ | ⟨jobs', hr, hids, hgrant⟩
  · have hd := disturbs_claimConstituents key _ _ h₂
    refine ⟨.nil, fun _ h => absurd h (by simp), fun k _ => (hd.jobs k).imp id ?_, hd.rest⟩
    rintro ⟨hk, j, j', hj, hj', hdist⟩
    obtain ⟨j₀, hj₀, hp⟩ := hks k (by simpa using hk)
    obtain rfl : j = j₀ := by simpa [hj] using hj₀
    exact ⟨hL, j, j', hj, hp, hj', hdist⟩
  · obtain rfl : jobs = jobs' := by simpa using hr
    refine hgrant.mono fun j hj hmem => ?_
    obtain ⟨j', hj', hp⟩ := hks j.id hmem
    obtain rfl : j = j' := by simpa [hj] using hj'
    exact hp

/-- The jobs in a list of claims. -/
def claimedJobs (claims : List ClaimedDelivery) : List DeliveryJob := claims.flatMap (·.jobs)

theorem ensures_claimBuckets : ∀ keys claims,
    Ensures (claimBuckets worker now L n keys claims) fun db r db' => keys.Nodup →
      ∃ jobs, claimedJobs r = claimedJobs claims ++ jobs ∧
        db.Grants worker now L (fun j => ∃ key ∈ keys, Database.isBucketJob now key j) jobs db'
  | [], claims => Ensures.ret fun db _ => ⟨[], by simp, .nil db⟩
  | key :: keys, claims => by
    intro c r c' h hnd
    obtain ⟨hkey, hnd⟩ := List.nodup_cons.mp hnd
    unfold claimBuckets at h
    split at h
    · obtain ⟨rfl, rfl⟩ := by simpa using h
      exact ⟨[], by simp, .nil _⟩
    obtain ⟨ks, c₀, h₀, h⟩ := Txn.bind_ok_iff.mp h
    obtain ⟨head, c₁, h₁, h⟩ := Txn.bind_ok_iff.mp h
    have hhead := ensures_claimBucket (Txn.bind_ok_iff.mpr ⟨ks, c₀, h₀, h₁⟩)
    -- a bucket that was put back makes no claim
    obtain ⟨claims', hcl, h⟩ : ∃ claims', claimedJobs claims' = claimedJobs claims ++ head ∧
        claimBuckets worker now L n keys claims' c₁ = (.ok r, c') := by
      split at h
      · rename_i h0
        exact ⟨claims, by simp [h0], h⟩
      · exact ⟨_, by simp [claimedJobs, ClaimedDelivery.jobs], h⟩
    obtain ⟨jobs, hr, hgrant⟩ := ensures_claimBuckets keys claims' h hnd
    refine ⟨head ++ jobs, by rw [hr, hcl, List.append_assoc],
      (hhead.append hgrant ?_).mono fun j _ h => ?_⟩
    · rintro j j' hp - hag ⟨key', hkey', hp'⟩
      simp only [Database.isBucketJob, decide_eq_true_eq] at hp hp'
      have : some key' = some key := hp'.1.symm.trans (hag.trans hp.1)
      exact hkey (Option.some.inj this ▸ hkey')
    · rcases h with h | ⟨key', hkey', h⟩
      · exact ⟨key, List.mem_cons_self, h⟩
      · exact ⟨key', List.mem_cons_of_mem _ hkey', h⟩

/-- The jobs that may be claimed at `now`: a single job that is due, or a job of a ready
bucket. -/
def Database.isCandidate (db : Database) (now : DateTime) (j : JobRow) : Prop :=
  db.isCandidateSingle now j ∨
    ∃ key ∈ db.candidateBuckets now, Database.isBucketJob now key j

/-- A ready bucket has a claimable row on an available channel. -/
theorem Database.mem_candidateBuckets {db : Database} (h : key ∈ db.candidateBuckets now) :
    ∃ i ∈ db.deliveryJobs.rows, i.aggregateKey = some key ∧ db.channelAvailable i now := by
  simp only [candidateBuckets, List.mem_map, List.mem_insertionSort, readyBuckets,
    List.mem_filterMap, List.mem_dedup, List.mem_filter] at h
  obtain ⟨p, ⟨key', ⟨i, ⟨hi, hrow⟩, hkey⟩, hp⟩, rfl⟩ := h
  simp only [isBucketRow, decide_eq_true_eq] at hrow
  split at hp
  · split at hp
    · cases hp
      exact ⟨i, hi, hkey, hrow.2.2⟩
    · cases hp
  · cases hp

/-- Entries that carry the key they were made from. -/
theorem nodup_map_filterMap {f : κ → Option (β × κ)} (hf : ∀ key entry, f key = some entry → entry.2 = key)
    {keys : List κ} (h : keys.Nodup) : ((keys.filterMap f).map (·.2)).Nodup := by
  rw [List.map_filterMap]
  refine h.filterMap fun key key' k hk hk' => ?_
  obtain ⟨entry, hentry, rfl⟩ := Option.map_eq_some_iff.mp hk
  obtain ⟨entry', hentry', hkey⟩ := Option.map_eq_some_iff.mp hk'
  rw [← hf key entry hentry, ← hf key' entry' hentry', hkey]

theorem Database.nodup_candidateBuckets (db : Database) (now : DateTime) :
    (db.candidateBuckets now).Nodup := by
  have h : (db.candidateBuckets now).Perm ((db.readyBuckets now).map (·.2)) :=
    (List.perm_insertionSort _ _).map _
  rw [h.nodup_iff, Database.readyBuckets]
  refine nodup_map_filterMap (fun key entry hentry => ?_) (List.nodup_dedup _)
  dsimp only at hentry
  split at hentry
  · split at hentry
    · cases hentry
      rfl
    · cases hentry
  · cases hentry

/-- `claim_due`: every job handed out was a candidate, and is leased now; no job is handed out
twice. -/
theorem ensures_claimDue : Ensures (claimDue worker now lease n) fun db claims db' =>
    db.Grants worker now (now + lease) (db.isCandidate now) (claimedJobs claims) db' := by
  unfold claimDue
  split
  · exact Ensures.ret fun db => .nil db
  refine ensures_immediate fun c r c' h => ?_
  obtain ⟨ks, c₁, h₁, h⟩ := Txn.bind_ok_iff.mp h
  obtain ⟨keys, c₂, h₂, h⟩ := Txn.bind_ok_iff.mp h
  obtain ⟨claims, c₃, h₃, h₄⟩ := Txn.bind_ok_iff.mp h
  obtain ⟨rfl, hc₁⟩ := ensures_query h₁
  obtain ⟨rfl, hc₂⟩ := ensures_query h₂
  obtain ⟨jobs, hcl, hsingle⟩ := ensures_claimSingles now _ _ h₃ Table.nodup_sorted_keys
  obtain ⟨jobs', hr, hbucket⟩ := ensures_claimBuckets _ _ h₄ (Database.nodup_candidateBuckets _ _)
  rw [hc₂] at hsingle
  rw [hc₁] at hsingle hbucket
  have hids : claimedJobs r = jobs ++ jobs' := by
    rw [hr, hcl]
    simp [claimedJobs, List.flatMap_map, ClaimedDelivery.jobs]
  have hdue : ∀ j, c.db.deliveryJobs.find? j.id = some j → j.id ∈ c.db.candidateSingles now →
      c.db.isCandidateSingle now j := by
    intro j hj hmem
    obtain ⟨j', hj', hp⟩ := Table.mem_sorted_keys.mp hmem
    obtain rfl : j = j' := by simpa [hj] using hj'
    exact hp
  rw [hids]
  refine (hsingle.mono hdue).append hbucket ?_
  -- a single job has no aggregate key, so no bucket takes it a second time
  rintro j j' hp - hag ⟨key, -, hp'⟩
  simp only [Database.isBucketJob, Database.isCandidateSingle, decide_eq_true_eq] at hp hp'
  have : some key = none := hp'.1.symm.trans (hag.trans hp.2.2.2.1)
  cases this

/-! ## What the claims are made of -/

/-- The constituents of an aggregate are in its bucket, and were released by `now`. -/
def ClaimedDelivery.Released (now : DateTime) (claim : ClaimedDelivery) : Prop :=
  ∀ key jobs, claim = .aggregate key jobs →
    ∀ job ∈ jobs, job.aggregateKey = some key ∧ job.aggregateReleaseAt.any (· ≤ now)

section

variable {P : ClaimedDelivery → Prop}

theorem claims_claimSingles (hsingle : ∀ job, P (.single job)) : ∀ ks claims,
    Ensures (claimSingles worker L n ks claims) fun _ r _ =>
      (∀ claim ∈ claims, P claim) → ∀ claim ∈ r, P claim
  | [], _ => Ensures.ret fun _ => id
  | k :: ks, claims => by
    intro c r c' h hclaims
    unfold claimSingles at h
    split at h
    · obtain ⟨rfl, -⟩ := by simpa using h
      exact hclaims
    obtain ⟨u, c₁, -, h⟩ := Txn.bind_ok_iff.mp h
    split at h
    · exact claims_claimSingles hsingle ks claims h hclaims
    obtain ⟨loaded, c₂, -, h⟩ := Txn.bind_ok_iff.mp h
    cases loaded with
    | none => exact claims_claimSingles hsingle ks claims h hclaims
    | some job =>
      refine claims_claimSingles hsingle ks _ h fun claim hclaim => ?_
      rcases List.mem_append.mp hclaim with hclaim | hclaim
      · exact hclaims claim hclaim
      · obtain rfl := List.mem_singleton.mp hclaim
        exact hsingle job

theorem claims_claimBuckets (hbucket : ∀ key jobs, jobs ≠ [] →
    ClaimedDelivery.Released now (.aggregate key jobs) → P (.aggregate key jobs)) : ∀ keys claims,
    Ensures (claimBuckets worker now L n keys claims) fun _ r _ =>
      (∀ claim ∈ claims, P claim) → ∀ claim ∈ r, P claim
  | [], _ => Ensures.ret fun _ => id
  | key :: keys, claims => by
    intro c r c' h hclaims
    unfold claimBuckets at h
    split at h
    · obtain ⟨rfl, -⟩ := by simpa using h
      exact hclaims
    obtain ⟨ks, c₀, h₀, h⟩ := Txn.bind_ok_iff.mp h
    obtain ⟨head, c₁, h₁, h⟩ := Txn.bind_ok_iff.mp h
    split at h
    · exact claims_claimBuckets hbucket keys claims h hclaims
    rename_i hne
    refine claims_claimBuckets hbucket keys _ h fun claim hclaim => ?_
    rcases List.mem_append.mp hclaim with hclaim | hclaim
    · exact hclaims claim hclaim
    · obtain rfl := List.mem_singleton.mp hclaim
      refine hbucket key head hne ?_
      rintro key' jobs ⟨⟩ job hjob
      have hhead := ensures_claimBucket (Txn.bind_ok_iff.mpr ⟨ks, c₀, h₀, h₁⟩)
      obtain ⟨j, -, hp, rfl, -⟩ := hhead.granted job hjob
      simp only [Database.isBucketJob, decide_eq_true_eq] at hp
      exact ⟨hp.1, hp.2.2.1⟩

/-- **The rule for the claims of a batch**: what holds of each single job, and of each bucket that
is released and not empty, holds of each claim. -/
theorem claims_claimDue (hsingle : ∀ job, P (.single job))
    (hbucket : ∀ key jobs, jobs ≠ [] → ClaimedDelivery.Released now (.aggregate key jobs) →
      P (.aggregate key jobs)) :
    Ensures (claimDue worker now lease n) fun _ claims _ => ∀ claim ∈ claims, P claim := by
  unfold claimDue
  split
  · exact Ensures.ret fun _ => by simp
  refine ensures_immediate fun c r c' h => ?_
  obtain ⟨ks, c₁, -, h⟩ := Txn.bind_ok_iff.mp h
  obtain ⟨keys, c₂, -, h⟩ := Txn.bind_ok_iff.mp h
  obtain ⟨claims, c₃, h₃, h₄⟩ := Txn.bind_ok_iff.mp h
  exact claims_claimBuckets hbucket _ _ h₄ (claims_claimSingles hsingle _ _ h₃ (by simp))

end

theorem released_claimDue : Ensures (claimDue worker now lease n) fun _ claims _ =>
    ∀ claim ∈ claims, claim.Released now :=
  claims_claimDue (fun job key jobs hsingle => by cases hsingle) fun _ _ _ hreleased => hreleased

theorem claimDue_jobs_ne_nil : Ensures (claimDue worker now lease n) fun _ claims _ =>
    ∀ claim ∈ claims, claim.jobs ≠ [] :=
  claims_claimDue (fun job => List.cons_ne_nil job []) fun _ _ hne _ => hne

/-! ## Channels -/

/-- The jobs of a bucket are on one channel. -/
def Database.OneChannel (db : Database) : Prop :=
  ∀ i ∈ db.deliveryJobs.rows, ∀ j ∈ db.deliveryJobs.rows, i.aggregateKey.isSome →
    j.aggregateKey = i.aggregateKey → j.channelId = i.channelId

/-- Then the channel of a job that may be claimed is available. -/
theorem Database.OneChannel.available {db : Database} (h : db.OneChannel)
    (hj : j ∈ db.deliveryJobs.rows) (hc : db.isCandidate now j) : db.channelAvailable j now := by
  rcases hc with hc | ⟨key, hkey, hc⟩
  · simp only [Database.isCandidateSingle, decide_eq_true_eq] at hc
    exact hc.2.2.2.2
  · obtain ⟨i, hi, hikey, havail⟩ := Database.mem_candidateBuckets hkey
    simp only [Database.isBucketJob, decide_eq_true_eq] at hc
    have hchannel : i.channelId = j.channelId :=
      h j hj i hi (by simp [hc.1]) (hikey.trans hc.1.symm)
    rwa [Database.channelAvailable, hchannel] at havail

end CcReminder
