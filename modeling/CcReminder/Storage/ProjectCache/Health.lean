import CcReminder.Storage.ProjectCache
import CcReminder.Storage.ReadBack

/-!
# The health of the project cache

An edit of a project commits, lists the database again, replaces the cache file and records how that
went. Between any two of these operations another call may take its own. Where no edit commits while a
call is between its first query and its verdict, and the verdict on a failure is stored, a cache that
is reported as healthy is the listing of the database.
-/

set_option autoImplicit true

namespace CcReminder

open Lib

/-! ## The calls -/

inductive CacheCall where
  | edit (write : ProjectWrite)
  | regenerate

namespace CacheCall

open CacheHost

/-- `save_project`, `delete_project`, `save_project_path`, `delete_project_path` and
`regenerate_project_cache`. -/
def run (sv : CacheServices) : CacheCall → Op Unit
  | .edit write => do
    CacheHost.edit write.run
    writeProjectCache sv
  | .regenerate => writeProjectCache sv

/-- What comes before the cache is written. -/
def start : CacheCall → Op Unit
  | .edit write => CacheHost.edit write.run
  | .regenerate => pure ()

end CacheCall

/-- What a call has to do next. -/
inductive CachePhase where
  | waiting
  | opening
  | reading (k : ProjectTables → CacheQuery (List ProjectMatchCacheProject))
  | publishing (bytes : List UInt8)
  | securing
  | recording (result : Except AppError Unit)
  | done (result : Except AppError Unit)

namespace CachePhase

open CacheHost

/-- After a query: the next one, or the file. -/
def afterQuery (sv : CacheServices) : CacheQuery (List ProjectMatchCacheProject) → CachePhase
  | .ask k => .reading k
  | .done (.error e) => .recording (.error e)
  | .done (.ok listed) =>
    match serialized sv listed with
    | .ok bytes => .publishing bytes
    | .error e => .recording (.error e)

/-- One operation of a call. -/
def step (sv : CacheServices) (call : CacheCall) (h : CacheHost) :
    CachePhase → Option (CachePhase × CacheHost)
  | .waiting => some <|
    match call.start h with
    | (.ok (), h') => (.opening, h')
    | (.error e, h') => (.done (.error e), h')
  | .opening => some <|
    match check openError h with
    | (.ok (), h') => (afterQuery sv listCacheProjects, h')
    | (.error e, h') => (.recording (.error e), h')
  | .reading k => some <|
    match selectTables h with
    | (.ok t, h') => (afterQuery sv (k t), h')
    | (.error e, h') => (.recording (.error e), h')
  | .publishing bytes => some <|
    match publish sv bytes h with
    | (.ok (), h') => (.securing, h')
    | (.error e, h') => (.recording (.error e), h')
  | .securing => some (.recording (secure h).1, (secure h).2)
  | .recording result => some <|
    match setProjectCacheHealth (healthOf result) h with
    | (.ok (), h') => (.done result, h')
    | (.error e, h') => (.done (.error e), h')
  | .done _ => none

/-- A call that nobody interrupts. -/
abbrev Alone (sv : CacheServices) (call : CacheCall) :=
  Relation.ReflTransGen fun x y : CachePhase × CacheHost => x.1.step sv call x.2 = some y

theorem alone_query {sv : CacheServices} {call : CacheCall}
    (q : CacheQuery (List ProjectMatchCacheProject)) (h : CacheHost) :
    Alone sv call (afterQuery sv q, h)
      (afterQuery sv (.done (q.answer selectTables h).1), (q.answer selectTables h).2) := by
  induction q generalizing h with
  | done r => cases r <;> exact .refl
  | ask k ih =>
    rcases hrun : selectTables h with ⟨e | t, h'⟩
    · refine .single ?_
      simp only [afterQuery, step, hrun, Asks.answer, Txn.bind_run]
    · refine .head (b := (afterQuery sv (k t), h')) ?_ ?_
      · simp only [afterQuery, step, hrun]
      · simp only [Asks.answer, Txn.bind_run, hrun]
        exact ih t h'

theorem alone_file (sv : CacheServices) (call : CacheCall) (h : CacheHost) :
    Alone sv call (.opening, h)
      (.recording (writeProjectCacheFile sv h).1, (writeProjectCacheFile sv h).2) := by
  rw [writeProjectCacheFile, Txn.bind_run]
  rcases hopen : check openError h with ⟨e | u, h₁⟩
  · refine .single ?_
    simp only [step, hopen]
  · refine .head (b := (afterQuery sv listCacheProjects, h₁)) (by simp only [step, hopen]) ?_
    refine (alone_query listCacheProjects h₁).trans ?_
    dsimp only
    rw [Txn.bind_run]
    rcases hquery : listCacheProjects.answer selectTables h₁ with ⟨e | listed, h₂⟩
    · exact .refl
    · cases hbytes : serialized sv listed with
      | error e =>
        simp only [afterQuery, hbytes]
        exact .refl
      | ok bytes =>
        simp only [afterQuery, hbytes, Txn.bind_run]
        rcases hpublish : publish sv bytes h₂ with ⟨e | u, h₃⟩
        · exact .single (by simp only [step, hpublish])
        · exact .head (b := (.securing, h₃)) (by simp only [step, hpublish]) (.single rfl)

/-- The operations of a call, one after the other, are the call. -/
theorem alone_run (sv : CacheServices) (call : CacheCall) (h : CacheHost) :
    Alone sv call (.waiting, h) (.done (call.run sv h).1, (call.run sv h).2) := by
  have hrun : call.run sv = (do call.start; writeProjectCache sv) := by
    cases call <;> rfl
  rw [hrun, Txn.bind_run]
  rcases hstart : call.start h with ⟨e | u, h₁⟩
  · exact .single (by simp only [step, hstart])
  · refine .head (b := (.opening, h₁)) (by simp only [step, hstart]) ?_
    refine (alone_file sv call h₁).trans (.single ?_)
    simp only [step, writeProjectCache, Txn.bind_run, Txn.result_run]
    generalize (writeProjectCacheFile sv h₁).1 = result, (writeProjectCacheFile sv h₁).2 = h₂
    rcases setProjectCacheHealth (healthOf result) h₂ with ⟨e | u, h₃⟩
    · rfl
    · cases result <;> rfl

end CachePhase

/-! ## Interleaved -/

namespace CacheHost

/-- The cache file holds the listing of the database. -/
def Faithful (sv : CacheServices) (h : CacheHost) : Prop :=
  ∃ listed file, listCacheProjects.run h.store.tables = .ok listed ∧ h.file = some file ∧
    file.bytes = sv.encode { version := 1, projects := listed }

theorem Faithful.of_eq {sv : CacheServices} {h h' : CacheHost} (hfaithful : Faithful sv h)
    (htables : h'.store.tables = h.store.tables)
    (hfile : h'.file.map (·.bytes) = h.file.map (·.bytes)) : Faithful sv h' := by
  obtain ⟨listed, file, hlisted, hold, hbytes⟩ := hfaithful
  rw [hold, Option.map_some, Option.map_eq_some_iff] at hfile
  obtain ⟨file', hfile', hsame⟩ := hfile
  exact ⟨listed, file', by rw [htables]; exact hlisted, hfile', hsame.trans hbytes⟩

end CacheHost

/-- The calls in progress on one host. -/
structure CacheCalls where
  host : CacheHost
  phase : Nat → CachePhase

namespace CacheCalls

/-- The start: no call is in progress, and a healthy cache is the listing of the database. -/
def Start (sv : CacheServices) (s : CacheCalls) : Prop :=
  (∀ i, s.phase i = .waiting) ∧
    (s.host.projectCacheHealth = .healthy → s.host.Faithful sv)

/-- A call takes its next operation, or something else happens that leaves the projects, the file and
its health alone. -/
inductive Step (sv : CacheServices) (calls : Nat → CacheCall) :
    CacheCalls → Option Nat → CacheCalls → Prop
  | call {s : CacheCalls} {p : CachePhase} (hstep : (s.phase i).step sv (calls i) s.host = some (p, h')) :
      Step sv calls s (some i) { host := h', phase := Function.update s.phase i p }
  | other {s : CacheCalls} (hview : h'.view = s.host.view) :
      Step sv calls s none { s with host := h' }

/-- A call that has begun to read and has not yet given its verdict, unless that is a failure. -/
def Exposed : CachePhase → Prop
  | .reading _ | .publishing _ | .securing | .recording (.ok _) => True
  | _ => False

/-- No edit commits while another call is between its first query and its verdict, and the verdict on a
failure is stored when the file is not the listing and counts as healthy. -/
def Meets (sv : CacheServices) (calls : Nat → CacheCall) (s : CacheCalls) : Option Nat → Prop
  | none => True
  | some i =>
    (∀ write, s.phase i = .waiting → calls i = .edit write → ∀ j, ¬ Exposed (s.phase j)) ∧
    ∀ e, s.phase i = .recording (.error e) → s.host.projectCacheHealth = .healthy →
      ¬ s.host.Faithful sv → (s.host.store.conn.world 0).fault = false ∧
        (s.host.store.conn.world 1).fault = false

/-- A call that will replace the file or give its verdict. -/
def Due : CachePhase → Prop
  | .opening | .reading _ | .publishing _ | .recording (.error _) => True
  | _ => False

/-- What a call that has begun to read knows. -/
def Knows (sv : CacheServices) (h : CacheHost) : CachePhase → Prop
  | .reading k => (Asks.ask k).run h.store.tables = listCacheProjects.run h.store.tables
  | .publishing bytes => ∃ listed, listCacheProjects.run h.store.tables = .ok listed ∧
      bytes = sv.encode { version := 1, projects := listed }
  | .securing | .recording (.ok _) => h.Faithful sv
  | _ => True

structure Kept (sv : CacheServices) (s : CacheCalls) : Prop where
  knows : ∀ i, Knows sv s.host (s.phase i)
  verdict : s.host.projectCacheHealth = .healthy → s.host.Faithful sv ∨ ∃ i, Due (s.phase i)

section Runs

variable {sv : CacheServices} {calls : Nat → CacheCall} {s : CacheCalls}

theorem Knows.of_eq {h h' : CacheHost} {p : CachePhase} (hknows : Knows sv h p)
    (htables : h'.store.tables = h.store.tables) (hfaithful : h.Faithful sv → h'.Faithful sv) :
    Knows sv h' p := by
  cases p with
  | reading k =>
    simp only [Knows, htables]
    exact hknows
  | publishing bytes =>
    simp only [Knows, htables]
    exact hknows
  | securing => exact hfaithful hknows
  | recording result =>
    cases result with
    | ok u => exact hfaithful hknows
    | error e => trivial
  | waiting => trivial
  | opening => trivial
  | done result => trivial

theorem knows_of_not_exposed {h : CacheHost} {p : CachePhase} (hp : ¬ Exposed p) : Knows sv h p := by
  cases p with
  | recording result =>
    cases result with
    | ok u => exact absurd trivial hp
    | error e => trivial
  | _ => first | trivial | exact absurd trivial hp

variable (sv) in
/-- The query of a call goes on as it does on the tables of now. -/
theorem knows_afterQuery {h : CacheHost} {q : CacheQuery (List ProjectMatchCacheProject)}
    (hq : q.run h.store.tables = listCacheProjects.run h.store.tables) :
    Knows sv h (CachePhase.afterQuery sv q) ∧ Due (CachePhase.afterQuery sv q) := by
  cases q with
  | ask k => exact ⟨hq, trivial⟩
  | done r =>
    cases r with
    | error e => exact ⟨trivial, trivial⟩
    | ok listed =>
      cases hbytes : CacheHost.serialized sv listed with
      | error e =>
        simp only [CachePhase.afterQuery, hbytes]
        exact ⟨trivial, trivial⟩
      | ok bytes =>
        simp only [CachePhase.afterQuery, hbytes]
        simp only [CacheHost.serialized] at hbytes
        split at hbytes <;> cases hbytes
        exact ⟨⟨listed, hq.symm, rfl⟩, trivial⟩

/-- A step of one call: the others know what they knew, the call knows what it has to, and one of
them or the file answers for a healthy verdict. -/
theorem kept_update {i : Nat} {p : CachePhase} {h' : CacheHost}
    (hothers : ∀ j, j ≠ i → Knows sv h' (s.phase j)) (hp : Knows sv h' p)
    (hverdict : h'.projectCacheHealth = .healthy →
      h'.Faithful sv ∨ Due p ∨ ∃ j, j ≠ i ∧ Due (s.phase j)) :
    Kept sv { host := h', phase := Function.update s.phase i p } := by
  refine ⟨fun j => ?_, fun hhealthy => ?_⟩
  · by_cases hj : j = i
    · subst hj
      simpa only [Function.update_self] using hp
    · simpa only [Function.update_of_ne hj] using hothers j hj
  · rcases hverdict hhealthy with hfaithful | hdue | ⟨j, hj, hdue⟩
    · exact .inl hfaithful
    · refine .inr ⟨i, ?_⟩
      simpa only [Function.update_self] using hdue
    · refine .inr ⟨j, ?_⟩
      simpa only [Function.update_of_ne hj] using hdue

/-- Somebody is still due when a call that is not moves on. -/
theorem Kept.others (h : Kept sv s) (hi : ¬ Due (s.phase i))
    (hhealthy : s.host.projectCacheHealth = .healthy) :
    s.host.Faithful sv ∨ ∃ j, j ≠ i ∧ Due (s.phase j) := by
  rcases h.verdict hhealthy with hfaithful | ⟨j, hj⟩
  · exact .inl hfaithful
  · refine .inr ⟨j, ?_, hj⟩
    rintro rfl
    exact hi hj

/-- A step that leaves the tables, the bytes of the file and the health alone. -/
theorem Kept.quiet {p : CachePhase} {h' : CacheHost} (h : Kept sv s)
    (htables : h'.store.tables = s.host.store.tables)
    (hfile : h'.file.map (·.bytes) = s.host.file.map (·.bytes)) (hhealth : h'.health = s.host.health)
    (hp : Knows sv h' p) (hdue : Due (s.phase i) → Due p ∨ h'.Faithful sv) :
    Kept sv { host := h', phase := Function.update s.phase i p } := by
  have hfaithful : s.host.Faithful sv → h'.Faithful sv := fun hf => hf.of_eq htables hfile
  refine kept_update (fun j _ => (h.knows j).of_eq htables hfaithful) hp fun hhealthy => ?_
  have hhealthy : s.host.projectCacheHealth = .healthy := by
    rwa [CacheHost.projectCacheHealth, hhealth] at hhealthy
  rcases h.verdict hhealthy with hf | ⟨j, hj⟩
  · exact .inl (hfaithful hf)
  · by_cases hji : j = i
    · subst hji
      rcases hdue hj with hp | hf
      · exact .inr (.inl hp)
      · exact .inl hf
    · exact .inr (.inr ⟨j, hji, hj⟩)

/-- An operation that changes nothing, before which the call was not due, or after which it still
is. -/
theorem Kept.same {p : CachePhase} {h' : CacheHost} (h : Kept sv s) (hview : h'.view = s.host.view)
    (hp : Knows sv h' p) (hdue : Due (s.phase i) → Due p) :
    Kept sv { host := h', phase := Function.update s.phase i p } := by
  simp only [CacheHost.view, Prod.mk.injEq] at hview
  exact h.quiet hview.1 (by rw [hview.2.1]) hview.2.2 hp fun hi => .inl (hdue hi)

theorem Kept.waiting {p : CachePhase} (h : Kept sv s) (hphase : s.phase i = .waiting)
    (hexposed : ∀ write, calls i = .edit write → ∀ j, ¬ Exposed (s.phase j))
    (hstep : CachePhase.waiting.step sv (calls i) s.host = some (p, h')) :
    Kept sv { host := h', phase := Function.update s.phase i p } := by
  have hdue : ¬ Due (s.phase i) := by simp [hphase, Due]
  simp only [CachePhase.step, Option.some.injEq] at hstep
  cases hcall : calls i with
  | regenerate =>
    rw [hcall] at hstep
    cases hstep
    exact h.same rfl trivial fun hi => absurd hi hdue
  | edit write =>
    rw [hcall] at hstep
    rcases hrun : CacheHost.edit write.run s.host with ⟨e | u, h₁⟩ <;>
      simp only [CacheCall.start, hrun, Prod.mk.injEq] at hstep <;> obtain ⟨rfl, rfl⟩ := hstep
    · rcases CacheHost.edit_run hrun with ⟨-, hview⟩ | ⟨⟨⟩, -⟩
      exact h.same hview trivial fun hi => absurd hi hdue
    · refine kept_update (fun j _ => knows_of_not_exposed (hexposed write hcall j)) trivial
        fun _ => .inr (.inl trivial)

theorem Kept.opening {p : CachePhase} (h : Kept sv s)
    (hstep : CachePhase.opening.step sv (calls i) s.host = some (p, h')) :
    Kept sv { host := h', phase := Function.update s.phase i p } := by
  simp only [CachePhase.step, Option.some.injEq] at hstep
  rcases hrun : CacheHost.check openError s.host with ⟨e | u, h₁⟩ <;>
    simp only [hrun, Prod.mk.injEq] at hstep <;> obtain ⟨rfl, rfl⟩ := hstep
  · exact h.same (CacheHost.check_view hrun) trivial fun _ => trivial
  · obtain ⟨hknows, hdue⟩ := knows_afterQuery sv (h := h₁) (q := listCacheProjects) rfl
    exact h.same (CacheHost.check_view hrun) hknows fun _ => hdue

theorem Kept.reading {p : CachePhase} {k : ProjectTables → CacheQuery (List ProjectMatchCacheProject)}
    (h : Kept sv s) (hphase : s.phase i = .reading k)
    (hstep : (CachePhase.reading k).step sv (calls i) s.host = some (p, h')) :
    Kept sv { host := h', phase := Function.update s.phase i p } := by
  have hk : (Asks.ask k).run s.host.store.tables = listCacheProjects.run s.host.store.tables := by
    have hknows := h.knows i
    rwa [hphase] at hknows
  simp only [CachePhase.step, Option.some.injEq] at hstep
  rcases hrun : CacheHost.selectTables s.host with ⟨e | t, h₁⟩ <;>
    simp only [hrun, Prod.mk.injEq] at hstep <;> obtain ⟨rfl, rfl⟩ := hstep <;>
    obtain ⟨hview, hanswer⟩ := CacheHost.selectTables_run hrun
  · exact h.same hview trivial fun _ => trivial
  · obtain rfl := hanswer _ rfl
    have htables : h₁.store.tables = s.host.store.tables := congrArg Prod.fst hview
    obtain ⟨hknows, hdue⟩ := knows_afterQuery sv (h := h₁)
      (q := k s.host.store.tables) (by rw [htables]; exact hk)
    exact h.same hview hknows fun _ => hdue

theorem Kept.publishing {p : CachePhase} (h : Kept sv s) (hphase : s.phase i = .publishing bytes)
    (hstep : (CachePhase.publishing bytes).step sv (calls i) s.host = some (p, h')) :
    Kept sv { host := h', phase := Function.update s.phase i p } := by
  obtain ⟨listed, hlisted, rfl⟩ : ∃ listed, listCacheProjects.run s.host.store.tables = .ok listed ∧
      bytes = sv.encode { version := 1, projects := listed } := by
    have hknows := h.knows i
    rwa [hphase] at hknows
  simp only [CachePhase.step, Option.some.injEq] at hstep
  rcases hrun : CacheHost.publish sv (sv.encode { version := 1, projects := listed }) s.host with
    ⟨e | u, h₁⟩ <;> simp only [hrun, Prod.mk.injEq] at hstep <;> obtain ⟨rfl, rfl⟩ := hstep
  · rcases CacheHost.publish_run hrun with ⟨-, -, hview⟩ | ⟨⟨⟩, -⟩
    exact h.same hview trivial fun _ => trivial
  · rcases CacheHost.publish_run hrun with ⟨_, ⟨⟩, -⟩ | ⟨-, hview⟩
    simp only [CacheHost.view, Prod.mk.injEq] at hview
    obtain ⟨htables, hfile, -⟩ := hview
    have hfaithful : h₁.Faithful sv := ⟨listed, _, by rw [htables]; exact hlisted, hfile, rfl⟩
    exact kept_update (fun j _ => (h.knows j).of_eq htables fun _ => hfaithful) hfaithful
      fun _ => .inl hfaithful

theorem Kept.securing {p : CachePhase} (h : Kept sv s) (hphase : s.phase i = .securing)
    (hstep : CachePhase.securing.step sv (calls i) s.host = some (p, h')) :
    Kept sv { host := h', phase := Function.update s.phase i p } := by
  have hfaithful : s.host.Faithful sv := by
    have hknows := h.knows i
    rwa [hphase] at hknows
  have hdue : ¬ Due (s.phase i) := by simp [hphase, Due]
  simp only [CachePhase.step, Option.some.injEq] at hstep
  rcases hrun : CacheHost.secure s.host with ⟨r, h₁⟩
  simp only [hrun, Prod.mk.injEq] at hstep
  obtain ⟨rfl, rfl⟩ := hstep
  rcases CacheHost.secure_run hrun with ⟨e, rfl, hview⟩ | ⟨rfl, hview⟩
  · exact h.same hview trivial fun _ => trivial
  · simp only [CacheHost.view, Prod.mk.injEq] at hview
    obtain ⟨htables, hfile, hhealth⟩ := hview
    have hbytes : h₁.file.map (·.bytes) = s.host.file.map (·.bytes) := by
      rw [hfile, Option.map_map]
      rfl
    exact h.quiet htables hbytes hhealth (hfaithful.of_eq htables hbytes) fun hi => absurd hi hdue

theorem Kept.recording {p : CachePhase} (h : Kept sv s) (hphase : s.phase i = .recording result)
    (hfault : ∀ e, result = .error e → s.host.projectCacheHealth = .healthy → ¬ s.host.Faithful sv →
      (s.host.store.conn.world 0).fault = false ∧ (s.host.store.conn.world 1).fault = false)
    (hstep : (CachePhase.recording result).step sv (calls i) s.host = some (p, h')) :
    Kept sv { host := h', phase := Function.update s.phase i p } := by
  have hknows := h.knows i
  rw [hphase] at hknows
  simp only [CachePhase.step, Option.some.injEq] at hstep
  rcases hrun : CacheHost.setProjectCacheHealth (CacheHost.healthOf result) s.host with ⟨r, h₁⟩
  have hp : h' = h₁ ∧ Knows sv h₁ p := by
    rw [hrun] at hstep
    cases r <;> cases hstep <;> exact ⟨rfl, trivial⟩
  obtain ⟨rfl, hp⟩ := hp
  rcases CacheHost.setProjectCacheHealth_run hrun with ⟨hfaults, -, hview⟩ | ⟨-, hview⟩ <;>
    simp only [CacheHost.view, Prod.mk.injEq] at hview <;> obtain ⟨htables, hfile, hhealth⟩ := hview
  · -- The verdict is lost: it was no failure, or the file is the listing all the same.
    have hbytes : h'.file.map (·.bytes) = s.host.file.map (·.bytes) := by rw [hfile]
    have hfaithful : s.host.Faithful sv → h'.Faithful sv := fun hf => hf.of_eq htables hbytes
    refine kept_update (fun j _ => (h.knows j).of_eq htables hfaithful) hp fun hhealthy => .inl ?_
    refine hfaithful ?_
    cases result with
    | ok u => exact hknows
    | error e =>
      by_contra hnot
      have hhealthy : s.host.projectCacheHealth = .healthy := by
        rwa [CacheHost.projectCacheHealth, hhealth] at hhealthy
      obtain ⟨hfirst, hsecond⟩ := hfault e rfl hhealthy hnot
      rw [hfirst, hsecond] at hfaults
      simp at hfaults
  · have hbytes : h'.file.map (·.bytes) = s.host.file.map (·.bytes) := by rw [hfile]
    have hfaithful : s.host.Faithful sv → h'.Faithful sv := fun hf => hf.of_eq htables hbytes
    refine kept_update (fun j _ => (h.knows j).of_eq htables hfaithful) hp fun hhealthy => .inl ?_
    cases result with
    | ok u => exact hfaithful hknows
    | error e =>
      rw [CacheHost.projectCacheHealth, hhealth] at hhealthy
      cases hhealthy

theorem Kept.step {i : Option Nat} (h : Kept sv s) (hstep : Step sv calls s i s')
    (hmeets : Meets sv calls s i) : Kept sv s' := by
  cases hstep with
  | @other h' _ hview =>
    simp only [CacheHost.view, Prod.mk.injEq] at hview
    obtain ⟨htables, hfile, hhealth⟩ := hview
    have hfaithful : s.host.Faithful sv → h'.Faithful sv := fun hf =>
      hf.of_eq htables (by rw [hfile])
    refine ⟨fun i => (h.knows i).of_eq htables hfaithful, fun hhealthy => ?_⟩
    rw [CacheHost.projectCacheHealth, hhealth] at hhealthy
    exact (h.verdict hhealthy).imp_left hfaithful
  | @call i h' _ p hstep =>
    obtain ⟨hexposed, hfault⟩ := hmeets
    cases hphase : s.phase i with
    | waiting => exact h.waiting hphase (fun write => hexposed write hphase) (hphase ▸ hstep)
    | opening => exact h.opening (hphase ▸ hstep)
    | reading k => exact h.reading hphase (hphase ▸ hstep)
    | publishing bytes => exact h.publishing hphase (hphase ▸ hstep)
    | securing => exact h.securing hphase (hphase ▸ hstep)
    | recording result =>
      exact h.recording hphase (fun e he => hfault e (he ▸ hphase)) (hphase ▸ hstep)
    | done result =>
      rw [hphase] at hstep
      cases hstep

/-- A call that has not begun or has ended. -/
def Idle : CachePhase → Prop
  | .waiting | .done _ => True
  | _ => False

/-- When no call is in progress, a cache that is reported as healthy is the listing of the database. -/
theorem cacheHealth_truthful (h : Reach (Start sv) (Step sv calls) (Meets sv calls) s)
    (hidle : ∀ i, Idle (s.phase i)) (hhealthy : s.host.projectCacheHealth = .healthy) :
    s.host.Faithful sv := by
  have hkept : Kept sv s := by
    refine Reach.invariant (P := Kept sv) (fun s hstart => ⟨fun i => ?_, fun hs => ?_⟩) ?_ h
    · rw [hstart.1 i]
      trivial
    · exact .inl (hstart.2 hs)
    · exact fun s i s' hs hstep hmeets => hs.step hstep hmeets
  rcases hkept.verdict hhealthy with hfaithful | ⟨i, hdue⟩
  · exact hfaithful
  · have hi := hidle i
    cases hphase : s.phase i <;> simp_all [Idle, Due]

end Runs

/-! ## Two projects saved at once -/

namespace Sample

/-- The text of a cache file whose names need no escapes. -/
def json (f : ProjectMatchCacheFile) : String :=
  let quoted (text : String) := "\"" ++ text ++ "\""
  let project (p : ProjectMatchCacheProject) :=
    "\x7b\"id\":" ++ quoted p.id.toText ++ ",\"display_name\":" ++ quoted p.displayName ++
      ",\"canonical_paths\":[" ++ ",".intercalate (p.canonicalPaths.map quoted) ++ "]\x7d"
  "\x7b\"version\":1,\"projects\":[" ++ ",".intercalate (f.projects.map project) ++ "]\x7d"

def services : CacheServices where
  encode f := utf8Bytes (json f)
  decode _ := none
  createsPrivate := true

def project (id : ProjectId) (name root : String) : ProjectRecord where
  id
  name
  canonicalRoot := .text root
  worktreeMode := .separate
  createdAt := 0
  updatedAt := 0

/-- The first call saves one project, every other call the other. -/
def calls (i : Nat) : CacheCall :=
  .edit (.saveProject (if i = 0 then project 1 "app" "/repos/app" else project 2 "web" "/repos/web"))

/-- An empty database, and its listing in the cache file. -/
def start : CacheCalls where
  host := {
    store := { conn := { db := {}, world := fun _ => {} } }
    file := some { bytes := services.encode { version := 1, projects := [] }, isPrivate := true }
    health := some .healthy }
  phase _ := .waiting

theorem start_start : Start services start :=
  ⟨fun _ => rfl, fun _ => ⟨[], _, rfl, rfl, rfl⟩⟩

/-- The calls take their operations in the order of a list. -/
def exec : List Nat → CacheCalls → Option CacheCalls
  | [], s => some s
  | i :: is, s =>
    match (s.phase i).step services (calls i) s.host with
    | none => none
    | some (p, h') => exec is { host := h', phase := Function.update s.phase i p }

theorem exec_reach {is : List Nat} {s s' : CacheCalls} (h : exec is s = some s')
    (hreach : Reach (Start services) (Step services calls) (fun _ _ => True) s) :
    Reach (Start services) (Step services calls) (fun _ _ => True) s' ∧
      ∀ j, j ∉ is → s'.phase j = s.phase j := by
  induction is generalizing s with
  | nil =>
    cases h
    exact ⟨hreach, fun _ _ => rfl⟩
  | cons i is ih =>
    unfold exec at h
    split at h
    · cases h
    · rename_i p h' hstep
      obtain ⟨hreach', hphase⟩ := ih h (hreach.next (.call hstep) trivial)
      refine ⟨hreach', fun j hj => ?_⟩
      rw [List.mem_cons, not_or] at hj
      rw [hphase j hj.2]
      exact Function.update_of_ne hj.1 p s.phase

def isFailure : CachePhase → Bool
  | .recording (.error _) => true
  | _ => false

/-- The first call takes some operations, none of them after a failure. -/
def execAlone : Nat → CacheCalls → Option CacheCalls
  | 0, s => some s
  | n + 1, s =>
    if isFailure (s.phase 0) then none
    else match (s.phase 0).step services (calls 0) s.host with
    | none => none
    | some (p, h') => execAlone n { host := h', phase := Function.update s.phase 0 p }

/-- A call that no other has joined meets the condition. -/
theorem execAlone_reach {n : Nat} {s s' : CacheCalls} (h : execAlone n s = some s')
    (hreach : Reach (Start services) (Step services calls) (Meets services calls) s)
    (hwaiting : ∀ j, j ≠ 0 → s.phase j = .waiting) :
    Reach (Start services) (Step services calls) (Meets services calls) s' ∧
      ∀ j, j ≠ 0 → s'.phase j = .waiting := by
  induction n generalizing s with
  | zero =>
    cases h
    exact ⟨hreach, hwaiting⟩
  | succ n ih =>
    unfold execAlone at h
    split at h
    · cases h
    rename_i hfailure
    split at h
    · cases h
    rename_i p h' hstep
    have hmeets : Meets services calls s (some 0) := by
      refine ⟨fun write hphase _ j => ?_, fun e hphase => ?_⟩
      · by_cases hj : j = 0
        · simp [hj, hphase, Exposed]
        · simp [hwaiting j hj, Exposed]
      · rw [hphase] at hfailure
        exact absurd rfl hfailure
    refine ih h (hreach.next (.call hstep) hmeets) fun j hj => ?_
    exact (Function.update_of_ne hj p s.phase).trans (hwaiting j hj)

/-- Whether a call has returned `Ok`. -/
def returned : CachePhase → Bool
  | .done (.ok _) => true
  | _ => false

theorem idle_of_returned {p : CachePhase} (h : returned p) : Idle p := by
  cases p with
  | done result => trivial
  | _ => cases h

/-- Whether the cache file is the listing. -/
def faithful (h : CacheHost) : Bool :=
  match listCacheProjects.run h.store.tables, h.file with
  | .ok listed, some file => file.bytes = services.encode { version := 1, projects := listed }
  | _, _ => false

theorem faithful_of {h : CacheHost} (hfaithful : h.Faithful services) : faithful h := by
  obtain ⟨listed, file, hlisted, hfile, hbytes⟩ := hfaithful
  simp [faithful, hlisted, hfile, hbytes]

/-- The first call lists the database, the second call saves its project and does all the rest, and
then the first call goes on. -/
def overtaken : List Nat := List.replicate 6 0 ++ List.replicate 12 1 ++ List.replicate 3 0

/-- All that the runs of the sample are to show of the two calls, the health and the file. -/
def verdict (s : CacheCalls) : Bool × Bool × Option ProjectCacheHealth × Bool :=
  (returned (s.phase 0), returned (s.phase 1), s.host.health, faithful s.host)

end Sample

/-- One project is saved. -/
theorem cacheHealth_truthful_alone : ∃ s : CacheCalls, Sample.returned (s.phase 0) ∧
    s.host.projectCacheHealth = .healthy ∧ s.host.Faithful Sample.services := by
  have hsome : ((Sample.execAlone 9 Sample.start).map fun s =>
      (Sample.returned (s.phase 0), s.host.health)) = some (true, some .healthy) := by decide +kernel
  obtain ⟨s, hexec, hs⟩ := Option.map_eq_some_iff.mp hsome
  obtain ⟨hreturned, hhealth⟩ := Prod.mk.inj hs
  obtain ⟨hreach, hwaiting⟩ := Sample.execAlone_reach hexec (.start Sample.start_start) fun _ _ => rfl
  have hidle : ∀ i, Idle (s.phase i) := fun i => by
    by_cases hi : i = 0
    · rw [hi]
      exact Sample.idle_of_returned hreturned
    · rw [hwaiting i hi]
      trivial
  have hhealthy : s.host.projectCacheHealth = .healthy := by
    rw [CacheHost.projectCacheHealth, hhealth]
    rfl
  exact ⟨s, hreturned, hhealthy, cacheHealth_truthful hreach hidle hhealthy⟩

/-- Two projects are saved at once, both calls return `Ok`, the cache is reported as healthy, and the
second project is not in it. -/
theorem cacheHealth_stale : ∃ (sv : CacheServices) (calls : Nat → CacheCall) (s : CacheCalls),
    Reach (Start sv) (Step sv calls) (fun _ _ => True) s ∧ (∀ i, Idle (s.phase i)) ∧
      s.host.projectCacheHealth = .healthy ∧ ¬ s.host.Faithful sv := by
  have hsome : ((Sample.exec Sample.overtaken Sample.start).map Sample.verdict) =
      some (true, true, some .healthy, false) := by decide +kernel
  obtain ⟨s, hexec, hs⟩ := Option.map_eq_some_iff.mp hsome
  simp only [Sample.verdict, Prod.mk.injEq] at hs
  obtain ⟨hfirst, hsecond, hhealth, hfaithful⟩ := hs
  obtain ⟨hreach, hothers⟩ := Sample.exec_reach hexec (.start Sample.start_start)
  refine ⟨Sample.services, Sample.calls, s, hreach, fun i => ?_, ?_, fun h => ?_⟩
  · by_cases hzero : i = 0
    · rw [hzero]
      exact Sample.idle_of_returned hfirst
    by_cases hone : i = 1
    · rw [hone]
      exact Sample.idle_of_returned hsecond
    · have hmem : i ∉ Sample.overtaken := by simp [Sample.overtaken, hzero, hone]
      rw [hothers i hmem]
      trivial
  · rw [CacheHost.projectCacheHealth, hhealth]
    rfl
  · rw [Sample.faithful_of h] at hfaithful
    cases hfaithful

end CacheCalls

end CcReminder
