import CcReminder.Installer.Spec
import CcReminder.Lib.Reach
import CcReminder.Pipeline.Spec

/-!
# Trust in installed hooks

A hook of Codex waits for the confirmation of the user until a helper with its command is seen. Its
row is looked at along a history of changes of the hooks and of ingress: a step keeps the
fingerprints and the trust of a row, or sees a helper with its command, or makes a new row
(`RowFrom`).
-/

set_option autoImplicit true

namespace CcReminder

open Lib

/-! ## Rows -/

/-- The trust of a hook that no helper was seen for. -/
def AgentKind.initialTrust : AgentKind → TrustStatus
  | .claudeCode => .notRequired
  | .codex => .needsUserConfirmation

/-- The hook is installed with these fingerprints. -/
def Database.HasHook (db : Database) (agent : AgentKind) (event commandFingerprint : String)
    (definitionFingerprint : String) : Prop :=
  ∃ row, db.hookInstallations.find? (agent, event) = some row ∧
    row.commandFingerprint = commandFingerprint ∧ row.definitionFingerprint = definitionFingerprint

/-- Where a row comes from in a step; `accepted` are the helpers that the step accepts. -/
inductive RowFrom (accepted : AgentKind → String → String → Prop) (db : Database)
    (row' : HookInstallationRow) : Prop
  | kept (hrow : db.hookInstallations.find? (row'.agent, row'.sourceEvent) = some row)
    (hcommand : row'.commandFingerprint = row.commandFingerprint)
    (hdefinition : row'.definitionFingerprint = row.definitionFingerprint)
    (htrust : row'.trustStatus = row.trustStatus)
  | seen (hrow : db.hookInstallations.find? (row'.agent, row'.sourceEvent) = some row)
    (hcommand : row'.commandFingerprint = row.commandFingerprint)
    (hdefinition : row'.definitionFingerprint = row.definitionFingerprint)
    (hwaits : row.trustStatus = .needsUserConfirmation)
    (haccepted : accepted row'.agent row'.sourceEvent row'.commandFingerprint)
  | fresh (htrust : row'.trustStatus = row'.agent.initialTrust)

def RowsFrom (accepted : AgentKind → String → String → Prop) (db db' : Database) : Prop :=
  ∀ row' ∈ db'.hookInstallations.rows, RowFrom accepted db row'

namespace RowsFrom

variable {accepted : AgentKind → String → String → Prop} {db db' : Database}

theorem same (h : db'.hookInstallations = db.hookInstallations) : RowsFrom accepted db db' :=
  fun _ hrow => .kept (Table.mem_rows_iff.mp (h ▸ hrow)) rfl rfl rfl

theorem of_hooks {db₀ : Database} (hdb : db₀.hookInstallations = db.hookInstallations)
    (h : RowsFrom accepted db₀ db') : RowsFrom accepted db db' := by
  intro row' hrow
  cases h row' hrow with
  | kept hrow hcommand hdefinition htrust => exact .kept (hdb ▸ hrow) hcommand hdefinition htrust
  | seen hrow hcommand hdefinition hwaits haccepted =>
    exact .seen (hdb ▸ hrow) hcommand hdefinition hwaits haccepted
  | fresh htrust => exact .fresh htrust

/-- A helper is seen: the row of its command is marked, and no other. -/
theorem updateHook (h : db'.hookInstallations =
      (db.updateHook agent sourceEvent fp seenAt).2.hookInstallations)
    (hacc : accepted agent sourceEvent fp) : RowsFrom accepted db db' := by
  intro row' hrow
  rw [Table.mem_rows_iff, h, Database.find?_updateHook, Option.map_eq_some_iff] at hrow
  obtain ⟨row, hfind, hrow⟩ := hrow
  split at hrow
  · rename_i hp
    obtain ⟨rfl, rfl, rfl⟩ := of_decide_eq_true hp
    subst hrow
    by_cases hwaits : row.trustStatus = .needsUserConfirmation
    · exact .seen hfind rfl rfl hwaits hacc
    · exact .kept hfind rfl rfl (if_neg hwaits)
  · subst hrow
    exact .kept hfind rfl rfl rfl

/-- The rows of an installer are new, or those of hooks that were observed with the same
fingerprints. -/
theorem records {i : HookInstaller} (h : i.Records db db') : RowsFrom accepted db db' := by
  obtain ⟨selection, configHash, entries, records, rows, hrecords, hrows, hlist⟩ := h
  intro row' hrow
  rw [hlist] at hrow
  rcases List.mem_append.mp hrow with hrow | hrow
  · exact .kept (Table.mem_rows_iff.mp (List.mem_of_mem_filter hrow)) rfl rfl rfl
  · obtain ⟨record, hrecord, now, rfl⟩ := exists_of_mem_right hrows hrow
    obtain ⟨entry, -, trust, lastSeenAt, rfl, htrust⟩ := exists_of_mem_right hrecords hrecord
    cases hagent : i.agent with
    | claudeCode =>
      simp only [HookInstaller.MayTrust, hagent] at htrust
      refine .fresh ?_
      change trust = i.agent.initialTrust
      rw [htrust, hagent]
      rfl
    | codex =>
      simp only [HookInstaller.MayTrust, hagent] at htrust
      rcases htrust with rfl | ⟨rfl, row, hfind, hcommand, hdefinition, htrust⟩
      · refine .fresh ?_
        change _ = i.agent.initialTrust
        rw [hagent]
        rfl
      · have hrow : db.hookInstallations.find? (i.agent, entry.sourceEvent) = some row := by
          rw [hagent]
          exact hfind
        refine .kept hrow hcommand.symm ?_ htrust.symm
        change i.sv.hookDefinitionFingerprint i.agent entry = _
        rw [hagent]
        exact hdefinition.symm

end RowsFrom

/-! ## Ingress -/

theorem ensures_markHookSeenInTx_row : Ensures (markHookSeenInTx agent sourceEvent fp seenAt)
    fun db _ db' => db' = db ∨ db' = (db.updateHook agent sourceEvent fp seenAt).2 := by
  intro c a c' h
  obtain ⟨expected, c₁, h₁, h⟩ := Txn.bind_ok_iff.mp h
  obtain ⟨-, hc₁⟩ := ensures_query h₁
  rw [← hc₁]
  cases expected with
  | none =>
    obtain ⟨-, rfl⟩ := by simpa using h
    exact .inl rfl
  | some expected =>
    dsimp only at h
    split at h
    · obtain ⟨-, rfl⟩ := by simpa using h
      exact .inl rfl
    · obtain ⟨n, c₂, h₂, h₃⟩ := Txn.bind_ok_iff.mp h
      obtain ⟨-, rfl⟩ := by simpa using h₃
      exact .inr (congrArg Prod.snd (ensures_execute h₂)).symm

theorem markHookSeen_run (h : markHookSeen agent sourceEvent fp seenAt c = (r, c')) :
    c'.db = c.db ∨ r = .ok () ∧ c'.db = (c.db.updateHook agent sourceEvent fp seenAt).2 := by
  rcases r with e | ⟨⟩
  · exact .inl (immediate_error h)
  · refine .inr ⟨rfl, ?_⟩
    have hbody : Ensures (do let _ ← execute (·.updateHook agent sourceEvent fp seenAt) : Tx Unit)
        fun db _ db' => db' = (db.updateHook agent sourceEvent fp seenAt).2 :=
      ensures_execute.bind (fun _ => Ensures.ret (R := fun db _ db' => db' = db) fun _ => rfl)
        fun db n db₁ _ db' h₁ h₂ => h₂.trans (congrArg Prod.snd h₁).symm
    exact ensures_immediate hbody h

/-- The trust is read after the row was written, and the reading does not fail. -/
theorem HookInstaller.observeIngress_run {i : HookInstaller}
    (h : i.observeIngress event fp m = (r, m')) : m'.db = m.db ∨ (∃ trust, r = .ok trust) ∧
      ∃ seenAt, m'.db = (m.db.updateHook i.agent event fp seenAt).2 := by
  obtain hdb | ⟨d, m₁, -, hdb₁, h⟩ := Txn.Keeps.bind_cases (onDb_readsOnly ReadsOnly.draw) h
  · exact .inl hdb
  rcases Txn.bind_cases h with ⟨e, h₂, -⟩ | ⟨⟨⟩, m₂, h₂, h⟩
  · rcases markHookSeen_run (onDb_eq h₂).1 with h₂ | ⟨⟨⟩, -⟩
    exact .inl (h₂.trans hdb₁)
  have hdb : m'.db = m₂.db ∧ ∃ trust, r = .ok trust := by
    rcases Txn.bind_cases h with ⟨e, h₃, -⟩ | ⟨row, m₃, h₃, h⟩
    · simp only [priorHook, onDb, attempt, Txn.step_run, Prod.mk.injEq] at h₃
      split at h₃ <;> cases h₃.1
    · cases h
      exact ⟨priorHook_db.run h₃, _, rfl⟩
  rw [hdb.1, ← hdb₁]
  exact (markHookSeen_run (onDb_eq h₂).1).imp id fun h => ⟨hdb.2, d.utcNow, h.2⟩

namespace EventPipeline

variable {p : EventPipeline}

/-- A helper that is trusted has the command and the version of the hook. -/
theorem trustHelper_ok (h : trustHelper request c = (.ok u, c')) : ∃ row,
    c.db.hookInstallations.find? (request.event.source, request.event.sourceEvent) = some row ∧
      row.commandFingerprint = request.commandFingerprint ∧
      row.helperVersion = request.helperVersion := by
  obtain ⟨hook, c₁, h₁, h⟩ := Txn.bind_ok_iff.mp h
  cases hook with
  | none => cases h
  | some hook =>
    dsimp only at h
    split at h
    · cases h
    · rename_i hsame
      rw [not_or, not_not, not_not] at hsame
      exact ⟨hook, attempt_getHook_ok h₁, hsame⟩

theorem normalizeEvent_source {sv : Services} {eventId : Uuid}
    (h : normalizeEvent sv event context eventId correlationId receivedAt = .ok envelope) :
    envelope.source = event.source ∧ envelope.sourceEvent = event.sourceEvent := by
  unfold normalizeEvent at h
  split at h
  · cases h
  · cases h
    exact ⟨rfl, rfl⟩

/-- The plan of a trusted helper is one for the hook of the request. -/
theorem planLive_ok (h : p.planLive request c = (.ok plan, c')) :
    (plan.envelope.source = request.event.source ∧
      plan.envelope.sourceEvent = request.event.sourceEvent) ∧ ∃ row,
    c.db.hookInstallations.find? (request.event.source, request.event.sourceEvent) = some row ∧
      row.commandFingerprint = request.commandFingerprint ∧
      row.helperVersion = request.helperVersion := by
  obtain ⟨-, ⟨cT, _, hdb, htrust⟩, -, normalized, _, _, _, hnormalized, hdecides⟩ := planLive_inv h
  have hsource := normalizeEvent_source hnormalized
  refine ⟨?_, hdb ▸ trustHelper_ok htrust⟩
  rw [hdecides.redacted]
  exact hsource

/-- A request of a helper that is not trusted is refused, and nothing changes. -/
theorem processLive_untrusted (h : ∀ row,
      c.db.hookInstallations.find? (request.event.source, request.event.sourceEvent) = some row →
      row.commandFingerprint ≠ request.commandFingerprint ∨ row.helperVersion ≠ request.helperVersion) :
    ∃ e c', p.processLive request c = (.error e, c') ∧ c'.db = c.db := by
  rcases hrun : p.processLive request c with ⟨r, c'⟩
  rcases Txn.bind_cases hrun with ⟨e, hplan, rfl⟩ | ⟨plan, c₁, hplan, -⟩
  · have hdb := (ReadsOnly.planLive : ReadsOnly (p.planLive request)) c
    rw [hplan] at hdb
    exact ⟨e, c', rfl, hdb⟩
  · obtain ⟨-, row, hrow, hcommand, hversion⟩ := planLive_ok hplan
    rcases h row hrow with hne | hne
    · exact absurd hcommand hne
    · exact absurd hversion hne

theorem commitLive_hooks (h : p.commitLive fp plan c = (r, c')) :
    c'.db.hookInstallations = c.db.hookInstallations ∨ (∃ id, r = .ok (.processed id)) ∧
      ∃ seenAt, c'.db.hookInstallations = (c.db.updateHook plan.envelope.source
        plan.envelope.sourceEvent fp seenAt).2.hookInstallations := by
  rcases r with e | r
  · exact .inl (congrArg _ (immediate_error h))
  obtain ⟨c₆, h₀, rfl⟩ := immediate_ok h
  obtain ⟨seen, c₁, h₁, h₀⟩ := Txn.bind_ok_iff.mp h₀
  obtain ⟨hc₁, -⟩ := eventAlreadySeen_ok h₁
  cases seen with
  | true =>
    obtain ⟨rfl, rfl⟩ := by simpa using h₀
    exact .inl (congrArg _ hc₁)
  | false =>
    obtain ⟨u₂, c₂, h₂, h₀⟩ := Txn.bind_ok_iff.mp h₀
    obtain ⟨d, c₃, h₃, h₀⟩ := Txn.bind_ok_iff.mp h₀
    obtain ⟨marked, c₄, h₄, h₀⟩ := Txn.bind_ok_iff.mp h₀
    obtain ⟨u₅, c₅, h₅, h₀⟩ := Txn.bind_ok_iff.mp h₀
    obtain ⟨rfl, rfl⟩ := by simpa using h₀
    have hh₃ : c₃.db.hookInstallations = c.db.hookInstallations := by
      rw [show c₃.db = c₂.db from ensures_draw h₃, (ensures_recordEvent h₂).2, hc₁]
    have hh₅ : c₅.db.hookInstallations = c₄.db.hookInstallations := by
      rcases enqueueIfQueued_ok h₅ with h₅ | ⟨document, n, h₅⟩
      · rw [h₅]
      · rw [h₅.rest]
    dsimp only
    rw [hh₅]
    rcases ensures_markHookSeenInTx_row h₄ with h₄ | h₄
    · exact .inl ((congrArg _ h₄).trans hh₃)
    · refine .inr ⟨⟨_, rfl⟩, d.utcNow, ?_⟩
      rw [h₄]
      simp only [Database.updateHook, hh₃]

theorem processLive_hooks (h : p.processLive request c = (r, c')) :
    c'.db.hookInstallations = c.db.hookInstallations ∨ (∃ id, r = .ok (.processed id)) ∧
      ∃ seenAt, c'.db.hookInstallations = (c.db.updateHook request.event.source
        request.event.sourceEvent request.commandFingerprint seenAt).2.hookInstallations := by
  rcases Txn.bind_cases h with ⟨e, hplan, rfl⟩ | ⟨plan, c₁, hplan, hcommit⟩
  · have hdb := (ReadsOnly.planLive : ReadsOnly (p.planLive request)) c
    rw [hplan] at hdb
    exact .inl (congrArg _ hdb)
  · have hdb : c₁.db = c.db := ReadsOnly.planLive.ok hplan
    obtain ⟨⟨hsource, hevent⟩, -⟩ := planLive_ok hplan
    rw [← hdb, ← hsource, ← hevent]
    exact commitLive_hooks hcommit

end EventPipeline

/-! ## Histories -/

/-- What is called, with its result. -/
inductive TrustAct where
  | apply (i : HookInstaller) (action : HookAction) (selection : HookSelection)
    (result : Except AppError (List HookInstallationRecord))
  | observeIngress (i : HookInstaller) (sourceEvent fp : String) (result : Except AppError TrustStatus)
  | markHookSeen (agent : AgentKind) (sourceEvent fp : String) (seenAt : DateTime)
    (result : Except AppError Unit)
  | processLive (p : EventPipeline) (request : IngressRequest) (result : Except AppError LiveOutcome)
  | other

namespace TrustAct

/-- The step accepts a helper with this command for the hook. -/
def Accepts (act : TrustAct) (agent : AgentKind) (event fp : String) : Prop :=
  match act with
  | .observeIngress i event' fp' (.ok _) => i.agent = agent ∧ event' = event ∧ fp' = fp
  | .markHookSeen agent' event' fp' _ (.ok _) => agent' = agent ∧ event' = event ∧ fp' = fp
  | .processLive _ request (.ok (.processed _)) =>
    request.event.source = agent ∧ request.event.sourceEvent = event ∧ request.commandFingerprint = fp
  | _ => False

/-- A step of the system; `other` is everything that leaves the rows of the hooks alone. -/
inductive Step : Machine → TrustAct → Machine → Prop
  | apply (h : i.apply action selection m = (r, m')) : Step m (.apply i action selection r) m'
  | observeIngress (h : i.observeIngress event fp m = (r, m')) : Step m (.observeIngress i event fp r) m'
  | markHookSeen (h : onDb (CcReminder.markHookSeen agent event fp seenAt) m = (r, m')) :
    Step m (.markHookSeen agent event fp seenAt r) m'
  | processLive (h : onDb (p.processLive request) m = (r, m')) : Step m (.processLive p request r) m'
  | other (h : m'.db.hookInstallations = m.db.hookInstallations) : Step m .other m'

/-- What a step does to the rows. -/
theorem Step.rows {act : TrustAct} (h : Step m act m') : RowsFrom act.Accepts m.db m'.db := by
  cases h with
  | apply h =>
    rcases HookInstaller.apply_run h with h | ⟨db, hdb, h⟩
    · exact .same h
    · exact .of_hooks hdb (.records h)
  | observeIngress h =>
    rcases HookInstaller.observeIngress_run h with h | ⟨⟨_, rfl⟩, seenAt, h⟩
    · exact .same (congrArg _ h)
    · exact .updateHook (congrArg _ h) ⟨rfl, rfl, rfl⟩
  | markHookSeen h =>
    rcases CcReminder.markHookSeen_run (onDb_eq h).1 with hdb | ⟨rfl, hdb⟩
    · exact .same (congrArg Database.hookInstallations hdb)
    · exact .updateHook (congrArg Database.hookInstallations hdb) ⟨rfl, rfl, rfl⟩
  | processLive h =>
    rcases EventPipeline.processLive_hooks (onDb_eq h).1 with h | ⟨⟨_, rfl⟩, seenAt, h⟩
    · exact .same h
    · exact .updateHook h ⟨rfl, rfl, rfl⟩
  | other h => exact .same h

theorem Step.apply_run {i : HookInstaller} :
    Step m (.apply i action selection (i.apply action selection m).1) (i.apply action selection m).2 :=
  .apply rfl

theorem Step.observeIngress_run {i : HookInstaller} :
    Step m (.observeIngress i event fp (i.observeIngress event fp m).1) (i.observeIngress event fp m).2 :=
  .observeIngress rfl

/-- No hook is installed yet. -/
def Start (m : Machine) : Prop := m.db.hookInstallations = ∅

/-- The hook has been observed with its fingerprints. -/
theorem Step.observed {act : TrustAct} (h : Step m act m')
    (hobserved : HookInstaller.ObservedWith m'.db .codex event cf df) :
    HookInstaller.ObservedWith m.db .codex event cf df ∨
      act.Accepts .codex event cf ∧ m.db.HasHook .codex event cf df ∧ m'.db.HasHook .codex event cf df := by
  obtain ⟨row', hfind, rfl, rfl, htrust⟩ := hobserved
  obtain ⟨hmem, hkey⟩ := Table.find?_eq_some_iff.mp hfind
  obtain ⟨hagent, rfl⟩ := Prod.mk.inj hkey
  cases h.rows row' hmem with
  | @kept row hrow hcommand hdefinition htrust' =>
    rw [hagent] at hrow
    exact .inl ⟨row, hrow, hcommand.symm, hdefinition.symm, htrust'.symm.trans htrust⟩
  | @seen row hrow hcommand hdefinition _ haccepted =>
    rw [hagent] at hrow haccepted
    exact .inr ⟨haccepted, ⟨row, hrow, hcommand.symm, hdefinition.symm⟩, row', hfind, rfl, rfl⟩
  | fresh htrust' =>
    rw [htrust', hagent] at htrust
    cases htrust

/-- The hooks of Claude need no confirmation. -/
theorem claude_notRequired (h : History Start Step hist m) : ∀ row ∈ m.db.hookInstallations.rows,
    row.agent = .claudeCode → row.trustStatus = .notRequired := by
  refine Reach.invariant (P := fun m => ∀ row ∈ m.db.hookInstallations.rows,
    row.agent = .claudeCode → row.trustStatus = .notRequired) (fun m hstart row hrow => ?_)
    (fun m act m' ih hstep _ => ?_) h.reach
  · rw [show m.db.hookInstallations = ∅ from hstart] at hrow
    cases hrow
  · intro row' hrow' hagent
    cases hstep.rows row' hrow' with
    | kept hrow _ _ htrust =>
      rw [htrust]
      obtain ⟨hmem, hkey⟩ := Table.find?_eq_some_iff.mp hrow
      exact ih _ hmem ((Prod.mk.inj hkey).1.trans hagent)
    | seen hrow _ _ hwaits _ =>
      obtain ⟨hmem, hkey⟩ := Table.find?_eq_some_iff.mp hrow
      rw [ih _ hmem ((Prod.mk.inj hkey).1.trans hagent)] at hwaits
      cases hwaits
    | fresh htrust =>
      rw [htrust, hagent]
      rfl

/-- **Trust in hooks.** After every history a hook of Codex is observed only if a helper with its
command was accepted, since when it has had the same fingerprints; the hooks of Claude need no
confirmation; and a request of a helper with another command or version is an error that changes
nothing. -/
theorem hook_trust (h : History Start Step hist m) :
    (∀ event row, m.db.hookInstallations.find? (.codex, event) = some row →
      row.trustStatus = .observedWorking → ∃ newer e older, hist = newer ++ e :: older ∧
        e.2.1.Accepts .codex event row.commandFingerprint ∧
        e.1.db.HasHook .codex event row.commandFingerprint row.definitionFingerprint ∧
        ∀ e' ∈ newer ++ [e],
          e'.2.2.db.HasHook .codex event row.commandFingerprint row.definitionFingerprint) ∧
    (∀ event row, m.db.hookInstallations.find? (.claudeCode, event) = some row →
      row.trustStatus = .notRequired) ∧
    ∀ (p : EventPipeline) (request : IngressRequest),
      (∀ row, m.db.hookInstallations.find? (request.event.source, request.event.sourceEvent) = some row →
        row.commandFingerprint ≠ request.commandFingerprint ∨
          row.helperVersion ≠ request.helperVersion) →
      ∃ e c', p.processLive request m.conn = (.error e, c') ∧ c'.db = m.db := by
  refine ⟨fun event row hrow htrust => ?_, fun event row hrow => ?_, fun p request hne => ?_⟩
  · obtain ⟨newer, e, older, hhist, ⟨haccepts, hbefore, -⟩, hsince⟩ := h.since
      (P := fun m => HookInstaller.ObservedWith m.db .codex event row.commandFingerprint
        row.definitionFingerprint)
      (Q := fun e => e.2.1.Accepts .codex event row.commandFingerprint ∧
        e.1.db.HasHook .codex event row.commandFingerprint row.definitionFingerprint ∧
        e.2.2.db.HasHook .codex event row.commandFingerprint row.definitionFingerprint)
      (fun m hstart ⟨row, hrow, _⟩ => by
        rw [show m.db.hookInstallations = ∅ from hstart] at hrow
        cases hrow)
      (fun m act m' hstep hobserved => hstep.observed hobserved)
      ⟨row, hrow, rfl, rfl, htrust⟩
    refine ⟨newer, e, older, hhist, haccepts, hbefore, fun e' he' => ?_⟩
    obtain ⟨row', hrow', hcommand, hdefinition, -⟩ := hsince e' he'
    exact ⟨row', hrow', hcommand, hdefinition⟩
  · obtain ⟨hmem, hkey⟩ := Table.find?_eq_some_iff.mp hrow
    exact claude_notRequired h row hmem (Prod.mk.inj hkey).1
  · exact EventPipeline.processLive_untrusted hne

/-! ### A hook that is confirmed -/

namespace Sample

open CcReminder.Sample

def installed : Except AppError (List HookInstallationRecord) × Machine :=
  installer.apply .install selection machine

def observed : Except AppError TrustStatus × Machine :=
  installer.observeIngress "Stop" fingerprint installed.2

theorem observed_hist : History Start Step
    [(installed.2, .observeIngress installer "Stop" fingerprint observed.1, observed.2),
      (machine, .apply installer .install selection installed.1, installed.2)] observed.2 :=
  .next (.next (.start rfl) Step.apply_run) Step.observeIngress_run

theorem observed_trust : (observed.2.db.hookInstallations.find? (.codex, "Stop")).map
    (·.trustStatus) = some .observedWorking := by decide +kernel

end Sample

theorem hook_trust_confirmed : ∃ hist m row, History Start Step hist m ∧
    m.db.hookInstallations.find? (.codex, "Stop") = some row ∧
    ∃ newer e older, hist = newer ++ e :: older ∧
      e.2.1.Accepts .codex "Stop" row.commandFingerprint := by
  obtain ⟨row, hrow, htrust⟩ := Option.map_eq_some_iff.mp Sample.observed_trust
  obtain ⟨newer, e, older, hhist, haccepts, -⟩ :=
    (hook_trust Sample.observed_hist).1 "Stop" row hrow htrust
  exact ⟨_, _, row, Sample.observed_hist, hrow, newer, e, older, hhist, haccepts⟩

end TrustAct

end CcReminder
