import CcReminder.Storage.Config
import CcReminder.Storage.Events

/-!
# Installed hooks

The hooks and the snapshots of `storage/integrations.rs`.
-/

set_option autoImplicit true

namespace CcReminder

open Lib

def MAX_SNAPSHOTS_PER_AGENT : Nat := 5
def MAX_HOOKS_PER_AGENT : Nat := 128
def MAX_HOOK_TEXT_BYTES : Nat := 512
def MAX_SNAPSHOT_CIPHERTEXT_BYTES : Nat := 1024 * 1024
def MAX_SNAPSHOT_NONCE_BYTES : Nat := 64
def MAX_SNAPSHOT_AAD_BYTES : Nat := 512
def MAX_SNAPSHOT_SOURCE_HASH_BYTES : Nat := 128

structure HookInstallationRecord where
  agent : AgentKind
  sourceEvent : String
  commandFingerprint : String
  definitionFingerprint : String
  helperVersion : String
  configHash : String
  trustStatus : TrustStatus
  healthStatus : InstallationHealth
  lastSeenAt : Option DateTime
  deriving DecidableEq

def validHookText (value : String) : Bool :=
  value ≠ "" ∧ value.utf8ByteSize ≤ MAX_HOOK_TEXT_BYTES

/-- A record of the agent, each of whose texts is bounded. -/
def HookInstallationRecord.isValidFor (hook : HookInstallationRecord) (agent : AgentKind) : Bool :=
  hook.agent = agent ∧ [hook.sourceEvent, hook.commandFingerprint, hook.definitionFingerprint,
    hook.helperVersion, hook.configHash].all validHookText

def HookInstallationRecord.toRow (hook : HookInstallationRecord) (now : DateTime) :
    HookInstallationRow where
  agent := hook.agent
  sourceEvent := hook.sourceEvent
  commandFingerprint := hook.commandFingerprint
  definitionFingerprint := hook.definitionFingerprint
  helperVersion := hook.helperVersion
  configHash := hook.configHash
  trustStatus := hook.trustStatus
  healthStatus := hook.healthStatus
  lastSeenAt := hook.lastSeenAt
  observedCommandFingerprint := none
  updatedAt := now

/-- A second row for an event is an error. -/
def Database.insertHook (db : Database) (row : HookInstallationRow) :
    Except AppError (Unit × Database) :=
  match db.hookInstallations.insert? row with
  | none => .error writeError
  | some hookInstallations => .ok ((), { db with hookInstallations })

def insertHooks : List HookInstallationRecord → Tx Unit :=
  .each fun hook => do
    let now := (← draw).utcNow
    statement writeError (·.insertHook (hook.toRow now))

/-- All rows of the agent are replaced. -/
def replaceHooks (agent : AgentKind) (hooks : List HookInstallationRecord) : Tx Unit :=
  if hooks.length > MAX_HOOKS_PER_AGENT ∨ hooks.any (!·.isValidFor agent) then
    .fail (storageError "storage.invalid_hook" "hook installation is invalid")
  else immediate do
    execute fun db => ((), { db with
      hookInstallations := db.hookInstallations.delete (·.agent = agent) })
    insertHooks hooks

/-- The hooks of an agent, `ORDER BY source_event`. The `LIMIT` is one more than there may be. -/
def listHooks (agent : AgentKind) : Tx (List HookInstallationRow) := do
  let hooks ← read fun db => ((db.hookInstallations.rows.filter (·.agent = agent)).insertionSort
    (·.sourceEvent ≤ ·.sourceEvent)).take (MAX_HOOKS_PER_AGENT + 1)
  if hooks.length > MAX_HOOKS_PER_AGENT then
    .fail (storageError "storage.list_limit_exceeded" "hook list is too large")
  else pure hooks

def markHookSeen (agent : AgentKind) (sourceEvent commandFingerprint : String) (seenAt : DateTime) :
    Tx Unit :=
  immediate do
    let _ ← execute (·.updateHook agent sourceEvent commandFingerprint seenAt)

def ConfigSnapshotRow.isValid (snapshot : ConfigSnapshotRow) : Bool :=
  snapshot.ciphertext ≠ [] ∧ snapshot.ciphertext.length ≤ MAX_SNAPSHOT_CIPHERTEXT_BYTES ∧
    snapshot.nonce ≠ [] ∧ snapshot.nonce.length ≤ MAX_SNAPSHOT_NONCE_BYTES ∧
    snapshot.aad ≠ "" ∧ snapshot.aad.utf8ByteSize ≤ MAX_SNAPSHOT_AAD_BYTES ∧
    snapshot.sourceHash ≠ "" ∧ snapshot.sourceHash.utf8ByteSize ≤ MAX_SNAPSHOT_SOURCE_HASH_BYTES

def Database.insertSnapshot (db : Database) (row : ConfigSnapshotRow) :
    Except AppError (Unit × Database) :=
  match db.configSnapshots.insert? row with
  | none => .error writeError
  | some configSnapshots => .ok ((), { db with configSnapshots })

/-- `ORDER BY created_at DESC, id DESC`. -/
def snapshotOrder (i j : ConfigSnapshotRow) : Prop :=
  j.createdAt < i.createdAt ∨ i.createdAt = j.createdAt ∧ j.id.toNat ≤ i.id.toNat

instance : DecidableRel snapshotOrder := fun _ _ => inferInstanceAs (Decidable (_ ∨ _))

/-- Only the newest snapshots of an agent are kept. -/
def Database.pruneSnapshots (db : Database) (agent : AgentKind) : Database :=
  let old := (((db.configSnapshots.rows.filter (·.agent = agent)).insertionSort snapshotOrder).drop
    MAX_SNAPSHOTS_PER_AGENT).map (·.id)
  { db with configSnapshots := db.configSnapshots.delete fun r => r.agent = agent ∧ r.id ∈ old }

def saveSnapshot (snapshot : ConfigSnapshotRow) : Tx Unit :=
  if !snapshot.isValid then
    .fail (storageError "storage.invalid_snapshot" "encrypted snapshot is invalid")
  else immediate do
    statement writeError (·.insertSnapshot snapshot)
    execute fun db => ((), db.pruneSnapshots snapshot.agent)

/-! ## What they do to the rows -/

/-- A row that was just written for a record. -/
def HookInstallationRecord.IsRow (hook : HookInstallationRecord) (row : HookInstallationRow) : Prop :=
  ∃ now, row = hook.toRow now

theorem ensures_insertHooks (hooks : List HookInstallationRecord) :
    Ensures (insertHooks hooks) fun db _ db' => ∃ rows,
      List.Forall₂ HookInstallationRecord.IsRow hooks rows ∧
        db'.hookInstallations.rows = db.hookInstallations.rows ++ rows ∧
        db' = { db with hookInstallations := db'.hookInstallations } := by
  refine Txn.Ensures.each (R := fun hooks (c c' : Conn) => ∃ rows,
    List.Forall₂ HookInstallationRecord.IsRow hooks rows ∧
      c'.db.hookInstallations.rows = c.db.hookInstallations.rows ++ rows ∧
      c'.db = { c.db with hookInstallations := c'.db.hookInstallations })
    (fun c => ⟨[], .nil, (List.append_nil _).symm, rfl⟩) ?_ hooks
  rintro hook hooks c c' c'' h ⟨rows, hrows, hlist, hrest⟩
  obtain ⟨d, c₁, h₁, h₂⟩ := Txn.bind_ok_iff.mp h
  have hc₁ : c₁.db = c.db := ensures_draw h₁
  have hins := ensures_statement h₂
  dsimp only at hins
  rw [hc₁, Database.insertHook] at hins
  cases htable : c.db.hookInstallations.insert? (hook.toRow d.utcNow) with
  | none => simp [htable] at hins
  | some table =>
    simp only [htable, Except.ok.injEq, Prod.mk.injEq, true_and] at hins
    refine ⟨hook.toRow d.utcNow :: rows, .cons ⟨_, rfl⟩ hrows, ?_, ?_⟩
    · rw [hlist, ← hins, (Table.insert?_eq_some_iff.mp htable).2, List.append_assoc]
      rfl
    · rw [hrest, ← hins]

/-- The rows of the other agents stay, and those of the agent are the records, in their order. -/
theorem ensures_replaceHooks : Ensures (replaceHooks agent hooks) fun db _ db' => ∃ rows,
    List.Forall₂ HookInstallationRecord.IsRow hooks rows ∧
      db'.hookInstallations.rows =
        (db.hookInstallations.rows.filter fun r => !(r.agent = agent)) ++ rows ∧
      (∀ hook ∈ hooks, hook.agent = agent) ∧
      db' = { db with hookInstallations := db'.hookInstallations } := by
  unfold replaceHooks
  split
  · exact Ensures.fail
  · rename_i hvalid
    have hagent : ∀ hook ∈ hooks, hook.agent = agent := by
      intro hook hmem
      by_contra hne
      exact hvalid (.inr (List.any_eq_true.mpr ⟨hook, hmem, by
        simp [HookInstallationRecord.isValidFor, hne]⟩))
    refine ensures_immediate ?_
    refine ensures_execute.bind (fun _ => ensures_insertHooks hooks) ?_
    rintro db u db₁ u' db' hdel ⟨rows, hrows, hlist, hrest⟩
    simp only [Prod.mk.injEq, true_and] at hdel
    refine ⟨rows, hrows, ?_, hagent, ?_⟩
    · rw [hlist, ← hdel]
      rfl
    · rw [hrest, ← hdel]

/-- A failed replacement leaves the rows as they were. -/
theorem replaceHooks_error (h : replaceHooks agent hooks c = (.error e, c')) : c'.db = c.db := by
  unfold replaceHooks at h
  split at h
  · cases h
    rfl
  · exact immediate_error h

theorem ensures_saveSnapshot : Ensures (saveSnapshot snapshot) fun db _ db' =>
    db' = { db with configSnapshots := db'.configSnapshots } := by
  unfold saveSnapshot
  split
  · exact Ensures.fail
  · refine ensures_immediate ?_
    refine ensures_statement.bind (fun _ => ensures_execute) ?_
    intro db u db₁ u' db' hins hprune
    simp only [Prod.mk.injEq, true_and] at hprune
    unfold Database.insertSnapshot at hins
    split at hins
    · cases hins
    · cases hins
      rw [← hprune]
      rfl

theorem saveSnapshot_error (h : saveSnapshot snapshot c = (.error e, c')) : c'.db = c.db := by
  unfold saveSnapshot at h
  split at h
  · cases h
    rfl
  · exact immediate_error h

end CcReminder
