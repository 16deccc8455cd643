import CcReminder.Installer.Phases
import CcReminder.Lib.Reach

/-!
# Self-heal and uninstalling

One turn of the loop of `agents/selfheal.rs` for an agent, step by step, beside a call that uninstalls the
hooks of that agent. The turn decides on rows that it read earlier, so that what it writes late may bring
the hooks back.
-/

set_option autoImplicit true

namespace CcReminder

open Lib

/-! ## One turn of the loop -/

namespace HookInstaller

variable (i : HookInstaller)

/-- The selection of the events that have a row. -/
def recordedSelection (records : List HookInstallationRow) : HookSelection where
  events := records.map (·.sourceEvent)
  helperPath := i.helper.stablePath
  helperVersion := i.helper.manifestVersion

/-- An agent without rows is not installed, or was uninstalled. -/
def selfhealTurn : OnMachine Bool := do
  let records ← onDb (listHooks i.agent)
  if records = [] then pure false else healAgentOnce i (i.recordedSelection records)

end HookInstaller

/-- Where a turn stands. -/
inductive TickPhase where
  | start
  | listed (selection : HookSelection)
  | read (selection : HookSelection) (installed : BTreeMap OwnedHookEntry)
  /-- The events that are still to be compared with their rows. -/
  | looking (selection : HookSelection) (installed : BTreeMap OwnedHookEntry) (agentUpgradeRequired : Bool)
      (events : List String) (entries : List HookEntryHealth)
  | repairing (selection : HookSelection) (phase : ApplyPhase)
  | ended (result : Except AppError Bool)

namespace HookInstaller

variable (i : HookInstaller)

/-- One step of a turn, up to the repair. -/
def tickStep : TickPhase → OnMachine TickPhase
  | .start => do
    let records ← onDb (listHooks i.agent)
    pure (if records = [] then .ended (.ok false) else .listed (i.recordedSelection records))
  | .listed selection => do
    let bytes ← i.readOrEmpty
    let installed ← liftMachine (i.sv.inspectOwnedEntries i.agent bytes)
    pure (.read selection (installedByEvent installed))
  | .read selection installed => do
    let record ← onDb (attempt (getAgent i.agent))
    let agentUpgradeRequired := record.any (·.capabilityVerification = .upgradeRequired)
    pure (.looking selection installed agentUpgradeRequired selection.events [])
  | .looking selection installed agentUpgradeRequired (event :: events) entries => do
    let row ← i.priorHook event
    pure (.looking selection installed agentUpgradeRequired events
      (entries ++ [i.entryOf selection installed agentUpgradeRequired event row]))
  | .looking selection _ _ [] entries =>
    pure (if shouldRepair entries then .repairing selection .start else .ended (.ok false))
  | .repairing selection phase => pure (.repairing selection phase)
  | .ended result => pure (.ended result)

def tickNext (phase : TickPhase) (m : Machine) : TickPhase × Machine :=
  match phase with
  | .repairing selection repair =>
    (.repairing selection (i.next .repair selection repair m).1, (i.next .repair selection repair m).2)
  | phase =>
    match i.tickStep phase m with
    | (.ok phase', m') => (phase', m')
    | (.error e, m') => (.ended (.error e), m')

/-- The health of the events that are still to be compared, and the repair that it asks for. -/
def compareRest (selection : HookSelection) (installed : BTreeMap OwnedHookEntry)
    (agentUpgradeRequired : Bool) (events : List String) (entries : List HookEntryHealth) :
    OnMachine Bool := do
  let more ← i.inspectEntries selection installed agentUpgradeRequired events
  if !shouldRepair (entries ++ more) then pure false
  else do
    let _ ← i.apply .repair selection
    pure true

def finishRead (selection : HookSelection) (installed : BTreeMap OwnedHookEntry) : OnMachine Bool := do
  let record ← onDb (attempt (getAgent i.agent))
  i.compareRest selection installed (record.any (·.capabilityVerification = .upgradeRequired))
    selection.events []

/-- What is left of a turn, when no other call comes in between. -/
def tickRest : TickPhase → OnMachine Bool
  | .start => i.selfhealTurn
  | .listed selection => healAgentOnce i selection
  | .read selection installed => i.finishRead selection installed
  | .looking selection installed agentUpgradeRequired events entries =>
    i.compareRest selection installed agentUpgradeRequired events entries
  | .repairing selection phase => do
    let _ ← i.rest .repair selection phase
    pure true
  | .ended (.ok healed) => pure healed
  | .ended (.error e) => .fail e

variable {i}

theorem tickRest_eq (phase : TickPhase) : i.tickRest phase = i.tickStep phase >>= i.tickRest := by
  cases phase with
  | start =>
    simp only [tickRest, tickStep, selfhealTurn, bind_assoc, pure_bind]
    congr 1
    funext records
    split <;> rfl
  | listed selection =>
    simp only [tickRest, tickStep, healAgentOnce, inspect, finishRead, compareRest, healthOf, bind_assoc,
      pure_bind, List.nil_append]
  | read selection installed => simp only [tickRest, tickStep, finishRead, bind_assoc, pure_bind]
  | looking selection installed upgrade events entries =>
    cases events with
    | nil =>
      simp only [tickRest, tickStep, compareRest, inspectEntries, pure_bind, List.append_nil]
      cases shouldRepair entries <;> rfl
    | cons event events =>
      simp only [tickRest, tickStep, compareRest, inspectEntries, bind_assoc, pure_bind,
        List.append_assoc, List.singleton_append]
  | repairing | ended => simp only [tickStep, pure_bind]

/-- Step by step a turn is what `heal_agent_once` does. -/
theorem tickRest_next (phase : TickPhase) (m : Machine) :
    i.tickRest phase m = i.tickRest (i.tickNext phase m).1 (i.tickNext phase m).2 := by
  have hstep : ∀ phase, (i.tickStep phase >>= i.tickRest) m =
      i.tickRest (match i.tickStep phase m with
        | (.ok phase', m') => (phase', m')
        | (.error e, m') => (.ended (.error e), m')).1 (match i.tickStep phase m with
        | (.ok phase', m') => (phase', m')
        | (.error e, m') => (.ended (.error e), m')).2 := by
    intro phase
    rw [Txn.bind_run]
    rcases i.tickStep phase m with ⟨e | phase', m'⟩ <;> rfl
  cases phase with
  | repairing selection repair =>
    simp only [tickRest, tickNext, Txn.bind_run, rest_next repair m]
  | start | listed | read | looking | ended => exact (congrFun (tickRest_eq _) m).trans (hstep _)

theorem readsOnly_listHooks : ReadsOnly (listHooks i.agent) := ReadsOnly.read.bind fun hooks => by
  split
  · exact .fail _
  · exact .pure _

theorem tickStep_keeps {f : Machine → β} (hread : i.readOrEmpty.Keeps f)
    (hdb : ∀ {α} {x : Tx α}, ReadsOnly x → (onDb x).Keeps f) (phase : TickPhase) :
    (i.tickStep phase).Keeps f := by
  cases phase with
  | start => exact (hdb readsOnly_listHooks).bind fun _ => Txn.Keeps.pure _
  | listed selection => exact hread.bind fun _ => liftMachine_keeps.bind fun _ => Txn.Keeps.pure _
  | read selection installed => exact (hdb (.attempt .readRow)).bind fun _ => Txn.Keeps.pure _
  | looking selection installed upgrade events entries =>
    cases events with
    | nil => exact Txn.Keeps.pure _
    | cons event events => exact (hdb (.attempt .readRow)).bind fun _ => Txn.Keeps.pure _
  | repairing | ended => exact Txn.Keeps.pure _

/-- A turn only reads until it repairs. -/
theorem tickNext_cases (phase : TickPhase) (m : Machine) :
    SameHooks m (i.tickNext phase m).2 ∨ ∃ selection repair, phase = .repairing selection repair := by
  cases phase with
  | repairing selection repair => exact .inr ⟨selection, repair, rfl⟩
  | start | listed | read | looking | ended =>
    refine .inl ?_
    have hsame : ∀ {phase r m'}, i.tickStep phase m = (r, m') → SameHooks m m' := fun h =>
      .of_keeps (tickStep_keeps (readOrEmpty_keeps readConfig_files) (fun _ => onDb_files) _)
        (keeps_hooks (tickStep_keeps (readOrEmpty_keeps readConfig_db) onDb_readsOnly _)) h
    simp only [tickNext]
    split <;> exact hsame ‹_›

end HookInstaller

/-! ## Both at once -/

/-- The files and the tables, with a turn of the loop and a call of the user. -/
structure HealRace where
  machine : Machine
  tick : TickPhase
  user : ApplyPhase

namespace HealRace

inductive Caller where
  | tick
  | user

/-- The turn of `t` takes a step, or the uninstallation of `u`. -/
inductive Step (t u : HookInstaller) (selection : HookSelection) : HealRace → Caller → HealRace → Prop
  | tick : Step t u selection s .tick
      { s with machine := (t.tickNext s.tick s.machine).2, tick := (t.tickNext s.tick s.machine).1 }
  | user : Step t u selection s .user
      { s with
        machine := (u.next .uninstall selection s.user s.machine).2
        user := (u.next .uninstall selection s.user s.machine).1 }

def Starts (s : HealRace) : Prop := s.tick = .start ∧ s.user = .start

/-- The call has found its patch in the file, or has replaced the file, and did not fail since. -/
def Decided : ApplyPhase → Prop
  | .compared _ _ patch current => patch.bytes = current
  | .replaced _ | .recording _ _ _ | .trusting _ _ _ _ _ | .finished (.ok _) => True
  | _ => False

/-- The configuration has no owned hook. -/
def Cleared (i : HookInstaller) (m : Machine) : Prop :=
  ∃ bytes, i.Holds m bytes ∧ i.sv.inspectOwnedEntries i.agent bytes = .ok []

/-- The records are those of the entries that the file has now. -/
def Current (i : HookInstaller) (m : Machine) (records : List HookInstallationRecord) : Prop :=
  ∃ bytes entries, i.Holds m bytes ∧ i.sv.inspectOwnedEntries i.agent bytes = .ok entries ∧
    records.map (·.sourceEvent) = entries.map (·.sourceEvent)

/-- What the call is about to write has no owned hook. -/
def ClearsAll (u : HookInstaller) : ApplyPhase → Bool
  | .inspected _ _ patch => u.sv.inspectOwnedEntries u.agent patch.bytes = .ok []
  | _ => true

/-- The step does not undo the uninstallation. Nothing owned is left by the patch, the turn does not write
the file once the uninstallation has decided, and once its rows are gone the turn records no entry that
the file does not have. -/
def Apart (u : HookInstaller) (s : HealRace) : Caller → Prop
  | .user => ClearsAll u s.user
  | .tick =>
    match s.tick with
    | .repairing _ (.created _) => Decided s.user → ¬ u.Holds s.machine []
    | .repairing _ (.saved _ _ _) => ¬ Decided s.user
    | .repairing _ (.recording _ [] records) => ∀ r, s.user = .finished (.ok r) → Current u s.machine records
    | _ => True

/-- Nothing is installed: no owned hook in the configuration, and no row of the agent. -/
def Uninstalled (u : HookInstaller) (s : HealRace) : Prop :=
  Cleared u s.machine ∧ ∀ r ∈ s.machine.db.hookInstallations.rows, r.agent ≠ u.agent

/-- What holds of the uninstallation where it stands. -/
def Inv (u : HookInstaller) (s : HealRace) : Prop :=
  match s.user with
  | .compared _ _ patch current => u.sv.inspectOwnedEntries u.agent patch.bytes = .ok [] ∧
      (patch.bytes = current → u.Holds s.machine current)
  | .differs _ _ patch _ | .saved _ patch _ => u.sv.inspectOwnedEntries u.agent patch.bytes = .ok []
  | .replaced _ => Cleared u s.machine
  | .recording _ entries records => entries = [] ∧ records = [] ∧ Cleared u s.machine
  | .trusting _ _ _ _ _ => False
  | .finished (.ok _) => Uninstalled u s
  | _ => True

variable {t u : HookInstaller} {selection : HookSelection} {s : HealRace}

/-! ### Steps -/

theorem holds_unique (h : u.Holds m bytes) (h' : u.Holds m bytes') : bytes = bytes' := by
  obtain ⟨mode, h⟩ := h
  obtain ⟨mode', h'⟩ := h'
  cases h.symm.trans h'
  rfl

theorem holds_same (hfiles : m'.files = m.files) (h : u.Holds m bytes) : u.Holds m' bytes := by
  obtain ⟨mode, h⟩ := h
  exact ⟨mode, hfiles ▸ h⟩

theorem holds_update {m m' : Machine}
    (hfiles : m'.files = Function.update m.files u.configPath (some ⟨bytes, mode⟩)) : u.Holds m' bytes :=
  ⟨mode, by rw [hfiles, Function.update_self]⟩

theorem cleared_same (hfiles : m'.files = m.files) (h : Cleared u m) : Cleared u m' := by
  obtain ⟨bytes, hbytes, hnone⟩ := h
  exact ⟨bytes, holds_same hfiles hbytes, hnone⟩

/-- The file that was decided on. -/
theorem Inv.holds (h : Inv u s) (hdecided : Decided s.user) : ∃ bytes, u.Holds s.machine bytes := by
  obtain ⟨m, tick, user⟩ := s
  cases user with
  | compared cipher bytes patch current => exact ⟨current, h.2 hdecided⟩
  | replaced patch => exact h.imp fun _ => And.left
  | recording configHash entries records => exact h.2.2.imp fun _ => And.left
  | trusting => exact False.elim h
  | finished result =>
    cases result with
    | ok records => exact h.1.imp fun _ => And.left
    | error e => exact hdecided.elim
  | start | wired | created | seeded | inspected | differs | saved => exact hdecided.elim

/-- The uninstallation does not see what leaves the file as it is, once it has decided on it, and its rows,
once it has written them. -/
theorem Inv.of_tick (h : Inv u s) (hfiles : Decided s.user → m'.files = s.machine.files)
    (hrows : ∀ r, s.user = .finished (.ok r) → ∀ row ∈ m'.db.hookInstallations.rows, row.agent ≠ u.agent) :
    Inv u { s with machine := m', tick := tick' } := by
  obtain ⟨m, tick, user⟩ := s
  cases user with
  | compared cipher bytes patch current => exact ⟨h.1, fun heq => holds_same (hfiles heq) (h.2 heq)⟩
  | replaced patch => exact cleared_same (hfiles trivial) h
  | recording configHash entries records => exact ⟨h.1, h.2.1, cleared_same (hfiles trivial) h.2.2⟩
  | finished result =>
    cases result with
    | ok records => exact ⟨cleared_same (hfiles trivial) h.1, hrows records rfl⟩
    | error e => trivial
  | start | wired | created | seeded | inspected | differs | saved | trusting => exact h

/-- A step of the uninstallation. -/
theorem Inv.user_step (h : Inv u s) (hapart : Apart u s .user)
    (hmoves : Moves u .uninstall selection s.user s.machine user' m') :
    Inv u { s with machine := m', user := user' } := by
  obtain ⟨m, tick, user⟩ := s
  dsimp only at hmoves
  cases hmoves with
  | fail | failChecked | wire | create | found | seed | outrun | inspect => trivial
  | compare hcurrent hsame => exact ⟨of_decide_eq_true hapart, fun _ => holds_same hsame.files hcurrent⟩
  | matched hsame hmatch hinstalled =>
    have hnone := h.1
    rw [hmatch] at hnone
    cases hinstalled.symm.trans hnone
    exact ⟨rfl, rfl, _, holds_same hsame.files (h.2 hmatch), hnone⟩
  | differ => exact h.1
  | save => exact h
  | replace hinspected hfiles hhooks => exact ⟨_, holds_update hfiles, h⟩
  | reread hfinal hinstalled hsame =>
    obtain ⟨bytes, hbytes, hnone⟩ := h
    obtain rfl := holds_unique hfinal hbytes
    cases hinstalled.symm.trans hnone
    exact ⟨rfl, rfl, cleared_same hsame.files ⟨_, hbytes, hnone⟩⟩
  | trust => cases h.1
  | record => exact False.elim h
  | finish hfiles hrows hhooks =>
    obtain ⟨-, rfl, hcleared⟩ := h
    cases hrows
    refine ⟨cleared_same hfiles hcleared, fun r hr => ?_⟩
    dsimp only at hr
    rw [hhooks, List.append_nil] at hr
    simpa using (List.mem_filter.mp hr).2
  | idle => exact h

theorem Inv.uninstalled (h : Inv u s) (hreturned : s.user = .finished (.ok r)) : Uninstalled u s := by
  unfold Inv at h
  rw [hreturned] at h
  exact h

/-- Rows that were not written are as they were. -/
theorem Inv.rows {m' : Machine} (h : Inv u s)
    (hhooks : m'.db.hookInstallations = s.machine.db.hookInstallations) :
    ∀ r, s.user = .finished (.ok r) → ∀ row ∈ m'.db.hookInstallations.rows, row.agent ≠ u.agent :=
  fun _ hr row hrow => (h.uninstalled hr).2 row (hhooks ▸ hrow)

theorem Inv.quiet {m' : Machine} (h : Inv u s) (hsame : SameHooks s.machine m') :
    Inv u { s with machine := m', tick := tick' } :=
  h.of_tick (fun _ => hsame.files) (h.rows hsame.hooks)

/-- A step of the turn. -/
theorem Inv.tick_step (h : Inv u s) (hpath : t.configPath = u.configPath) (hagent : t.agent = u.agent)
    (hapart : Apart u s .tick) : Inv u { s with
      machine := (t.tickNext s.tick s.machine).2, tick := (t.tickNext s.tick s.machine).1 } := by
  rcases HookInstaller.tickNext_cases (i := t) s.tick s.machine with hsame | ⟨selection', repair, hrepair⟩
  · exact h.quiet hsame
  unfold Apart at hapart
  rw [hrepair] at hapart
  simp only [hrepair, HookInstaller.tickNext]
  have hmoves : Moves t .repair selection' repair s.machine _ _ :=
    HookInstaller.next_moves repair s.machine
  generalize (t.next .repair selection' repair s.machine).1 = repair' at hmoves ⊢
  generalize (t.next .repair selection' repair s.machine).2 = m' at hmoves ⊢
  cases hmoves with
  | fail hrunning hsame => exact h.quiet hsame
  | failChecked hinspected hfiles hhooks =>
    exact h.of_tick (fun hdecided => absurd hdecided hapart) (h.rows hhooks)
  | wire hcipher hhelper hsame => exact h.quiet hsame
  | create hnone hfiles hhooks =>
    refine h.of_tick (fun hdecided => ?_) (h.rows hhooks)
    -- the file that was decided on is there
    obtain ⟨bytes, mode, hbytes⟩ := h.holds hdecided
    rw [hpath, hbytes] at hnone
    cases hnone
  | found hsome hsame => exact h.quiet hsame
  | seed hempty hfiles hhooks =>
    exact h.of_tick (fun hdecided => absurd ⟨_, hpath ▸ hempty⟩ (hapart hdecided)) (h.rows hhooks)
  | outrun hfull hsame => exact h.quiet hsame
  | inspect hbytes hpatch hsame => exact h.quiet hsame
  | compare hcurrent hsame => exact h.quiet hsame
  | matched hsame => exact h.quiet hsame
  | differ hsame => exact h.quiet hsame
  | save hsame => exact h.quiet hsame
  | replace hinspected hfiles hhooks =>
    exact h.of_tick (fun hdecided => absurd hdecided hapart) (h.rows hhooks)
  | reread hfinal hinstalled hsame => exact h.quiet hsame
  | trust htrust hsame => exact h.quiet hsame
  | record hsame => exact h.quiet hsame
  | finish hfiles hrecords hhooks =>
    refine h.of_tick (fun _ => hfiles) fun r hr row hrow => ?_
    obtain ⟨bytes, entries, hbytes, hentries, hevents⟩ := hapart r hr
    obtain ⟨⟨bytes', hbytes', hnone⟩, -⟩ := h.uninstalled hr
    obtain rfl := holds_unique hbytes hbytes'
    cases hentries.symm.trans hnone
    cases List.map_eq_nil_iff.mp hevents
    cases hrecords
    rw [hhooks, List.append_nil] at hrow
    exact hagent ▸ (by simpa using (List.mem_filter.mp hrow).2)
  | idle => exact h.quiet ⟨rfl, rfl⟩

/-- **One step.** -/
theorem Inv.step (h : Inv u s) (hpath : t.configPath = u.configPath) (hagent : t.agent = u.agent)
    (hstep : Step t u selection s caller s') (hapart : Apart u s caller) : Inv u s' := by
  cases hstep with
  | tick => exact h.tick_step hpath hagent hapart
  | user => exact h.user_step hapart (HookInstaller.next_moves s.user s.machine)

end HealRace

namespace HealRace

/-- The state after some steps. -/
def perform (t u : HookInstaller) (selection : HookSelection) (s : HealRace) : List Caller → HealRace
  | [] => s
  | .tick :: rest => perform t u selection { s with
      machine := (t.tickNext s.tick s.machine).2, tick := (t.tickNext s.tick s.machine).1 } rest
  | .user :: rest => perform t u selection { s with
      machine := (u.next .uninstall selection s.user s.machine).2
      user := (u.next .uninstall selection s.user s.machine).1 } rest

theorem reach_perform {ok : HealRace → Caller → Prop}
    (h : Reach Starts (Step t u selection) ok s) (callers : List Caller)
    (hok : ∀ n (hn : n < callers.length), ok (perform t u selection s (callers.take n)) callers[n]) :
    Reach Starts (Step t u selection) ok (perform t u selection s callers) := by
  induction callers generalizing s with
  | nil => exact h
  | cons caller rest ih =>
    have hhead : ok s caller := hok 0 (Nat.zero_lt_succ _)
    cases caller with
    | tick => exact ih (h.next .tick hhead) fun n hn => hok (n + 1) (Nat.succ_lt_succ hn)
    | user => exact ih (h.next .user hhead) fun n hn => hok (n + 1) (Nat.succ_lt_succ hn)

end HealRace

namespace Sample

/-- A configuration without hooks. -/
def bareText : List UInt8 := utf8Bytes "\x7b\"hooks\":\x7b\x7d\x7d"

def bareTree : Jsonc.Value := .object ⟨0, 12⟩ [(⟨1, 11⟩, "hooks", .object ⟨9, 11⟩ [])]

/-- What a repair makes of it. -/
def healedText : List UInt8 := utf8Bytes "\x7b\"hooks\":\x7b " ++
  (patchServices fun _ => .ok none).eventText .codex ("Stop", entry) ++ utf8Bytes "\x7d\x7d"

def healedTree : Jsonc.Value :=
  let any : Jsonc.Range := ⟨0, 0⟩
  .object any [(any, "hooks", .object any [(any, "Stop", .array any [.object any [
    (any, "hooks", .array any [handlerTree 0 0 "10"]), (any, "matcher", .stringLit any "")]])])]

def healingParser : JsoncParser := fun bytes =>
  if bytes = bareText then .ok (some bareTree)
  else if bytes = healedText then .ok (some healedTree)
  else .error "unexpected token"

def healingInstaller : HookInstaller := { installer with sv := { installer.sv with parser := healingParser } }

/-- The hook was installed, and its entry is gone from the file. -/
def clearedRace : HealRace where
  machine := { driftedMachine with
    files := Function.update machine.files "/hooks.json" (some ⟨bareText, some 0o600⟩) }
  tick := .start
  user := .start

/-- The turn finds the entry missing, the user uninstalls, and the turn repairs. -/
def overtaken : HealRace := HealRace.perform healingInstaller healingInstaller selection clearedRace
  (List.replicate 5 .tick ++ List.replicate 6 .user ++ List.replicate 11 .tick)

def uninstalled : HealRace := HealRace.perform healingInstaller healingInstaller selection clearedRace
  (List.replicate 6 .user)

def returned : ApplyPhase → Bool
  | .finished (.ok _) => true
  | _ => false

def healed : TickPhase → Bool
  | .repairing _ phase => returned phase
  | _ => false

end Sample

end CcReminder
