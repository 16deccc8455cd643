import CcReminder.Lib.Couple
import CcReminder.Storage.Config

/-!
# Two connections in lockstep

Two connections are in lockstep when they have the same tables, and their streams show the same
clock and the same faults; the fresh identifiers may differ. A computation that uses no
identifier ends the same way on both.
-/

set_option autoImplicit true

namespace CcReminder

open Lib

/-- The two streams agree but for the identifiers and the jitter. -/
def SameClock (w v : Nat → Draw) : Prop :=
  ∀ n, (w n).fault = (v n).fault ∧ (w n).utcNow = (v n).utcNow

theorem SameClock.shift (h : SameClock w v) (k : Nat) :
    SameClock (fun n => w (n + k)) fun n => v (n + k) := fun n => h (n + k)

structure Conn.Lockstep (c d : Conn) : Prop where
  db : c.db = d.db
  clock : SameClock c.world d.world

/-- The connection after some draws. -/
def Conn.skip (c : Conn) (k : Nat) : Conn := { c with world := fun n => c.world (n + k) }

/-- No statement fails. -/
def Conn.Quiet (c : Conn) : Prop := ∀ n, (c.world n).fault = false

namespace Conn.Quiet

variable {c : Conn}

theorem precedes {c' : Conn} (h : c.Quiet) (hp : c.Precedes c') : c'.Quiet := by
  intro n
  obtain ⟨m, hm⟩ := hp.draw n
  rw [hm]
  exact h m

theorem skip (h : c.Quiet) (k : Nat) : (c.skip k).Quiet := fun n => h (n + k)

theorem query {f : Database → α} (h : c.Quiet) : query f c = (.ok (f c.db), c.skip 1) :=
  statement_ok_iff.mpr ⟨h 0, c.db, rfl, rfl⟩

theorem execute {f : Database → α × Database} (h : c.Quiet) :
    execute f c = (.ok (f c.db).1, { c.skip 1 with db := (f c.db).2 }) :=
  statement_ok_iff.mpr ⟨h 0, (f c.db).2, rfl, rfl⟩

theorem connect (h : c.Quiet) : connect c = (.ok (), c.skip 1) :=
  statement_ok_iff.mpr ⟨h 0, c.db, rfl, rfl⟩

theorem read {f : Database → α} (h : c.Quiet) : read f c = (.ok (f c.db), c.skip 2) :=
  Txn.bind_ok_iff.mpr ⟨(), c.skip 1, h.connect, (h.skip 1).query⟩

/-- A row that is there is found. -/
theorem readRow {f : Database → Option α} (h : c.Quiet) :
    readRow missing f c = ((f c.db).elim (.error missing) .ok, c.skip 2) := by
  simp only [CcReminder.readRow, Txn.bind_run, h.read]
  cases f c.db with
  | none => rfl
  | some a => rfl

theorem attempt_readRow {f : Database → Option α} (h : c.Quiet) :
    attempt (CcReminder.readRow missing f) c = (.ok (f c.db), c.skip 2) := by
  simp only [attempt, Txn.step_run, h.readRow]
  cases f c.db with
  | none => rfl
  | some a => rfl

end Conn.Quiet

/-- No statement fails, and the clock stands still. -/
def Conn.Calm (c : Conn) (time : DateTime) : Prop :=
  ∀ n, (c.world n).fault = false ∧ (c.world n).utcNow = time

theorem Conn.Calm.precedes {c c' : Conn} (h : c.Calm time) (hp : c.Precedes c') : c'.Calm time := by
  obtain ⟨k, hk⟩ := hp
  intro n
  rw [hk]
  exact h (n + k)

namespace Conn.Calm

variable {c : Conn}

theorem quiet (h : c.Calm time) : c.Quiet := fun n => (h n).1

theorem skip (h : c.Calm time) (k : Nat) : (c.skip k).Calm time := fun n => h (n + k)

theorem query {f : Database → α} (h : c.Calm time) : query f c = (.ok (f c.db), c.skip 1) := h.quiet.query

theorem connect (h : c.Calm time) : connect c = (.ok (), c.skip 1) := h.quiet.connect

theorem read {f : Database → α} (h : c.Calm time) : read f c = (.ok (f c.db), c.skip 2) := h.quiet.read

theorem readRow {f : Database → Option α} (h : c.Calm time) :
    readRow missing f c = ((f c.db).elim (.error missing) .ok, c.skip 2) := h.quiet.readRow

theorem attempt_readRow {f : Database → Option α} (h : c.Calm time) :
    attempt (CcReminder.readRow missing f) c = (.ok (f c.db), c.skip 2) := h.quiet.attempt_readRow

end Conn.Calm

/-- Calm connections at one time are in lockstep wherever their streams stand. -/
theorem Conn.Calm.lockstep {c d : Conn} (hc : c.Calm time) (hd : d.Calm time) (hdb : c.db = d.db) :
    c.Lockstep d :=
  ⟨hdb, fun n => ⟨(hc n).1.trans (hd n).1.symm, (hc n).2.trans (hd n).2.symm⟩⟩

/-- `x` ends the same way on connections in lockstep, and leaves them in lockstep. -/
abbrev Tx.Same (x : Tx α) : Prop := Txn.Couples Conn.Lockstep x x Eq Conn.Lockstep

/-- What is drawn but for the identifiers. -/
def Draw.Same (d e : Draw) : Prop := d.fault = e.fault ∧ d.utcNow = e.utcNow

namespace Tx.Same

theorem pure (a : α) : Tx.Same (Pure.pure a) := .ret rfl

theorem fail (e : AppError) : Tx.Same (.fail e : Tx α) := Txn.Couples.fail

theorem bind {x : Tx α} {f : α → Tx β} (hx : Tx.Same x) (hf : ∀ a, Tx.Same (f a)) :
    Tx.Same (x >>= f) :=
  Txn.Couples.bind hx fun a _ h => h ▸ hf a

theorem draw : Txn.Couples Conn.Lockstep CcReminder.draw CcReminder.draw Draw.Same Conn.Lockstep :=
  fun _ _ h => ⟨.ok (h.clock 0), h.db, h.clock.shift 1⟩

theorem now {f : DateTime → Tx α} (hf : ∀ now, Tx.Same (f now)) :
    Tx.Same (CcReminder.draw >>= fun d => f d.utcNow) :=
  Txn.Couples.bind draw fun _ _ h => h.2 ▸ hf _

theorem statement {q : Database → Except AppError (α × Database)} : Tx.Same (statement e q) := by
  refine Txn.Couples.bind draw fun d d' hd => ?_
  rw [hd.1]
  split
  · exact Txn.Couples.fail
  · intro c c' h
    simp only [Txn.step_run, h.db]
    cases hrun : q c'.db with
    | ok r => exact ⟨.ok rfl, rfl, h.clock⟩
    | error e' => exact ⟨.error, h⟩

theorem query {f : Database → α} : Tx.Same (query f) := statement

theorem connect : Tx.Same connect := statement

theorem attempt {x : Tx α} (hx : Tx.Same x) : Tx.Same (attempt x) := by
  intro c d h
  obtain ⟨hr, hR⟩ := hx h
  simp only [CcReminder.attempt, Txn.step_run]
  rcases hxc : x c with ⟨r, c'⟩
  rcases hxd : x d with ⟨r', d'⟩
  rw [hxc, hxd] at hr hR
  cases hr with
  | ok hQ => exact ⟨.ok (congrArg some hQ), hR⟩
  | error => exact ⟨.ok rfl, hR⟩

theorem read {f : Database → α} : Tx.Same (read f) := connect.bind fun _ => query

theorem readRow {f : Database → Option α} : Tx.Same (readRow missing f) :=
  read.bind fun row => by
    cases row with
    | none => exact fail _
    | some a => exact pure a

theorem listChannels : Tx.Same listChannels :=
  read.bind fun rows => by
    split
    · exact fail _
    · split
      · exact fail _
      · exact pure _

end Tx.Same

end CcReminder
