import CcReminder.Storage.Schema
import CcReminder.Lib.Txn

/-!
# Connections and transactions

A call works on a connection: the tables, and a stream of draws from outside (the clock, fresh
identifiers, jitter, and whether the next statement fails for a reason of its own such as a
full disk). Every SQL statement consumes one draw. `immediate` is
`transaction_with_behavior(Immediate)`: SQLite serialises such transactions, so a run of the
system is a sequence of calls, and a transaction that is dropped without a commit is rolled back.
-/

set_option autoImplicit true

namespace CcReminder

open Lib

/-- A jitter sample: the delay, in milliseconds, drawn below a cap. The product of the cap with
an `f32` factor below one, rounded to whole milliseconds, never exceeds the cap. -/
structure Jitter where
  delay : Nat → Nat
  delay_le : ∀ cap, delay cap ≤ cap

instance : Inhabited Jitter := ⟨⟨fun _ => 0, fun _ => Nat.zero_le _⟩⟩

/-- What the program reads from outside at one point of a run. -/
structure Draw where
  fault : Bool := false
  uuid : Uuid := 0
  utcNow : DateTime := 0
  /-- The pages of the database file, and those of them that are free. -/
  pages : Nat := 0
  freePages : Nat := 0
  jitter : Jitter := default

structure Conn where
  db : Database
  world : Nat → Draw

abbrev Tx (α : Type) := Txn AppError Conn α

def draw : Tx Draw := .step fun c => (.ok (c.world 0), { c with world := fun n => c.world (n + 1) })

/-- One SQL statement. It fails with `e` when SQLite does, and otherwise with the error that
`q` itself returns (a violated constraint). -/
def statement (e : AppError) (q : Database → Except AppError (α × Database)) : Tx α := do
  let d ← draw
  if d.fault then .fail e
  else .step fun c =>
    match q c.db with
    | .ok (a, db) => (.ok a, { c with db })
    | .error e' => (.error e', c)

def queryError : AppError := storageError "storage.query_failed" "database query failed"

def writeError : AppError := storageError "storage.write_failed" "database write failed"

def openError : AppError := storageError "storage.open_failed" "database could not be opened"

/-- A `SELECT`. -/
def query (f : Database → α) : Tx α := statement queryError fun db => .ok (f db, db)

/-- An `UPDATE`, `DELETE` or unconditional `INSERT`, with what it returns. -/
def execute (f : Database → α × Database) : Tx α := statement writeError fun db => .ok (f db)

def connect : Tx Unit := statement openError fun db => .ok ((), db)

/-- A transaction, with the errors of its beginning and of its commit. The tables are what they
were when any part of it fails. -/
def transaction (start commit : AppError) (body : Tx α) : Tx α :=
  .atomically (fun before after => { after with db := before.db }) do
    statement start fun db => .ok ((), db)
    let a ← body
    statement commit fun db => .ok ((), db)
    pure a

/-- A transaction taken with `BEGIN IMMEDIATE` on a connection of its own. -/
def immediate (body : Tx α) : Tx α := do
  connect
  transaction writeError writeError body

/-- `x.ok()`: an error becomes `none`. -/
def attempt (x : Tx α) : Tx (Option α) := .step fun c =>
  match x c with
  | (.ok a, c') => (.ok (some a), c')
  | (.error _, c') => (.ok none, c')

/-! ## What they do to the tables -/

/-- A successful run of `x` relates the tables before, its value and the tables after. -/
def Ensures (x : Tx α) (R : Database → α → Database → Prop) : Prop :=
  Txn.Ensures x fun c a c' => R c.db a c'.db

theorem Ensures.mono {R R' : Database → α → Database → Prop} {x : Tx α} (h : Ensures x R)
    (hR : ∀ db a db', R db a db' → R' db a db') : Ensures x R' :=
  Txn.Ensures.mono h fun _ _ _ => hR _ _ _

theorem Ensures.ret {R : Database → α → Database → Prop} (h : ∀ db, R db a db) :
    Ensures (pure a) R := Txn.Ensures.ret fun c => h c.db

theorem Ensures.bind {P : Database → α → Database → Prop}
    {Q : α → Database → β → Database → Prop} {R : Database → β → Database → Prop}
    {x : Tx α} {f : α → Tx β} (hx : Ensures x P) (hf : ∀ a, Ensures (f a) (Q a))
    (hR : ∀ db a db' b db'', P db a db' → Q a db' b db'' → R db b db'') : Ensures (x >>= f) R :=
  Txn.Ensures.bind hx hf fun _ _ _ _ _ => hR _ _ _ _ _

theorem Ensures.fail {R : Database → α → Database → Prop} : Ensures (.fail e) R := by
  intro c a c' h
  simp at h

theorem ensures_draw : Ensures draw fun db _ db' => db' = db := by
  intro c a c' h
  simp only [draw, Txn.step_run, Prod.mk.injEq, Except.ok.injEq] at h
  rw [← h.2]

theorem ensures_statement {q : Database → Except AppError (α × Database)} :
    Ensures (statement e q) fun db a db' => q db = .ok (a, db') := by
  refine Ensures.bind ensures_draw (Q := fun _ db a db' => q db = .ok (a, db')) (fun d => ?_) ?_
  · split
    · exact Ensures.fail
    · intro c a c' h
      simp only [Txn.step_run] at h
      split at h
      · rename_i hq
        simp only [Prod.mk.injEq, Except.ok.injEq] at h
        rw [hq, ← h.1, ← h.2]
      · simp at h
  · rintro db d db' a db'' rfl h
    exact h

theorem ensures_query {f : Database → α} :
    Ensures (query f) fun db a db' => a = f db ∧ db' = db := by
  refine ensures_statement.mono fun db a db' h => ?_
  simp only [Except.ok.injEq, Prod.mk.injEq] at h
  exact ⟨h.1.symm, h.2.symm⟩

theorem ensures_execute {f : Database → α × Database} :
    Ensures (execute f) fun db a db' => f db = (a, db') := by
  refine ensures_statement.mono fun db a db' h => ?_
  simpa using h

theorem ensures_connect : Ensures connect fun db _ db' => db' = db := by
  refine ensures_statement.mono fun db a db' h => ?_
  simp only [Except.ok.injEq, Prod.mk.injEq, true_and] at h
  exact h.symm

/-- A transaction that succeeds has done what its body does. -/
theorem ensures_transaction {R : Database → α → Database → Prop} {body : Tx α}
    (h : Ensures body R) : Ensures (transaction start commit body) R := by
  have hskip : ∀ e : AppError, Ensures (statement e fun db => .ok ((), db)) fun db _ db' => db' = db :=
    fun e => ensures_statement.mono fun db _ db' h => by simpa using h.symm
  have htail : ∀ a, Ensures (do statement commit fun db => .ok ((), db); pure a : Tx α)
      fun db b db' => b = a ∧ db' = db := fun a =>
    (hskip commit).bind (fun _ =>
      Ensures.ret (R := fun db b db' => b = a ∧ db' = db) fun _ => ⟨rfl, rfl⟩)
      fun db _ db' b db'' h1 h2 => ⟨h2.1, h2.2.trans h1⟩
  have hinner : Ensures (do
      statement start fun db => .ok ((), db)
      let a ← body
      statement commit fun db => .ok ((), db)
      pure a : Tx α) R :=
    (hskip start).bind
      (fun _ => h.bind htail fun db a db' b db'' h1 h2 => by rw [h2.1, h2.2]; exact h1)
      fun db _ db' b db'' h1 h2 => h1 ▸ h2
  exact fun c a c' hc => hinner (Txn.atomically_ok_iff.mp hc)

theorem ensures_immediate {R : Database → α → Database → Prop} {body : Tx α}
    (h : Ensures body R) : Ensures (immediate body) R :=
  ensures_connect.bind (fun _ => ensures_transaction h) fun _ _ _ _ _ h1 h2 => h1 ▸ h2

theorem statement_error {q : Database → Except AppError (α × Database)}
    (h : statement e q c = (.error e', c')) : c'.db = c.db := by
  simp only [statement, Txn.bind_run, draw, Txn.step_run] at h
  split at h
  · cases h
    rfl
  · simp only [Txn.step_run] at h
    split at h
    · simp at h
    · cases h
      rfl

/-- A statement takes one draw. -/
theorem statement_world {q : Database → Except AppError (α × Database)}
    (h : statement e q c = (r, c')) : c'.world = fun n => c.world (n + 1) := by
  simp only [statement, Txn.bind_run, draw, Txn.step_run] at h
  split at h
  · cases h
    rfl
  · simp only [Txn.step_run] at h
    split at h <;> cases h <;> rfl

/-- One statement on a connection of its own. -/
theorem connect_statement_error {q : Database → Except AppError (α × Database)}
    (h : (do connect; statement e q : Tx α) c = (.error e', c')) : c'.db = c.db := by
  rcases Txn.bind_error h with h | ⟨u, c₁, h₁, h₂⟩
  · exact statement_error h
  · exact (statement_error h₂).trans (ensures_connect h₁)

/-- **Rollback.** A transaction that fails leaves the tables as they were. -/
theorem transaction_error {body : Tx α} (h : transaction start commit body c = (.error e, c')) :
    c'.db = c.db := by
  obtain ⟨c₁, rfl⟩ := Txn.atomically_error h
  rfl

theorem immediate_error {body : Tx α} (h : immediate body c = (.error e, c')) :
    c'.db = c.db := by
  rcases Txn.bind_error h with h | ⟨u, c₁, h₁, h₂⟩
  · exact statement_error h
  · exact (transaction_error h₂).trans (ensures_connect h₁)

theorem statement_ok_iff {q : Database → Except AppError (α × Database)} :
    statement e q c = (.ok a, c') ↔ (c.world 0).fault = false ∧ ∃ db, q c.db = .ok (a, db) ∧
      c' = { db, world := fun n => c.world (n + 1) } := by
  simp only [statement, Txn.bind_run, draw, Txn.step_run]
  by_cases hfault : (c.world 0).fault
  · simp [hfault]
  · simp only [hfault, Bool.false_eq_true, if_false, Txn.step_run, true_and]
    cases q c.db with
    | error e' => simp
    | ok r =>
      obtain ⟨b, db⟩ := r
      constructor
      · rintro ⟨⟩
        exact ⟨db, rfl, rfl⟩
      · rintro ⟨_, ⟨⟩, rfl⟩
        rfl

/-- A statement that does nothing succeeds unless it fails for a reason of its own. -/
theorem skip_ok_iff : statement e (fun db => .ok ((), db)) c = (.ok u, c') ↔
    (c.world 0).fault = false ∧ c' = { c with world := fun n => c.world (n + 1) } := by
  rw [statement_ok_iff]
  constructor
  · rintro ⟨hfault, _, ⟨⟩, hc'⟩
    exact ⟨hfault, hc'⟩
  · rintro ⟨hfault, hc'⟩
    exact ⟨hfault, c.db, rfl, hc'⟩

/-- A transaction that succeeds is its body, run after two draws, with one draw behind it; and
none of the three is a fault. -/
theorem immediate_ok_iff {body : Tx α} : immediate body c = (.ok a, c') ↔
    (c.world 0).fault = false ∧ (c.world 1).fault = false ∧ ∃ c₁,
      body { c with world := fun n => c.world (n + 2) } = (.ok a, c₁) ∧
        (c₁.world 0).fault = false ∧ c' = { c₁ with world := fun n => c₁.world (n + 1) } := by
  constructor
  · intro h
    obtain ⟨u₁, c₁, h₁, h⟩ := Txn.bind_ok_iff.mp h
    obtain ⟨u₂, c₂, h₂, h⟩ := Txn.bind_ok_iff.mp (Txn.atomically_ok_iff.mp h)
    obtain ⟨b, c₃, h₃, h⟩ := Txn.bind_ok_iff.mp h
    obtain ⟨u₄, c₄, h₄, h₅⟩ := Txn.bind_ok_iff.mp h
    obtain ⟨rfl, rfl⟩ := by simpa using h₅
    obtain ⟨hfault₁, rfl⟩ := skip_ok_iff.mp h₁
    obtain ⟨hfault₂, rfl⟩ := skip_ok_iff.mp h₂
    obtain ⟨hfault₃, hc'⟩ := skip_ok_iff.mp h₄
    exact ⟨hfault₁, hfault₂, c₃, h₃, hfault₃, hc'⟩
  · rintro ⟨hfault₁, hfault₂, c₁, h, hfault₃, rfl⟩
    refine Txn.bind_ok_iff.mpr ⟨(), _, skip_ok_iff.mpr ⟨hfault₁, rfl⟩, ?_⟩
    refine Txn.atomically_ok_iff.mpr (Txn.bind_ok_iff.mpr ⟨(), _, skip_ok_iff.mpr ⟨hfault₂, rfl⟩, ?_⟩)
    refine Txn.bind_ok_iff.mpr ⟨a, c₁, h, ?_⟩
    exact Txn.bind_ok_iff.mpr ⟨(), _, skip_ok_iff.mpr ⟨hfault₃, rfl⟩, rfl⟩

theorem immediate_ok {body : Tx α} (h : immediate body c = (.ok a, c')) : ∃ c₁,
    body { c with world := fun n => c.world (n + 2) } = (.ok a, c₁) ∧
      c' = { c₁ with world := fun n => c₁.world (n + 1) } := by
  obtain ⟨-, -, c₁, hbody, -, hc'⟩ := immediate_ok_iff.mp h
  exact ⟨c₁, hbody, hc'⟩

theorem exists_ok {x : Tx α} (h : (x c).1.toOption.isSome) : ∃ a c', x c = (.ok a, c') := by
  rcases hrun : x c with ⟨e | a, c'⟩
  · rw [hrun] at h
    cases h
  · exact ⟨a, c', rfl⟩

/-- The value of a run that succeeds. -/
theorem run_get {x : Tx α} (h : (x c).1.toOption.isSome) : ∃ c', x c = (.ok (Option.get _ h), c') := by
  obtain ⟨a, c', hrun⟩ := exists_ok h
  refine ⟨c', hrun.trans ?_⟩
  simp only [hrun, Except.toOption, Option.get_some]

theorem ok_run {x : Tx α} (h : (x c).1.toOption = some a) : x c = (.ok a, (x c).2) := by
  rcases hrun : x c with ⟨e | b, c'⟩
  · rw [hrun] at h
    cases h
  · rw [hrun] at h
    cases h
    rfl

theorem unit_run {x : Tx Unit} (h : (x c).1.toOption.isSome) : x c = (.ok (), (x c).2) := by
  obtain ⟨_, c', hrun⟩ := exists_ok h
  rw [hrun]

/-! ## The stream of draws -/

/-- The stream of `c'` is what is left of that of `c` after some draws. -/
def Conn.Precedes (c c' : Conn) : Prop := ∃ k, c'.world = fun n => c.world (n + k)

namespace Conn.Precedes

theorem refl (c : Conn) : c.Precedes c := ⟨0, rfl⟩

theorem trans {c₁ c₂ c₃ : Conn} (h₁ : c₁.Precedes c₂) (h₂ : c₂.Precedes c₃) : c₁.Precedes c₃ := by
  obtain ⟨k₁, h₁⟩ := h₁
  obtain ⟨k₂, h₂⟩ := h₂
  refine ⟨k₂ + k₁, h₂.trans ?_⟩
  rw [h₁]
  simp only [Nat.add_assoc]

/-- Each later draw is a draw of the stream. -/
theorem draw {c c' : Conn} (h : c.Precedes c') (n : Nat) : ∃ m, c'.world n = c.world m := by
  obtain ⟨k, hk⟩ := h
  exact ⟨n + k, congrFun hk n⟩

end Conn.Precedes

/-- A computation draws from the front of the stream. -/
def Advances (x : Tx α) : Prop := ∀ c : Conn, c.Precedes (x c).2

namespace Advances

theorem ok {x : Tx α} (hx : Advances x) (h : x c = (.ok a, c')) : c.Precedes c' := by
  have := hx c
  rwa [h] at this

theorem pure (a : α) : Advances (Pure.pure a) := Conn.Precedes.refl

theorem fail (e : AppError) : Advances (.fail e : Tx α) := Conn.Precedes.refl

theorem draw : Advances CcReminder.draw := fun _ => ⟨1, rfl⟩

theorem bind {x : Tx α} {f : α → Tx β} (hx : Advances x) (hf : ∀ a, Advances (f a)) :
    Advances (x >>= f) := by
  intro c
  have h := hx c
  rw [Txn.bind_run]
  rcases hrun : x c with ⟨e | a, c'⟩ <;> rw [hrun] at h
  · exact h
  · exact h.trans (hf a c')

theorem statement {q : Database → Except AppError (α × Database)} : Advances (statement e q) :=
  draw.bind fun d => by
    split
    · exact fail e
    · intro c
      refine ⟨0, ?_⟩
      simp only [Txn.step_run]
      split <;> rfl

theorem attempt {x : Tx α} (hx : Advances x) : Advances (attempt x) := by
  intro c
  have h := hx c
  simp only [CcReminder.attempt, Txn.step_run]
  rcases hrun : x c with ⟨e | a, c'⟩ <;> rw [hrun] at h <;> exact h

theorem immediate {body : Tx α} (hbody : Advances body) (h : immediate body c = (.ok a, c')) :
    c.Precedes c' := by
  obtain ⟨c₁, hrun, rfl⟩ := immediate_ok h
  have hstart : c.Precedes { c with world := fun n => c.world (n + 2) } := ⟨2, rfl⟩
  have hend : c₁.Precedes { c₁ with world := fun n => c₁.world (n + 1) } := ⟨1, rfl⟩
  exact hstart.trans ((hbody.ok hrun).trans hend)

end Advances

/-! ## Reads -/

/-- A computation that changes no table, whether it succeeds or not. -/
def ReadsOnly (x : Tx α) : Prop := ∀ c, (x c).2.db = c.db

namespace ReadsOnly

theorem run {x : Tx α} (hx : ReadsOnly x) (h : x c = (r, c')) : c'.db = c.db := by
  rw [← hx c, h]

theorem ok {x : Tx α} (hx : ReadsOnly x) (h : x c = (.ok a, c')) : c'.db = c.db := hx.run h

theorem pure (a : α) : ReadsOnly (Pure.pure a) := fun _ => rfl

theorem fail (e : AppError) : ReadsOnly (.fail e : Tx α) := fun _ => rfl

theorem draw : ReadsOnly CcReminder.draw := fun _ => rfl

theorem bind {x : Tx α} {f : α → Tx β} (hx : ReadsOnly x) (hf : ∀ a, ReadsOnly (f a)) :
    ReadsOnly (x >>= f) := by
  intro c
  have h := hx c
  rw [Txn.bind_run]
  rcases hrun : x c with ⟨e | a, c'⟩ <;> rw [hrun] at h
  · exact h
  · exact (hf a c').trans h

theorem statement {q : Database → Except AppError (α × Database)}
    (h : ∀ db a db', q db = .ok (a, db') → db' = db) : ReadsOnly (statement e q) := by
  intro c
  rcases hrun : CcReminder.statement e q c with ⟨e' | a, c'⟩
  · exact statement_error hrun
  · exact h _ _ _ (ensures_statement hrun)

theorem query {f : Database → α} : ReadsOnly (query f) :=
  statement fun _ _ _ h => by
    simp only [Except.ok.injEq, Prod.mk.injEq] at h
    exact h.2.symm

theorem connect : ReadsOnly connect :=
  statement fun _ _ _ h => by
    simp only [Except.ok.injEq, Prod.mk.injEq] at h
    exact h.2.symm

theorem attempt {x : Tx α} (hx : ReadsOnly x) : ReadsOnly (attempt x) := by
  intro c
  have h := hx c
  simp only [CcReminder.attempt, Txn.step_run]
  rcases hrun : x c with ⟨e | a, c'⟩ <;> rw [hrun] at h <;> exact h

theorem each {f : α → Tx Unit} (hf : ∀ a, ReadsOnly (f a)) (as : List α) :
    ReadsOnly (.each f as) := by
  induction as with
  | nil => exact pure ()
  | cons a as ih => exact bind (hf a) fun _ => ih

end ReadsOnly

end CcReminder
