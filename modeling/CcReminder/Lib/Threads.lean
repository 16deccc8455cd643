import CcReminder.Lib.Reach
import CcReminder.Lib.Txn
import Mathlib.Logic.Function.Basic

/-!
# Threads over a shared store

A `Thread` takes one labelled operation on a shared store after the other. Between two of its operations
others may take theirs, and a crash may end it anywhere; `Thread.run` is the run without interference.

A `Protocol` says what holds at all times, what each thread may rely on while others go on, and what an
operation may change. `Thread.Follows` is a thread that keeps to it as long as the others do, with one
rule for each way of building a thread. In a system of such threads the protocol is kept in every run
(`Threads.follows`).
-/

set_option autoImplicit true

namespace CcReminder.Lib

inductive Thread (Λ ε σ α : Type) where
  | done (r : Except ε α)
  | act (label : Λ) (next : σ → σ) (k : σ → Thread Λ ε σ α)

namespace Thread

def bind : Thread Λ ε σ α → (α → Thread Λ ε σ β) → Thread Λ ε σ β
  | .done (.ok a), f => f a
  | .done (.error e), _ => .done (.error e)
  | .act l next k, f => .act l next fun s => (k s).bind f

instance : Monad (Thread Λ ε σ) where
  pure a := .done (.ok a)
  bind := bind

def fail (e : ε) : Thread Λ ε σ α := .done (.error e)

/-- One operation. -/
def atom (l : Λ) (x : Txn ε σ α) : Thread Λ ε σ α :=
  .act l (fun s => (x s).2) fun s => .done (x s).1

/-- A body that does not stop the rest: its error becomes its value. -/
def result : Thread Λ ε σ α → Thread Λ ε' σ (Except ε α)
  | .done r => .done (.ok r)
  | .act l next k => .act l next fun s => (k s).result

/-- No operation of another thread comes in between. -/
def run : Thread Λ ε σ α → Txn ε σ α
  | .done r => fun s => (r, s)
  | .act _ next k => fun s => (k s).run (next s)

@[simp] theorem pure_run (a : α) (s : σ) : (pure a : Thread Λ ε σ α).run s = (.ok a, s) := rfl

@[simp] theorem fail_run (e : ε) (s : σ) : (fail e : Thread Λ ε σ α).run s = (.error e, s) := rfl

@[simp] theorem done_run (r : Except ε α) (s : σ) : (done r : Thread Λ ε σ α).run s = (r, s) := rfl

@[simp] theorem atom_run (l : Λ) (x : Txn ε σ α) : (atom l x).run = x := rfl

@[simp] theorem bind_run (x : Thread Λ ε σ α) (f : α → Thread Λ ε σ β) :
    (x >>= f).run = x.run >>= fun a => (f a).run := by
  funext s
  change (x.bind f).run s = _
  induction x generalizing s with
  | done r => cases r <;> rfl
  | act l next k ih => exact ih s (next s)

@[simp] theorem result_run (x : Thread Λ ε σ α) :
    (x.result : Thread Λ ε' σ (Except ε α)).run = x.run.result := by
  funext s
  induction x generalizing s with
  | done r => rfl
  | act l next k ih => exact ih s (next s)

/-- In the run every operation is taken where `p` holds. -/
def Takes (p : σ → Λ → Prop) : Thread Λ ε σ α → σ → Prop
  | .done _, _ => True
  | .act l next k, s => p s l ∧ (k s).Takes p (next s)

instance instDecidableTakes {p : σ → Λ → Prop} [∀ s l, Decidable (p s l)] :
    ∀ (x : Thread Λ ε σ α) (s : σ), Decidable (x.Takes p s)
  | .done _, _ => isTrue trivial
  | .act l next k, s =>
    have := instDecidableTakes (p := p) (k s) (next s)
    inferInstanceAs (Decidable (p s l ∧ (k s).Takes p (next s)))

theorem Takes.mono {p p' : σ → Λ → Prop} {x : Thread Λ ε σ α} (h : x.Takes p s)
    (hp : ∀ s l, p s l → p' s l) : x.Takes p' s := by
  induction x generalizing s with
  | done r => trivial
  | act l next k ih => exact ⟨hp s l h.1, ih s h.2⟩

theorem Takes.all {p : σ → Λ → Prop} {x : Thread Λ ε σ α} (h : ∀ s l, p s l) : x.Takes p s := by
  induction x generalizing s with
  | done r => trivial
  | act l next k ih => exact ⟨h s l, ih s⟩

end Thread

/-! ## Systems -/

/-- Threads on a store; a thread that has crashed is gone. -/
structure Threads (ι Λ ε σ α : Type) where
  store : σ
  thread : ι → Option (Thread Λ ε σ α)

namespace Threads

variable [DecidableEq ι]

inductive Act (ι Λ : Type) where
  | run (i : ι) (label : Λ)
  | crash (i : ι)
  | other

/-- A thread takes its next operation, a thread that has not ended crashes, or something else happens
to the store. -/
inductive Step (crash : ι → σ → σ) (other : σ → σ → Prop) :
    Threads ι Λ ε σ α → Act ι Λ → Threads ι Λ ε σ α → Prop
  | run {s : Threads ι Λ ε σ α} {i : ι} {l : Λ} {next : σ → σ} {k : σ → Thread Λ ε σ α}
      (h : s.thread i = some (.act l next k)) :
      Step crash other s (.run i l)
        ⟨next s.store, Function.update s.thread i (some (k s.store))⟩
  | crash {s : Threads ι Λ ε σ α} {i : ι} (h : s.thread i = some (.act l next k)) :
      Step crash other s (.crash i) ⟨crash i s.store, Function.update s.thread i none⟩
  | other {s : Threads ι Λ ε σ α} (h : other s.store store') :
      Step crash other s .other ⟨store', s.thread⟩

/-- The operations of one thread, one after the other, are its run. -/
theorem run_alone {init : Threads ι Λ ε σ α → Prop} {crash : ι → σ → σ} {other : σ → σ → Prop}
    {ok : Threads ι Λ ε σ α → Act ι Λ → Prop} {s : Threads ι Λ ε σ α} {x : Thread Λ ε σ α}
    (h : Reach init (Step crash other) ok s) (hx : s.thread i = some x)
    (hok : x.Takes (fun store l => ∀ thread, ok ⟨store, thread⟩ (.run i l)) s.store) :
    Reach init (Step crash other) ok
      ⟨(x.run s.store).2, Function.update s.thread i (some (.done (x.run s.store).1))⟩ := by
  induction x generalizing s with
  | done r =>
    have hsame : Function.update s.thread i (some (.done r)) = s.thread := by
      rw [← hx, Function.update_eq_self]
    change Reach init _ ok ⟨s.store, Function.update s.thread i (some (.done r))⟩
    rwa [hsame]
  | act l next k ih =>
    have hrest := ih s.store (h.next (.run hx) (hok.1 s.thread)) (Function.update_self _ _ _) hok.2
    rw [Function.update_idem] at hrest
    exact hrest

end Threads

/-! ## Protocols -/

structure Protocol (ι Λ σ : Type) where
  /-- What holds at all times. -/
  inv : σ → Prop
  /-- What a thread relies on while others take their operations. -/
  rely : ι → σ → σ → Prop
  /-- What happens in an operation. -/
  change : σ → σ → Prop
  /-- The operations that count. -/
  ok : σ → ι → Λ → Prop
  refl : ∀ i s, rely i s s
  trans : ∀ i s s' s'', rely i s s' → rely i s' s'' → rely i s s''

namespace Protocol

variable (P : Protocol ι Λ σ)

/-- What a thread owes to the others. -/
structure Owes (i : ι) (s s' : σ) : Prop where
  inv : P.inv s'
  change : P.change s s'
  rely : ∀ j, j ≠ i → P.rely j s s'

/-- What a thread knows stays true. -/
def Stable (i : ι) (p : σ → Prop) : Prop := ∀ s s', p s → P.rely i s s' → P.inv s' → p s'

end Protocol

namespace Thread

variable {P : Protocol ι Λ σ}

/-- While others do what the thread relies on, each of its operations does what it owes to them, and
where it ends without an error `Q` holds. -/
def Follows (P : Protocol ι Λ σ) (i : ι) (Q : α → σ → Prop) : Thread Λ ε σ α → σ → Prop
  | .done (.ok a), s => ∀ s', P.rely i s s' → P.inv s' → Q a s'
  | .done (.error _), _ => True
  | .act l next k, s => ∀ s', P.rely i s s' → P.inv s' → P.ok s' i l →
      P.Owes i s' (next s') ∧ (k s').Follows P i Q (next s')

namespace Follows

variable {Q : α → σ → Prop} {x : Thread Λ ε σ α}

theorem fail {e : ε} : (Thread.fail e : Thread Λ ε σ α).Follows P i Q s := trivial

theorem ret {a : α} (h : ∀ s', P.rely i s s' → P.inv s' → Q a s') :
    (pure a : Thread Λ ε σ α).Follows P i Q s := h

/-- Only what is relied on matters. -/
theorem of_rely (h : ∀ s', P.rely i s s' → P.inv s' → x.Follows P i Q s') : x.Follows P i Q s := by
  cases x with
  | done r =>
    cases r with
    | ok a => exact fun s' hrely hinv => h s' hrely hinv s' (P.refl i s') hinv
    | error e => trivial
  | act l next k =>
    exact fun s' hrely hinv hok => h s' hrely hinv s' (P.refl i s') hinv hok

theorem rely (h : x.Follows P i Q s) (hrely : P.rely i s s') : x.Follows P i Q s' := by
  cases x with
  | done r =>
    cases r with
    | ok a => exact fun s'' h' => h s'' (P.trans i s s' s'' hrely h')
    | error e => trivial
  | act l next k => exact fun s'' h' => h s'' (P.trans i s s' s'' hrely h')

theorem mono {Q' : α → σ → Prop} (h : x.Follows P i Q s)
    (hQ : ∀ a s, P.inv s → Q a s → Q' a s) : x.Follows P i Q' s := by
  induction x generalizing s with
  | done r =>
    cases r with
    | ok a => exact fun s' hrely hinv => hQ a s' hinv (h s' hrely hinv)
    | error e => trivial
  | act l next k ih =>
    intro s' hrely hinv hok
    obtain ⟨howes, hrest⟩ := h s' hrely hinv hok
    exact ⟨howes, ih s' hrest⟩

theorem bind {f : α → Thread Λ ε σ β} {Q' : β → σ → Prop} (hx : x.Follows P i Q s)
    (hf : ∀ a s', P.inv s' → Q a s' → (f a).Follows P i Q' s') : (x >>= f).Follows P i Q' s := by
  change (x.bind f).Follows P i Q' s
  induction x generalizing s with
  | done r =>
    cases r with
    | ok a => exact of_rely fun s' hrely hinv => hf a s' hinv (hx s' hrely hinv)
    | error e => trivial
  | act l next k ih =>
    intro s' hrely hinv hok
    obtain ⟨howes, hrest⟩ := hx s' hrely hinv hok
    exact ⟨howes, ih s' hrest⟩

theorem result {ε' : Type} (h : x.Follows P i Q s) :
    (x.result : Thread Λ ε' σ (Except ε α)).Follows P i (fun r s => ∀ a, r = .ok a → Q a s) s := by
  induction x generalizing s with
  | done r =>
    intro s' hrely hinv a ha
    subst ha
    exact h s' hrely hinv
  | act l next k ih =>
    intro s' hrely hinv hok
    obtain ⟨howes, hrest⟩ := h s' hrely hinv hok
    exact ⟨howes, ih s' hrest⟩

/-- One operation, after which `Q` holds and stays true. -/
theorem atom {op : Txn ε σ α} (h : ∀ s', P.rely i s s' → P.inv s' → P.ok s' i l →
    P.Owes i s' (op s').2 ∧ ∀ a, (op s').1 = .ok a → Q a (op s').2)
    (hQ : ∀ a, P.Stable i (Q a)) : (Thread.atom l op).Follows P i Q s := by
  intro s' hrely hinv hok
  obtain ⟨howes, hvalue⟩ := h s' hrely hinv hok
  refine ⟨howes, ?_⟩
  change (Thread.done (op s').1).Follows P i Q (op s').2
  cases hop : (op s').1 with
  | ok a => exact fun s'' hrely' hinv' => hQ a _ _ (hvalue a hop) hrely' hinv'
  | error e => trivial

end Follows

end Thread

/-! ## Runs of a system -/

namespace Threads

variable [DecidableEq ι] {P : Protocol ι Λ σ} {crash : ι → σ → σ} {other : σ → σ → Prop}
  {Q : ι → α → σ → Prop}

/-- The operations of the step count. -/
def Counts (P : Protocol ι Λ σ) (s : Threads ι Λ ε σ α) : Act ι Λ → Prop
  | .run i l => P.ok s.store i l
  | _ => True

/-- The protocol is kept: what holds at all times holds, and every thread still follows it. -/
def Keep (P : Protocol ι Λ σ) (Q : ι → α → σ → Prop) (s : Threads ι Λ ε σ α) : Prop :=
  P.inv s.store ∧ ∀ i x, s.thread i = some x → x.Follows P i (Q i) s.store

/-- A crash, and what else happens, does to the threads what they rely on. -/
structure Tolerates (P : Protocol ι Λ σ) (crash : ι → σ → σ) (other : σ → σ → Prop) : Prop where
  crash : ∀ i s, P.inv s → P.Owes i s (crash i s)
  other : ∀ s s', P.inv s → other s s' → P.inv s' ∧ P.change s s' ∧ ∀ j, P.rely j s s'

/-- **One step.** -/
theorem Keep.step {s s' : Threads ι Λ ε σ α} {act : Act ι Λ} (h : Keep P Q s)
    (htolerates : Tolerates P crash other) (hstep : Step crash other s act s') (hok : Counts P s act) :
    Keep P Q s' ∧ P.change s.store s'.store := by
  obtain ⟨hinv, hthreads⟩ := h
  cases hstep with
  | @run _ i l next k hact =>
    obtain ⟨howes, hrest⟩ := hthreads i _ hact s.store (P.refl i _) hinv hok
    refine ⟨⟨howes.inv, fun j x hx => ?_⟩, howes.change⟩
    dsimp only at hx
    by_cases hj : j = i
    · subst hj
      rw [Function.update_self] at hx
      cases hx
      exact hrest
    · rw [Function.update_of_ne hj] at hx
      exact (hthreads j x hx).rely (howes.rely j hj)
  | @crash _ _ _ _ i _ =>
    have howes := htolerates.crash i s.store hinv
    refine ⟨⟨howes.inv, fun j x hx => ?_⟩, howes.change⟩
    dsimp only at hx
    by_cases hj : j = i
    · subst hj
      rw [Function.update_self] at hx
      cases hx
    · rw [Function.update_of_ne hj] at hx
      exact (hthreads j x hx).rely (howes.rely j hj)
  | other hother =>
    obtain ⟨hinv', hchange, hrely⟩ := htolerates.other _ _ hinv hother
    exact ⟨⟨hinv', fun j x hx => (hthreads j x hx).rely (hrely j)⟩, hchange⟩

/-- **All runs.** -/
theorem follows {init : Threads ι Λ ε σ α → Prop} {s : Threads ι Λ ε σ α}
    (hinit : ∀ s, init s → Keep P Q s) (htolerates : Tolerates P crash other)
    (h : Reach init (Step crash other) (Counts P) s) : Keep P Q s := by
  refine h.invariant hinit fun s act s' hs hstep hok => ?_
  exact (hs.step htolerates hstep hok).1

omit [DecidableEq ι] in
/-- What holds of a thread that has ended. -/
theorem Keep.ended {s : Threads ι Λ ε σ α} (h : Keep P Q s)
    (hended : s.thread i = some (.done (.ok a))) : Q i a s.store :=
  h.2 i _ hended s.store (P.refl i _) h.1

end Threads

end CcReminder.Lib
