import CcReminder.Lib.Txn

/-!
# Computations that only ask

An `Asks σ ε α` reads a store `σ` one question at a time, and may stop with an error. Between two of
its questions the store may be changed by somebody else; `Asks.run` is the run that finds the same
store at every question.
-/

set_option autoImplicit true

namespace CcReminder.Lib

inductive Asks (σ : Type u) (ε : Type v) (α : Type w) : Type (max u v w)
  | done (r : Except ε α)
  | ask (k : σ → Asks σ ε α)

namespace Asks

def bind : Asks σ ε α → (α → Asks σ ε β) → Asks σ ε β
  | .done (.ok a), f => f a
  | .done (.error e), _ => .done (.error e)
  | .ask k, f => .ask fun s => (k s).bind f

instance : Monad (Asks σ ε) where
  pure a := .done (.ok a)
  bind := bind

/-- One question. -/
def question (q : σ → Except ε α) : Asks σ ε α := .ask fun s => .done (q s)

def lift (r : Except ε α) : Asks σ ε α := .done r

/-- All questions find `s`. -/
def run (s : σ) : Asks σ ε α → Except ε α
  | .done r => r
  | .ask k => (k s).run s

@[simp] theorem pure_run (a : α) (s : σ) : (pure a : Asks σ ε α).run s = .ok a := rfl

@[simp] theorem question_run (q : σ → Except ε α) (s : σ) : (question q).run s = q s := rfl

@[simp] theorem lift_run (r : Except ε α) (s : σ) : (lift r : Asks σ ε α).run s = r := rfl

@[simp] theorem bind_run (x : Asks σ ε α) (f : α → Asks σ ε β) (s : σ) :
    (x >>= f).run s = x.run s >>= fun a => (f a).run s := by
  change (x.bind f).run s = _
  induction x with
  | done r => cases r <;> rfl
  | ask k ih => exact ih s

/-- Each question is answered by `answer`, which may fail. -/
def answer (answer : Txn ε τ σ) : Asks σ ε α → Txn ε τ α
  | .done (.ok a) => pure a
  | .done (.error e) => .fail e
  | .ask k => do
    let s ← answer
    (k s).answer answer

/-- Where every answer is `s`, what is found is what the run on `s` finds. -/
theorem answer_ok {answer : Txn ε τ σ} {P : τ → Prop} {s : σ}
    (hanswer : ∀ {t a t'}, P t → answer t = (.ok a, t') → a = s ∧ P t') {x : Asks σ ε α} {t t' : τ}
    (hP : P t) (h : x.answer answer t = (.ok a, t')) : x.run s = .ok a ∧ P t' := by
  induction x generalizing t with
  | done r =>
    cases r <;> cases h
    exact ⟨rfl, hP⟩
  | ask k ih =>
    obtain ⟨s', t₁, h₁, h⟩ := Txn.bind_ok_iff.mp h
    obtain ⟨rfl, hP₁⟩ := hanswer hP h₁
    exact ih s' hP₁ h

end Asks

/-- A question for each element in order. -/
def Asks.each (f : α → Asks σ ε β) : List α → Asks σ ε (List β)
  | [] => pure []
  | a :: as => do
    let b ← f a
    let bs ← each f as
    pure (b :: bs)

end CcReminder.Lib
