import CcReminder.Lib.Threads

/-!
# What threads end with

`Thread.Meets` is `Thread.Follows` for every end of a thread, also for one with an error: a thread keeps
to the protocol, and what it returns or fails with is true of the store. The threads of a system hand
over their error as a value (`Thread.result`), so that the runs of such a system are those of `Threads`.
-/

set_option autoImplicit true

namespace CcReminder.Lib

/-- What holds of a value, or else of an error. -/
def Outcome (Q : α → σ → Prop) (E : ε → σ → Prop) : Except ε α → σ → Prop
  | .ok a => Q a
  | .error e => E e

namespace Protocol.Stable

variable {P : Protocol ι Λ σ} {p q : σ → Prop}

theorem const {p : Prop} : P.Stable i fun _ => p := fun _ _ h _ _ => h

theorem and (hp : P.Stable i p) (hq : P.Stable i q) : P.Stable i fun s => p s ∧ q s :=
  fun s s' h hrely hinv => ⟨hp s s' h.1 hrely hinv, hq s s' h.2 hrely hinv⟩

theorem or (hp : P.Stable i p) (hq : P.Stable i q) : P.Stable i fun s => p s ∨ q s :=
  fun s s' h hrely hinv => h.imp (hp s s' · hrely hinv) (hq s s' · hrely hinv)

theorem imp {p : Prop} (hq : p → P.Stable i q) : P.Stable i fun s => p → q s :=
  fun s s' h hrely hinv hp => hq hp s s' (h hp) hrely hinv

theorem exists_ {p : β → σ → Prop} (hp : ∀ b, P.Stable i (p b)) : P.Stable i fun s => ∃ b, p b s :=
  fun s s' ⟨b, h⟩ hrely hinv => ⟨b, hp b s s' h hrely hinv⟩

theorem outcome {Q : α → σ → Prop} {E : ε → σ → Prop} (hQ : ∀ a, P.Stable i (Q a)) (hE : ∀ e, P.Stable i (E e)) :
    ∀ r, P.Stable i (Outcome Q E r)
  | .ok a => hQ a
  | .error e => hE e

end Protocol.Stable

namespace Thread

variable {P : Protocol ι Λ σ}

/-- While others do what the thread relies on, each of its operations does what it owes to them, and
`R` holds of what it ends with. -/
def Meets (P : Protocol ι Λ σ) (i : ι) (R : Except ε α → σ → Prop) : Thread Λ ε σ α → σ → Prop
  | .done r, s => ∀ s', P.rely i s s' → P.inv s' → R r s'
  | .act l next k, s => ∀ s', P.rely i s s' → P.inv s' → P.ok s' i l →
      P.Owes i s' (next s') ∧ (k s').Meets P i R (next s')

namespace Meets

variable {R : Except ε α → σ → Prop} {x : Thread Λ ε σ α}

theorem ret {a : α} (h : ∀ s', P.rely i s s' → P.inv s' → R (.ok a) s') :
    (pure a : Thread Λ ε σ α).Meets P i R s := h

theorem fail {e : ε} (h : ∀ s', P.rely i s s' → P.inv s' → R (.error e) s') :
    (Thread.fail e : Thread Λ ε σ α).Meets P i R s := h

theorem of_rely (h : ∀ s', P.rely i s s' → P.inv s' → x.Meets P i R s') : x.Meets P i R s := by
  cases x with
  | done r => exact fun s' hrely hinv => h s' hrely hinv s' (P.refl i s') hinv
  | act l next k => exact fun s' hrely hinv hok => h s' hrely hinv s' (P.refl i s') hinv hok

theorem mono {R' : Except ε α → σ → Prop} (h : x.Meets P i R s)
    (hR : ∀ r s, P.inv s → R r s → R' r s) : x.Meets P i R' s := by
  induction x generalizing s with
  | done r => exact fun s' hrely hinv => hR r s' hinv (h s' hrely hinv)
  | act l next k ih =>
    intro s' hrely hinv hok
    obtain ⟨howes, hrest⟩ := h s' hrely hinv hok
    exact ⟨howes, ih s' hrest⟩

/-- A sequence; an error of its first part is its error. -/
theorem bind {f : α → Thread Λ ε σ β} {R' : Except ε β → σ → Prop} (hx : x.Meets P i R s)
    (hf : ∀ a s', P.inv s' → R (.ok a) s' → (f a).Meets P i R' s')
    (he : ∀ e s', P.inv s' → R (.error e) s' → R' (.error e) s') : (x >>= f).Meets P i R' s := by
  change (x.bind f).Meets P i R' s
  induction x generalizing s with
  | done r =>
    cases r with
    | ok a => exact of_rely fun s' hrely hinv => hf a s' hinv (hx s' hrely hinv)
    | error e => exact fun s' hrely hinv => he e s' hinv (hx s' hrely hinv)
  | act l next k ih =>
    intro s' hrely hinv hok
    obtain ⟨howes, hrest⟩ := hx s' hrely hinv hok
    exact ⟨howes, ih s' hrest⟩

/-- An error that becomes a value. -/
theorem result {ε' : Type} {R' : Except ε' (Except ε α) → σ → Prop} (h : x.Meets P i R s)
    (hR : ∀ r s, P.inv s → R r s → R' (.ok r) s) :
    (x.result : Thread Λ ε' σ (Except ε α)).Meets P i R' s := by
  induction x generalizing s with
  | done r => exact fun s' hrely hinv => hR r s' hinv (h s' hrely hinv)
  | act l next k ih =>
    intro s' hrely hinv hok
    obtain ⟨howes, hrest⟩ := h s' hrely hinv hok
    exact ⟨howes, ih s' hrest⟩

/-- What no operation undoes is still true at the end. -/
theorem persist {C : σ → Prop} (h : x.Meets P i R s) (hC : C s) (hstable : P.Stable i C)
    (hchange : ∀ s s', C s → P.change s s' → C s') : x.Meets P i (fun r s => R r s ∧ C s) s := by
  induction x generalizing s with
  | done r => exact fun s' hrely hinv => ⟨h s' hrely hinv, hstable s s' hC hrely hinv⟩
  | act l next k ih =>
    intro s' hrely hinv hok
    obtain ⟨howes, hrest⟩ := h s' hrely hinv hok
    exact ⟨howes, ih s' hrest (hchange _ _ (hstable s s' hC hrely hinv) howes.change)⟩

/-- One operation, after which `R` holds and stays true. -/
theorem atom {op : Txn ε σ α} (h : ∀ s', P.rely i s s' → P.inv s' → P.ok s' i l →
    P.Owes i s' (op s').2 ∧ R (op s').1 (op s').2) (hR : ∀ r, P.Stable i (R r)) :
    (Thread.atom l op).Meets P i R s := by
  intro s' hrely hinv hok
  obtain ⟨howes, hvalue⟩ := h s' hrely hinv hok
  exact ⟨howes, fun s'' hrely' hinv' => hR _ _ _ hvalue hrely' hinv'⟩

theorem follows {ε' : Type} (h : x.Meets P i R s) :
    (x.result : Thread Λ ε' σ (Except ε α)).Follows P i R s := by
  induction x generalizing s with
  | done r => exact h
  | act l next k ih =>
    intro s' hrely hinv hok
    obtain ⟨howes, hrest⟩ := h s' hrely hinv hok
    exact ⟨howes, ih s' hrest⟩

end Meets

end Thread

/-! ## Operations that may fail by themselves -/

/-- An operation that, where it does not fail by itself, starts with `tick`. -/
def Txn.faulty (fault : σ → Bool) (mark tick : σ → σ) (e : ε) (f : σ → Except ε (α × σ)) : Txn ε σ α := fun s =>
  if fault s then (.error e, mark s)
  else match f (tick s) with
    | .ok (a, s') => (.ok a, s')
    | .error e => (.error e, tick s)

theorem Thread.Meets.faulty {P : Protocol ι Λ σ} {K : σ → Prop} {Q : α → σ → Prop} {E : ε → σ → Prop}
    {fault : σ → Bool} {mark tick : σ → σ} {e : ε} {f : σ → Except ε (α × σ)} (hs : K s) (hK : P.Stable i K)
    (hmark : ∀ s, P.inv s → P.Owes i s (mark s) ∧ P.rely i s (mark s))
    (htick : ∀ s, P.inv s → P.Owes i s (tick s) ∧ P.rely i s (tick s))
    (hchange : ∀ s s', P.change (tick s) s' → P.change s s')
    (hfault : ∀ s, K (mark s) → E e (mark s))
    (hok : ∀ s a s', P.inv s → K s → f s = .ok (a, s') → P.Owes i s s' ∧ Q a s')
    (herror : ∀ s e', P.inv s → K s → f s = .error e' → E e' s)
    (hQ : ∀ a, P.Stable i (Q a)) (hE : ∀ e, P.Stable i (E e)) :
    (Thread.atom l (Txn.faulty fault mark tick e f)).Meets P i (Outcome Q E) s := by
  refine Thread.Meets.atom (fun s' hrely hinv _ => ?_) (Protocol.Stable.outcome hQ hE)
  have hknown : K s' := hK _ _ hs hrely hinv
  obtain ⟨howes, hrely'⟩ := htick s' hinv
  have hticked : K (tick s') := hK _ _ hknown hrely' howes.inv
  unfold Txn.faulty
  split
  · obtain ⟨hmarked, hmarkedRely⟩ := hmark s' hinv
    exact ⟨hmarked, hfault _ (hK _ _ hknown hmarkedRely hmarked.inv)⟩
  · cases hf : f (tick s') with
    | ok r =>
      obtain ⟨a, s''⟩ := r
      obtain ⟨hdone, hvalue⟩ := hok _ a s'' howes.inv hticked hf
      exact ⟨⟨hdone.inv, hchange _ _ hdone.change, fun j hj => P.trans j _ _ _ (howes.rely j hj) (hdone.rely j hj)⟩,
        hvalue⟩
    | error e' => exact ⟨howes, herror _ e' howes.inv hticked hf⟩

/-! ## Schedules -/

namespace Threads

variable [DecidableEq ι]

/-- The threads of a list take their next operations, one after the other; one that has ended waits. -/
def exec : List ι → Threads ι Λ ε σ α → Threads ι Λ ε σ α
  | [], s => s
  | i :: is, s =>
    match s.thread i with
    | some (.act _ next k) => exec is ⟨next s.store, Function.update s.thread i (some (k s.store))⟩
    | _ => exec is s

theorem exec_reach {init : Threads ι Λ ε σ α → Prop} {crash : ι → σ → σ} {other : σ → σ → Prop}
    {ok : Threads ι Λ ε σ α → Act ι Λ → Prop} {s : Threads ι Λ ε σ α} (is : List ι)
    (hok : ∀ s i l, ok s (.run i l)) (h : Reach init (Step crash other) ok s) :
    Reach init (Step crash other) ok (exec is s) := by
  induction is generalizing s with
  | nil => exact h
  | cons i is ih =>
    unfold exec
    split
    · rename_i hact
      exact ih (h.next (.run hact) (hok _ _ _))
    · exact ih h

end Threads

end CcReminder.Lib
