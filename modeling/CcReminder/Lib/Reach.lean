/-!
# Runs under a condition

A system is a step relation whose steps carry a label. `Reach` collects the states of the runs
all of whose steps meet a condition on the state before the step and the label.
-/

set_option autoImplicit true

namespace CcReminder.Lib

/-- The states reached from `init` by steps `s -a→ s'` that meet `ok s a`. -/
inductive Reach {σ : Type u} {α : Type v} (init : σ → Prop) (step : σ → α → σ → Prop)
    (ok : σ → α → Prop) : σ → Prop
  | start : init s → Reach init step ok s
  | next : Reach init step ok s → step s a s' → ok s a → Reach init step ok s'

namespace Reach

variable {σ : Type u} {α : Type v} {init : σ → Prop} {step : σ → α → σ → Prop}
  {ok : σ → α → Prop}

/-- **Induction along a run.** -/
theorem invariant {P : σ → Prop} (hinit : ∀ s, init s → P s)
    (hstep : ∀ s a s', P s → step s a s' → ok s a → P s') (h : Reach init step ok s) : P s := by
  induction h with
  | start h => exact hinit _ h
  | next _ hs hok ih => exact hstep _ _ _ ih hs hok

end Reach

/-- The runs from `init`, each with the steps that it took, the last one first. -/
inductive History {σ : Type u} {α : Type v} (init : σ → Prop) (step : σ → α → σ → Prop) :
    List (σ × α × σ) → σ → Prop
  | start : init s → History init step [] s
  | next : History init step hist s → step s a s' → History init step ((s, a, s') :: hist) s'

namespace History

variable {σ : Type u} {α : Type v} {init : σ → Prop} {step : σ → α → σ → Prop}
  {hist : List (σ × α × σ)}

theorem reach (h : History init step hist s) : Reach init step (fun _ _ => True) s := by
  induction h with
  | start h => exact .start h
  | next _ hstep ih => exact .next ih hstep trivial

/-- **Provenance.** What holds now and did not hold at the start was caused by a step since which it
has held. -/
theorem since {P : σ → Prop} {Q : σ × α × σ → Prop} (hinit : ∀ s, init s → ¬ P s)
    (hstep : ∀ s a s', step s a s' → P s' → P s ∨ Q (s, a, s'))
    (h : History init step hist s) (hP : P s) :
    ∃ newer e older, hist = newer ++ e :: older ∧ Q e ∧ ∀ e' ∈ newer ++ [e], P e'.2.2 := by
  induction h with
  | start h => exact absurd hP (hinit _ h)
  | @next hist s a s' _ hs ih =>
    rcases hstep _ _ _ hs hP with hPs | hcause
    · obtain ⟨newer, e, older, rfl, hcause, hsince⟩ := ih hPs
      refine ⟨(s, a, s') :: newer, e, older, rfl, hcause, fun e' he' => ?_⟩
      rcases List.mem_cons.mp he' with rfl | he'
      · exact hP
      · exact hsince e' he'
    · refine ⟨[], _, hist, rfl, hcause, fun e' he' => ?_⟩
      rw [List.mem_singleton.mp he']
      exact hP

end History

end CcReminder.Lib
