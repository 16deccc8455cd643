import CcReminder.Lib.Table

/-!
# A table as a store of values

`t.Stores decode saved` says what a table is for: under each key it has the value that was saved
there, in a row that decodes to it, and no other rows.
-/

set_option autoImplicit true

namespace CcReminder.Lib.Table

variable {α β κ : Type} [DecidableEq κ] {key : α → κ}

def Stores (t : Table key) (decode : α → Option β) (saved : κ → Option β) : Prop :=
  ∀ k, (t.find? k).map decode = (saved k).map some

namespace Stores

variable {t : Table key} {decode : α → Option β} {saved : κ → Option β}

theorem empty : (∅ : Table key).Stores decode fun _ => none := fun _ => rfl

/-- A row decodes to what was saved under its key. -/
theorem row (h : t.Stores decode saved) (hr : r ∈ t.rows) :
    ∃ b, decode r = some b ∧ saved (key r) = some b := by
  have hk := h (key r)
  rw [mem_rows_iff.mp hr] at hk
  cases hs : saved (key r) with
  | none => simp [hs] at hk
  | some b => exact ⟨b, by simpa [hs] using hk, rfl⟩

/-- What was saved is in a row. -/
theorem saved_iff (h : t.Stores decode saved) :
    saved k = some b ↔ ∃ r, t.find? k = some r ∧ decode r = some b := by
  have hk := h k
  cases hs : saved k with
  | none =>
    rw [hs] at hk
    simp [Option.map_eq_none_iff.mp hk]
  | some b' =>
    rw [hs, Option.map_some, Option.map_eq_some_iff] at hk
    obtain ⟨r, hr, hdecode⟩ := hk
    simp [hr, hdecode]

theorem upsert (h : t.Stores decode saved) (hr : decode r = some b) :
    (t.upsert r).Stores decode (Function.update saved (key r) (some b)) := by
  intro k
  rw [find?_upsert, Function.update_apply]
  split
  · simp [hr]
  · exact h k

/-- A table of values that are not encoded. -/
theorem find?_eq {t : Table key} {saved : κ → Option α} (h : t.Stores some saved) (k : κ) :
    t.find? k = saved k :=
  Option.map_injective (Option.some_injective α) (h k)

/-- A deletion that goes by the values. -/
theorem delete {p : α → Bool} {keep : β → Bool} (h : t.Stores decode saved)
    (hp : ∀ r b, decode r = some b → keep b = !p r) :
    (t.delete p).Stores decode fun k => (saved k).filter keep := by
  intro k
  have hk := h k
  simp only [find?_delete]
  cases hs : saved k with
  | none =>
    rw [hs] at hk
    simp [Option.map_eq_none_iff.mp hk]
  | some b =>
    rw [hs, Option.map_some, Option.map_eq_some_iff] at hk
    obtain ⟨r, hr, hdecode⟩ := hk
    simp only [hr, Option.filter_some, hp r b hdecode]
    split
    · simp [hdecode]
    · rfl

end Stores

/-- An upsert puts the row in the place of the one with its key, or behind all others. -/
theorem upsert_rows (t : Table key) (r : α) :
    (∃ before old after, t.find? (key r) = some old ∧ t.rows = before ++ old :: after ∧
      (t.upsert r).rows = before ++ r :: after) ∨
    (t.find? (key r) = none ∧ (t.upsert r).rows = t.rows ++ [r]) := by
  unfold upsert
  split
  · rename_i h
    obtain ⟨old, hold, hkey⟩ := List.mem_map.mp h
    obtain ⟨before, after, hrows⟩ := List.append_of_mem hold
    refine .inl ⟨before, old, after, find?_eq_some_iff.mpr ⟨hold, hkey⟩, hrows, ?_⟩
    have hne : ∀ s ∈ before ++ after, key s ≠ key r := by
      have hnodup := t.nodup
      rw [hrows, List.map_append, List.map_cons, List.nodup_middle] at hnodup
      intro s hs heq
      rw [← List.map_append, List.nodup_cons] at hnodup
      exact hnodup.1 (List.mem_map.mpr ⟨s, hs, heq.trans hkey.symm⟩)
    have hid : ∀ l : List α, (∀ s ∈ l, key s ≠ key r) →
        (l.map fun s => if key s = key r then r else s) = l := by
      intro l hl
      conv_rhs => rw [← List.map_id l]
      exact List.map_congr_left fun s hs => if_neg (hl s hs)
    simp only [hrows, List.map_append, List.map_cons, hkey, if_true]
    rw [hid before fun s hs => hne s (List.mem_append_left _ hs),
      hid after fun s hs => hne s (List.mem_append_right _ hs)]
  · rename_i h
    refine .inr ⟨find?_eq_none_iff.mpr fun s hs hk => h (List.mem_map.mpr ⟨s, hs, hk⟩), rfl⟩

/-- An upsert adds a row only for a new key. -/
theorem length_upsert_le {t : Table key} {n : Nat} (hn : t.rows.length ≤ n)
    (h : (t.find? (key r)).isSome ∨ t.rows.length < n) : (t.upsert r).rows.length ≤ n := by
  rcases upsert_rows t r with ⟨before, old, after, -, hrows, hup⟩ | ⟨hnone, hup⟩
  · rw [hup]
    rw [hrows] at hn
    simpa using hn
  · rw [hup, List.length_append, List.length_singleton]
    exact h.resolve_left (by simp [hnone])

/-- Among the rows that meet a condition it adds one only if the old row did not meet it. -/
theorem length_filter_upsert_le {t : Table key} {p : α → Bool} {n : Nat}
    (hn : (t.rows.filter p).length ≤ n)
    (h : p r → (t.find? (key r)).any p ∨ (t.rows.filter p).length < n) :
    ((t.upsert r).rows.filter p).length ≤ n := by
  simp only [← List.countP_eq_length_filter] at hn h ⊢
  rcases upsert_rows t r with ⟨before, old, after, hold, hrows, hup⟩ | ⟨hnone, hup⟩
  · rw [hold, Option.any_some] at h
    rw [hrows, List.countP_append, List.countP_cons] at hn h
    rw [hup, List.countP_append, List.countP_cons]
    by_cases hr : p r
    · rcases h hr with hold | hlt
      · simpa [hr, hold] using hn
      · simp only [hr, if_true]
        omega
    · simp only [hr, Bool.false_eq_true, if_false]
      omega
  · rw [hup, List.countP_append, List.countP_singleton]
    by_cases hr : p r
    · have hlt := h hr
      simp only [hnone, Option.any_none, Bool.false_eq_true, false_or] at hlt
      simp only [hr, if_true]
      omega
    · simpa [hr] using hn

end CcReminder.Lib.Table
