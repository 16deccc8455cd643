import CcReminder.Lib.Table

/-!
# Deletions in batches

A deletion with a limit takes some of the rows that meet a condition; one that takes fewer than its limit
has left none of them. What several of them did to a table is that it has lost such rows, and no others.
-/

set_option autoImplicit true

namespace CcReminder.Lib.Table

variable {α κ : Type} [DecidableEq κ] {key : α → κ} {t t' t'' : Table key} {p q : α → Bool}

/-- Rows are gone, all of them with `p`; the others are left in their order. -/
def Drops (p : α → Bool) (t t' : Table key) : Prop :=
  ∃ keep : α → Bool, t'.rows = t.rows.filter keep ∧ ∀ r ∈ t.rows, p r = false → keep r = true

omit [DecidableEq κ] in
theorem delete_of_forall_not (h : ∀ r ∈ t.rows, p r = false) : t.delete p = t := by
  have hrows : (t.delete p).rows = t.rows :=
    List.filter_eq_self.mpr fun r hr => by rw [h r hr, Bool.not_false]
  cases t
  simpa only [delete, mk.injEq] using hrows

namespace Drops

omit [DecidableEq κ] in
theorem refl (p : α → Bool) (t : Table key) : Drops p t t :=
  ⟨fun _ => true, (List.filter_eq_self.mpr fun _ _ => rfl).symm, fun _ _ _ => rfl⟩

omit [DecidableEq κ] in
theorem mem (h : Drops p t t') (hr : r ∈ t'.rows) : r ∈ t.rows := by
  obtain ⟨keep, hrows, -⟩ := h
  rw [hrows] at hr
  exact List.mem_of_mem_filter hr

omit [DecidableEq κ] in
theorem keeps (h : Drops p t t') (hr : r ∈ t.rows) (hp : p r = false) : r ∈ t'.rows := by
  obtain ⟨keep, hrows, hkeep⟩ := h
  rw [hrows]
  exact List.mem_filter.mpr ⟨hr, hkeep r hr hp⟩

omit [DecidableEq κ] in
theorem mono (h : Drops q t t') (hq : ∀ r ∈ t.rows, q r = true → p r = true) : Drops p t t' := by
  obtain ⟨keep, hrows, hkeep⟩ := h
  refine ⟨keep, hrows, fun r hr hp => hkeep r hr ?_⟩
  by_contra hqr
  exact absurd (hq r hr (by simpa using hqr)) (by simp [hp])

omit [DecidableEq κ] in
/-- The second condition may be another one, if on the rows of the first table it implies the first. -/
theorem trans (h : Drops p t t') (h' : Drops q t' t'') (hq : ∀ r ∈ t.rows, p r = false → q r = false) :
    Drops p t t'' := by
  obtain ⟨keep, hrows, hkeep⟩ := h
  obtain ⟨keep', hrows', hkeep'⟩ := h'
  refine ⟨fun r => keep r && keep' r, ?_, fun r hr hp => ?_⟩
  · rw [hrows', hrows, List.filter_filter]
    exact List.filter_congr fun r _ => Bool.and_comm _ _
  · have hmem : r ∈ t'.rows := hrows ▸ List.mem_filter.mpr ⟨hr, hkeep r hr hp⟩
    simp only [hkeep r hr hp, hkeep' r hmem (hq r hr hp), Bool.and_self]

omit [DecidableEq κ] in
theorem delete (h : ∀ r ∈ t.rows, q r = true → p r = true) : Drops p t (t.delete q) := by
  refine ⟨fun r => !q r, rfl, fun r hr hp => ?_⟩
  cases hq : q r with
  | false => simp only [hq, Bool.not_false]
  | true => exact absurd (h r hr hq) (by simp [hp])

theorem deleteFirst (n : Nat) (p : α → Bool) (t : Table key) : Drops p t (t.deleteFirst n p).2 := by
  refine delete fun r hr hmem => ?_
  obtain ⟨s, hs, hkey⟩ := List.mem_map.mp (of_decide_eq_true hmem)
  obtain ⟨hs, hp⟩ := List.mem_filter.mp (List.mem_of_mem_take hs)
  rwa [key_inj hr hs hkey.symm]

end Drops

/-! ## The last round -/

/-- A round that stays below its limit leaves no row with the condition. -/
theorem deleteFirst_last (h : (t.deleteFirst n p).1 < n) :
    ∀ r ∈ (t.deleteFirst n p).2.rows, p r = false := by
  have hall : (t.rows.filter p).take n = t.rows.filter p := by
    rw [deleteFirst, List.length_map, List.length_take] at h
    exact List.take_of_length_le (by omega)
  intro r hr
  obtain ⟨hr, hkeep⟩ := List.mem_filter.mp hr
  rw [hall] at hkeep
  by_contra hp
  have hmem : r ∈ t.rows.filter p := List.mem_filter.mpr ⟨hr, by simpa using hp⟩
  simp only [Bool.not_eq_true', decide_eq_false_iff_not] at hkeep
  exact hkeep (List.mem_map_of_mem hmem)

/-- A round that reaches its limit makes the table shorter. -/
theorem deleteFirst_progress (hn : 0 < n) (h : n ≤ (t.deleteFirst n p).1) :
    (t.deleteFirst n p).2.rows.length < t.rows.length := by
  rw [deleteFirst, List.length_map] at h
  obtain ⟨r, hr⟩ := List.exists_mem_of_length_pos (Nat.lt_of_lt_of_le hn h)
  refine List.length_filter_lt_length_iff_exists.mpr
    ⟨r, List.mem_of_mem_filter (List.mem_of_mem_take hr), ?_⟩
  simp only [Bool.not_eq_true', decide_eq_false_iff_not, not_not]
  exact List.mem_map_of_mem hr

theorem deleteFirst_of_forall_not (h : ∀ r ∈ t.rows, p r = false) : t.deleteFirst n p = (0, t) := by
  have hnil : t.rows.filter p = [] := List.filter_eq_nil_iff.mpr fun r hr => by simp [h r hr]
  rw [deleteFirst, hnil]
  simp only [List.take_nil, List.map_nil, List.length_nil, List.not_mem_nil, decide_false, Prod.mk.injEq,
    true_and]
  exact delete_of_forall_not fun _ _ => rfl

end CcReminder.Lib.Table
