import Mathlib.Data.List.Forall2
import Mathlib.Data.List.Sort

/-!
# Tables with a primary key

A `Table key` is a list of rows no two of which have the same key, in the order in which they
were inserted. It is read in two ways: as a list (a `SELECT` scans `rows`) and as a finite
partial map from keys to rows (`find?`). Each operation is described by what it does to the
map: `find?_insert?`, `find?_update`, `find?_delete`.
-/

set_option autoImplicit true

namespace CcReminder.Lib

/-- Rows with a primary key. -/
structure Table {α κ : Type} (key : α → κ) where
  rows : List α
  nodup : (rows.map key).Nodup

namespace Table

variable {α κ : Type} [DecidableEq κ] {key : α → κ}

instance : EmptyCollection (Table key) := ⟨[], .nil⟩

/-- The row with a given key. -/
def find? (t : Table key) (k : κ) : Option α := t.rows.find? (key · = k)

/-- `INSERT`: it fails when a row with the key exists. -/
def insert? (t : Table key) (r : α) : Option (Table key) :=
  if h : key r ∈ t.rows.map key then none
  else some ⟨t.rows ++ [r], by
    rw [List.map_append, List.nodup_append]
    exact ⟨t.nodup, List.nodup_singleton _, fun _ ha _ hb hab => h (by simp_all)⟩⟩

/-- `INSERT … ON CONFLICT DO UPDATE` of all columns: the row with the key is replaced, if there is
one. -/
def upsert (t : Table key) (r : α) : Table key :=
  if h : key r ∈ t.rows.map key then
    ⟨t.rows.map fun s => if key s = key r then r else s, by
      have hkey : (key ∘ fun s => if key s = key r then r else s) = key := by
        funext s
        simp only [Function.comp_apply]
        split
        · rename_i hs
          exact hs.symm
        · rfl
      rw [List.map_map, hkey]
      exact t.nodup⟩
  else ⟨t.rows ++ [r], by
    rw [List.map_append, List.nodup_append]
    exact ⟨t.nodup, List.nodup_singleton _, fun _ ha _ hb hab => h (by simp_all)⟩⟩

/-- `UPDATE … SET f WHERE p`, which must not touch the key. -/
def update (t : Table key) (p : α → Bool) (f : α → α)
    (hf : ∀ r, key (f r) = key r := by intro _; rfl) : Table key where
  rows := t.rows.map fun r => if p r then f r else r
  nodup := by
    have h : (key ∘ fun r => if p r then f r else r) = key := by
      funext r
      simp only [Function.comp_apply]
      split
      · exact hf r
      · rfl
    rw [List.map_map, h]
    exact t.nodup

/-- `DELETE … WHERE p`. -/
def delete (t : Table key) (p : α → Bool) : Table key where
  rows := t.rows.filter fun r => !p r
  nodup := (List.filter_sublist.map key).nodup t.nodup

/-- `DELETE … WHERE id IN (SELECT id … WHERE p LIMIT n)`, with the number of rows it deletes. -/
def deleteFirst (t : Table key) (n : Nat) (p : α → Bool) : Nat × Table key :=
  let keys := ((t.rows.filter p).take n).map key
  (keys.length, t.delete fun r => key r ∈ keys)

/-- `SELECT COUNT(*) … WHERE p`, also the number of rows an `UPDATE` or `DELETE` changes. -/
def count (t : Table key) (p : α → Bool) : Nat := t.rows.countP p

/-! ## The table as a partial map -/

omit [DecidableEq κ] in
theorem key_inj {t : Table key} (hr : r ∈ t.rows) (hs : s ∈ t.rows) (h : key r = key s) :
    r = s := List.inj_on_of_nodup_map t.nodup hr hs h

theorem find?_eq_some_iff {t : Table key} : t.find? k = some r ↔ r ∈ t.rows ∧ key r = k := by
  simp only [find?]
  constructor
  · intro h
    exact ⟨List.mem_of_find?_eq_some h, by simpa using List.find?_some h⟩
  · rintro ⟨hr, rfl⟩
    cases h : t.rows.find? (key · = key r) with
    | none => simpa using List.find?_eq_none.mp h r hr
    | some s =>
      have hs := List.mem_of_find?_eq_some h
      have hk : key s = key r := by simpa using List.find?_some h
      rw [key_inj hs hr hk]

theorem find?_eq_none_iff {t : Table key} : t.find? k = none ↔ ∀ r ∈ t.rows, key r ≠ k := by
  simp [find?]

theorem mem_rows_iff {t : Table key} : r ∈ t.rows ↔ t.find? (key r) = some r := by
  simp [find?_eq_some_iff]

theorem find?_key {t : Table key} (h : t.find? k = some r) : key r = k :=
  (find?_eq_some_iff.mp h).2

@[simp] theorem find?_empty : (∅ : Table key).find? k = none := rfl

theorem insert?_eq_some_iff {t t' : Table key} :
    t.insert? r = some t' ↔ t.find? (key r) = none ∧ t'.rows = t.rows ++ [r] := by
  simp only [insert?, find?_eq_none_iff]
  split
  · rename_i h
    obtain ⟨s, hs, hk⟩ := List.mem_map.mp h
    simp only [reduceCtorEq, false_iff, not_and]
    exact fun hn => absurd hk (hn s hs)
  · rename_i h
    constructor
    · intro ht
      cases ht
      exact ⟨fun s hs hk => h (List.mem_map.mpr ⟨s, hs, hk⟩), rfl⟩
    · rintro ⟨_, hr⟩
      cases t'
      simp_all

theorem insert?_eq_none_iff {t : Table key} : t.insert? r = none ↔ (t.find? (key r)).isSome := by
  rw [Option.isSome_iff_ne_none, ne_eq, find?_eq_none_iff, insert?]
  split
  · rename_i h
    obtain ⟨s, hs, hk⟩ := List.mem_map.mp h
    exact ⟨fun _ hn => hn s hs hk, fun _ => rfl⟩
  · rename_i h
    refine ⟨nofun, fun hn => absurd (fun s hs hk => h ?_) hn⟩
    exact List.mem_map.mpr ⟨s, hs, hk⟩

theorem find?_insert? {t t' : Table key} (h : t.insert? r = some t') :
    t'.find? k = if k = key r then some r else t.find? k := by
  obtain ⟨hn, hr⟩ := insert?_eq_some_iff.mp h
  rw [find?, hr, List.find?_append, ← find?]
  split
  · rename_i hk
    rw [hk, hn]
    simp
  · rename_i hk
    simp [Ne.symm hk]

theorem find?_upsert {t : Table key} :
    (t.upsert r).find? k = if k = key r then some r else t.find? k := by
  unfold upsert
  split
  · rename_i h
    obtain ⟨s₀, hs₀, hkey₀⟩ := List.mem_map.mp h
    split
    · rename_i hk
      subst hk
      exact find?_eq_some_iff.mpr ⟨List.mem_map.mpr ⟨s₀, hs₀, if_pos hkey₀⟩, rfl⟩
    · rename_i hk
      cases ht : t.find? k with
      | none =>
        rw [find?_eq_none_iff] at ht ⊢
        intro s hs
        obtain ⟨s', hs', rfl⟩ := List.mem_map.mp hs
        split
        · exact Ne.symm hk
        · exact ht s' hs'
      | some s =>
        obtain ⟨hs, rfl⟩ := find?_eq_some_iff.mp ht
        exact find?_eq_some_iff.mpr ⟨List.mem_map.mpr ⟨s, hs, if_neg hk⟩, rfl⟩
  · rename_i h
    have hnone : t.find? (key r) = none :=
      find?_eq_none_iff.mpr fun s hs hk => h (List.mem_map.mpr ⟨s, hs, hk⟩)
    rw [find?, List.find?_append, ← find?]
    split
    · rename_i hk
      rw [hk, hnone]
      simp
    · rename_i hk
      simp [Ne.symm hk]

theorem find?_update {t : Table key} {p : α → Bool} {f : α → α} {hf} :
    (t.update p f hf).find? k = (t.find? k).map fun r => if p r then f r else r := by
  have hk : ∀ r, key (if p r then f r else r) = key r := by
    intro r
    split
    · exact hf r
    · rfl
  simp only [update, find?, List.find?_map, Function.comp_def, hk]

/-- An update of the one row with key `k`, when it meets `q`. -/
theorem find?_update_one {t : Table key} {q : α → Prop} [DecidablePred q] {f : α → α} {hf} :
    (t.update (fun r => key r = k ∧ q r) f hf).find? k' =
      if k' = k then (t.find? k').map fun r => if q r then f r else r else t.find? k' := by
  rw [find?_update]
  cases h : t.find? k' with
  | none => simp
  | some r =>
    have hr : key r = k' := find?_key h
    by_cases hk : k' = k <;> simp [hr, hk]

omit [DecidableEq κ] in
theorem update_of_forall_not {t : Table key} {p : α → Bool} {f : α → α} {hf}
    (h : ∀ r ∈ t.rows, p r = false) : t.update p f hf = t := by
  have hrows : (t.update p f hf).rows = t.rows := by
    conv_rhs => rw [← List.map_id t.rows]
    exact List.map_congr_left fun r hr => by simp [h r hr]
  cases t
  simpa only [update, mk.injEq] using hrows

omit [DecidableEq κ] in
theorem count_eq_zero_iff {t : Table key} {p : α → Bool} :
    t.count p = 0 ↔ ∀ r ∈ t.rows, p r = false := by
  simp [count, List.countP_eq_zero]

omit [DecidableEq κ] in
/-- A condition that at most one key meets selects at most one row. -/
theorem length_filter_le_one {t : Table key} {p : α → Bool}
    (h : ∀ r ∈ t.rows, ∀ s ∈ t.rows, p r → p s → key r = key s) : (t.rows.filter p).length ≤ 1 := by
  have hnodup : ((t.rows.filter p).map key).Nodup := (List.filter_sublist.map key).nodup t.nodup
  match hrows : t.rows.filter p with
  | [] => exact Nat.zero_le 1
  | [_] => exact Nat.le_refl 1
  | r :: s :: rows =>
    have hr := List.mem_filter.mp (hrows ▸ List.mem_cons_self : r ∈ t.rows.filter p)
    have hs := List.mem_filter.mp
      (hrows ▸ List.mem_cons_of_mem _ List.mem_cons_self : s ∈ t.rows.filter p)
    rw [hrows] at hnodup
    simp [h r hr.1 s hs.1 hr.2 hs.2] at hnodup

/-- Fewer keys are fewer rows. -/
theorem length_le_of_subset {t t' : Table key} (h : ∀ k, (t'.find? k).isSome → (t.find? k).isSome) :
    t'.rows.length ≤ t.rows.length := by
  have hsubset : t'.rows.map key ⊆ t.rows.map key := by
    intro k hk
    obtain ⟨r, hr, rfl⟩ := List.mem_map.mp hk
    obtain ⟨s, hs⟩ := Option.isSome_iff_exists.mp
      (h (key r) (Option.isSome_iff_exists.mpr ⟨r, mem_rows_iff.mp hr⟩))
    exact List.mem_map.mpr ⟨s, find?_eq_some_iff.mp hs⟩
  simpa using (List.subperm_of_subset t'.nodup hsubset).length_le

/-! ## Sorted selections -/

omit [DecidableEq κ] in
theorem nodup_sorted_keys {t : Table key} {p : α → Bool} {r : α → α → Prop} [DecidableRel r] :
    (((t.rows.filter p).insertionSort r).map key).Nodup := by
  have h : (((t.rows.filter p).insertionSort r).map key).Perm ((t.rows.filter p).map key) :=
    (List.perm_insertionSort r _).map _
  exact h.nodup_iff.mpr ((List.filter_sublist.map key).nodup t.nodup)

theorem mem_sorted_keys {t : Table key} {p : α → Bool} {r : α → α → Prop} [DecidableRel r] :
    k ∈ ((t.rows.filter p).insertionSort r).map key ↔ ∃ a, t.find? k = some a ∧ p a := by
  simp only [List.mem_map, List.mem_insertionSort, List.mem_filter, find?_eq_some_iff]
  exact ⟨fun ⟨a, ⟨ha, hp⟩, hk⟩ => ⟨a, ⟨ha, hk⟩, hp⟩, fun ⟨a, ⟨ha, hk⟩, hp⟩ => ⟨a, ⟨ha, hp⟩, hk⟩⟩

/-! ## Deletion -/

theorem find?_delete {t : Table key} {p : α → Bool} :
    (t.delete p).find? k = (t.find? k).filter fun r => !p r := by
  cases h : t.find? k with
  | none =>
    rw [find?_eq_none_iff] at h
    simp only [Option.filter_none, find?_eq_none_iff]
    exact fun r hr => h r (List.mem_of_mem_filter hr)
  | some r =>
    obtain ⟨hr, rfl⟩ := find?_eq_some_iff.mp h
    by_cases hp : p r
    · simp only [hp, Bool.not_true, Option.filter_some, Bool.false_eq_true, if_false,
        find?_eq_none_iff]
      intro s hs hk
      have hsm := List.mem_filter.mp hs
      rw [key_inj hsm.1 hr hk] at hsm
      simp [hp] at hsm
    · simp only [hp, Bool.not_false, Option.filter_some, if_true, find?_eq_some_iff]
      exact ⟨List.mem_filter.mpr ⟨hr, by simp [hp]⟩, trivial⟩

/-- A limited deletion deletes only rows that meet the condition. -/
theorem find?_deleteFirst {t : Table key} {p : α → Bool} (h : t.find? k = some r)
    (hp : p r = false) : (t.deleteFirst n p).2.find? k = some r := by
  rw [deleteFirst, find?_delete, h, Option.filter_some, if_pos]
  simp only [Bool.not_eq_true', decide_eq_false_iff_not, List.mem_map, not_exists, not_and]
  intro s hs hk
  obtain ⟨hs, hps⟩ := List.mem_filter.mp (List.mem_of_mem_take hs)
  rw [key_inj hs (find?_eq_some_iff.mp h).1 hk, hp] at hps
  cases hps

theorem find?_of_deleteFirst {t : Table key} {p : α → Bool}
    (h : (t.deleteFirst n p).2.find? k = some r) : t.find? k = some r := by
  rw [deleteFirst, find?_delete, Option.filter_eq_some_iff] at h
  exact h.1

end Table

/-! ## Corresponding lists -/

/-- What corresponds to an element of the second list. -/
theorem exists_of_mem_right {R : α → β → Prop} {as : List α} {bs : List β} (h : List.Forall₂ R as bs)
    (hb : b ∈ bs) : ∃ a ∈ as, R a b := by
  induction h with
  | nil => cases hb
  | @cons a b' as bs hab _ ih =>
    rcases List.mem_cons.mp hb with rfl | hb
    · exact ⟨a, List.mem_cons_self, hab⟩
    · obtain ⟨a', ha', h⟩ := ih hb
      exact ⟨a', List.mem_cons_of_mem _ ha', h⟩

/-- What corresponds to an element of the first list. -/
theorem exists_of_mem_left {R : α → β → Prop} {as : List α} {bs : List β} (h : List.Forall₂ R as bs)
    (ha : a ∈ as) : ∃ b ∈ bs, R a b :=
  exists_of_mem_right (R := flip R) (.flip h) ha

end CcReminder.Lib
