import Mathlib.Data.List.Pairwise

/-!
# Splicing a text

A text is cut into pieces, each of which is kept or changed. The changes of the pieces are spans of the
text with what comes in their place, and to apply them is to read off what the pieces become
(`Splice.apply_changes`).

Changes that are `Apart` stand in one order only, so that it does not matter in which order they were
found.
-/

set_option autoImplicit true

namespace CcReminder.Lib

inductive Piece (α : Type) where
  | keep (text : List α)
  | change (text new : List α)

/-- A span of a text, and what comes in its place. -/
structure Change (α : Type) where
  start : Nat
  stop : Nat
  text : List α

namespace Piece

def old : Piece α → List α
  | keep text => text
  | change text _ => text

def new : Piece α → List α
  | keep text => text
  | change _ new => new

end Piece

namespace Splice

variable {ps qs : List (Piece α)} {n : Nat}

def old (ps : List (Piece α)) : List α := ps.flatMap Piece.old

def new (ps : List (Piece α)) : List α := ps.flatMap Piece.new

/-- The changes of a text that stands at a position. -/
def changes : Nat → List (Piece α) → List (Change α)
  | _, [] => []
  | n, .keep text :: ps => changes (n + text.length) ps
  | n, .change text new :: ps => ⟨n, n + text.length, new⟩ :: changes (n + text.length) ps

@[simp] theorem old_nil : old ([] : List (Piece α)) = [] := rfl

@[simp] theorem new_nil : new ([] : List (Piece α)) = [] := rfl

@[simp] theorem old_keep : old (.keep text :: ps) = text ++ old ps := rfl

@[simp] theorem new_keep : new (.keep text :: ps) = text ++ new ps := rfl

@[simp] theorem old_change : old (.change text text' :: ps) = text ++ old ps := rfl

@[simp] theorem new_change : new (.change text text' :: ps) = text' ++ new ps := rfl

@[simp] theorem old_append : old (ps ++ qs) = old ps ++ old qs := List.flatMap_append

@[simp] theorem new_append : new (ps ++ qs) = new ps ++ new qs := List.flatMap_append

@[simp] theorem changes_nil : changes n ([] : List (Piece α)) = [] := rfl

@[simp] theorem changes_keep : changes n (.keep text :: ps) = changes (n + text.length) ps := rfl

@[simp] theorem changes_change : changes n (.change text text' :: ps) =
    ⟨n, n + text.length, text'⟩ :: changes (n + text.length) ps := rfl

theorem changes_append : changes n (ps ++ qs) = changes n ps ++ changes (n + (old ps).length) qs := by
  induction ps generalizing n with
  | nil => rfl
  | cons p ps ih =>
    cases p with
    | keep text => simp only [List.cons_append, changes_keep, ih, old_keep, List.length_append, Nat.add_assoc]
    | change text new =>
      simp only [List.cons_append, changes_change, ih, old_change, List.length_append, Nat.add_assoc]

/-- Changes stand in their text. -/
theorem within {e : Change α} (h : e ∈ changes n ps) :
    n ≤ e.start ∧ e.start ≤ e.stop ∧ e.stop ≤ n + (old ps).length := by
  induction ps generalizing n with
  | nil => cases h
  | cons p ps ih =>
    cases p with
    | keep text =>
      obtain ⟨h₁, h₂, h₃⟩ := ih h
      rw [old_keep, List.length_append]
      omega
    | change text new =>
      rw [old_change, List.length_append]
      rcases List.mem_cons.mp h with rfl | h
      · exact ⟨Nat.le_refl _, Nat.le_add_right _ _, by dsimp only; omega⟩
      · obtain ⟨h₁, h₂, h₃⟩ := ih h
        omega

/-! ## Applying changes -/

/-- The text from the cursor on, with the changes; there is none when two changes overlap. -/
def apply (source : List α) : Nat → List (Change α) → Option (List α)
  | cursor, [] => some (source.drop cursor)
  | cursor, e :: es =>
    if e.start < cursor then none
    else (apply source e.stop es).map fun rest => (source.drop cursor).take (e.start - cursor) ++ e.text ++ rest

theorem apply_from {before after : List α} {cursor : Nat} (hcursor : cursor ≤ before.length) :
    apply (before ++ old ps ++ after) cursor (changes before.length ps) =
      some (before.drop cursor ++ new ps ++ after) := by
  induction ps generalizing before cursor with
  | nil =>
    rw [changes_nil, apply, old_nil, new_nil, List.append_nil, List.append_nil,
      List.drop_append_of_le_length hcursor]
  | cons p ps ih =>
    cases p with
    | keep text =>
      have hle : cursor ≤ (before ++ text).length := by
        rw [List.length_append]
        omega
      have h := ih hle
      rw [List.length_append, List.drop_append_of_le_length hcursor] at h
      simpa only [changes_keep, old_keep, new_keep, List.append_assoc] using h
    | change text new =>
      have h := ih (show before.length + text.length ≤ (before ++ text).length from
        Nat.le_of_eq List.length_append.symm)
      rw [List.length_append, List.drop_of_length_le (Nat.le_of_eq List.length_append)] at h
      have hkept : ((before ++ (text ++ old ps) ++ after).drop cursor).take (before.length - cursor) =
          before.drop cursor := by
        rw [List.append_assoc, List.drop_append_of_le_length hcursor,
          List.take_append_of_le_length (Nat.le_of_eq List.length_drop.symm),
          List.take_of_length_le (Nat.le_of_eq List.length_drop)]
      rw [changes_change, apply, if_neg (Nat.not_lt.mpr hcursor), old_change, new_change, hkept]
      simp only [← List.append_assoc] at h ⊢
      rw [h]
      simp only [List.nil_append, Option.map_some, List.append_assoc]

/-- **Splicing.** -/
theorem apply_changes {before after : List α} : apply (before ++ old ps ++ after) 0 (changes before.length ps) =
    some (before ++ new ps ++ after) := apply_from (Nat.zero_le _)

/-! ## Changes in one order only -/

/-- The order of changes, by their spans. -/
def Before (e f : Change α) : Prop := e.start < f.start ∨ e.start = f.start ∧ e.stop < f.stop

/-- No two insertions at one position. -/
def Apart (ps : List (Piece α)) : Prop := ∀ n, (changes n ps).Pairwise Before

/-- The last change is not an insertion at the end. -/
def EndsKept (ps : List (Piece α)) : Prop := ∀ n, ∀ e ∈ changes n ps, e.start < n + (old ps).length

/-- The first change is not an insertion at the start. -/
def StartsKept (ps : List (Piece α)) : Prop := ∀ n, ∀ e ∈ changes n ps, n < e.stop

theorem Apart.append (hps : Apart ps) (hqs : Apart qs) (h : EndsKept ps ∨ StartsKept qs) : Apart (ps ++ qs) := by
  intro n
  rw [changes_append]
  refine List.pairwise_append.mpr ⟨hps n, hqs _, fun e he f hf => ?_⟩
  have hin := within he
  have hin' := within hf
  rcases h with h | h
  · have := h n e he
    exact .inl (by omega)
  · have := h _ f hf
    unfold Before
    omega

theorem Apart.before_or {c d : Change α} (h : Apart ps) (hc : c ∈ changes n ps) (hd : d ∈ changes n ps)
    (hne : c ≠ d) : Before c d ∨ Before d c := by
  have hsymm : Std.Symm (fun c d : Change α => Before c d ∨ Before d c) := ⟨fun _ _ => Or.symm⟩
  have hor : (changes n ps).Pairwise fun c d => Before c d ∨ Before d c := (h n).imp Or.inl
  exact hor.forall hc hd hne

theorem apart_nil : Apart ([] : List (Piece α)) := fun _ => List.Pairwise.nil

theorem Apart.keep (h : Apart ps) : Apart (.keep text :: ps) := fun n => h (n + text.length)

theorem Apart.change (htext : text ≠ []) (h : Apart ps) : Apart (.change text text' :: ps) := by
  refine fun n => List.pairwise_cons.mpr ⟨fun f hf => .inl ?_, h _⟩
  have := within hf
  have := List.length_pos_iff.mpr htext
  dsimp only
  omega

theorem apart_single : Apart [Piece.change text text'] := fun _ => List.pairwise_singleton _ _

theorem startsKept_keep (htext : text ≠ []) : StartsKept (.keep text :: ps) := by
  intro n e he
  have := within (show e ∈ changes (n + text.length) ps from he)
  have := List.length_pos_iff.mpr htext
  omega

theorem startsKept_change (htext : text ≠ []) : StartsKept (.change text text' :: ps) := by
  intro n e he
  have := List.length_pos_iff.mpr htext
  rcases List.mem_cons.mp he with rfl | he
  · exact Nat.lt_add_of_pos_right this
  · have := within he
    omega

theorem StartsKept.keep (h : StartsKept ps) : StartsKept (.keep text :: ps) := fun n e he =>
  Nat.lt_of_le_of_lt (Nat.le_add_right _ _) (h (n + text.length) e he)

theorem endsKept_keep (htext : text ≠ []) : EndsKept (ps ++ [Piece.keep text]) := by
  intro n e he
  rw [changes_append, changes_keep, changes_nil, List.append_nil] at he
  have := within he
  have := List.length_pos_iff.mpr htext
  rw [old_append, old_keep, old_nil, List.append_nil, List.length_append]
  omega

end Splice

end CcReminder.Lib
