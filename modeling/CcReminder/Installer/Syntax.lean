import CcReminder.Installer.Patch
import CcReminder.Lib.JsonText
import CcReminder.Lib.Listing

/-!
# Arrays as text

An array of a configuration as text: what stands between its nodes, and each node as a text with its syntax
tree (`Raw`). The tree of the array at a position follows from the nodes and their places.
-/

set_option autoImplicit true

namespace CcReminder

open Lib

namespace Jsonc

/-! ## Text between nodes -/

/-- White space and comments. -/
inductive IsTrivia : List UInt8 → Prop
  | nil : IsTrivia []
  | space : JsonText.isSpace b = true → IsTrivia text → IsTrivia (b :: text)
  | line : (∀ b ∈ body, b ≠ 10) → IsTrivia text → IsTrivia (47 :: 47 :: (body ++ 10 :: text))
  | block : ¬ [42, 47] <:+: body ++ [42] → IsTrivia text → IsTrivia (47 :: 42 :: (body ++ 42 :: 47 :: text))

theorem IsTrivia.append (h : IsTrivia text) (h' : IsTrivia text') : IsTrivia (text ++ text') := by
  induction h with
  | nil => exact h'
  | space hb _ ih => exact .space hb ih
  | line hbody _ ih =>
    rw [List.cons_append, List.cons_append, List.append_assoc]
    exact .line hbody ih
  | block hbody _ ih =>
    rw [List.cons_append, List.cons_append, List.append_assoc]
    exact .block hbody ih

theorem IsTrivia.of_space (h : JsonText.Space text) : IsTrivia text := by
  induction text with
  | nil => exact .nil
  | cons b text ih =>
    obtain ⟨hb, htext⟩ := List.forall_mem_cons.mp h
    exact .space hb (ih htext)

/-! ## Moving a tree -/

def Range.shift (k : Nat) (r : Range) : Range := ⟨k + r.start, k + r.stop⟩

mutual

/-- The tree of the same text at a position `k` bytes further on. -/
def Value.shift (k : Nat) : Value → Value
  | .stringLit range value => .stringLit (range.shift k) value
  | .numberLit range value => .numberLit (range.shift k) value
  | .booleanLit range value => .booleanLit (range.shift k) value
  | .object range properties => .object (range.shift k) (shiftProperties k properties)
  | .array range elements => .array (range.shift k) (shiftElements k elements)
  | .nullKeyword range => .nullKeyword (range.shift k)

def shiftProperties (k : Nat) : List (Range × String × Value) → List (Range × String × Value)
  | [] => []
  | (range, name, value) :: properties => (range.shift k, name, value.shift k) :: shiftProperties k properties

def shiftElements (k : Nat) : List Value → List Value
  | [] => []
  | value :: elements => value.shift k :: shiftElements k elements

end

theorem shiftProperties_eq (k : Nat) (ps : List (Range × String × Value)) :
    shiftProperties k ps = ps.map fun p => (p.1.shift k, p.2.1, p.2.2.shift k) := by
  induction ps with
  | nil => rfl
  | cons p ps ih =>
    rw [shiftProperties, ih]
    rfl

theorem Value.range_shift (k : Nat) (v : Value) : (v.shift k).range = v.range.shift k := by
  cases v <;> rfl

theorem Value.asStringLit_shift (k : Nat) (v : Value) : (v.shift k).asStringLit = v.asStringLit := by
  cases v <;> rfl

/-- The string of a property does not depend on where the text stands. -/
theorem Value.getString_shift (k : Nat) (v : Value) (name : String) :
    (v.shift k).asObject.bind (·.getString name) = v.asObject.bind (·.getString name) := by
  cases v with
  | object range properties =>
    simp only [Value.shift, Value.asObject, Option.bind_some, Object.getString, Object.get, shiftProperties_eq,
      List.map_map, List.find?_map]
    have hname : ((fun p : ObjectProp => decide (p.name = name)) ∘
        (fun p : Range × String × Value => (⟨p.1, p.2.1, p.2.2⟩ : ObjectProp)) ∘
          fun p => (p.1.shift k, p.2.1, p.2.2.shift k)) =
        (fun p : ObjectProp => decide (p.name = name)) ∘
          fun p : Range × String × Value => ⟨p.1, p.2.1, p.2.2⟩ := rfl
    rw [hname]
    cases properties.find? ((fun p : ObjectProp => decide (p.name = name)) ∘
      fun p : Range × String × Value => ⟨p.1, p.2.1, p.2.2⟩) with
    | none => rfl
    | some p => exact Value.asStringLit_shift k p.2.2
  | _ => rfl

end Jsonc

open Jsonc (IsTrivia)

/-! ## Nodes -/

/-- A node that patching does not look into. -/
structure Raw where
  text : List UInt8
  value : Jsonc.Value
  range_eq : value.range = ⟨0, text.length⟩

/-- The tree of the node at a position. -/
def Raw.tree (n : Nat) (r : Raw) : Jsonc.Value := r.value.shift n

theorem Raw.range_tree (n : Nat) (r : Raw) : (r.tree n).range = ⟨n, n + r.text.length⟩ := by
  rw [Raw.tree, Jsonc.Value.range_shift, r.range_eq]
  rfl

/-- The text of an array. -/
def arrayText (l : Listing UInt8 Raw) : List UInt8 := 91 :: l.text comma Raw.text ++ [93]

def arrayElements (n : Nat) (l : Listing UInt8 Raw) : List Jsonc.Value :=
  (l.places comma Raw.text (n + 1)).map fun p => p.2.tree p.1

/-- The syntax of an array. -/
def arraySyntax (n : Nat) (l : Listing UInt8 Raw) : Jsonc.Array :=
  ⟨⟨n, n + (arrayText l).length⟩, arrayElements n l⟩

end CcReminder
