import Mathlib.Algebra.BigOperators.Group.List.Basic
import Mathlib.Algebra.GroupWithZero.Nat
import Mathlib.Data.List.Basic

/-!
# JSON values

A value is a tree. `Json.nodes`, `Json.depth` and `Json.fields` measure it: how many values it
contains, how deep they are nested, and how many members its objects have together.
-/

set_option autoImplicit true

namespace CcReminder.Lib

/-- A JSON value over a type of numbers. -/
inductive Json (ν : Type) where
  | null
  | bool (value : Bool)
  | number (value : ν)
  | string (value : String)
  | array (elements : List (Json ν))
  | object (members : List (String × Json ν))

namespace Json

/-- The values directly inside. -/
def children : Json ν → List (Json ν)
  | .array elements => elements
  | .object members => members.map (·.2)
  | _ => []

/-- The members of the value itself. -/
def memberCount : Json ν → Nat
  | .object members => members.length
  | _ => 0

theorem sizeOf_children {value : Json ν} (h : child ∈ value.children) : sizeOf child < sizeOf value := by
  cases value with
  | array elements =>
    have hlt : sizeOf child < sizeOf elements := List.sizeOf_lt_of_mem h
    simp only [array.sizeOf_spec]
    omega
  | object members =>
    obtain ⟨m, hm, rfl⟩ := List.mem_map.mp (h : child ∈ members.map (·.2))
    have := List.sizeOf_lt_of_mem hm
    obtain ⟨name, value⟩ := m
    simp only [object.sizeOf_spec, Prod.mk.sizeOf_spec] at *
    omega
  | null | bool | number | string => cases h

/-- **Induction over the values inside.** -/
theorem induct {P : Json ν → Prop} (h : ∀ value, (∀ child ∈ value.children, P child) → P value)
    (value : Json ν) : P value :=
  h value fun child _ => induct h child
termination_by sizeOf value
decreasing_by exact sizeOf_children ‹_›

/-! ## Measures -/

/-- The number of values, itself included. -/
def nodes (value : Json ν) : Nat := 1 + (value.children.attach.map fun child => child.1.nodes).sum
termination_by sizeOf value
decreasing_by exact sizeOf_children child.2

/-- The longest way down. -/
def depth (value : Json ν) : Nat :=
  (value.children.attach.map fun child => child.1.depth + 1).foldr max 0
termination_by sizeOf value
decreasing_by exact sizeOf_children child.2

/-- The number of members of all objects. -/
def fields (value : Json ν) : Nat :=
  value.memberCount + (value.children.attach.map fun child => child.1.fields).sum
termination_by sizeOf value
decreasing_by exact sizeOf_children child.2

theorem nodes_eq (value : Json ν) : value.nodes = 1 + (value.children.map nodes).sum := by
  rw [nodes]
  simp

theorem depth_eq (value : Json ν) :
    value.depth = (value.children.map fun child => child.depth + 1).foldr max 0 := by
  rw [depth]
  simp

theorem fields_eq (value : Json ν) :
    value.fields = value.memberCount + (value.children.map fields).sum := by
  rw [fields]
  simp

theorem depth_le_iff {value : Json ν} : value.depth ≤ n ↔ ∀ child ∈ value.children, child.depth < n := by
  rw [depth_eq]
  induction value.children with
  | nil => simp
  | cons child rest ih =>
    rw [List.map_cons, List.foldr_cons, Nat.max_le, ih, List.forall_mem_cons, Nat.add_one_le_iff]

end Json

end CcReminder.Lib
