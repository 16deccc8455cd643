import CcReminder.Lib.Json
import CcReminder.Lib.JsonText

/-!
# The input of a hook

`read_hook_stdin` and `walk_limits` of `hook_command.rs`: the helper reads its standard input until a
JSON document is complete, and bounds what it has read before it looks at it.
-/

set_option autoImplicit true

namespace CcReminder

open Lib

def MAX_HOOK_BYTES : Nat := 1048576
def MAX_JSON_DEPTH : Nat := 32
def MAX_JSON_FIELDS : Nat := 256
def MAX_JSON_NODES : Nat := 4096

/-! ## Limits -/

namespace WalkLimits

/-- The stack of values with their depths. -/
abbrev Stack (ν : Type) := List (Json ν × Nat)

def Stack.nodes (stack : Stack ν) : Nat := (stack.map fun e => e.1.nodes).sum

def Stack.fields (stack : Stack ν) : Nat := (stack.map fun e => e.1.fields).sum

/-- The children of a value in the order in which they are visited. -/
structure Order (ν : Type) where
  visit : Json ν → List (Json ν)
  perm : ∀ value, (visit value).Perm value.children

theorem Stack.nodes_visit (order : Order ν) (value : Json ν) (d e : Nat) (rest : Stack ν) :
    Stack.nodes ((order.visit value).map (·, d) ++ rest) + 1 = Stack.nodes ((value, e) :: rest) := by
  have hperm := ((order.perm value).map Json.nodes).sum_eq
  simp only [nodes, List.map_append, List.map_map, Function.comp_def, List.sum_append, List.map_cons,
    List.sum_cons, hperm, value.nodes_eq]
  omega

theorem Stack.nodes_leaf (value : Json ν) (rest : Stack ν) :
    Stack.nodes rest < Stack.nodes ((value, d) :: rest) := by
  simp only [nodes, List.map_cons, List.sum_cons, value.nodes_eq]
  omega

/-- The walk over the values that are left, with what was counted so far. -/
def walk (order : Order ν) (stack : Stack ν) (nodes fields : Nat) : Except String Unit :=
  match _h : stack with
  | [] => .ok ()
  | (value, d) :: rest =>
    if nodes + 1 > MAX_JSON_NODES ∨ d > MAX_JSON_DEPTH then .error "limits"
    else match value with
      | .object members =>
        if fields + members.length > MAX_JSON_FIELDS then .error "fields"
        else walk order ((order.visit (.object members)).map (·, d + 1) ++ rest) (nodes + 1)
          (fields + members.length)
      | .array elements =>
        walk order ((order.visit (.array elements)).map (·, d + 1) ++ rest) (nodes + 1) fields
      | .null | .bool _ | .number _ | .string _ => walk order rest (nodes + 1) fields
termination_by Stack.nodes stack
decreasing_by
  · exact Nat.le_of_eq (Stack.nodes_visit order _ _ _ rest)
  · exact Nat.le_of_eq (Stack.nodes_visit order _ _ _ rest)
  all_goals exact Stack.nodes_leaf _ rest

/-- The last child that was pushed is visited first. -/
def lastFirst : Order ν where
  visit value := value.children.reverse
  perm value := value.children.reverse_perm

end WalkLimits

/-- `walk_limits`. -/
def walkLimits (value : Json ν) : Except String Unit := WalkLimits.walk WalkLimits.lastFirst [(value, 0)] 0 0

namespace WalkLimits

variable {order : Order ν}

/-- The values that are left are nested within the limit. -/
def Stack.Shallow (stack : Stack ν) : Prop := ∀ e ∈ stack, e.2 + e.1.depth ≤ MAX_JSON_DEPTH

/-- One step: a value within the limits is replaced by its children. -/
theorem walk_cons (value : Json ν) (d : Nat) (rest : Stack ν) (hfields : fields ≤ MAX_JSON_FIELDS) :
    walk order ((value, d) :: rest) nodes fields = .ok () ↔
      nodes + 1 ≤ MAX_JSON_NODES ∧ d ≤ MAX_JSON_DEPTH ∧ fields + value.memberCount ≤ MAX_JSON_FIELDS ∧
        walk order ((order.visit value).map (·, d + 1) ++ rest) (nodes + 1) (fields + value.memberCount) =
          .ok () := by
  have hleaf : value.children = [] → order.visit value = [] := fun h =>
    List.Perm.eq_nil (h ▸ order.perm value)
  conv_lhs => rw [walk.eq_def]
  dsimp only
  split
  · rename_i hlimit
    refine ⟨nofun, fun h => ?_⟩
    omega
  · rename_i hlimit
    cases value with
    | object members =>
      simp only [Json.memberCount]
      split
      · rename_i hover
        refine ⟨nofun, fun h => ?_⟩
        omega
      · exact ⟨fun h => ⟨by omega, by omega, by omega, h⟩, fun h => h.2.2.2⟩
    | array elements => exact ⟨fun h => ⟨by omega, by omega, hfields, h⟩, fun h => h.2.2.2⟩
    | null | bool | number | string =>
      rw [hleaf rfl]
      exact ⟨fun h => ⟨by omega, by omega, hfields, h⟩, fun h => h.2.2.2⟩

theorem walk_nil : walk order [] nodes fields = .ok () := by
  unfold walk
  rfl

theorem Stack.fields_visit (order : Order ν) (value : Json ν) (d e : Nat) (rest : Stack ν) :
    value.memberCount + Stack.fields ((order.visit value).map (·, d) ++ rest) =
      Stack.fields ((value, e) :: rest) := by
  have hperm := ((order.perm value).map Json.fields).sum_eq
  simp only [fields, List.map_append, List.map_map, Function.comp_def, List.sum_append, List.map_cons,
    List.sum_cons, hperm, value.fields_eq]
  omega

/-- A value is nested within the limit when it stands there and its children are. -/
theorem Stack.shallow_visit (order : Order ν) (value : Json ν) (d : Nat) (rest : Stack ν) :
    d ≤ MAX_JSON_DEPTH ∧ Stack.Shallow ((order.visit value).map (·, d + 1) ++ rest) ↔
      Stack.Shallow ((value, d) :: rest) := by
  have hvalue : (d ≤ MAX_JSON_DEPTH ∧ ∀ child ∈ order.visit value, d + 1 + child.depth ≤ MAX_JSON_DEPTH) ↔
      d + value.depth ≤ MAX_JSON_DEPTH := by
    constructor
    · rintro ⟨hd, hchildren⟩
      have hdepth : value.depth ≤ MAX_JSON_DEPTH - d := Json.depth_le_iff.mpr fun child hchild => by
        have := hchildren child ((order.perm value).mem_iff.mpr hchild)
        omega
      omega
    · intro h
      refine ⟨by omega, fun child hchild => ?_⟩
      have := Json.depth_le_iff.mp (Nat.le_refl value.depth) child ((order.perm value).mem_iff.mp hchild)
      omega
  simp only [Shallow, List.forall_mem_append, List.forall_mem_map, List.forall_mem_cons]
  rw [← and_assoc, hvalue]

/-- **The walk** accepts when what is left fits into what the limits leave. -/
theorem walk_ok_iff (stack : Stack ν) (hnodes : nodes ≤ MAX_JSON_NODES)
    (hfields : fields ≤ MAX_JSON_FIELDS) : walk order stack nodes fields = .ok () ↔
      nodes + stack.nodes ≤ MAX_JSON_NODES ∧ stack.Shallow ∧ fields + stack.fields ≤ MAX_JSON_FIELDS := by
  induction hn : stack.nodes using Nat.strongRecOn generalizing stack nodes fields with
  | _ n ih =>
    cases stack with
    | nil =>
      subst hn
      simpa [walk_nil, Stack.nodes, Stack.fields, Stack.Shallow] using ⟨hnodes, hfields⟩
    | cons e rest =>
      obtain ⟨value, d⟩ := e
      subst hn
      have hcount := Stack.nodes_visit order value (d + 1) d rest
      have hmembers := Stack.fields_visit order value (d + 1) d rest
      have hshallow := Stack.shallow_visit order value d rest
      rw [walk_cons value d rest hfields, ← hshallow]
      constructor
      · rintro ⟨hnodes', hd, hfields', hwalk⟩
        obtain ⟨h₁, h₂, h₃⟩ := (ih _ (by omega) _ hnodes' hfields' rfl).mp hwalk
        exact ⟨by omega, ⟨hd, h₂⟩, by omega⟩
      · rintro ⟨h₁, ⟨hd, h₂⟩, h₃⟩
        have hnodes' : nodes + 1 ≤ MAX_JSON_NODES := by omega
        have hfields' : fields + value.memberCount ≤ MAX_JSON_FIELDS := by omega
        exact ⟨hnodes', hd, hfields',
          (ih _ (by omega) _ hnodes' hfields' rfl).mpr ⟨by omega, h₂, by omega⟩⟩

/-- **The limits** of a hook's input, in whatever order the children of a value are visited. -/
theorem walkLimits_iff (value : Json ν) :
    (walkLimits value = .ok () ↔
      value.nodes ≤ MAX_JSON_NODES ∧ value.depth ≤ MAX_JSON_DEPTH ∧ value.fields ≤ MAX_JSON_FIELDS) ∧
    ∀ order : Order ν, walk order [(value, 0)] 0 0 = .ok () ↔ walkLimits value = .ok () := by
  have hwalk : ∀ order : Order ν, walk order [(value, 0)] 0 0 = .ok () ↔
      value.nodes ≤ MAX_JSON_NODES ∧ value.depth ≤ MAX_JSON_DEPTH ∧ value.fields ≤ MAX_JSON_FIELDS := by
    intro order
    rw [walk_ok_iff _ (Nat.zero_le _) (Nat.zero_le _)]
    simp [Stack.nodes, Stack.fields, Stack.Shallow]
  exact ⟨hwalk lastFirst, fun order => (hwalk order).trans (hwalk lastFirst).symm⟩

end WalkLimits

/-! ## Reading -/

/-- What comes from the reading thread, and the deadline. -/
inductive Received where
  | chunk (bytes : List UInt8)
  | eof
  | timeout
  | disconnected

/-- `serde_json::from_slice`. -/
abbrev JsonParser (ν : Type) := List UInt8 → Option (Json ν)

/-- The loop of `read_hook_stdin` with its input so far. When nothing more comes the deadline passes. -/
def readLoop (parse : JsonParser ν) (input : List UInt8) : List Received → Except String (List UInt8)
  | .chunk bytes :: rest =>
    if (input ++ bytes).length > MAX_HOOK_BYTES then .error "oversize"
    else if (parse (input ++ bytes)).isSome then .ok (input ++ bytes)
    else readLoop parse (input ++ bytes) rest
  | .eof :: _ | .disconnected :: _ => .ok input
  | .timeout :: _ | [] =>
    if input = [] then .error "stdin"
    else if (parse input).isSome then .ok input
    else .error "stdin"

def readHookStdin (parse : JsonParser ν) (received : List Received) : Except String (List UInt8) :=
  readLoop parse [] received

/-- What is known of the parser: it accepts documents only, an object is the text of an object, and space at
the end changes nothing. -/
structure JsonParser.Lawful (parse : JsonParser ν) : Prop where
  document : parse text = some value → JsonText.Document text
  object : parse text = some (.object members) → ∃ before object after,
    JsonText.Space before ∧ JsonText.Object object ∧ JsonText.Space after ∧ text = before ++ object ++ after
  trailing : ∀ text, JsonText.Space after → parse (text ++ after) = parse text

namespace JsonParser.Lawful

variable {parse : JsonParser ν} {before object after : List UInt8}

theorem nil (h : parse.Lawful) : parse [] = none := by
  cases hparse : parse [] with
  | none => rfl
  | some value =>
    obtain ⟨b, v, a, -, hvalue, -, heq⟩ := h.document hparse
    rw [List.nil_eq, List.append_eq_nil_iff, List.append_eq_nil_iff] at heq
    exact absurd (heq.1.2 ▸ nofun) hvalue.not_space

/-- Nothing is accepted before the object ends. -/
theorem cut (h : parse.Lawful) (hbefore : JsonText.Space before) (hobject : JsonText.Object object)
    (hstart : start <+: before ++ object ++ after)
    (hcut : start.length < before.length + object.length) : parse start = none := by
  cases hparse : parse start with
  | none => rfl
  | some value =>
    have hstart' : start <+: before ++ object := by
      refine List.prefix_of_prefix_length_le hstart (List.prefix_append _ after) ?_
      rw [List.length_append]
      omega
    exact absurd (h.document hparse) (hobject.cut_not_document hbefore hstart' hcut)

/-- From its end on the object is what is read. -/
theorem whole (h : parse.Lawful) (hafter : JsonText.Space after)
    (hstart : start <+: before ++ object ++ after)
    (hlong : before.length + object.length ≤ start.length) :
    parse start = parse (before ++ object ++ after) := by
  have hobject : before ++ object <+: start := by
    refine List.prefix_of_prefix_length_le (List.prefix_append _ after) hstart ?_
    rwa [List.length_append]
  obtain ⟨rest, rfl⟩ := hobject
  have hrest : rest <+: after := (List.prefix_append_right_inj (before ++ object)).mp hstart
  rw [h.trailing _ fun b hb => hafter b (hrest.subset hb), h.trailing _ hafter]

end JsonParser.Lawful

/-- **The reading loop** ends at the first chunk with the end of the object, or at the chunk that goes over the
limit. -/
theorem readLoop_chunks {parse : JsonParser ν} (h : parse.Lawful) (hbefore : JsonText.Space before)
    (hobject : JsonText.Object object) (hafter : JsonText.Space after)
    (hparse : parse (before ++ object ++ after) = some value) (chunks : List (List UInt8))
    (later : List Received) (hinput : input ++ chunks.flatten = before ++ object ++ after)
    (hcut : input.length < before.length + object.length) :
    (∃ start, start <+: before ++ object ++ after ∧ before.length + object.length ≤ start.length ∧
      start.length ≤ MAX_HOOK_BYTES ∧
      readLoop parse input (chunks.map .chunk ++ later) = .ok start ∧ parse start = some value) ∨
    MAX_HOOK_BYTES < (before ++ object ++ after).length ∧
      readLoop parse input (chunks.map .chunk ++ later) = .error "oversize" := by
  induction chunks generalizing input with
  | nil =>
    rw [List.flatten_nil, List.append_nil] at hinput
    subst hinput
    simp only [List.length_append] at hcut
    omega
  | cons chunk chunks ih =>
    rw [List.flatten_cons, ← List.append_assoc] at hinput
    have hstart : input ++ chunk <+: before ++ object ++ after := ⟨_, hinput⟩
    rw [List.map_cons, List.cons_append, readLoop]
    by_cases hsize : (input ++ chunk).length > MAX_HOOK_BYTES
    · rw [if_pos hsize]
      exact .inr ⟨Nat.lt_of_lt_of_le hsize hstart.length_le, rfl⟩
    rw [if_neg hsize]
    by_cases hend : before.length + object.length ≤ (input ++ chunk).length
    · have hvalue := (h.whole hafter hstart hend).trans hparse
      rw [if_pos (by rw [hvalue]; rfl)]
      exact .inl ⟨_, hstart, hend, Nat.le_of_not_lt hsize, rfl, hvalue⟩
    · have hnone := h.cut hbefore hobject hstart (Nat.lt_of_not_le hend)
      rw [if_neg (by rw [hnone]; exact nofun)]
      exact ih hinput (Nat.lt_of_not_le hend)

/-- **Chunks do not matter.** However an object document is cut, the reader returns bytes that parse to the same
object, and no cut of the object parses. An object that ends behind the limit is turned down; one with too much
space behind it may be returned before the space is read. -/
theorem readHookStdin_chunks {parse : JsonParser ν} (h : parse.Lawful)
    (hdocument : parse document = some (.object members)) : ∃ before object after,
    JsonText.Space before ∧ JsonText.Object object ∧ JsonText.Space after ∧
      document = before ++ object ++ after ∧
      (∀ start, start <+: document → start.length < before.length + object.length → parse start = none) ∧
      ∀ (chunks : List (List UInt8)) (later : List Received), chunks.flatten = document →
        (document.length ≤ MAX_HOOK_BYTES → ∃ bytes,
          readHookStdin parse (chunks.map .chunk ++ later) = .ok bytes) ∧
        (∀ bytes, readHookStdin parse (chunks.map .chunk ++ later) = .ok bytes →
          before.length + object.length ≤ bytes.length ∧ parse bytes = some (.object members)) ∧
        (before.length + object.length > MAX_HOOK_BYTES →
          readHookStdin parse (chunks.map .chunk ++ later) = .error "oversize") := by
  obtain ⟨before, object, after, hbefore, hobject, hafter, rfl⟩ := h.object hdocument
  refine ⟨before, object, after, hbefore, hobject, hafter, rfl,
    fun start hstart hcut => h.cut hbefore hobject hstart hcut, fun chunks later hchunks => ?_⟩
  have hpos : ([] : List UInt8).length < before.length + object.length := by
    cases hobject
    simp only [List.length_nil, List.length_append, List.length_cons]
    omega
  rcases readLoop_chunks h hbefore hobject hafter hdocument chunks later hchunks hpos with
    ⟨start, hstart, hend, hsize, hrun, hvalue⟩ | ⟨hsize, hrun⟩
  · rw [readHookStdin, hrun]
    refine ⟨fun _ => ⟨start, rfl⟩, ?_, fun hlong => by omega⟩
    rintro bytes ⟨⟩
    exact ⟨hend, hvalue⟩
  · rw [readHookStdin, hrun]
    exact ⟨fun hshort => by omega, nofun, fun _ => rfl⟩

/-! ## An empty object -/

namespace Sample

/-- It knows the empty object. -/
def emptyObject : JsonParser Unit := fun text =>
  if text.filter (!JsonText.isSpace ·) = [123, 125] then some (.object []) else none

theorem emptyObject_eq_some {text : List UInt8} {value : Json Unit} (h : emptyObject text = some value) :
    ∃ before object after, JsonText.Space before ∧ JsonText.Object object ∧ JsonText.Space after ∧
      text = before ++ object ++ after := by
  unfold emptyObject at h
  split at h
  · rename_i hfilter
    obtain ⟨before, rest, rfl, hbefore, -, hrest⟩ := List.filter_eq_cons_iff.mp hfilter
    obtain ⟨middle, after, rfl, hmiddle, -, hafter⟩ := List.filter_eq_cons_iff.mp hrest
    refine ⟨before, 123 :: middle ++ [125], after, by simpa [JsonText.Space] using hbefore, ?_,
      by simpa [JsonText.Space] using hafter, by simp⟩
    exact .intro (.none (by simpa [JsonText.Space] using hmiddle))
  · cases h

theorem lawful_emptyObject : emptyObject.Lawful where
  document h := by
    obtain ⟨before, object, after, hbefore, hobject, hafter, rfl⟩ := emptyObject_eq_some h
    exact ⟨before, object, after, hbefore, .object hobject, hafter, rfl⟩
  object h := emptyObject_eq_some h
  trailing text hafter := by
    have hnone : ∀ {space}, JsonText.Space space → space.filter (!JsonText.isSpace ·) = [] := fun h =>
      List.filter_eq_nil_iff.mpr fun b hb => by simp [h b hb]
    rw [emptyObject, emptyObject, List.filter_append, hnone hafter, List.append_nil]

/-- The empty object in two chunks. -/
theorem readHookStdin_emptyObject :
    ∃ bytes, readHookStdin emptyObject [.chunk [123], .chunk [125]] = .ok bytes := by
  have hdocument : emptyObject [123, 125] = some (.object []) := rfl
  obtain ⟨_, _, _, -, -, -, -, -, hchunks⟩ := readHookStdin_chunks lawful_emptyObject hdocument
  exact (hchunks [[123], [125]] [] rfl).1 (by decide)

/-- A document that is too long by the space behind the object is accepted when the object comes first. -/
theorem not_oversize : ¬∀ (parse : JsonParser Unit), parse.Lawful →
    ∀ (document : List UInt8) (members : List (String × Json Unit)), parse document = some (.object members) →
      document.length > MAX_HOOK_BYTES → ∀ (chunks : List (List UInt8)) (later : List Received),
        chunks.flatten = document → ∃ e, readHookStdin parse (chunks.map .chunk ++ later) = .error e := by
  intro h
  have hspace : JsonText.Space (List.replicate MAX_HOOK_BYTES 32) := fun b hb => by
    rw [List.eq_of_mem_replicate hb]
    rfl
  have hparse : emptyObject ([123, 125] ++ List.replicate MAX_HOOK_BYTES 32) = some (.object []) :=
    lawful_emptyObject.trailing [123, 125] hspace
  have hlength : ([123, 125] ++ List.replicate MAX_HOOK_BYTES (32 : UInt8)).length > MAX_HOOK_BYTES := by
    rw [List.length_append, List.length_replicate]
    exact Nat.lt_add_of_pos_left (by decide)
  obtain ⟨e, he⟩ := h emptyObject lawful_emptyObject _ [] hparse hlength
    [[123, 125], List.replicate MAX_HOOK_BYTES 32] [] (by simp)
  have hfirst : readHookStdin emptyObject (.chunk [123, 125] :: [.chunk (List.replicate MAX_HOOK_BYTES 32)]) =
      .ok [123, 125] := by
    rw [readHookStdin, readLoop]
    rfl
  rw [List.map_cons, List.map_cons, List.cons_append] at he
  cases he.symm.trans hfirst

end Sample

end CcReminder
