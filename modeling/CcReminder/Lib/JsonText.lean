import Mathlib.Data.List.Basic
import Mathlib.Tactic.Common

/-!
# The text of JSON values

The grammar of JSON over bytes, as far as it says where a value ends: `JsonText.Value` and
`JsonText.Object`. A text is read with a depth of open brackets and inside or outside of strings.
Every value leaves both as they were and is never above them, so no proper beginning of an object is a value.
-/

set_option autoImplicit true

namespace CcReminder.Lib

namespace JsonText

/-! ## Grammar -/

/-- Space, tab, line feed and carriage return. -/
def isSpace (b : UInt8) : Bool := b = 32 ∨ b = 9 ∨ b = 10 ∨ b = 13

def Space (text : List UInt8) : Prop := ∀ b ∈ text, isSpace b = true

/-- The inside of a string: a backslash takes the byte behind it with it. -/
inductive StringBody : List UInt8 → Prop
  | nil : StringBody []
  | plain (hquote : b ≠ 34) (hescape : b ≠ 92) : StringBody text → StringBody (b :: text)
  | escape : StringBody text → StringBody (92 :: b :: text)

/-- A string between its quotes. -/
inductive Quoted : List UInt8 → Prop
  | intro : StringBody body → Quoted (34 :: body ++ [34])

/-- The bytes of numbers and of `true`, `false` and `null`. -/
def isScalar (b : UInt8) : Bool := b = 43 ∨ b = 45 ∨ b = 46 ∨ (48 ≤ b ∧ b ≤ 57) ∨ b = 69 ∨ (97 ≤ b ∧ b ≤ 122)

mutual

inductive Value : List UInt8 → Prop
  | scalar (hne : text ≠ []) (h : ∀ b ∈ text, isScalar b = true) : Value text
  | string : Quoted text → Value text
  | array : Elements body → Value (91 :: body ++ [93])
  | object : Object text → Value text

/-- The elements of an array with the commas between them, and the space around them. -/
inductive Elements : List UInt8 → Prop
  | none : Space text → Elements text
  | last : Space before → Value value → Space after → Elements (before ++ value ++ after)
  | more : Space before → Value value → Space after → Elements rest →
    Elements (before ++ value ++ after ++ 44 :: rest)

inductive Object : List UInt8 → Prop
  | intro : Members body → Object (123 :: body ++ [125])

inductive Members : List UInt8 → Prop
  | none : Space text → Members text
  | last : Space before → Quoted name → Space middle → Space before' → Value value → Space after →
    Members (before ++ name ++ middle ++ 58 :: (before' ++ value ++ after))
  | more : Space before → Quoted name → Space middle → Space before' → Value value → Space after →
    Members rest → Members (before ++ name ++ middle ++ 58 :: (before' ++ value ++ after ++ 44 :: rest))

end

/-! ## Reading -/

inductive Mode where
  | outside
  | inside
  | escaped
  deriving DecidableEq

/-- The open brackets, and whether a string is open. -/
def scan : Nat × Mode → UInt8 → Nat × Mode
  | (d, .outside), b =>
    if b = 34 then (d, .inside)
    else if b = 91 ∨ b = 123 then (d + 1, .outside)
    else if b = 93 ∨ b = 125 then (d - 1, .outside)
    else (d, .outside)
  | (d, .inside), b => if b = 34 then (d, .outside) else if b = 92 then (d, .escaped) else (d, .inside)
  | (d, .escaped), _ => (d, .inside)

/-- The text leaves the depth as it was, and is never above it. -/
structure Balanced (text : List UInt8) : Prop where
  whole : ∀ d, text.foldl scan (d, .outside) = (d, .outside)
  floor : ∀ d start, start <+: text → d ≤ (start.foldl scan (d, .outside)).1

namespace Balanced

theorem nil : Balanced [] := by
  refine ⟨fun _ => rfl, fun d start h => ?_⟩
  rw [List.prefix_nil.mp h]
  exact Nat.le_refl d

theorem append (h : Balanced text) (h' : Balanced text') : Balanced (text ++ text') := by
  refine ⟨fun d => by rw [List.foldl_append, h.whole, h'.whole], fun d start hstart => ?_⟩
  rcases List.prefix_or_prefix_of_prefix hstart (List.prefix_append text text') with hshort | ⟨rest, rfl⟩
  · exact h.floor d start hshort
  · rw [List.foldl_append, h.whole]
    exact h'.floor d rest ((List.prefix_append_right_inj text).mp hstart)

/-- A byte that is no bracket and no quote. -/
theorem single (h : ∀ d, scan (d, .outside) b = (d, .outside)) : Balanced [b] := by
  refine ⟨fun d => h d, fun d start hstart => ?_⟩
  rcases List.prefix_cons_iff.mp hstart with rfl | ⟨rest, rfl, hrest⟩
  · exact Nat.le_refl d
  · have hdepth : d = (List.foldl scan (d, .outside) (b :: rest)).1 := by
      rw [List.prefix_nil.mp hrest, List.foldl_cons, List.foldl_nil, h]
    exact Nat.le_of_eq hdepth

theorem of_forall (h : ∀ b ∈ text, ∀ d, scan (d, .outside) b = (d, .outside)) : Balanced text := by
  induction text with
  | nil => exact nil
  | cons b text ih =>
    exact append (single (h b List.mem_cons_self)) (ih fun b hb => h b (List.mem_cons_of_mem _ hb))

theorem space (h : Space text) : Balanced text := of_forall fun b hb d => by
  have := h b hb
  simp only [isSpace, decide_eq_true_eq] at this
  rcases this with rfl | rfl | rfl | rfl <;> rfl

theorem single_of_ne {b : UInt8} (hquote : b ≠ 34) (hopen : b ≠ 91 ∧ b ≠ 123) (hclose : b ≠ 93 ∧ b ≠ 125) :
    Balanced [b] := single fun d => by
  rw [scan, if_neg hquote, if_neg (by simp [hopen]), if_neg (by simp [hclose])]

theorem scalar (h : ∀ b ∈ text, isScalar b = true) : Balanced text := by
  refine of_forall fun b hb d => ?_
  have hb := h b hb
  have hne : b ≠ 34 ∧ b ≠ 91 ∧ b ≠ 123 ∧ b ≠ 93 ∧ b ≠ 125 := by
    refine ⟨?_, ?_, ?_, ?_, ?_⟩ <;> rintro rfl <;> exact absurd hb (by decide)
  rw [scan, if_neg hne.1, if_neg (by simp [hne]), if_neg (by simp [hne])]

/-- The inside of a string is read inside. -/
theorem stringBody (h : StringBody body) (d : Nat) : body.foldl scan (d, .inside) = (d, .inside) ∧
    ∀ start, start <+: body → (start.foldl scan (d, .inside)).1 = d := by
  induction h with
  | nil =>
    refine ⟨rfl, fun start hstart => ?_⟩
    rw [List.prefix_nil.mp hstart]
    rfl
  | @plain b text hquote hescape _ ih =>
    have hb : scan (d, .inside) b = (d, .inside) := by rw [scan, if_neg hquote, if_neg hescape]
    refine ⟨by rw [List.foldl_cons, hb, ih.1], fun start hstart => ?_⟩
    rcases List.prefix_cons_iff.mp hstart with rfl | ⟨rest, rfl, hrest⟩
    · rfl
    · rw [List.foldl_cons, hb]
      exact ih.2 rest hrest
  | @escape text b _ ih =>
    have hescape : scan (d, .inside) 92 = (d, .escaped) := rfl
    have hb : scan (d, .escaped) b = (d, .inside) := rfl
    refine ⟨by rw [List.foldl_cons, hescape, List.foldl_cons, hb, ih.1], fun start hstart => ?_⟩
    rcases List.prefix_cons_iff.mp hstart with rfl | ⟨rest, rfl, hrest⟩
    · rfl
    rcases List.prefix_cons_iff.mp hrest with rfl | ⟨rest', rfl, hrest'⟩
    · rfl
    · rw [List.foldl_cons, hescape, List.foldl_cons, hb]
      exact ih.2 rest' hrest'

theorem quoted (h : Quoted text) : Balanced text := by
  obtain ⟨hbody⟩ := h
  rename_i body
  have hopen : ∀ d, scan (d, .outside) 34 = (d, .inside) := fun _ => rfl
  refine ⟨fun d => ?_, fun d start hstart => ?_⟩
  · rw [List.cons_append, List.foldl_cons, hopen, List.foldl_append, (stringBody hbody d).1]
    rfl
  · rcases List.prefix_cons_iff.mp hstart with rfl | ⟨rest, rfl, hrest⟩
    · exact Nat.le_refl d
    rw [List.foldl_cons, hopen]
    rcases List.prefix_concat_iff.mp hrest with rfl | hrest
    · rw [List.foldl_append, (stringBody hbody d).1]
      exact Nat.le_refl d
    · exact Nat.le_of_eq ((stringBody hbody d).2 rest hrest).symm

/-- What stands between brackets is one level deeper. -/
theorem bracket (hopen : o = 91 ∨ o = 123) (hclose : c = 93 ∨ c = 125) (h : Balanced body) :
    Balanced (o :: body ++ [c]) ∧
      ∀ d start, start <+: body → d < ((o :: start).foldl scan (d, .outside)).1 := by
  have ho : ∀ d, scan (d, .outside) o = (d + 1, .outside) := fun d => by rcases hopen with rfl | rfl <;> rfl
  have hc : ∀ d, scan (d + 1, .outside) c = (d, .outside) := fun d => by rcases hclose with rfl | rfl <;> rfl
  have hdeeper : ∀ d start, start <+: body → d < ((o :: start).foldl scan (d, .outside)).1 := by
    intro d start hstart
    rw [List.foldl_cons, ho]
    exact h.floor (d + 1) start hstart
  refine ⟨⟨fun d => ?_, fun d start hstart => ?_⟩, hdeeper⟩
  · rw [List.cons_append, List.foldl_cons, ho, List.foldl_append, h.whole, List.foldl_cons, List.foldl_nil, hc]
  · rcases List.prefix_cons_iff.mp hstart with rfl | ⟨rest, rfl, hrest⟩
    · exact Nat.le_refl d
    rcases List.prefix_concat_iff.mp hrest with rfl | hrest
    · refine Nat.le_of_eq ?_
      rw [List.foldl_cons, ho, List.foldl_append, h.whole, List.foldl_cons, List.foldl_nil, hc]
    · exact Nat.le_of_lt (hdeeper d rest hrest)

end Balanced

mutual

theorem Value.balanced {text : List UInt8} : Value text → Balanced text
  | .scalar _ h => .scalar h
  | .string h => .quoted h
  | .array h => (Balanced.bracket (.inl rfl) (.inl rfl) h.balanced).1
  | .object h => h.balanced

theorem Elements.balanced {text : List UInt8} : Elements text → Balanced text
  | .none h => .space h
  | .last hb hv ha => ((Balanced.space hb).append hv.balanced).append (.space ha)
  | .more hb hv ha hr =>
    (((Balanced.space hb).append hv.balanced).append (.space ha)).append
      ((Balanced.single_of_ne (by decide) (by decide) (by decide)).append hr.balanced)

theorem Object.balanced {text : List UInt8} : Object text → Balanced text
  | .intro h => (Balanced.bracket (.inr rfl) (.inr rfl) h.balanced).1

theorem Members.balanced {text : List UInt8} : Members text → Balanced text
  | .none h => .space h
  | .last hb hn hm hb' hv ha =>
    (((Balanced.space hb).append (.quoted hn)).append (.space hm)).append
      ((Balanced.single_of_ne (by decide) (by decide) (by decide)).append
        (((Balanced.space hb').append hv.balanced).append (.space ha)))
  | .more hb hn hm hb' hv ha hr =>
    (((Balanced.space hb).append (.quoted hn)).append (.space hm)).append
      ((Balanced.single_of_ne (by decide) (by decide) (by decide)).append
        ((((Balanced.space hb').append hv.balanced).append (.space ha)).append
          ((Balanced.single_of_ne (by decide) (by decide) (by decide)).append hr.balanced)))

end

/-! ## Documents -/

/-- A value with space around it. -/
def Document (text : List UInt8) : Prop :=
  ∃ before value after, Space before ∧ Value value ∧ Space after ∧ text = before ++ value ++ after

theorem Document.balanced (h : Document text) : Balanced text := by
  obtain ⟨before, value, after, hbefore, hvalue, hafter, rfl⟩ := h
  exact ((Balanced.space hbefore).append hvalue.balanced).append (.space hafter)

/-- A value is more than space. -/
theorem Value.not_space (h : Value value) : ¬Space value := by
  intro hspace
  cases h with
  | scalar hne hscalar =>
    obtain ⟨b, hb⟩ := List.exists_mem_of_ne_nil _ hne
    have h₁ := hspace b hb
    have h₂ := hscalar b hb
    simp only [isSpace, decide_eq_true_eq] at h₁
    rcases h₁ with rfl | rfl | rfl | rfl <;> exact absurd h₂ (by decide)
  | string h =>
    cases h
    exact absurd (hspace 34 (by simp)) (by decide)
  | array h => exact absurd (hspace 91 (by simp)) (by decide)
  | object h =>
    cases h
    exact absurd (hspace 123 (by simp)) (by decide)

/-- **No cut of an object** is a document, whatever space stands before the object. -/
theorem Object.cut_not_document {before object start : List UInt8} (hbefore : Space before)
    (h : Object object) (hstart : start <+: before ++ object)
    (hcut : start.length < before.length + object.length) : ¬Document start := by
  intro hdocument
  rcases List.prefix_or_prefix_of_prefix hstart (List.prefix_append before object) with hshort | ⟨rest, rfl⟩
  · -- nothing but space was read
    obtain ⟨b, value, a, -, hvalue, -, rfl⟩ := hdocument
    refine hvalue.not_space fun x hx => hbefore x (hshort.subset ?_)
    simp [hx]
  · have hrest : rest <+: object := (List.prefix_append_right_inj before).mp hstart
    obtain ⟨hmembers⟩ := h
    rename_i body
    rcases List.prefix_cons_iff.mp hrest with rfl | ⟨inner, rfl, hinner⟩
    · obtain ⟨b, value, a, -, hvalue, -, heq⟩ := hdocument
      rw [List.append_nil] at heq
      refine hvalue.not_space fun x hx => hbefore x ?_
      rw [heq]
      simp [hx]
    rcases List.prefix_concat_iff.mp hinner with rfl | hinner
    · simp at hcut
    -- a bracket is open
    have hdeeper := (Balanced.bracket (o := 123) (c := 125) (.inr rfl) (.inr rfl) hmembers.balanced).2 0
      inner hinner
    have hwhole := hdocument.balanced.whole 0
    rw [List.foldl_append, (Balanced.space hbefore).whole] at hwhole
    rw [hwhole] at hdeeper
    exact absurd hdeeper (Nat.lt_irrefl 0)

end JsonText

end CcReminder.Lib
