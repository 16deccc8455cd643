import CcReminder.Rules.Template

/-!
# The grammar of templates

A template is a sequence of literal texts without braces and of fields `root.leaf` between double
braces. The scanner renders exactly the templates of this grammar whose fields are authorized, each
piece by itself: what a value contains is never scanned.
-/

set_option autoImplicit true

namespace CcReminder

/-! ## Pieces -/

/-- `root.leaf`, both of them lower-case words; underscores may stand in the second. -/
structure FieldPath where
  root : List Char
  leaf : List Char
  root_ne_nil : root ≠ []
  leaf_ne_nil : leaf ≠ []
  root_lower : ∀ c ∈ root, isAsciiLowercase c = true
  leaf_lower : ∀ c ∈ leaf, isAsciiLowercase c = true ∨ c = '_'

def FieldPath.text (path : FieldPath) : List Char := path.root ++ '.' :: path.leaf

inductive Piece where
  | literal (text : List Char) (braceless : ∀ c ∈ text, isBrace c = false)
  | field (path : FieldPath)

namespace Piece

/-- The piece as it stands in a template. -/
def source : Piece → List Char
  | literal text _ => text
  | field path => ['\x7b', '\x7b'] ++ path.text ++ ['\x7d', '\x7d']

def Authorized (ctx : TemplateContext) : Piece → Prop
  | literal _ _ => True
  | field path => String.ofList path.text ∈ ctx.authorized

/-- What is rendered in its place. -/
def output (ctx : TemplateContext) : Piece → List Char
  | literal text _ => text
  | field path => (ctx.value (String.ofList path.text)).toList

end Piece

/-! ## Paths -/

namespace FieldPath

variable (path : FieldPath)

theorem root_dotless : ∀ c ∈ path.root, c ≠ '.' := by
  rintro c hc rfl
  exact absurd (path.root_lower _ hc) (by decide)

theorem leaf_dotless : '.' ∉ path.leaf := fun hc =>
  (path.leaf_lower _ hc).elim (absurd · (by decide)) (absurd · (by decide))

/-- No brace stands in a path. -/
theorem text_braceless : ∀ c ∈ path.text, isBrace c = false := by
  have hlower : ∀ c, isAsciiLowercase c = true → isBrace c = false := by
    intro c hc
    by_contra hbrace
    simp only [isBrace, Bool.not_eq_false, decide_eq_true_eq] at hbrace
    rcases hbrace with rfl | rfl <;> exact absurd hc (by decide)
  intro c hc
  rcases List.mem_append.mp hc with hc | hc
  · exact hlower c (path.root_lower c hc)
  · rcases List.mem_cons.mp hc with rfl | hc
    · decide
    · rcases path.leaf_lower c hc with h | rfl
      · exact hlower c h
      · decide

theorem validPath_text : validPath path.text = true := by
  have hroot : path.text.takeWhile (· ≠ '.') = path.root := by
    rw [text, List.takeWhile_append_of_pos (by simpa using path.root_dotless)]
    simp
  have hleaf : path.text.drop (path.root.length + 1) = path.leaf := by
    rw [text, ← List.drop_drop, List.drop_left]
    rfl
  have hlength : path.root.length < path.text.length := by simp [text]
  simp only [validPath, hroot, hleaf, decide_eq_true_eq, List.all_eq_true]
  refine ⟨hlength, path.root_ne_nil, path.leaf_ne_nil, ?_, path.root_lower, path.leaf_lower⟩
  simpa using path.leaf_dotless

end FieldPath

/-- A text is cut at its first dot. -/
theorem takeWhile_append_dot {text : List Char}
    (h : (text.takeWhile (· ≠ '.')).length < text.length) :
    text = text.takeWhile (· ≠ '.') ++ '.' :: text.drop ((text.takeWhile (· ≠ '.')).length + 1) := by
  induction text with
  | nil => simp at h
  | cons c text ih =>
    by_cases hc : c = '.'
    · simp [hc]
    · have htake : (c :: text).takeWhile (· ≠ '.') = c :: text.takeWhile (· ≠ '.') := by simp [hc]
      rw [htake, List.length_cons, List.length_cons, Nat.add_lt_add_iff_right] at h
      rw [htake, List.length_cons, List.drop_succ_cons, List.cons_append, ← ih h]

/-- The check of a path accepts the texts of paths. -/
theorem validPath_iff {text : List Char} :
    validPath text = true ↔ ∃ path : FieldPath, text = path.text := by
  refine ⟨fun h => ?_, ?_⟩
  · simp only [validPath, decide_eq_true_eq, List.all_eq_true] at h
    obtain ⟨hlength, hroot, hleaf, -, hlower, hlower'⟩ := h
    exact ⟨⟨_, _, hroot, hleaf, hlower, hlower'⟩, takeWhile_append_dot hlength⟩
  · rintro ⟨path, rfl⟩
    exact path.validPath_text

/-! ## Fields -/

/-- The closing braces end a text without braces. -/
theorem splitClose_append {path after : List Char} (h : ∀ c ∈ path, isBrace c = false) :
    splitClose (path ++ '\x7d' :: '\x7d' :: after) = some (path, after) := by
  induction path with
  | nil => simp [splitClose]
  | cons c path ih =>
    have hc : c ≠ '\x7d' := by
      rintro rfl
      exact absurd (h _ List.mem_cons_self) (by decide)
    have hrest := ih fun c hmem => h c (List.mem_cons_of_mem _ hmem)
    rw [List.cons_append, splitClose, if_neg (by simp [hc]), hrest]
    rfl

theorem splitClose_eq_some {s path after : List Char} (h : splitClose s = some (path, after)) :
    s = path ++ '\x7d' :: '\x7d' :: after := by
  induction s generalizing path with
  | nil => cases h
  | cons c rest ih =>
    unfold splitClose at h
    split at h
    · rename_i hclose
      obtain ⟨rfl, hhead⟩ := hclose
      cases h
      cases rest with
      | nil => cases hhead
      | cons d rest => cases hhead; rfl
    · obtain ⟨⟨path', after'⟩, hrest, heq⟩ := Option.map_eq_some_iff.mp h
      cases heq
      rw [ih hrest]
      rfl

theorem splitField_eq_some {s path after : List Char} (h : splitField s = some (path, after)) :
    s = ['\x7b', '\x7b'] ++ path ++ ['\x7d', '\x7d'] ++ after := by
  unfold splitField at h
  split at h
  · rename_i htake
    rw [← List.take_append_drop 2 s, htake, splitClose_eq_some h]
    simp
  · cases h

theorem splitField_field (path : FieldPath) (after : List Char) :
    splitField ((Piece.field path).source ++ after) = some (path.text, after) := by
  have hclose : splitClose (path.text ++ '\x7d' :: '\x7d' :: after) = some (path.text, after) :=
    splitClose_append path.text_braceless
  simpa [splitField, Piece.source] using hclose

namespace TemplateContext

variable {ctx : TemplateContext}

/-- A field has its value when it is named by a path that is authorized. -/
theorem field_eq_ok_iff {text : List Char} {value : String} : ctx.field text = .ok value ↔
    ∃ path : FieldPath, text = path.text ∧ (Piece.field path).Authorized ctx ∧
      value = ctx.value (String.ofList text) := by
  unfold field
  constructor
  · intro h
    split at h
    · cases h
    · rename_i hbraces
      split at h
      · cases h
      · rename_i hauth
        cases h
        have hvalid : validPath text = true := by
          by_contra hinvalid
          exact hbraces (.inr (.inr (by simpa using hinvalid)))
        obtain ⟨path, rfl⟩ := validPath_iff.mp hvalid
        exact ⟨path, rfl, by simpa [Piece.Authorized] using hauth, rfl⟩
  · rintro ⟨path, rfl, hauth, rfl⟩
    have hbraceless : ∀ c, isBrace c = true → ¬path.text.contains c := fun c hc hmem => by
      have := path.text_braceless c (by simpa using hmem)
      rw [hc] at this
      cases this
    rw [if_neg, if_neg]
    · simpa [Piece.Authorized] using hauth
    · rintro (h | h | h)
      · exact hbraceless _ (by decide) h
      · exact hbraceless _ (by decide) h
      · rw [path.validPath_text] at h
        cases h

end TemplateContext

/-! ## Templates -/

variable {ctx : TemplateContext}

/-- Text without braces stays as it is. -/
theorem renderTemplate_literal {text rest : List Char} (h : ∀ c ∈ text, isBrace c = false) :
    renderTemplate ctx (text ++ rest) = (do
      let output ← renderTemplate ctx rest
      pure (text ++ output)) := by
  induction text with
  | nil =>
    rw [List.nil_append]
    cases renderTemplate ctx rest <;> rfl
  | cons c text ih =>
    have hc : ¬isBrace c = true := by simp [h c List.mem_cons_self]
    have hrest := ih fun c hmem => h c (List.mem_cons_of_mem _ hmem)
    rw [List.cons_append, renderTemplate, if_neg hc, hrest]
    cases renderTemplate ctx rest <;> rfl

/-- An authorized piece is rendered by itself. -/
theorem renderTemplate_piece {piece : Piece} (h : piece.Authorized ctx) (rest : List Char) :
    renderTemplate ctx (piece.source ++ rest) = (do
      let output ← renderTemplate ctx rest
      pure (piece.output ctx ++ output)) := by
  cases piece with
  | literal text hbraceless => exact renderTemplate_literal hbraceless
  | field path =>
    have hvalue : ctx.field path.text = .ok (ctx.value (String.ofList path.text)) :=
      TemplateContext.field_eq_ok_iff.mpr ⟨path, rfl, h, rfl⟩
    have hsplit := splitField_field path rest
    rw [Piece.source, List.append_assoc, List.append_assoc, List.cons_append] at hsplit ⊢
    rw [renderTemplate_field (by decide) hsplit, hvalue]
    rfl

/-- **The grammar of templates.** A template is rendered when it is a sequence of literals and authorized
fields; the result is the sequence of the literals and of the values. -/
theorem renderTemplate_iff {ctx : TemplateContext} {template rendered : List Char} :
    renderTemplate ctx template = .ok rendered ↔ ∃ pieces : List Piece,
      (∀ piece ∈ pieces, piece.Authorized ctx) ∧ template = pieces.flatMap Piece.source ∧
        rendered = pieces.flatMap (Piece.output ctx) := by
  constructor
  · intro h
    induction template using renderTemplate.induct generalizing rendered with
    | case1 =>
      rw [renderTemplate] at h
      cases h
      exact ⟨[], by simp, rfl, rfl⟩
    | case2 c rest hc hnone =>
      rw [renderTemplate_invalid hc hnone] at h
      cases h
    | case3 c rest hc path after hsome ih =>
      rw [renderTemplate_field hc hsome] at h
      cases hvalue : ctx.field path with
      | error e =>
        rw [hvalue] at h
        cases h
      | ok value =>
        cases hafter : renderTemplate ctx after with
        | error e =>
          rw [hvalue, hafter] at h
          cases h
        | ok output =>
          rw [hvalue, hafter] at h
          cases h
          obtain ⟨pieces, hauth, rfl, rfl⟩ := ih hafter
          obtain ⟨fieldPath, rfl, hfield, rfl⟩ := TemplateContext.field_eq_ok_iff.mp hvalue
          refine ⟨.field fieldPath :: pieces, ?_, ?_, rfl⟩
          · simpa using ⟨hfield, hauth⟩
          · rw [splitField_eq_some hsome]
            rfl
    | case4 c rest hc ih =>
      rw [renderTemplate, if_neg hc] at h
      cases hrest : renderTemplate ctx rest with
      | error e =>
        rw [hrest] at h
        cases h
      | ok output =>
        rw [hrest] at h
        cases h
        obtain ⟨pieces, hauth, rfl, rfl⟩ := ih hrest
        refine ⟨.literal [c] (by simpa using hc) :: pieces, ?_, rfl, rfl⟩
        simpa [Piece.Authorized] using hauth
  · rintro ⟨pieces, hauth, rfl, rfl⟩
    induction pieces with
    | nil => rw [List.flatMap_nil, renderTemplate]; rfl
    | cons piece pieces ih =>
      rw [List.flatMap_cons, renderTemplate_piece (hauth piece List.mem_cons_self),
        ih fun piece hmem => hauth piece (List.mem_cons_of_mem _ hmem)]
      rfl

end CcReminder
