import CcReminder.Channels.Render
import CcReminder.Lib.Escape
import Mathlib.Data.List.TakeWhile

/-!
# What Markdown makes of a rendered document

The characters that mean something inside a line are escaped wherever a field has them. A line break is
not, and what opens a block at the start of a line is escaped only in part: a list item after `-`, `+` or
`1.`, a rule of `---` or `===`, a fence of tildes and indented code are blocks in the rendered document
whenever a line of a field starts with them.
-/

set_option autoImplicit true

namespace CcReminder

open Lib

/-! ## Lines that open a block -/

def isLineEnd (c : Char) : Bool := c = '\n' || c = '\r'

def textLines (text : List Char) : List (List Char) := text.splitOnP isLineEnd

/-- A number and a dot or a parenthesis. -/
def numbered (text : List Char) : Bool :=
  !(text.takeWhile Char.isDigit).isEmpty &&
    (text.dropWhile Char.isDigit).head?.any (· ∈ ['.', ')'])

def startsBlock (text : List Char) : Bool :=
  text.head?.any (· ∈ ['#', '>', '-', '+', '*', '\t']) || ['=', '=', '='].isPrefixOf text ||
    ['~', '~', '~'].isPrefixOf text || ['`', '`', '`'].isPrefixOf text || numbered text

/-- A line that opens a block, after at most three spaces or by being indented by more. -/
def opensBlock (line : List Char) : Bool :=
  4 ≤ (line.takeWhile (· = ' ')).length || startsBlock (line.dropWhile (· = ' '))

/-! ## Where a character of a rendered document comes from -/

/-- `opener` is the first character of a heading, an item or a rule of the renderer. -/
inductive Origin where
  | field
  | renderer
  | opener
  deriving DecidableEq

abbrev Mark := Origin × Char

def own (s : String) : List Mark := s.toList.map fun c => (.renderer, c)

def opening (c : Char) (s : String) : List Mark := (.opener, c) :: own s

def fieldMarks (text : List Char) : List Mark := text.flatMap fun c =>
  if c ∈ markdownSpecial then [(.renderer, '\\'), (.field, c)] else [(.field, c)]

def doubleMarks (marks : List Mark) : List Mark := marks.flatMap fun m =>
  if m.2 = '\n' then [m, (.renderer, '\n')] else [m]

def titleMarks (title : String) : List Mark := opening '#' " " ++ fieldMarks title.toList

def factMarks (fact : String × String) : List Mark :=
  opening '-' " **" ++ fieldMarks fact.1.toList ++ (own "**: " ++ fieldMarks fact.2.toList)

/-- `renderMarkdown`, with the origin of each character. -/
def markedMarkdown (document : NotificationDocument) : List Mark :=
  let title := if document.title ≠ "" then titleMarks document.title ++ own "\n" else []
  let facts :=
    if document.facts ≠ [] then
      (if document.title ≠ "" then own "\n" else []) ++
        document.facts.flatMap fun fact => factMarks fact ++ own "\n"
    else []
  let blank := if document.title ≠ "" ∨ document.facts ≠ [] then own "\n" else []
  let footer :=
    match document.footer with
    | some footer =>
      if footer ≠ "" then
        own "\n" ++ (own "\n" ++ (opening '-' "--" ++ (own "\n" ++ (own "\n" ++
          fieldMarks footer.toList))))
      else []
    | none => []
  title ++ (facts ++ (blank ++ (doubleMarks (fieldMarks document.body.toList) ++ footer)))

theorem own_text (s : String) : (own s).map (·.2) = s.toList := by
  rw [own, List.map_map]
  exact List.map_id _

theorem fieldMarks_text (text : List Char) :
    (fieldMarks text).map (·.2) = escape '\\' markdownSpecial text := by
  rw [fieldMarks, escape, List.map_flatMap]
  refine List.flatMap_congr fun c _ => ?_
  split <;> rfl

theorem escapeMarkdown_toList (s : String) :
    (escapeMarkdown s).toList = escape '\\' markdownSpecial s.toList := by
  rw [escapeMarkdown, String.toList_ofList]
  rfl

theorem titleMarks_text (title : String) :
    (titleMarks title).map (·.2) = ("# " ++ escapeMarkdown title).toList := by
  rw [titleMarks, List.map_append, fieldMarks_text, String.toList_append, escapeMarkdown_toList]
  rfl

theorem factMarks_text (fact : String × String) : (factMarks fact).map (·.2) =
    ("- **" ++ escapeMarkdown fact.1 ++ "**: " ++ escapeMarkdown fact.2).toList := by
  rw [factMarks, List.map_append, List.map_append, List.map_append, fieldMarks_text, fieldMarks_text,
    own_text, String.toList_append, String.toList_append, String.toList_append, escapeMarkdown_toList,
    escapeMarkdown_toList, List.append_assoc, List.append_assoc]
  rfl

theorem doubleMarks_text (text : String) : (doubleMarks (fieldMarks text.toList)).map (·.2) =
    (doubleNewlines (escapeMarkdown text)).toList := by
  rw [doubleNewlines, String.toList_ofList, escapeMarkdown_toList, ← fieldMarks_text, List.flatMap_map,
    doubleMarks, List.map_flatMap]
  refine List.flatMap_congr fun m _ => ?_
  by_cases h : m.2 = '\n'
  · simp [h]
  · simp [h]

/-- The marks are those of what is rendered. -/
theorem markedMarkdown_text (document : NotificationDocument) :
    (markedMarkdown document).map (·.2) = (renderMarkdown document).toList := by
  have hfacts : (document.facts.flatMap fun fact => factMarks fact ++ own "\n").map (·.2) =
      (String.join (document.facts.map fun fact =>
        "- **" ++ escapeMarkdown fact.1 ++ "**: " ++ escapeMarkdown fact.2 ++ "\n")).toList := by
    rw [String.toList_join, List.flatMap_map, List.map_flatMap]
    refine List.flatMap_congr fun fact _ => ?_
    rw [List.map_append, factMarks_text, own_text, ← String.toList_append]
  have hfooter (footer : String) : (own "\n" ++ (own "\n" ++ (opening '-' "--" ++ (own "\n" ++
      (own "\n" ++ fieldMarks footer.toList))))).map (·.2) =
        ("\n\n---\n\n" ++ escapeMarkdown footer).toList := by
    simp only [List.map_append, fieldMarks_text, own_text, String.toList_append, escapeMarkdown_toList]
    rfl
  unfold markedMarkdown renderMarkdown
  simp only [List.map_append, String.toList_append, List.append_assoc, doubleMarks_text]
  refine congrArg₂ (· ++ ·) ?_ (congrArg₂ (· ++ ·) ?_ (congrArg₂ (· ++ ·) ?_ (congrArg _ ?_)))
  · split
    · rw [List.map_append, titleMarks_text, own_text, String.toList_append, String.toList_append,
        String.toList_append]
    · rfl
  · split
    · rw [List.map_append, hfacts, String.toList_append]
      refine congrArg (· ++ _) ?_
      split <;> rfl
    · rfl
  · split <;> rfl
  · cases document.footer with
    | none => rfl
    | some footer =>
      by_cases h : footer = ""
      · simp [h]
      · simp only [h, ne_eq, not_false_eq_true, if_true]
        exact hfooter footer

/-! ## Lines -/

def markedLines (marks : List Mark) : List (List Mark) := marks.splitOnP fun m => isLineEnd m.2

def firstLine (marks : List Mark) : List Mark := (markedLines marks).headD []

def opens (line : List Mark) : Bool := opensBlock (line.map (·.2))

/-- The lines that the renderer opens: the title, the facts and the rule before the footer. -/
def ownLines (document : NotificationDocument) : List (List Mark) :=
  (if document.title ≠ "" then [firstLine (titleMarks document.title)] else []) ++
    (document.facts.map (fun fact => firstLine (factMarks fact)) ++
      match document.footer with
      | some footer => if footer ≠ "" then [opening '-' "--"] else []
      | none => [])

/-- The lines that open a block are the renderer's own. -/
def BlocksInert (document : NotificationDocument) : Prop :=
  (markedLines (markedMarkdown document)).filter opens = ownLines document

/-- The characters that are not part of an escape, read from the start on. -/
def unescaped : List Mark → List Mark
  | [] => []
  | [m] => [m]
  | m :: m' :: ms =>
    if m.2 = '\\' ∧ m'.2 ∈ markdownSpecial then unescaped ms else m :: unescaped (m' :: ms)

/-- A special character from a field is escaped. -/
def InlineInert (document : NotificationDocument) : Prop :=
  ∀ m ∈ unescaped (markedMarkdown document), m.2 ∈ markdownSpecial → m.1 ≠ .field

/-! ## Lines of a field -/

/-- What the escapes leave of the ways to open a block. -/
def startsUnescaped (text : List Char) : Bool :=
  text.head?.any (· ∈ ['-', '+', '\t']) || ['=', '=', '='].isPrefixOf text ||
    ['~', '~', '~'].isPrefixOf text || (!(text.takeWhile Char.isDigit).isEmpty &&
      (text.dropWhile Char.isDigit).head?.any (· = '.'))

def opensUnescaped (line : List Char) : Bool :=
  4 ≤ (line.takeWhile (· = ' ')).length || startsUnescaped (line.dropWhile (· = ' '))

/-- A fact whose second and later lines open nothing. What follows the key is `**`, so that its last line,
if there is another one before it, must not be blank. -/
structure PlainFact (fact : String × String) : Prop where
  key : ∀ line ∈ (textLines fact.1.toList).tail, opensUnescaped line = false
  keyEnd : ∀ line ∈ (textLines fact.1.toList).tail.getLast?, ∃ c ∈ line, c ≠ ' '
  value : ∀ line ∈ (textLines fact.2.toList).tail, opensUnescaped line = false

/-- A document whose fields have no line that opens a block where they stand. -/
structure PlainLines (document : NotificationDocument) : Prop where
  title : ∀ line ∈ (textLines document.title.toList).tail, opensUnescaped line = false
  facts : ∀ fact ∈ document.facts, PlainFact fact
  body : ∀ line ∈ textLines document.body.toList, opensUnescaped line = false
  footer : ∀ footer ∈ document.footer, ∀ line ∈ textLines footer.toList, opensUnescaped line = false

/-- The end of a line, or the `**` behind a key. -/
def Closed (rest : List Char) : Prop := ∀ c ∈ rest.head?, c = '*'

/-- A property that no special character has. -/
theorem forall_special {q : Char → Bool} (h : markdownSpecial.all (fun c => !q c) = true) :
    ∀ c ∈ markdownSpecial, q c = false := by
  intro c hc
  have hnot := List.all_eq_true.mp h c hc
  rwa [Bool.not_eq_true'] at hnot

theorem not_special_of_digit : ∀ c ∈ markdownSpecial, Char.isDigit c = false :=
  forall_special (by decide)

theorem not_special_of_space : ∀ c ∈ markdownSpecial, decide (c = ' ') = false :=
  forall_special (by decide)

theorem any_head?_escape {q q' : Char → Bool} (text : List Char) {rest : List Char}
    (hmark : q '\\' = false) (hspecial : ∀ c ∈ markdownSpecial, q' c = false)
    (hother : ∀ c, c ∉ markdownSpecial → q c = q' c) (hrest : text = [] → rest.head?.any q = false) :
    (escape '\\' markdownSpecial text ++ rest).head?.any q = text.head?.any q' := by
  cases text with
  | nil => exact hrest rfl
  | cons c cs =>
    by_cases hc : c ∈ markdownSpecial
    · rw [escape_cons_of_mem _ _ hc]
      exact hmark.trans (hspecial c hc).symm
    · rw [escape_cons_of_notMem _ _ hc]
      exact hother c hc

theorem startsBlock_escape (text : List Char) {rest : List Char} (hrest : Closed rest)
    (h : text ≠ [] ∨ rest = []) :
    startsBlock (escape '\\' markdownSpecial text ++ rest) = startsUnescaped text := by
  have hhead : (escape '\\' markdownSpecial text ++ rest).head?.any
      (· ∈ ['#', '>', '-', '+', '*', '\t']) = text.head?.any (· ∈ ['-', '+', '\t']) := by
    refine any_head?_escape text (by decide) (forall_special (by decide)) (fun c hc => ?_) fun htext => ?_
    · simp only [markdownSpecial, List.mem_cons, not_or] at hc
      simp only [List.mem_cons, hc, false_or]
    · obtain hne | rfl := h
      · exact absurd htext hne
      · rfl
  have hprefix (d : Char) (hmark : d ≠ '\\') (hd : d ∉ markdownSpecial) :
      [d, d, d].isPrefixOf (escape '\\' markdownSpecial text ++ rest) = [d, d, d].isPrefixOf text := by
    refine isPrefixOf_escape (fun q hq => ?_) text fun c hc hmem => ?_
    · rw [show q = d by simpa using hq]
      exact ⟨hmark, hd⟩
    · have hstar : d = '*' := by simpa [hrest c hc, eq_comm] using hmem
      exact hd (hstar ▸ by decide)
  have hfence : ['`', '`', '`'].isPrefixOf (escape '\\' markdownSpecial text ++ rest) = false := by
    cases text with
    | nil =>
      obtain hne | rfl := h
      · exact absurd rfl hne
      · rfl
    | cons c cs =>
      by_cases hc : c ∈ markdownSpecial
      · rw [escape_cons_of_mem _ _ hc]
        rfl
      · have hne : '`' ≠ c := fun he => hc (he ▸ by decide)
        rw [escape_cons_of_notMem _ _ hc, List.cons_append, List.isPrefixOf_cons_cons,
          beq_false_of_ne hne, Bool.false_and]
  have hdigit : ∀ c ∈ rest.head?, Char.isDigit c = false := by
    intro c hc
    rw [hrest c hc]
    decide
  have hnumber : (escape '\\' markdownSpecial (text.dropWhile Char.isDigit) ++ rest).head?.any
      (· ∈ ['.', ')']) = (text.dropWhile Char.isDigit).head?.any (· = '.') := by
    refine any_head?_escape _ (by decide) (forall_special (by decide)) (fun c hc => ?_) fun _ => ?_
    · simp only [markdownSpecial, List.mem_cons, not_or] at hc
      simp [hc]
    · cases hr : rest.head? with
      | none => rfl
      | some c =>
        rw [hrest c hr]
        decide
  rw [startsBlock, startsUnescaped, numbered, hhead, hprefix '=' (by decide) (by decide),
    hprefix '~' (by decide) (by decide), hfence, Bool.or_false,
    takeWhile_escape (by decide) not_special_of_digit text hdigit,
    dropWhile_escape (by decide) not_special_of_digit text hdigit, hnumber]

theorem opensBlock_escape (line : List Char) {rest : List Char} (hrest : Closed rest)
    (h : line.dropWhile (· = ' ') ≠ [] ∨ rest = []) :
    opensBlock (escape '\\' markdownSpecial line ++ rest) = opensUnescaped line := by
  have hspace : ∀ c ∈ rest.head?, decide (c = ' ') = false := by
    intro c hc
    rw [hrest c hc]
    decide
  rw [opensBlock, opensUnescaped, takeWhile_escape (by decide) not_special_of_space line hspace,
    dropWhile_escape (by decide) not_special_of_space line hspace, startsBlock_escape _ hrest h]

theorem opens_fieldMarks (line : List Char) : opens (fieldMarks line) = opensUnescaped line := by
  have hnil : Closed [] := nofun
  have h := opensBlock_escape line hnil (.inr rfl)
  rwa [List.append_nil, ← fieldMarks_text] at h

/-- The last line of a key goes on with `**`, which opens a block behind blanks. -/
theorem opens_keyEnd (line : List Char) (marks : List Mark) :
    opens (fieldMarks line ++ (own "**: " ++ marks)) =
      (opensUnescaped line || line.all (· = ' ')) := by
  have htext : (fieldMarks line ++ (own "**: " ++ marks)).map (·.2) =
      escape '\\' markdownSpecial line ++ '*' :: ('*' :: ':' :: ' ' :: marks.map (·.2)) := by
    rw [List.map_append, List.map_append, fieldMarks_text]
    rfl
  have hclosed : Closed ('*' :: ('*' :: ':' :: ' ' :: marks.map (·.2))) := by
    intro c hc
    simpa [eq_comm] using hc
  rw [opens, htext]
  cases hblank : line.all (· = ' ') with
  | true =>
    have hdrop : line.dropWhile (· = ' ') = [] :=
      List.dropWhile_eq_nil_iff.2 fun c hc => List.all_eq_true.mp hblank c hc
    rw [opensBlock, dropWhile_escape (by decide) not_special_of_space line (by simp), hdrop]
    simp [startsBlock]
  | false =>
    have hdrop : line.dropWhile (· = ' ') ≠ [] := by
      intro hnil
      have hall := List.all_eq_true.mpr (List.dropWhile_eq_nil_iff.1 hnil)
      exact Bool.false_ne_true (hblank.symm.trans hall)
    rw [opensBlock_escape line hclosed (.inl hdrop), Bool.or_false]

theorem opens_opening (h : c = '#' ∨ c = '-') (s : String) (marks : List Mark) :
    opens (opening c s ++ marks) = true := by
  obtain rfl | rfl := h
  · simp [opens, opening, opensBlock, startsBlock]
  · simp [opens, opening, opensBlock, startsBlock]

/-! ## The lines of the document -/

def startsLine (line : List Mark) : Bool := line.head?.any (·.1 = .opener)

theorem markedLines_newline (marks marks' : List Mark) :
    markedLines (marks ++ (own "\n" ++ marks')) = markedLines marks ++ markedLines marks' :=
  List.splitOnP_append_cons marks marks' rfl

theorem markedLines_fieldMarks (text : List Char) :
    markedLines (fieldMarks text) = (textLines text).map fieldMarks := by
  refine splitOnP_flatMap (fun c hc => ?_) (fun c hc m hm => ?_) text
  · have hplain : c ∉ markdownSpecial := by
      intro hmem
      have hnone : ∀ c ∈ markdownSpecial, isLineEnd c = false := forall_special (by decide)
      rw [hnone c hmem] at hc
      cases hc
    exact ⟨(.field, c), if_neg hplain, hc⟩
  · split at hm
    · simp only [List.mem_cons, List.not_mem_nil, or_false] at hm
      obtain rfl | rfl := hm
      · rfl
      · exact hc
    · obtain rfl := List.mem_singleton.mp hm
      exact hc

theorem markedLines_titleMarks {title : String} (h : textLines title.toList = l :: ls) :
    markedLines (titleMarks title) =
      (opening '#' " " ++ fieldMarks l) :: ls.map fieldMarks := by
  have hlines : markedLines (titleMarks title) =
      (markedLines (fieldMarks title.toList)).modifyHead (opening '#' " " ++ ·) :=
    splitOnP_append_of_forall _ (by decide)
  rw [hlines, markedLines_fieldMarks, h]
  rfl

theorem markedLines_opening_fieldMarks {key : String} (h : textLines key.toList = k :: ks) :
    markedLines (opening '-' " **" ++ fieldMarks key.toList) =
      (opening '-' " **" ++ fieldMarks k) :: ks.map fieldMarks := by
  have hlines : markedLines (opening '-' " **" ++ fieldMarks key.toList) =
      (markedLines (fieldMarks key.toList)).modifyHead (opening '-' " **" ++ ·) :=
    splitOnP_append_of_forall _ (by decide)
  rw [hlines, markedLines_fieldMarks, h]
  rfl

theorem markedLines_own_fieldMarks {value : String} (h : textLines value.toList = v :: vs) :
    markedLines (own "**: " ++ fieldMarks value.toList) =
      (own "**: " ++ fieldMarks v) :: vs.map fieldMarks := by
  have hlines : markedLines (own "**: " ++ fieldMarks value.toList) =
      (markedLines (fieldMarks value.toList)).modifyHead (own "**: " ++ ·) :=
    splitOnP_append_of_forall _ (by decide)
  rw [hlines, markedLines_fieldMarks, h]
  rfl

/-- A key of one line. -/
theorem markedLines_factMarks {fact : String × String} (hkey : textLines fact.1.toList = [k])
    (hvalue : textLines fact.2.toList = v :: vs) :
    markedLines (factMarks fact) =
      (opening '-' " **" ++ (fieldMarks k ++ (own "**: " ++ fieldMarks v))) :: vs.map fieldMarks := by
  have hfirst : markedLines (opening '-' " **" ++ fieldMarks fact.1.toList) =
      [] ++ [opening '-' " **" ++ fieldMarks k] := markedLines_opening_fieldMarks hkey
  refine (splitOnP_append hfirst).trans ?_
  have hlast := markedLines_own_fieldMarks hvalue
  rw [markedLines] at hlast
  rw [hlast, List.nil_append, List.modifyHead_cons, List.append_assoc]

/-- A key of several lines. -/
theorem markedLines_factMarks_cons {fact : String × String}
    (hkey : textLines fact.1.toList = k :: (ks ++ [k'])) (hvalue : textLines fact.2.toList = v :: vs) :
    markedLines (factMarks fact) = (opening '-' " **" ++ fieldMarks k) :: (ks.map fieldMarks ++
      (fieldMarks k' ++ (own "**: " ++ fieldMarks v)) :: vs.map fieldMarks) := by
  have hfirst : markedLines (opening '-' " **" ++ fieldMarks fact.1.toList) =
      ((opening '-' " **" ++ fieldMarks k) :: ks.map fieldMarks) ++ [fieldMarks k'] := by
    rw [markedLines_opening_fieldMarks hkey, List.map_append]
    rfl
  refine (splitOnP_append hfirst).trans ?_
  have hlast := markedLines_own_fieldMarks hvalue
  rw [markedLines] at hlast
  rw [hlast, List.modifyHead_cons, List.cons_append]

/-- The marks of a text with doubled line feeds have the lines of the text, and blank ones. -/
theorem forall_markedLines_doubleMarks {P : List Mark → Prop} (hnil : P []) (marks : List Mark) :
    (∀ line ∈ markedLines (doubleMarks marks), P line) ↔ ∀ line ∈ markedLines marks, P line := by
  have hlines : ∃ l ls ls', markedLines (doubleMarks marks) = l :: ls ∧ markedLines marks = l :: ls' ∧
      (∀ line ∈ ls, line = [] ∨ line ∈ ls') ∧ ls' ⊆ ls := by
    induction marks with
    | nil => exact ⟨[], [], [], rfl, rfl, by simp, List.Subset.refl []⟩
    | cons m marks ih =>
      obtain ⟨l, ls, ls', hdouble, hmarks, hback, hsub⟩ := ih
      have hhead : doubleMarks (m :: marks) =
          (if m.2 = '\n' then [m, (.renderer, '\n')] else [m]) ++ doubleMarks marks := List.flatMap_cons
      rw [markedLines] at hdouble hmarks
      rw [hhead, markedLines, markedLines, List.splitOnP_cons_eq_if_modifyHead, hmarks]
      by_cases hfeed : m.2 = '\n'
      · have hend : isLineEnd m.2 = true := by
          rw [hfeed]
          rfl
        rw [if_pos hfeed, if_pos hend]
        refine ⟨[], [] :: l :: ls, l :: ls', ?_, rfl, ?_, ?_⟩
        · rw [List.cons_append, List.singleton_append, List.splitOnP_cons_eq_if_modifyHead, if_pos hend,
            List.splitOnP_cons_eq_if_modifyHead, hdouble]
          rfl
        · intro line hline
          obtain rfl | hline := List.mem_cons.mp hline
          · exact .inl rfl
          · obtain rfl | hline := List.mem_cons.mp hline
            · exact .inr List.mem_cons_self
            · exact (hback line hline).imp_right (List.mem_cons_of_mem l)
        · exact List.Subset.trans (List.cons_subset_cons l hsub) (List.subset_cons_self [] _)
      · rw [if_neg hfeed, List.singleton_append, List.splitOnP_cons_eq_if_modifyHead, hdouble]
        by_cases hend : isLineEnd m.2 = true
        · rw [if_pos hend, if_pos hend]
          refine ⟨[], l :: ls, l :: ls', rfl, rfl, ?_, List.cons_subset_cons l hsub⟩
          intro line hline
          obtain rfl | hline := List.mem_cons.mp hline
          · exact .inr List.mem_cons_self
          · exact (hback line hline).imp_right (List.mem_cons_of_mem l)
        · rw [if_neg hend, if_neg hend]
          exact ⟨m :: l, ls, ls', rfl, rfl, hback, hsub⟩
  obtain ⟨l, ls, ls', hdouble, hmarks, hback, hsub⟩ := hlines
  rw [hdouble, hmarks, List.forall_mem_cons, List.forall_mem_cons]
  refine and_congr_right fun _ => ⟨fun h line hline => h line (hsub hline), fun h line hline => ?_⟩
  obtain rfl | hline := hback line hline
  · exact hnil
  · exact h line hline

/-- The lines of what is rendered. -/
def documentLines (document : NotificationDocument) : List (List Mark) :=
  (if document.title ≠ "" then markedLines (titleMarks document.title) else []) ++
    ((if document.facts ≠ [] ∧ document.title ≠ "" then [[]] else []) ++
      (document.facts.flatMap (fun fact => markedLines (factMarks fact)) ++
        ((if document.title ≠ "" ∨ document.facts ≠ [] then [[]] else []) ++
          (markedLines (doubleMarks (fieldMarks document.body.toList)) ++
            match document.footer with
            | some footer =>
              if footer ≠ "" then
                [] :: opening '-' "--" :: [] :: markedLines (fieldMarks footer.toList)
              else []
            | none => []))))

theorem markedLines_facts (facts : List (String × String)) (marks : List Mark) :
    markedLines ((facts.flatMap fun fact => factMarks fact ++ own "\n") ++ marks) =
      facts.flatMap (fun fact => markedLines (factMarks fact)) ++ markedLines marks := by
  induction facts with
  | nil => rfl
  | cons fact facts ih =>
    rw [List.flatMap_cons, List.flatMap_cons, List.append_assoc, List.append_assoc,
      markedLines_newline, ih, List.append_assoc]

theorem markedLines_blank (marks : List Mark) :
    markedLines (own "\n" ++ marks) = [[]] ++ markedLines marks := by
  exact markedLines_newline [] marks

theorem markedLines_markdown (document : NotificationDocument) :
    markedLines (markedMarkdown document) = documentLines document := by
  have hbody : markedLines (doubleMarks (fieldMarks document.body.toList) ++
      match document.footer with
      | some footer =>
        if footer ≠ "" then
          own "\n" ++ (own "\n" ++ (opening '-' "--" ++ (own "\n" ++ (own "\n" ++
            fieldMarks footer.toList))))
        else []
      | none => []) =
      markedLines (doubleMarks (fieldMarks document.body.toList)) ++
        match document.footer with
        | some footer =>
          if footer ≠ "" then [] :: opening '-' "--" :: [] :: markedLines (fieldMarks footer.toList)
          else []
        | none => [] := by
    cases document.footer with
    | none => simp only [List.append_nil]
    | some footer =>
      by_cases hf : footer = ""
      · simp only [hf, ne_eq, not_true_eq_false, if_false, List.append_nil]
      · have hrule : markedLines (opening '-' "--") = [opening '-' "--"] := by decide
        simp only [hf, ne_eq, not_false_eq_true, if_true]
        rw [markedLines_newline, markedLines_blank, markedLines_newline, hrule, markedLines_blank]
        rfl
  unfold markedMarkdown documentLines
  dsimp only
  by_cases ht : document.title = ""
  · by_cases hfacts : document.facts = []
    · simp only [ht, hfacts, ne_eq, not_true_eq_false, or_false, and_false, if_false, List.nil_append,
        List.flatMap_nil, hbody]
    · simp only [ht, hfacts, ne_eq, not_true_eq_false, not_false_eq_true, or_true, and_false, if_true,
        if_false, List.nil_append, markedLines_facts, markedLines_blank, hbody]
  · by_cases hfacts : document.facts = []
    · simp only [ht, hfacts, ne_eq, not_true_eq_false, not_false_eq_true, or_false, false_and, if_true,
        if_false, List.nil_append, List.append_assoc, List.flatMap_nil, markedLines_newline,
        markedLines_blank, hbody]
    · simp only [ht, hfacts, ne_eq, not_false_eq_true, or_self, and_self, if_true, List.append_assoc]
      rw [markedLines_newline, markedLines_blank, markedLines_facts, markedLines_blank, hbody]

theorem origin_fieldMarks {text : List Char} (h : m ∈ fieldMarks text) : m.1 ≠ .opener := by
  obtain ⟨c, _, hm⟩ := List.mem_flatMap.mp h
  split at hm
  · simp only [List.mem_cons, List.not_mem_nil, or_false] at hm
    obtain rfl | rfl := hm
    · nofun
    · nofun
  · obtain rfl := List.mem_singleton.mp hm
    nofun

theorem origin_own {s : String} (h : m ∈ own s) : m.1 ≠ .opener := by
  obtain ⟨c, _, rfl⟩ := List.mem_map.mp h
  nofun

theorem startsLine_of_origin {line : List Mark} (h : ∀ m ∈ line, m.1 ≠ .opener) :
    startsLine line = false := by
  cases line with
  | nil => rfl
  | cons m line => exact decide_eq_false (h m List.mem_cons_self)

theorem startsLine_fieldMarks (text : List Char) : startsLine (fieldMarks text) = false :=
  startsLine_of_origin fun _ h => origin_fieldMarks h

theorem startsLine_keyEnd (key value : List Char) :
    startsLine (fieldMarks key ++ (own "**: " ++ fieldMarks value)) = false := by
  refine startsLine_of_origin fun m hm => ?_
  obtain hkey | hrest := List.mem_append.mp hm
  · exact origin_fieldMarks hkey
  · obtain hown | hvalue := List.mem_append.mp hrest
    · exact origin_own hown
    · exact origin_fieldMarks hvalue

theorem startsLine_opening (c : Char) (s : String) (marks : List Mark) :
    startsLine (opening c s ++ marks) = true := rfl

/-- No line of the body is one that the renderer opens. -/
theorem startsLine_body (body : String) :
    ∀ line ∈ markedLines (doubleMarks (fieldMarks body.toList)), startsLine line = false := by
  rw [forall_markedLines_doubleMarks (P := fun line => startsLine line = false) rfl,
    markedLines_fieldMarks, List.forall_mem_map]
  exact fun line _ => startsLine_fieldMarks line

theorem filter_startsLine_map (lines : List (List Char)) :
    (lines.map fieldMarks).filter startsLine = [] := by
  refine List.filter_eq_nil_iff.mpr fun line hline => ?_
  obtain ⟨text, _, rfl⟩ := List.mem_map.mp hline
  rw [startsLine_fieldMarks]
  exact Bool.false_ne_true

theorem exists_textLines (text : String) : ∃ l ls, textLines text.toList = l :: ls :=
  List.exists_cons_of_ne_nil (List.splitOnP_ne_nil _ _)

theorem filter_startsLine_title (title : String) :
    (markedLines (titleMarks title)).filter startsLine = [firstLine (titleMarks title)] := by
  obtain ⟨l, ls, hlines⟩ := exists_textLines title
  rw [firstLine, markedLines_titleMarks hlines, List.filter_cons_of_pos (startsLine_opening _ _ _),
    filter_startsLine_map]
  rfl

/-- The keys of one line and of several. -/
theorem textLines_cases (text : String) :
    (∃ l, textLines text.toList = [l]) ∨ ∃ l ls l', textLines text.toList = l :: (ls ++ [l']) := by
  obtain ⟨l, ls, hlines⟩ := exists_textLines text
  obtain rfl | ⟨ms, m, hms⟩ := List.eq_nil_or_concat ls
  · exact .inl ⟨l, hlines⟩
  · exact .inr ⟨l, ms, m, by rw [hlines, hms, List.concat_eq_append]⟩

theorem filter_startsLine_fact (fact : String × String) :
    (markedLines (factMarks fact)).filter startsLine = [firstLine (factMarks fact)] := by
  obtain ⟨v, vs, hvalue⟩ := exists_textLines fact.2
  obtain ⟨k, hkey⟩ | ⟨k, ks, k', hkey⟩ := textLines_cases fact.1
  · rw [firstLine, markedLines_factMarks hkey hvalue,
      List.filter_cons_of_pos (startsLine_opening _ _ _), filter_startsLine_map]
    rfl
  · rw [firstLine, markedLines_factMarks_cons hkey hvalue,
      List.filter_cons_of_pos (startsLine_opening _ _ _), List.filter_append, filter_startsLine_map,
      List.filter_cons_of_neg (by rw [startsLine_keyEnd]; exact Bool.false_ne_true),
      filter_startsLine_map]
    rfl

/-- The lines that the renderer opens are its own lines. -/
theorem filter_startsLine (document : NotificationDocument) :
    (markedLines (markedMarkdown document)).filter startsLine = ownLines document := by
  have hfacts : (document.facts.flatMap fun fact => markedLines (factMarks fact)).filter startsLine =
      document.facts.map fun fact => firstLine (factMarks fact) := by
    induction document.facts with
    | nil => rfl
    | cons fact facts ih =>
      rw [List.flatMap_cons, List.filter_append, filter_startsLine_fact, ih]
      rfl
  have hbody : (markedLines (doubleMarks (fieldMarks document.body.toList))).filter startsLine = [] := by
    refine List.filter_eq_nil_iff.mpr fun line hline => ?_
    rw [startsLine_body document.body line hline]
    exact Bool.false_ne_true
  have hblank (p : Prop) [Decidable p] :
      (if p then [([] : List Mark)] else []).filter startsLine = [] := by
    split <;> rfl
  rw [markedLines_markdown, documentLines, ownLines, List.filter_append, List.filter_append,
    List.filter_append, List.filter_append, List.filter_append, hblank, hblank, hfacts, hbody,
    List.nil_append, List.nil_append, List.nil_append]
  refine congrArg₂ (· ++ ·) ?_ (congrArg _ ?_)
  · split
    · exact filter_startsLine_title document.title
    · rfl
  · cases document.footer with
    | none => rfl
    | some footer =>
      by_cases hf : footer = ""
      · simp [hf]
      · have hfield : (markedLines (fieldMarks footer.toList)).filter startsLine = [] := by
          rw [markedLines_fieldMarks, filter_startsLine_map]
        simp only [hf, ne_eq, not_false_eq_true, if_true]
        rw [List.filter_cons_of_neg (by decide), List.filter_cons_of_pos (by decide),
          List.filter_cons_of_neg (by decide), hfield]

/-- A document is inert if the lines that open a block are those that the renderer opens. -/
theorem blocksInert_iff (document : NotificationDocument) :
    BlocksInert document ↔ ∀ line ∈ documentLines document, opens line = startsLine line := by
  rw [BlocksInert, ← filter_startsLine, markedLines_markdown]
  constructor
  · intro h line hline
    have hmem : line ∈ (documentLines document).filter opens ↔
        line ∈ (documentLines document).filter startsLine := by rw [h]
    rw [List.mem_filter, List.mem_filter, and_iff_right hline, and_iff_right hline] at hmem
    exact Bool.eq_iff_iff.mpr hmem
  · intro h
    exact List.filter_congr h

/-! ## The fields one by one -/

theorem title_inert_iff (title : String) :
    (∀ line ∈ markedLines (titleMarks title), opens line = startsLine line) ↔
      ∀ line ∈ (textLines title.toList).tail, opensUnescaped line = false := by
  obtain ⟨l, ls, hlines⟩ := exists_textLines title
  rw [markedLines_titleMarks hlines, hlines, List.forall_mem_cons, List.forall_mem_map, List.tail_cons]
  have hfirst : opens (opening '#' " " ++ fieldMarks l) = startsLine (opening '#' " " ++ fieldMarks l) :=
    opens_opening (.inl rfl) " " _
  simp only [hfirst, true_and, opens_fieldMarks, startsLine_fieldMarks]

theorem fact_inert_iff (fact : String × String) :
    (∀ line ∈ markedLines (factMarks fact), opens line = startsLine line) ↔ PlainFact fact := by
  obtain ⟨v, vs, hvalue⟩ := exists_textLines fact.2
  have hplain : PlainFact fact ↔
      (∀ line ∈ (textLines fact.1.toList).tail, opensUnescaped line = false) ∧
        (∀ line ∈ (textLines fact.1.toList).tail.getLast?, ∃ c ∈ line, c ≠ ' ') ∧
          ∀ line ∈ vs, opensUnescaped line = false := by
    have htail : (textLines fact.2.toList).tail = vs := by rw [hvalue, List.tail_cons]
    constructor
    · rintro ⟨hkey, hend, hrest⟩
      rw [htail] at hrest
      exact ⟨hkey, hend, hrest⟩
    · rintro ⟨hkey, hend, hrest⟩
      refine ⟨hkey, hend, ?_⟩
      rwa [htail]
  have hfirst (marks : List Mark) :
      opens (opening '-' " **" ++ marks) = startsLine (opening '-' " **" ++ marks) :=
    opens_opening (.inr rfl) " **" marks
  rw [hplain]
  obtain ⟨k, hkey⟩ | ⟨k, ks, k', hkey⟩ := textLines_cases fact.1
  · rw [markedLines_factMarks hkey hvalue, hkey, List.forall_mem_cons, List.forall_mem_map]
    simp only [hfirst, true_and, opens_fieldMarks, startsLine_fieldMarks, List.tail_cons,
      List.getLast?_nil, List.not_mem_nil, false_implies, implies_true, Option.not_mem_none]
  · have hblank : k'.all (· = ' ') = false ↔ ∃ c ∈ k', c ≠ ' ' := by
      rw [List.all_eq_false]
      simp only [decide_eq_true_eq, ne_eq]
    rw [markedLines_factMarks_cons hkey hvalue, hkey, List.forall_mem_cons, List.forall_mem_append,
      List.forall_mem_cons, List.forall_mem_map, List.forall_mem_map, List.tail_cons,
      List.forall_mem_append, List.forall_mem_singleton, List.getLast?_concat]
    simp only [hfirst, true_and, opens_fieldMarks, opens_keyEnd, startsLine_fieldMarks,
      startsLine_keyEnd, Bool.or_eq_false_iff, hblank, Option.mem_some_iff, forall_eq']
    tauto

theorem body_inert_iff (body : String) :
    (∀ line ∈ markedLines (doubleMarks (fieldMarks body.toList)), opens line = startsLine line) ↔
      ∀ line ∈ textLines body.toList, opensUnescaped line = false := by
  rw [forall_markedLines_doubleMarks (P := fun line => opens line = startsLine line) rfl,
    markedLines_fieldMarks, List.forall_mem_map]
  simp only [opens_fieldMarks, startsLine_fieldMarks]

theorem footer_inert_iff (footer : String) :
    (∀ line ∈ markedLines (fieldMarks footer.toList), opens line = startsLine line) ↔
      ∀ line ∈ textLines footer.toList, opensUnescaped line = false := by
  rw [markedLines_fieldMarks, List.forall_mem_map]
  simp only [opens_fieldMarks, startsLine_fieldMarks]

theorem blocksInert_iff_plainLines (document : NotificationDocument) :
    BlocksInert document ↔ PlainLines document := by
  have hblank (p : Prop) [Decidable p] :
      ∀ line ∈ if p then [([] : List Mark)] else [], opens line = startsLine line := by
    split
    · exact List.forall_mem_singleton.mpr rfl
    · nofun
  have hfooter : (∀ line ∈ (match document.footer with
      | some footer =>
        if footer ≠ "" then [] :: opening '-' "--" :: [] :: markedLines (fieldMarks footer.toList)
        else []
      | none => []), opens line = startsLine line) ↔
        ∀ footer ∈ document.footer, ∀ line ∈ textLines footer.toList, opensUnescaped line = false := by
    cases document.footer with
    | none => simp
    | some footer =>
      by_cases hf : footer = ""
      · have hempty : ∀ line ∈ textLines "".toList, opensUnescaped line = false := by decide
        simpa [hf] using hempty
      · simp only [hf, ne_eq, not_false_eq_true, if_true, Option.mem_some_iff, forall_eq']
        rw [List.forall_mem_cons, List.forall_mem_cons, List.forall_mem_cons, footer_inert_iff]
        exact ⟨fun h => h.2.2.2, fun h => ⟨rfl, by decide, rfl, h⟩⟩
  have htitle : (∀ line ∈ (if document.title ≠ "" then markedLines (titleMarks document.title) else []),
      opens line = startsLine line) ↔
        ∀ line ∈ (textLines document.title.toList).tail, opensUnescaped line = false := by
    by_cases ht : document.title = ""
    · have hempty : ∀ line ∈ (textLines "".toList).tail, opensUnescaped line = false := by decide
      simpa [ht] using hempty
    · rw [if_pos ht, title_inert_iff]
  rw [blocksInert_iff, documentLines, List.forall_mem_append, List.forall_mem_append,
    List.forall_mem_append, List.forall_mem_append, List.forall_mem_append, htitle, body_inert_iff,
    hfooter, List.forall_mem_flatMap]
  simp only [fact_inert_iff]
  constructor
  · rintro ⟨htitle, _, hfacts, _, hbody, hfooter⟩
    exact ⟨htitle, hfacts, hbody, hfooter⟩
  · rintro ⟨htitle, hfacts, hbody, hfooter⟩
    exact ⟨htitle, hblank _, hfacts, hblank _, hbody, hfooter⟩

/-! ## Inside a line -/

def NoField (marks : List Mark) : Prop :=
  ∀ m ∈ unescaped marks, m.2 ∈ markdownSpecial → m.1 ≠ .field

theorem unescaped_cons {m : Mark} (h : m.2 ≠ '\\') (marks : List Mark) :
    unescaped (m :: marks) = m :: unescaped marks := by
  cases marks with
  | nil => rfl
  | cons m' marks => rw [unescaped, if_neg fun hm => h hm.1]

theorem NoField.cons {m : Mark} (h : NoField marks) (hm : m.2 ∈ markdownSpecial → m.1 ≠ .field)
    (hmark : m.2 ≠ '\\') : NoField (m :: marks) := by
  rw [NoField, unescaped_cons hmark, List.forall_mem_cons]
  exact ⟨hm, h⟩

theorem ne_mark_of_notMem (h : c ∉ markdownSpecial) : c ≠ '\\' := by
  rintro rfl
  exact h (by decide)

theorem NoField.field (h : NoField marks) (text : List Char) : NoField (fieldMarks text ++ marks) := by
  induction text with
  | nil => exact h
  | cons c text ih =>
    rw [fieldMarks, List.flatMap_cons, List.append_assoc]
    by_cases hc : c ∈ markdownSpecial
    · rw [if_pos hc, List.cons_append, List.singleton_append, NoField, unescaped, if_pos ⟨rfl, hc⟩]
      exact ih
    · rw [if_neg hc, List.singleton_append]
      exact NoField.cons ih (fun hmem => absurd hmem hc) (ne_mark_of_notMem hc)

theorem NoField.own (h : NoField marks) {s : String} (hs : '\\' ∉ s.toList) :
    NoField (own s ++ marks) := by
  rw [CcReminder.own]
  generalize s.toList = cs at hs
  induction cs with
  | nil => exact h
  | cons c cs ih =>
    rw [List.mem_cons, not_or] at hs
    exact NoField.cons (ih hs.2) (fun _ => nofun) fun hmark => hs.1 hmark.symm

theorem NoField.opening (h : NoField marks) {c : Char} {s : String} (hc : c ≠ '\\')
    (hs : '\\' ∉ s.toList) : NoField (opening c s ++ marks) :=
  NoField.cons (h.own hs) (fun _ => nofun) hc

theorem NoField.body (h : NoField marks) (text : List Char) :
    NoField (doubleMarks (fieldMarks text) ++ marks) := by
  induction text with
  | nil => exact h
  | cons c text ih =>
    rw [fieldMarks, List.flatMap_cons, doubleMarks, List.flatMap_append, List.append_assoc]
    by_cases hc : c ∈ markdownSpecial
    · have hfeed : c ≠ '\n' := by
        rintro rfl
        exact absurd hc (by decide)
      have hpair : (if c ∈ markdownSpecial then [(Origin.renderer, '\\'), (.field, c)] else
          [(.field, c)]).flatMap (fun m => if m.2 = '\n' then [m, (.renderer, '\n')] else [m]) =
          [(.renderer, '\\'), (.field, c)] := by
        simp [hc, hfeed]
      rw [hpair, List.cons_append, List.singleton_append, NoField, unescaped, if_pos ⟨rfl, hc⟩]
      exact ih
    · rw [if_neg hc, List.flatMap_singleton]
      have hmark := ne_mark_of_notMem hc
      split
      · refine NoField.cons (NoField.cons ih (fun _ => nofun) (by decide)) ?_ hmark
        exact fun hmem => absurd hmem hc
      · exact NoField.cons ih (fun hmem => absurd hmem hc) hmark

/-- A special character that is not part of an escape is the renderer's. -/
theorem inlineInert (document : NotificationDocument) : InlineInert document := by
  have hfeed {marks : List Mark} (h : NoField marks) : NoField (own "\n" ++ marks) :=
    h.own (by decide)
  have hnil : NoField [] := nofun
  have hfacts {marks : List Mark} (h : NoField marks) (facts : List (String × String)) :
      NoField ((facts.flatMap fun fact => factMarks fact ++ own "\n") ++ marks) := by
    induction facts with
    | nil => exact h
    | cons fact facts ih =>
      rw [List.flatMap_cons, List.append_assoc, List.append_assoc, factMarks, List.append_assoc,
        List.append_assoc, List.append_assoc]
      exact (((hfeed ih).field _).own (by decide)).field _ |>.opening (by decide) (by decide)
  have hblank {marks : List Mark} (h : NoField marks) (p : Prop) [Decidable p] :
      NoField ((if p then own "\n" else []) ++ marks) := by
    split
    · exact hfeed h
    · exact h
  have hfooter (footer : String) : NoField (own "\n" ++ (own "\n" ++ (opening '-' "--" ++
      (own "\n" ++ (own "\n" ++ fieldMarks footer.toList))))) := by
    have hfield := hnil.field footer.toList
    rw [List.append_nil] at hfield
    exact hfeed (hfeed ((hfeed (hfeed hfield)).opening (by decide) (by decide)))
  unfold InlineInert markedMarkdown
  dsimp only
  have hend : NoField (match document.footer with
      | some footer =>
        if footer ≠ "" then
          own "\n" ++ (own "\n" ++ (opening '-' "--" ++ (own "\n" ++ (own "\n" ++
            fieldMarks footer.toList))))
        else []
      | none => []) := by
    cases document.footer with
    | none => exact hnil
    | some footer =>
      dsimp only
      split
      · exact hfooter footer
      · exact hnil
  have hbody := hblank (hend.body document.body.toList) (document.title ≠ "" ∨ document.facts ≠ [])
  have hitems {marks : List Mark} (h : NoField marks) : NoField ((if document.facts ≠ [] then
      (if document.title ≠ "" then own "\n" else []) ++
        document.facts.flatMap fun fact => factMarks fact ++ own "\n"
    else []) ++ marks) := by
    split
    · rw [List.append_assoc]
      exact hblank (hfacts h document.facts) _
    · exact h
  have hrest := hitems hbody
  by_cases ht : document.title = ""
  · rw [if_neg (not_not_intro ht)]
    exact hrest
  · rw [if_pos ht, titleMarks, List.append_assoc, List.append_assoc]
    exact ((hfeed hrest).field _).opening (by decide) (by decide)

/-! ## Rendered documents -/

/-- A rendered document opens no block and has no special character but those of the renderer. -/
def MarkdownInert (document : NotificationDocument) : Prop :=
  BlocksInert document ∧ InlineInert document

/-- What is rendered is inert for the documents whose fields have no line that opens a block where it
stands, and for no others. -/
theorem markdownInert_iff (document : NotificationDocument) :
    (markedMarkdown document).map (·.2) = (renderMarkdown document).toList ∧
      (MarkdownInert document ↔ PlainLines document) := by
  refine ⟨markedMarkdown_text document, ?_⟩
  rw [MarkdownInert, and_iff_left (inlineInert document)]
  exact blocksInert_iff_plainLines document

/-- A body of one list item. -/
theorem not_markdownInert_item : ¬MarkdownInert
    { title := "Build", severity := .info, facts := [], body := "- done", footer := none } := by
  rintro ⟨hblocks, _⟩
  have hplain := (blocksInert_iff_plainLines _).mp hblocks
  exact absurd hplain.body (by decide)

end CcReminder
