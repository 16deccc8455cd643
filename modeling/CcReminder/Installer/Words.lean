import CcReminder.Installer.Command
import CcReminder.Lib.Utf8

/-!
# Words that come back

What the quoters write, and what the readers of words make of it. The readers look for ASCII bytes
only, so the words of a text are texts. A word in POSIX quotes comes back as it was. In Windows
quotes it does unless it has a double quote behind a backslash: the backslashes before a quote are
written once instead of twice.
-/

set_option autoImplicit true

namespace CcReminder

open Lib

@[simp] theorem utf8Bytes_ofList (cs : List Char) : utf8Bytes (String.ofList cs) = utf8 cs := by
  rw [utf8Bytes, String.toList_ofList]
  rfl

theorem utf8Bytes_injective {s t : String} (h : utf8Bytes s = utf8Bytes t) : s = t :=
  String.toList_injective (utf8_injective h)

/-- The bytes of a text are read back as the text. -/
theorem fromUTF8?_utf8Bytes (s : String) : String.fromUTF8? ⟨(utf8Bytes s).toArray⟩ = some s := by
  have hbytes : (⟨(utf8Bytes s).toArray⟩ : ByteArray) = s.toByteArray := by
    rw [← String.utf8Encode_toList, List.utf8Encode, utf8Bytes]
    exact ByteArray.ext List.data_toByteArray.symm
  rw [hbytes, String.fromUTF8?, dif_pos s.isValidUTF8]
  rfl

/-- An ASCII character is told by its byte. -/
theorem byte_eq_iff {c d : Char} (hc : c.toNat < 128) (hd : d.toNat < 128) :
    UInt8.ofNat c.toNat = UInt8.ofNat d.toNat ↔ c = d := by
  constructor
  · intro h
    have hnat := congrArg UInt8.toNat h
    simp only [UInt8.toNat_ofNat'] at hnat
    exact Char.ext (UInt32.toNat_inj.mp (show c.toNat = d.toNat by omega))
  · rintro rfl
    rfl

theorem toNat_byte {c : Char} (hc : c.toNat < 128) : (UInt8.ofNat c.toNat).toNat = c.toNat := by
  simp only [UInt8.toNat_ofNat']
  omega

theorem ne_of_le {b d : UInt8} (hb : 128 ≤ b.toNat) (hd : d.toNat < 128) : b ≠ d := by
  rintro rfl
  omega

theorem not_isAsciiWhitespace {b : UInt8} (hb : 128 ≤ b.toNat) : isAsciiWhitespace b = false := by
  have h := fun d : UInt8 => ne_of_le (d := d) hb
  simp [isAsciiWhitespace, h 32 (by decide), h 9 (by decide), h 10 (by decide), h 12 (by decide),
    h 13 (by decide)]

/-! ## Words in the making -/

namespace Word

def pushAll (w : Word) (bs : List UInt8) : Word := some (bs.reverse ++ w.getD [])

/-- What there is of the word is a text. -/
def IsText (w : Word) : Prop := Lib.IsText (w.getD []).reverse

theorem IsText.none : IsText none := Lib.IsText.nil

theorem IsText.of_append {w : Word} (h : w.IsText) {bs : List UInt8} (hbs : Lib.IsText bs) :
    IsText (some (bs.reverse ++ w.getD [])) := by
  simp only [IsText, Option.getD_some, List.reverse_append, List.reverse_reverse]
  exact h.append hbs

theorem IsText.push {w : Word} (h : w.IsText) {b : UInt8} (hb : b.toNat < 128) :
    (w.push b).IsText := h.of_append (.ascii hb)

theorem IsText.pushAll {w : Word} (h : w.IsText) {bs : List UInt8} (hbs : Lib.IsText bs) :
    (w.pushAll bs).IsText := h.of_append hbs

/-- The backslashes of a run. -/
theorem IsText.replicate {w : Word} (h : w.IsText) (n : Nat) :
    IsText (some (List.replicate n 92 ++ w.getD [])) := by
  have := h.of_append (Lib.IsText.replicate (b := 92) (by decide) n)
  rwa [List.reverse_replicate] at this

theorem mem_close {w : Word} {words : List (List UInt8)} {word : List UInt8} :
    word ∈ w.close words → word ∈ words ∨ word = (w.getD []).reverse := by
  cases w with
  | none => exact .inl
  | some bytes =>
    intro h
    rcases List.mem_cons.mp h with rfl | h
    · exact .inr rfl
    · exact .inl h

end Word

/-! ## POSIX words -/

/-- Behind a character that was escaped, the text goes on as before. -/
def PosixMode.next : PosixMode → PosixMode
  | .escaped => .plain
  | mode => mode

/-- The bytes of a character that is not ASCII. -/
theorem posixWords_group {bs : List UInt8} (hbs : ∀ b ∈ bs, 128 ≤ b.toNat) (b : UInt8)
    (hb : 128 ≤ b.toNat) (mode : PosixMode) (w : Word) (rest : List UInt8) :
    posixWords mode w (b :: bs ++ rest) = posixWords mode.next (w.pushAll (b :: bs)) rest := by
  have hquote : b ≠ 39 := ne_of_le hb (by decide)
  have hslash : b ≠ 92 := ne_of_le hb (by decide)
  have hspace := not_isAsciiWhitespace hb
  induction bs generalizing b mode w with
  | nil =>
    cases mode <;> simp [posixWords, PosixMode.next, Word.pushAll, Word.push, hquote, hslash, hspace]
  | cons d bs ih =>
    have hd : 128 ≤ d.toNat := hbs d List.mem_cons_self
    have := ih (fun b hb => hbs b (List.mem_cons_of_mem _ hb)) d hd mode.next (w.push b)
      (ne_of_le hd (by decide)) (ne_of_le hd (by decide)) (not_isAsciiWhitespace hd)
    have hstep : posixWords mode w (b :: d :: bs ++ rest) =
        posixWords mode.next (w.push b) (d :: bs ++ rest) := by
      cases mode <;> simp [posixWords, PosixMode.next, hquote, hslash, hspace]
    rw [hstep, this]
    have hnext : mode.next.next = mode.next := by cases mode <;> rfl
    rw [hnext]
    simp [Word.pushAll, Word.push]

/-- The words of a text are texts. -/
theorem isText_posixWords (cs : List Char) (mode : PosixMode) (w : Word) (hw : w.IsText) :
    ∀ word ∈ posixWords mode w (utf8 cs), IsText word := by
  induction cs generalizing mode w with
  | nil =>
    intro word hword
    cases mode with
    | escaped =>
      rcases Word.mem_close hword with h | rfl
      · cases h
      · exact hw.push (by decide)
    | plain | quoted =>
      rcases Word.mem_close hword with h | rfl
      · cases h
      · exact hw
  | cons c cs ih =>
    rw [utf8_cons]
    rcases utf8EncodeChar_cases c with ⟨hc, hbytes⟩ | ⟨b, bs, hbytes, hbs⟩
    · rw [hbytes, List.singleton_append]
      have hb := toNat_byte hc
      generalize UInt8.ofNat c.toNat = b at hb ⊢
      have hpush : (w.push b).IsText := hw.push (by omega)
      cases mode with
      | escaped => exact ih .plain _ hpush
      | quoted =>
        unfold posixWords
        split
        · exact ih .plain w hw
        · exact ih .quoted _ hpush
      | plain =>
        unfold posixWords
        split
        · exact ih .quoted _ hw
        split
        · exact ih .escaped w hw
        split
        · intro word hword
          rcases Word.mem_close hword with h | rfl
          · exact ih .plain none .none word h
          · exact hw
        · exact ih .plain _ hpush
    · have htext : IsText (b :: bs) := hbytes ▸ IsText.char c
      rw [hbytes, posixWords_group (fun b hb => hbs b (List.mem_cons_of_mem _ hb)) b
        (hbs b List.mem_cons_self)]
      exact ih _ _ (hw.pushAll htext)

/-! ## Windows words -/

/-- A run of backslashes is counted. -/
theorem windowsWords_run (n : Nat) (q : Bool) (run : Nat) (w : Word) (rest : List UInt8) :
    windowsWords q run w (List.replicate n 92 ++ rest) = windowsWords q (run + n) w rest := by
  induction n generalizing run with
  | zero => rfl
  | succ n ih =>
    rw [List.replicate_succ, List.cons_append, windowsWords, if_pos rfl, ih]
    congr 1
    omega

/-- A run that no quote follows is part of the word. -/
def Word.withRun (run : Nat) (w : Word) : Word :=
  if run = 0 then w else some (List.replicate run 92 ++ w.getD [])

theorem Word.getD_withRun (run : Nat) (w : Word) :
    (w.withRun run).getD [] = List.replicate run 92 ++ w.getD [] := by
  unfold withRun
  split
  · rename_i h
    rw [h]
    rfl
  · rfl

/-- The bytes of a character that is not ASCII. -/
theorem windowsWords_group {bs : List UInt8} (hbs : ∀ b ∈ bs, 128 ≤ b.toNat) (b : UInt8)
    (hb : 128 ≤ b.toNat) (q : Bool) (run : Nat) (w : Word) (rest : List UInt8) :
    windowsWords q run w (b :: bs ++ rest) =
      windowsWords q 0 ((w.withRun run).pushAll (b :: bs)) rest := by
  have hslash : b ≠ 92 := ne_of_le hb (by decide)
  have hquote : b ≠ 34 := ne_of_le hb (by decide)
  have hspace := not_isAsciiWhitespace hb
  induction bs generalizing b run w with
  | nil =>
    simp [windowsWords, Word.pushAll, Word.push, Word.withRun, hquote, hslash, hspace]
  | cons d bs ih =>
    have hd : 128 ≤ d.toNat := hbs d List.mem_cons_self
    have := ih (fun b hb => hbs b (List.mem_cons_of_mem _ hb)) d hd 0 ((w.withRun run).push b)
      (ne_of_le hd (by decide)) (ne_of_le hd (by decide)) (not_isAsciiWhitespace hd)
    have hstep : windowsWords q run w (b :: d :: bs ++ rest) =
        windowsWords q 0 ((w.withRun run).push b) (d :: bs ++ rest) := by
      simp [windowsWords, Word.withRun, hquote, hslash, hspace]
    rw [hstep, this]
    simp [Word.pushAll, Word.push, Word.withRun]

theorem isText_windowsWords (cs : List Char) (q : Bool) (run : Nat) (w : Word) (hw : w.IsText) :
    ∀ word ∈ windowsWords q run w (utf8 cs), IsText word := by
  have hrun : ∀ run (w : Word), w.IsText → (w.withRun run).IsText := by
    intro run w hw
    unfold Word.IsText
    rw [Word.getD_withRun]
    exact hw.replicate run
  induction cs generalizing q run w with
  | nil =>
    intro word hword
    rcases Word.mem_close hword with h | rfl
    · cases h
    · exact hrun run w hw
  | cons c cs ih =>
    rw [utf8_cons]
    rcases utf8EncodeChar_cases c with ⟨hc, hbytes⟩ | ⟨b, bs, hbytes, hbs⟩
    · rw [hbytes, List.singleton_append]
      have hb := toNat_byte hc
      generalize UInt8.ofNat c.toNat = b at hb ⊢
      unfold windowsWords
      split
      · exact ih q (run + 1) w hw
      split
      · split
        · exact ih q 0 _ (.push (w := some _) (hw.replicate (run / 2)) (by decide))
        · exact ih (!q) 0 _ (hw.replicate (run / 2))
      · dsimp only
        split
        · intro word hword
          rcases Word.mem_close hword with h | rfl
          · exact ih q 0 none .none word h
          · exact hrun run w hw
        · exact ih q 0 _ ((hrun run w hw).push (by omega))
    · have htext : IsText (b :: bs) := hbytes ▸ IsText.char c
      rw [hbytes, windowsWords_group (fun b hb => hbs b (List.mem_cons_of_mem _ hb)) b
        (hbs b List.mem_cons_self)]
      exact ih _ _ _ ((hrun run w hw).pushAll htext)

theorem isText_shellWords (command : String) : ∀ word ∈ shellWords command, IsText word := by
  unfold shellWords
  dsimp only
  split
  · exact isText_windowsWords command.toList false 0 none .none
  · exact isText_posixWords command.toList .plain none .none

/-! ## A list of words -/

/-- The bytes of words behind one another. -/
theorem utf8Bytes_joinWords (v : String) (vs : List String) :
    utf8Bytes (joinWords [v]) = utf8Bytes v ∧
      ∀ v', utf8Bytes (joinWords (v :: v' :: vs)) =
        utf8Bytes v ++ 32 :: utf8Bytes (joinWords (v' :: vs)) := by
  refine ⟨by rw [joinWords, String.intercalate_singleton], fun v' => ?_⟩
  change utf8 _ = utf8 _ ++ 32 :: utf8 _
  rw [joinWords, String.intercalate_cons_cons, String.toList_append, String.toList_append,
    utf8_append, utf8_append, List.append_assoc]
  rfl

/-- A reader that returns a quoted word at the end and before a space returns the words of a
list. -/
theorem words_join {f : List UInt8 → List (List UInt8)} {quote : String → String}
    {P : String → Prop} (hnil : f [] = [])
    (hlast : ∀ v, P v → f (utf8Bytes (quote v)) = [utf8Bytes v])
    (hnext : ∀ v, P v → ∀ rest, f (utf8Bytes (quote v) ++ 32 :: rest) = utf8Bytes v :: f rest)
    (args : List String) (hargs : ∀ arg ∈ args, P arg) :
    f (utf8Bytes (joinWords (args.map quote))) = args.map utf8Bytes := by
  induction args with
  | nil => exact hnil
  | cons v vs ih =>
    have hv : P v := hargs v List.mem_cons_self
    have hvs := ih fun arg harg => hargs arg (List.mem_cons_of_mem _ harg)
    cases vs with
    | nil =>
      rw [List.map_singleton, (utf8Bytes_joinWords _ []).1]
      exact hlast v hv
    | cons v' vs =>
      rw [List.map_cons, List.map_cons, (utf8Bytes_joinWords _ _).2, hnext v hv]
      exact congrArg _ hvs

/-! ## POSIX quotes -/

/-- What is between the quotes is read up to the closing quote. -/
theorem posixWords_quoted (cs : List Char) (bytes rest : List UInt8) :
    posixWords .quoted (some bytes)
        (utf8 (cs.flatMap fun c => if c = '\'' then "'\\''".toList else [c]) ++ 39 :: rest) =
      posixWords .plain (some ((utf8 cs).reverse ++ bytes)) rest := by
  induction cs generalizing bytes with
  | nil => simp [posixWords]
  | cons c cs ih =>
    rw [List.flatMap_cons, utf8_append, List.append_assoc, utf8_cons, List.reverse_append,
      List.append_assoc]
    by_cases hquote : c = '\''
    · -- out of the quotes, an escaped quote, and into the quotes again
      subst hquote
      rw [if_pos rfl, show utf8 "'\\''".toList = [39, 92, 39, 39] from rfl,
        show String.utf8EncodeChar '\'' = [39] from rfl]
      simpa [posixWords, Word.push, isAsciiWhitespace] using ih (39 :: bytes)
    · rw [if_neg hquote, utf8_cons, utf8_nil, List.append_nil]
      rcases utf8EncodeChar_cases c with ⟨hc, hbytes⟩ | ⟨b, bs, hbytes, hbs⟩
      · have hne : UInt8.ofNat c.toNat ≠ 39 := fun h => hquote ((byte_eq_iff hc (by decide)).mp h)
        rw [hbytes, List.singleton_append, posixWords, if_neg hne]
        exact ih _
      · rw [hbytes, posixWords_group (fun b hb => hbs b (List.mem_cons_of_mem _ hb)) b
          (hbs b List.mem_cons_self)]
        exact ih _

theorem utf8Bytes_posixQuote (v : String) : utf8Bytes (posixQuote v) =
    39 :: (utf8 (v.toList.flatMap fun c => if c = '\'' then "'\\''".toList else [c]) ++ [39]) := by
  rw [posixQuote, utf8Bytes_ofList, List.cons_append, utf8_cons, utf8_append]
  rfl

theorem posixWords_posixQuote (v : String) (rest : List UInt8) :
    posixWords .plain none (utf8Bytes (posixQuote v) ++ rest) =
      posixWords .plain (some (utf8Bytes v).reverse) rest := by
  rw [utf8Bytes_posixQuote, List.cons_append, List.append_assoc, posixWords, if_pos rfl]
  refine (posixWords_quoted _ _ _).trans ?_
  simp only [Option.getD_none, List.append_nil]
  rfl

theorem posixWords_joinWords (args : List String) :
    posixWords .plain none (utf8Bytes (joinWords (args.map posixQuote))) = args.map utf8Bytes := by
  refine words_join (f := posixWords .plain none) (P := fun _ => True) rfl (fun v _ => ?_)
    (fun v _ rest => ?_) args fun _ _ => trivial
  · rw [← List.append_nil (utf8Bytes (posixQuote v)), posixWords_posixQuote]
    simp [posixWords, Word.close]
  · rw [posixWords_posixQuote]
    simp [posixWords, Word.close, isAsciiWhitespace]

/-! ## Windows quotes -/

/-- Behind `n` backslashes, the text has a double quote behind a backslash. -/
def Breaks (n : Nat) (cs : List Char) : Prop :=
  n ≠ 0 ∧ cs.head? = some '"' ∨ ['\\', '"'] <:+: cs

namespace Breaks

theorem slash {n : Nat} {cs : List Char} : Breaks n ('\\' :: cs) ↔ Breaks (n + 1) cs := by
  have hpair : ['\\', '"'] <+: '\\' :: cs ↔ cs.head? = some '"' := by
    cases cs <;> simp [List.cons_prefix_cons, eq_comm]
  simp [Breaks, List.infix_cons_iff, hpair]

theorem quote {n : Nat} {cs : List Char} : Breaks n ('"' :: cs) ↔ n ≠ 0 ∨ Breaks 0 cs := by
  simp [Breaks, List.infix_cons_iff]

theorem other {n : Nat} {c : Char} {cs : List Char} (hslash : c ≠ '\\') (hquote : c ≠ '"') :
    Breaks n (c :: cs) ↔ Breaks 0 cs := by
  simp [Breaks, List.infix_cons_iff, hslash.symm, hquote]

end Breaks

theorem utf8_replicate_slash (n : Nat) : utf8 (List.replicate n '\\') = List.replicate n 92 := by
  induction n with
  | zero => rfl
  | succ n ih =>
    rw [List.replicate_succ, utf8_cons, ih]
    rfl

/-- What is between the quotes is read up to the closing quote, when no quote breaks it. -/
theorem windowsWords_escape (cs : List Char) (n : Nat) (w : Word) (rest : List UInt8)
    (h : ¬Breaks n cs) :
    windowsWords true 0 w (utf8 (windowsEscape n cs) ++ 34 :: rest) =
      windowsWords false 0 (some ((utf8 cs).reverse ++ (List.replicate n 92 ++ w.getD []))) rest := by
  induction cs generalizing n w with
  | nil =>
    rw [windowsEscape, utf8_replicate_slash, windowsWords_run]
    simp [windowsWords]
  | cons c cs ih =>
    by_cases hslash : c = '\\'
    · subst hslash
      have hbytes : String.utf8EncodeChar '\\' = [92] := rfl
      have hrun : List.replicate (n + 1) (92 : UInt8) ++ w.getD [] =
          92 :: (List.replicate n 92 ++ w.getD []) := by
        rw [List.replicate_succ, List.cons_append]
      have hend : (utf8 ('\\' :: cs)).reverse ++ (List.replicate n 92 ++ w.getD []) =
          (utf8 cs).reverse ++ (92 :: (List.replicate n 92 ++ w.getD [])) := by
        rw [utf8_cons, hbytes, List.reverse_append, List.append_assoc]
        rfl
      rw [windowsEscape, if_pos rfl, ih _ _ (Breaks.slash.not.mp h), hend, hrun]
    by_cases hquote : c = '"'
    · subst hquote
      obtain ⟨hn, hcs⟩ := not_or.mp (Breaks.quote.not.mp h)
      obtain rfl := not_not.mp hn
      rw [windowsEscape, if_neg (by decide), if_pos rfl]
      have := ih 0 (some (34 :: w.getD [])) hcs
      simpa [windowsWords, show String.utf8EncodeChar '\\' = [92] from rfl,
        show String.utf8EncodeChar '"' = [34] from rfl] using this
    · have hcs := (Breaks.other hslash hquote).not.mp h
      rw [windowsEscape, if_neg hslash, if_neg hquote, utf8_append, utf8_replicate_slash, utf8_cons,
        List.append_assoc, windowsWords_run, Nat.zero_add]
      rcases utf8EncodeChar_cases c with ⟨hc, hbytes⟩ | ⟨b, bs, hbytes, hbs⟩
      · have h92 : UInt8.ofNat c.toNat ≠ 92 := fun h => hslash ((byte_eq_iff hc (by decide)).mp h)
        have h34 : UInt8.ofNat c.toNat ≠ 34 := fun h => hquote ((byte_eq_iff hc (by decide)).mp h)
        have := ih 0 ((w.withRun n).push (UInt8.ofNat c.toNat)) hcs
        rw [hbytes, utf8_cons, hbytes, List.singleton_append, List.cons_append, windowsWords,
          if_neg h92, if_neg h34]
        have hin : ¬(isAsciiWhitespace (UInt8.ofNat c.toNat) ∧ (!true) = true) := fun h => nomatch h.2
        refine (if_neg hin).trans (this.trans ?_)
        rw [Word.push, Word.getD_withRun]
        simp
      · have := ih 0 ((w.withRun n).pushAll (b :: bs)) hcs
        rw [Word.pushAll, Word.getD_withRun] at this
        rw [hbytes, utf8_cons, hbytes, List.append_assoc,
          windowsWords_group (fun b hb => hbs b (List.mem_cons_of_mem _ hb)) b
            (hbs b List.mem_cons_self), Word.pushAll, Word.getD_withRun, this]
        simp

theorem utf8Bytes_windowsQuote (v : String) :
    utf8Bytes (windowsQuote v) = 34 :: (utf8 (windowsEscape 0 v.toList) ++ [34]) := by
  rw [windowsQuote, utf8Bytes_ofList, List.cons_append, utf8_cons, utf8_append]
  rfl

theorem windowsWords_windowsQuote {v : String} (h : ¬Breaks 0 v.toList) (rest : List UInt8) :
    windowsWords false 0 none (utf8Bytes (windowsQuote v) ++ rest) =
      windowsWords false 0 (some (utf8Bytes v).reverse) rest := by
  rw [utf8Bytes_windowsQuote, List.cons_append, List.append_assoc]
  have := windowsWords_escape v.toList 0 (some []) rest h
  simp only [List.replicate_zero, Option.getD_some, List.append_nil] at this
  exact this

/-! ### Marks

A word that is read has at most the backslashes and double quotes that it was written with, and it
has less of them if a quote broke it. -/

/-- The number of backslashes and double quotes. -/
def marks (bs : List UInt8) : Nat := bs.countP fun b => b = 92 ∨ b = 34

/-- How many of them a reader keeps, in words and out of them. -/
def keptMarks : Nat → List UInt8 → Nat
  | run, [] => run
  | run, b :: bs =>
    if b = 92 then keptMarks (run + 1) bs
    else if b = 34 then run / 2 + run % 2 + keptMarks 0 bs
    else run + keptMarks 0 bs

theorem marks_append (bs bs' : List UInt8) : marks (bs ++ bs') = marks bs + marks bs' :=
  List.countP_append

theorem marks_replicate (n : Nat) : marks (List.replicate n 92) = n := by
  simp [marks, List.countP_replicate]

theorem marks_close (w : Word) (words : List (List UInt8)) :
    ((w.close words).map marks).sum = marks (w.getD []) + (words.map marks).sum := by
  cases w with
  | none => simp [Word.close, marks]
  | some bytes => simp [Word.close, marks, List.countP_reverse]

theorem marks_windowsWords (bs : List UInt8) (q : Bool) (run : Nat) (w : Word) :
    ((windowsWords q run w bs).map marks).sum = keptMarks run bs + marks (w.getD []) := by
  have hrun : ∀ run (w : Word), marks ((w.withRun run).getD []) = run + marks (w.getD []) := by
    intro run w
    rw [Word.getD_withRun, marks_append, marks_replicate]
  induction bs generalizing q run w with
  | nil =>
    rw [windowsWords]
    exact (marks_close _ _).trans (hrun run w)
  | cons b bs ih =>
    unfold windowsWords keptMarks
    split
    · exact ih q (run + 1) w
    rename_i h92
    split
    · rename_i h34
      have hquote : ∀ bytes, marks (34 :: bytes) = 1 + marks bytes := fun bytes =>
        marks_append [34] bytes
      split
      · rename_i hodd
        rw [ih, Option.getD_some, hquote, marks_append, marks_replicate]
        omega
      · rename_i heven
        rw [ih, Option.getD_some, marks_append, marks_replicate]
        omega
    · rename_i h34
      have hpush : ∀ w : Word, marks ((w.push b).getD []) = marks (w.getD []) := fun w => by
        simp [Word.push, marks, h92, h34]
      dsimp only
      split
      · rw [marks_close, ih, show marks (Option.getD none []) = 0 from rfl]
        have := hrun run w
        unfold Word.withRun at this
        omega
      · rw [ih, hpush]
        have := hrun run w
        unfold Word.withRun at this
        omega

theorem keptMarks_run (n run : Nat) (rest : List UInt8) :
    keptMarks run (List.replicate n 92 ++ rest) = keptMarks (run + n) rest := by
  induction n generalizing run with
  | zero => rfl
  | succ n ih =>
    rw [List.replicate_succ, List.cons_append, keptMarks, if_pos rfl, ih]
    congr 1
    omega

theorem keptMarks_group {bs : List UInt8} (hbs : ∀ b ∈ bs, b ≠ 92 ∧ b ≠ 34) (hne : bs ≠ [])
    (run : Nat) (rest : List UInt8) : keptMarks run (bs ++ rest) = run + keptMarks 0 rest := by
  induction bs generalizing run with
  | nil => exact absurd rfl hne
  | cons b bs ih =>
    obtain ⟨h92, h34⟩ := hbs b List.mem_cons_self
    rw [List.cons_append, keptMarks, if_neg h92, if_neg h34]
    cases bs with
    | nil => rfl
    | cons d bs =>
      rw [ih (fun b hb => hbs b (List.mem_cons_of_mem _ hb)) (List.cons_ne_nil _ _), Nat.zero_add]

/-- No mark is in a character that is neither of the two. -/
theorem utf8EncodeChar_unmarked {c : Char} (hslash : c ≠ '\\') (hquote : c ≠ '"') :
    ∀ b ∈ String.utf8EncodeChar c, b ≠ 92 ∧ b ≠ 34 := by
  rcases utf8EncodeChar_cases c with ⟨hc, hbytes⟩ | ⟨b, bs, hbytes, hbs⟩
  · rw [hbytes]
    intro b hb
    obtain rfl := List.mem_singleton.mp hb
    exact ⟨fun h => hslash ((byte_eq_iff hc (by decide)).mp h),
      fun h => hquote ((byte_eq_iff hc (by decide)).mp h)⟩
  · rw [hbytes]
    intro b hb
    exact ⟨ne_of_le (hbs b hb) (by decide), ne_of_le (hbs b hb) (by decide)⟩

theorem keptMarks_escape (cs : List Char) (n : Nat) (rest : List UInt8) :
    keptMarks 0 (utf8 (windowsEscape n cs) ++ 34 :: rest) ≤ n + marks (utf8 cs) + keptMarks 0 rest ∧
      (Breaks n cs →
        keptMarks 0 (utf8 (windowsEscape n cs) ++ 34 :: rest) < n + marks (utf8 cs) + keptMarks 0 rest) := by
  induction cs generalizing n with
  | nil =>
    rw [windowsEscape, utf8_replicate_slash, keptMarks_run, keptMarks, if_neg (by decide), if_pos rfl]
    refine ⟨by omega, fun h => ?_⟩
    simp [Breaks] at h
  | cons c cs ih =>
    rw [utf8_cons, marks_append]
    by_cases hslash : c = '\\'
    · subst hslash
      rw [windowsEscape, if_pos rfl, Breaks.slash,
        show marks (String.utf8EncodeChar '\\') = 1 from rfl]
      obtain ⟨hle, hlt⟩ := ih (n + 1)
      refine ⟨by omega, fun h => ?_⟩
      have := hlt h
      omega
    by_cases hquote : c = '"'
    · subst hquote
      have hbytes : utf8 (windowsEscape n ('"' :: cs)) ++ 34 :: rest =
          List.replicate (n + 1) 92 ++ 34 :: (utf8 (windowsEscape 0 cs) ++ 34 :: rest) := by
        rw [windowsEscape, if_neg (by decide), if_pos rfl, utf8_append, utf8_replicate_slash,
          List.append_assoc]
        rfl
      rw [hbytes, keptMarks_run, keptMarks, if_neg (by decide), if_pos rfl, Breaks.quote,
        show marks (String.utf8EncodeChar '"') = 1 from rfl]
      obtain ⟨hle, hlt⟩ := ih 0
      refine ⟨by omega, fun h => ?_⟩
      rcases h with hn | h
      · omega
      · have := hlt h
        omega
    · have hunmarked := utf8EncodeChar_unmarked hslash hquote
      have hmarks : marks (String.utf8EncodeChar c) = 0 := by
        refine List.countP_eq_zero.mpr fun b hb => ?_
        simpa using hunmarked b hb
      rw [windowsEscape, if_neg hslash, if_neg hquote, utf8_append, utf8_replicate_slash, utf8_cons,
        List.append_assoc, List.append_assoc, keptMarks_run, Nat.zero_add,
        keptMarks_group hunmarked String.utf8EncodeChar_ne_nil, Breaks.other hslash hquote, hmarks]
      obtain ⟨hle, hlt⟩ := ih 0
      refine ⟨by omega, fun h => ?_⟩
      have := hlt h
      omega

theorem keptMarks_windowsQuote (v : String) (rest : List UInt8) :
    keptMarks 0 (utf8Bytes (windowsQuote v) ++ rest) ≤ marks (utf8Bytes v) + keptMarks 0 rest ∧
      (Breaks 0 v.toList →
        keptMarks 0 (utf8Bytes (windowsQuote v) ++ rest) < marks (utf8Bytes v) + keptMarks 0 rest) := by
  have h := keptMarks_escape v.toList 0 rest
  rw [Nat.zero_add] at h
  have hbytes : keptMarks 0 (utf8Bytes (windowsQuote v) ++ rest) =
      keptMarks 0 (utf8 (windowsEscape 0 v.toList) ++ 34 :: rest) := by
    rw [utf8Bytes_windowsQuote, List.cons_append, List.append_assoc, keptMarks, if_neg (by decide),
      if_pos rfl, Nat.zero_div, Nat.zero_mod, Nat.zero_add]
    rfl
  rw [hbytes]
  exact h

theorem keptMarks_joinWords (args : List String) :
    keptMarks 0 (utf8Bytes (joinWords (args.map windowsQuote))) ≤
        (args.map fun arg => marks (utf8Bytes arg)).sum ∧
      ((∃ arg ∈ args, Breaks 0 arg.toList) →
        keptMarks 0 (utf8Bytes (joinWords (args.map windowsQuote))) <
          (args.map fun arg => marks (utf8Bytes arg)).sum) := by
  induction args with
  | nil => exact ⟨Nat.le_refl _, nofun⟩
  | cons v vs ih =>
    have hsplit : ∃ rest, utf8Bytes (joinWords ((v :: vs).map windowsQuote)) =
          utf8Bytes (windowsQuote v) ++ rest ∧
        keptMarks 0 rest = keptMarks 0 (utf8Bytes (joinWords (vs.map windowsQuote))) := by
      cases vs with
      | nil =>
        refine ⟨[], ?_, rfl⟩
        rw [List.append_nil]
        exact (utf8Bytes_joinWords _ []).1
      | cons v' vs =>
        refine ⟨_, (utf8Bytes_joinWords _ _).2 _, ?_⟩
        rw [keptMarks, if_neg (by decide), if_neg (by decide), Nat.zero_add]
        rfl
    obtain ⟨rest, hbytes, hrest⟩ := hsplit
    obtain ⟨hle, hlt⟩ := keptMarks_windowsQuote v rest
    rw [hbytes, List.map_cons, List.sum_cons]
    refine ⟨by omega, ?_⟩
    rintro ⟨arg, harg, hbreaks⟩
    rcases List.mem_cons.mp harg with rfl | harg
    · have := hlt hbreaks
      omega
    · have := ih.2 ⟨arg, harg, hbreaks⟩
      omega

/-- The words of a list come back unless one of them has a double quote behind a backslash. -/
theorem windowsWords_joinWords_iff (args : List String) :
    windowsWords false 0 none (utf8Bytes (joinWords (args.map windowsQuote))) = args.map utf8Bytes ↔
      ∀ arg ∈ args, ¬['\\', '"'] <:+: arg.toList := by
  have hbreaks : ∀ arg : String, Breaks 0 arg.toList ↔ ['\\', '"'] <:+: arg.toList := by
    simp [Breaks]
  constructor
  · intro h arg harg hquote
    have hkept := (keptMarks_joinWords args).2 ⟨arg, harg, (hbreaks arg).mpr hquote⟩
    have hmarks := marks_windowsWords (utf8Bytes (joinWords (args.map windowsQuote))) false 0 none
    rw [h, List.map_map, show marks (Option.getD none []) = 0 from rfl] at hmarks
    exact absurd hmarks (Nat.ne_of_gt hkept)
  · intro h
    refine words_join (f := windowsWords false 0 none)
      (P := fun v => ¬Breaks 0 v.toList) rfl (fun v hv => ?_) (fun v hv rest => ?_) args
      fun arg harg => (hbreaks arg).not.mpr (h arg harg)
    · rw [← List.append_nil (utf8Bytes (windowsQuote v)), windowsWords_windowsQuote hv]
      simp [windowsWords, Word.close]
    · rw [windowsWords_windowsQuote hv]
      simp [windowsWords, Word.close, isAsciiWhitespace]

/-! ## Recognition -/

/-- A command whose words come back is recognised, whatever its path. -/
theorem recognizeOwned_of_words {agent : AgentKind} {event command path : String}
    (hevent : event ∈ cataloguedEvents agent)
    (h : shellWords command = (path :: helperArgs agent event).map utf8Bytes) :
    recognizeOwned agent command = some event := by
  have hfind : ((cataloguedEvents agent).find? fun candidate => utf8Bytes candidate = utf8Bytes event) =
      some event := by
    have hsome : ((cataloguedEvents agent).find? fun candidate =>
        decide (utf8Bytes candidate = utf8Bytes event)).isSome :=
      List.find?_isSome.mpr ⟨event, hevent, by simp⟩
    obtain ⟨candidate, hcandidate⟩ := Option.isSome_iff_exists.mp hsome
    have hfound := List.find?_some hcandidate
    simp only [decide_eq_true_eq] at hfound
    rw [hcandidate, utf8Bytes_injective hfound]
  rw [recognizeOwned, h]
  simp only [helperArgs, List.map_cons, List.map_nil, and_self, if_true]
  exact hfind

/-- The first character tells the two readers apart. -/
theorem shellWords_joinWords {quote : String → String} {q : Char} {cs : List Char}
    (path : String) (args : List String) (h : (quote path).toList = q :: cs) :
    shellWords (joinWords ((path :: args).map quote)) =
      if q = '"' then windowsWords false 0 none (utf8Bytes (joinWords ((path :: args).map quote)))
      else posixWords .plain none (utf8Bytes (joinWords ((path :: args).map quote))) := by
  have hhead : (joinWords ((path :: args).map quote)).toList.head? = some q := by
    rw [joinWords, String.toList_intercalate, List.map_cons, List.map_cons, h]
    cases args <;> simp
  rw [shellWords, hhead]
  simp only [Option.some.injEq]

theorem shellWords_windows (agent : AgentKind) (event path : String) :
    shellWords (canonicalHookCommand .windows path agent event).command =
      windowsWords false 0 none
        (utf8Bytes (joinWords ((path :: helperArgs agent event).map windowsQuote))) := by
  have hquote : (windowsQuote path).toList = '"' :: (windowsEscape 0 path.toList ++ ['"']) := by
    rw [windowsQuote, String.toList_ofList, List.cons_append]
  cases agent <;> exact (shellWords_joinWords path _ hquote).trans (if_pos rfl)

theorem shellWords_posix (agent : AgentKind) (event path : String) :
    shellWords (canonicalHookCommand .unix path agent event).command =
      posixWords .plain none
        (utf8Bytes (joinWords ((path :: helperArgs agent event).map posixQuote))) := by
  have hquote : ∃ cs, (posixQuote path).toList = '\'' :: cs := by
    rw [posixQuote, String.toList_ofList, List.cons_append]
    exact ⟨_, rfl⟩
  obtain ⟨cs, hcs⟩ := hquote
  exact (shellWords_joinWords path _ hcs).trans (if_neg (by decide))

/-- No argument of the helper is broken. -/
theorem helperArgs_unbroken {agent : AgentKind} {event : String}
    (hevent : event ∈ cataloguedEvents agent) :
    ∀ arg ∈ helperArgs agent event, ¬['\\', '"'] <:+: arg.toList := by
  have hchars : ∀ arg ∈ helperArgs agent event, arg.toList.contains '"' = false := by
    have hall : ∀ agent : AgentKind, (cataloguedEvents agent).all fun event =>
        (helperArgs agent event).all fun arg => !arg.toList.contains '"' := by
      intro agent
      cases agent <;> decide
    intro arg harg
    have := List.all_eq_true.mp (List.all_eq_true.mp (hall agent) event hevent) arg harg
    simpa using this
  intro arg harg hquote
  have := hchars arg harg
  rw [List.contains_eq_mem, decide_eq_false_iff_not] at this
  exact this (hquote.subset (by simp))

/-- On Windows the words of a list come back exactly when none of them has a double quote behind a
backslash, and the words of a helper's command come back, and it is recognised, exactly when its
path has none. -/
theorem windowsQuote_words_iff (args : List String) (agent : AgentKind) (path : String) :
    (windowsWords false 0 none (utf8Bytes (joinWords (args.map windowsQuote))) = args.map utf8Bytes ↔
      ∀ arg ∈ args, ¬['\\', '"'] <:+: arg.toList) ∧
    ∀ event ∈ cataloguedEvents agent,
      (shellWords (canonicalHookCommand .windows path agent event).command =
            (path :: helperArgs agent event).map utf8Bytes ∧
          recognizeOwned agent (canonicalHookCommand .windows path agent event).command = some event ↔
        ¬['\\', '"'] <:+: path.toList) := by
  refine ⟨windowsWords_joinWords_iff args, fun event hevent => ?_⟩
  have hiff : shellWords (canonicalHookCommand .windows path agent event).command =
      (path :: helperArgs agent event).map utf8Bytes ↔ ¬['\\', '"'] <:+: path.toList := by
    rw [shellWords_windows, windowsWords_joinWords_iff, List.forall_mem_cons]
    exact and_iff_left (helperArgs_unbroken hevent)
  constructor
  · exact fun h => hiff.mp h.1
  · intro h
    exact ⟨hiff.mpr h, recognizeOwned_of_words hevent (hiff.mpr h)⟩

/-- A double quote behind a backslash is lost, and with it the end of the path. -/
theorem windowsQuote_lost :
    windowsWords false 0 none (utf8Bytes (joinWords (["\\\""].map windowsQuote))) ≠
        ["\\\""].map utf8Bytes ∧
      recognizeOwned .claudeCode (canonicalHookCommand .windows "\\\"" .claudeCode "Stop").command =
        none := by
  decide +kernel

/-- On Unix the words of every list come back and every command of a helper is recognised, and the
words of any command are texts. -/
theorem posixQuote_words :
    (∀ args : List String,
      posixWords .plain none (utf8Bytes (joinWords (args.map posixQuote))) = args.map utf8Bytes) ∧
    (∀ (agent : AgentKind) (path : String), ∀ event ∈ cataloguedEvents agent,
      recognizeOwned agent (canonicalHookCommand .unix path agent event).command = some event) ∧
    ∀ command, ∀ word ∈ shellWords command, IsText word := by
  refine ⟨posixWords_joinWords, fun agent path event hevent => ?_, isText_shellWords⟩
  have hwords := posixWords_joinWords (path :: helperArgs agent event)
  rw [← shellWords_posix] at hwords
  exact recognizeOwned_of_words hevent hwords

end CcReminder
