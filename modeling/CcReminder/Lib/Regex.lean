import Mathlib.Data.List.Basic
import Mathlib.Data.List.TakeWhile

/-!
# Leftmost-first matching

Patterns over characters and the lengths of their matches at a place, in the order in which a backtracking
search finds them. A matcher gives the preferred one; all its matches in a text, from left to right, are
replaced.
-/

set_option autoImplicit true

namespace CcReminder.Lib.Regex

/-! ## Patterns -/

/-- `many` is a run of characters of one class. -/
inductive Pattern where
  | empty
  | boundary
  | many (cls : Char → Bool) (least : Nat) (most : Option Nat) (greedy : Bool)
  | cat (p q : Pattern)
  | alt (p q : Pattern)

namespace Pattern

def one (cls : Char → Bool) : Pattern := .many cls 1 (some 1) true
def optional (p : Pattern) : Pattern := .alt p .empty
def star (cls : Char → Bool) : Pattern := .many cls 0 none true
def atLeast (n : Nat) (cls : Char → Bool) : Pattern := .many cls n none true
def seq (ps : List Pattern) : Pattern := ps.foldr .cat .empty

/-- The first of some patterns that matches. -/
def oneOf (p : Pattern) : List Pattern → Pattern
  | [] => p
  | q :: ps => .alt p (oneOf q ps)

end Pattern

/-- The character before a place behind some others. -/
def lastOf (prev : Option Char) (taken : List Char) : Option Char := taken.getLast?.or prev

/-- The longest run that a class allows. -/
def runLength (cls : Char → Bool) (most : Option Nat) (after : List Char) : Nat :=
  match most with
  | some most => min (after.takeWhile cls).length most
  | none => (after.takeWhile cls).length

section
variable (isWord : Char → Bool)

/-- A word begins or ends here. -/
def atBoundary (prev next : Option Char) : Bool := prev.any isWord != next.any isWord

/-- The lengths of the matches at a place, of which the character before it is known, the preferred one
first. -/
def lengths : Pattern → Option Char → List Char → List Nat
  | .empty, _, _ => [0]
  | .boundary, prev, after => if atBoundary isWord prev after.head? then [0] else []
  | .many cls least most greedy, _, after =>
    let longest := runLength cls most after
    let all := (List.range (longest + 1 - least)).map (least + ·)
    if greedy then all.reverse else all
  | .cat p q, prev, after => (lengths p prev after).flatMap fun n =>
      (lengths q (lastOf prev (after.take n)) (after.drop n)).map (n + ·)
  | .alt p q, prev, after => lengths p prev after ++ lengths q prev after

/-- A match of a pattern. -/
def Matches (p : Pattern) (prev : Option Char) (after : List Char) (n : Nat) : Prop :=
  n ∈ lengths isWord p prev after

instance : Decidable (Matches isWord p prev after n) := inferInstanceAs (Decidable (_ ∈ _))

theorem runLength_le (cls : Char → Bool) (most : Option Nat) (after : List Char) :
    runLength cls most after ≤ after.length := by
  have hwhile : (after.takeWhile cls).length ≤ after.length := (List.takeWhile_prefix cls).length_le
  cases most with
  | none => exact hwhile
  | some most => exact (Nat.min_le_left _ _).trans hwhile

/-- The least length of a match. -/
def Pattern.leastLength : Pattern → Nat
  | .empty | .boundary => 0
  | .many _ least _ _ => least
  | .cat p q => p.leastLength + q.leastLength
  | .alt p q => min p.leastLength q.leastLength

variable {isWord}

theorem matches_many : Matches isWord (.many cls least most greedy) prev after n ↔
    least ≤ n ∧ n ≤ runLength cls most after := by
  have hall : n ∈ (List.range (runLength cls most after + 1 - least)).map (least + ·) ↔
      least ≤ n ∧ n ≤ runLength cls most after := by
    simp only [List.mem_map, List.mem_range]
    constructor
    · rintro ⟨k, hk, rfl⟩
      omega
    · rintro ⟨hleast, hmost⟩
      exact ⟨n - least, by omega, by omega⟩
  rw [← hall, Matches, lengths]
  split
  · exact List.mem_reverse
  · rfl

theorem matches_cat : Matches isWord (.cat p q) prev after n ↔
    ∃ a b, Matches isWord p prev after a ∧
      Matches isWord q (lastOf prev (after.take a)) (after.drop a) b ∧ a + b = n := by
  simp only [Matches, lengths, List.mem_flatMap, List.mem_map]
  constructor
  · rintro ⟨a, ha, b, hb, rfl⟩
    exact ⟨a, b, ha, hb, rfl⟩
  · rintro ⟨a, b, ha, hb, rfl⟩
    exact ⟨a, ha, b, hb, rfl⟩

theorem matches_alt : Matches isWord (.alt p q) prev after n ↔
    Matches isWord p prev after n ∨ Matches isWord q prev after n := List.mem_append

theorem leastLength_le (p : Pattern) (h : Matches isWord p prev after n) : p.leastLength ≤ n := by
  induction p generalizing prev after n with
  | empty | boundary => exact Nat.zero_le n
  | many cls least most greedy => exact (matches_many.mp h).1
  | cat p q ihp ihq =>
    obtain ⟨a, b, ha, hb, rfl⟩ := matches_cat.mp h
    exact Nat.add_le_add (ihp ha) (ihq hb)
  | alt p q ihp ihq =>
    rcases matches_alt.mp h with h | h
    · exact (Nat.min_le_left _ _).trans (ihp h)
    · exact (Nat.min_le_right _ _).trans (ihq h)

theorem Matches.le_length {p : Pattern} (h : Matches isWord p prev after n) : n ≤ after.length := by
  induction p generalizing prev after n with
  | empty => exact (List.mem_singleton.mp h).le.trans (Nat.zero_le _)
  | boundary =>
    rw [Matches, lengths] at h
    split at h
    · exact (List.mem_singleton.mp h).le.trans (Nat.zero_le _)
    · cases h
  | many cls least most greedy => exact (matches_many.mp h).2.trans (runLength_le _ _ _)
  | cat p q ihp ihq =>
    obtain ⟨a, b, ha, hb, rfl⟩ := matches_cat.mp h
    have hp := ihp ha
    have hq := ihq hb
    rw [List.length_drop] at hq
    omega
  | alt p q ihp ihq => exact (matches_alt.mp h).elim ihp ihq

theorem le_takeWhile_iff {cls : Char → Bool} {after : List Char} :
    n ≤ (after.takeWhile cls).length ↔ n ≤ after.length ∧ ∀ c ∈ after.take n, cls c = true := by
  induction after generalizing n with
  | nil => simp
  | cons c after ih =>
    cases n with
    | zero => simp
    | succ n =>
      rw [List.take_succ_cons, List.forall_mem_cons, List.length_cons, Nat.add_le_add_iff_right]
      cases hc : cls c with
      | true =>
        rw [List.takeWhile_cons_of_pos hc, List.length_cons, Nat.add_le_add_iff_right, ih]
        simp
      | false =>
        rw [List.takeWhile_cons_of_neg (by simp [hc])]
        simp

/-- A match looks at its characters and at the ones beside it, and at no others. -/
theorem Matches.congr {p : Pattern} (h : Matches isWord p prev after n)
    (hsame : after.take (n + 1) = after'.take (n + 1)) : Matches isWord p prev after' n := by
  induction p generalizing prev after after' n with
  | empty => exact h
  | boundary =>
    obtain rfl : n = 0 := by
      rw [Matches, lengths] at h
      split at h
      · exact List.mem_singleton.mp h
      · cases h
    have hhead : after.head? = after'.head? := by
      cases after <;> cases after' <;> simp_all
    rw [Matches, lengths, ← hhead]
    exact h
  | many cls least most greedy =>
    obtain ⟨hleast, hrun⟩ := matches_many.mp h
    have hwhile : n ≤ (after.takeWhile cls).length := by
      cases most with
      | none => exact hrun
      | some most => exact hrun.trans (Nat.min_le_left _ _)
    obtain ⟨hlen, hcls⟩ := le_takeWhile_iff.mp hwhile
    have htake : after.take n = after'.take n := by
      have := congrArg (List.take n) hsame
      simpa [List.take_take] using this
    have hlen' : n ≤ after'.length := by
      have := congrArg List.length htake
      simp only [List.length_take] at this
      omega
    have hwhile' : n ≤ (after'.takeWhile cls).length := le_takeWhile_iff.mpr ⟨hlen', htake ▸ hcls⟩
    refine matches_many.mpr ⟨hleast, ?_⟩
    cases most with
    | none => exact hwhile'
    | some most => exact Nat.le_min.mpr ⟨hwhile', hrun.trans (Nat.min_le_right _ _)⟩
  | cat p q ihp ihq =>
    obtain ⟨a, b, ha, hb, rfl⟩ := matches_cat.mp h
    have hbefore : after.take (a + 1) = after'.take (a + 1) := by
      have := congrArg (List.take (a + 1)) hsame
      rwa [List.take_take, List.take_take, Nat.min_eq_left (by omega)] at this
    have htake : after.take a = after'.take a := by
      have := congrArg (List.take a) hbefore
      simpa [List.take_take] using this
    have hbehind : (after.drop a).take (b + 1) = (after'.drop a).take (b + 1) := by
      have := congrArg (List.drop a) hsame
      rwa [Nat.add_assoc, List.drop_take, List.drop_take, Nat.add_sub_cancel_left] at this
    rw [htake] at hb
    exact matches_cat.mpr ⟨a, b, ihp ha hbefore, ihq hb hbehind, rfl⟩
  | alt p q ihp ihq =>
    rcases matches_alt.mp h with h | h
    · exact matches_alt.mpr (.inl (ihp h hsame))
    · exact matches_alt.mpr (.inr (ihq h hsame))

end

/-! ## Replacing all matches -/

/-- The length of the preferred match at a place. -/
abbrev Matcher := Option Char → List Char → Option Nat

def Pattern.matcher (isWord : Char → Bool) (p : Pattern) : Matcher := fun prev after =>
  (lengths isWord p prev after).head?

section
variable {α : Type} (char : α → Char) (m : Matcher) (replacement : List α)

/-- The matches of a text from left to right. `atLast` says that a match ended here, behind which an empty
one does not count, and the number is how much of a match is still ahead. -/
def replaceFrom : Option Char → Bool → Nat → List α → List α
  | prev, atLast, 0, [] => if atLast then [] else if (m prev []).isSome then replacement else []
  | prev, atLast, 0, a :: rest =>
    match m prev ((a :: rest).map char) with
    | some (n + 1) => replacement ++ replaceFrom (some (char a)) true n rest
    | some 0 => (if atLast then [] else replacement) ++ a :: replaceFrom (some (char a)) false 0 rest
    | none => a :: replaceFrom (some (char a)) false 0 rest
  | _, _, _ + 1, [] => []
  | _, _, n + 1, a :: rest => replaceFrom (some (char a)) true n rest

def replaceAll (text : List α) : List α := replaceFrom char m replacement none false 0 text

end

/-- Replacing does not look at what the characters carry. -/
theorem map_replaceFrom {f : α → β} {char : β → Char} (m : Matcher) (replacement : List α)
    (text : List α) (prev : Option Char) (atLast : Bool) (n : Nat) :
    (replaceFrom (fun a => char (f a)) m replacement prev atLast n text).map f =
      replaceFrom char m (replacement.map f) prev atLast n (text.map f) := by
  induction text generalizing prev atLast n with
  | nil =>
    cases n with
    | zero =>
      simp only [replaceFrom, List.map_nil]
      split
      · rfl
      · split <;> rfl
    | succ n => rfl
  | cons a rest ih =>
    cases n with
    | zero =>
      have hchars : ((a :: rest).map fun a => char (f a)) = ((a :: rest).map f).map char := by
        rw [List.map_map]
        rfl
      simp only [List.map_cons] at hchars
      simp only [replaceFrom, List.map_cons, hchars]
      split
      · rw [List.map_append, ih]
      · rw [List.map_append, List.map_cons, ih]
        split <;> rfl
      · rw [List.map_cons, ih]
    | succ n => exact ih _ _ _

section
variable {α : Type} {char : α → Char} {m : Matcher} {replacement : List α} {marked : α → Prop}

/-- A text that begins with a replacement does not begin with what is kept. -/
theorem not_kept (hne : replacement ≠ []) (hmarked : ∀ a ∈ replacement, marked a)
    (hw : ∀ a ∈ w, ¬ marked a) (hpost : ∀ a ∈ post.head?, ¬ marked a) (rest : List α) :
    replacement ++ rest ≠ w ++ post := by
  intro heq
  obtain ⟨r, rs, rfl⟩ := List.exists_cons_of_ne_nil hne
  cases w with
  | nil =>
    cases post with
    | nil => cases heq
    | cons b post =>
      cases heq
      exact hpost r rfl (hmarked r List.mem_cons_self)
  | cons b w =>
    rw [List.cons_append, List.cons_append, List.cons.injEq] at heq
    exact hw b List.mem_cons_self (heq.1 ▸ hmarked r List.mem_cons_self)

/-- What is kept at the head of the result is the head of the text. -/
theorem replaceFrom_kept (hne : replacement ≠ []) (hmarked : ∀ a ∈ replacement, marked a)
    (text : List α) (prev : Option Char) (atLast : Bool) (w post : List α)
    (h : replaceFrom char m replacement prev atLast 0 text = w ++ post)
    (hw : ∀ a ∈ w, ¬ marked a) (hpost : ∀ a ∈ post.head?, ¬ marked a) :
    ∃ post', text = w ++ post' ∧ post'.head? = post.head? := by
  induction text generalizing prev atLast w with
  | nil =>
    rw [replaceFrom] at h
    have hnil : w ++ post = [] := by
      split at h
      · exact h.symm
      · split at h
        · rw [← List.append_nil replacement] at h
          exact absurd h (not_kept hne hmarked hw hpost [])
        · exact h.symm
    obtain ⟨rfl, rfl⟩ := List.append_eq_nil_iff.mp hnil
    exact ⟨[], rfl, rfl⟩
  | cons a rest ih =>
    have hkept : a :: replaceFrom char m replacement (some (char a)) false 0 rest = w ++ post →
        ∃ post', a :: rest = w ++ post' ∧ post'.head? = post.head? := fun heq => by
      cases w with
      | nil =>
        rw [List.nil_append] at heq
        exact ⟨a :: rest, rfl, by rw [← heq]; rfl⟩
      | cons b w =>
        rw [List.cons_append, List.cons.injEq] at heq
        obtain ⟨rfl, heq⟩ := heq
        obtain ⟨post', rfl, hhead⟩ := ih (some (char a)) false w heq
          fun c hc => hw c (List.mem_cons_of_mem a hc)
        exact ⟨post', rfl, hhead⟩
    rw [replaceFrom] at h
    split at h
    · exact absurd h (not_kept hne hmarked hw hpost _)
    · cases atLast with
      | true => exact hkept h
      | false => exact absurd h (not_kept hne hmarked hw hpost _)
    · exact hkept h

theorem getLast?_cons_or (a : α) (pre : List α) (ctx : Option α) :
    (a :: pre).getLast?.or ctx = pre.getLast?.or (some a) := by
  cases pre with
  | nil => rfl
  | cons b pre =>
    rw [List.getLast?_cons_cons, List.getLast?_cons]
    rfl

/-- What is kept behind a replacement stands behind all of it. -/
theorem behind_replacement (hmarked : ∀ a ∈ replacement, marked a) (hw₀ : w ≠ [])
    (hw : ∀ a ∈ w, ¬ marked a) {rest : List α} (h : replacement ++ rest = pre ++ w ++ post) :
    ∃ pre', pre = replacement ++ pre' ∧ rest = pre' ++ w ++ post := by
  rw [List.append_assoc] at h
  rcases List.append_eq_append_iff.mp h with ⟨pre', rfl, hrest⟩ | ⟨bs, hbs, hrest⟩
  · exact ⟨pre', rfl, by rw [hrest, List.append_assoc]⟩
  · obtain ⟨b, w, rfl⟩ := List.exists_cons_of_ne_nil hw₀
    cases bs with
    | nil =>
      refine ⟨[], by rw [hbs, List.append_nil, List.append_nil], ?_⟩
      rw [List.nil_append, hrest, List.nil_append]
    | cons b' bs =>
      rw [List.cons_append, List.cons_append, List.cons.injEq] at hrest
      refine absurd (hmarked b ?_) (hw b List.mem_cons_self)
      rw [hbs, hrest.1]
      exact List.mem_append_right _ List.mem_cons_self

/-- A part that stands in a text between two items, or at an end of it, and where no match begins. -/
def Stands (char : α → Char) (m : Matcher) (ctx : Option α) (text : List α) (before : Option α)
    (w : List α) (next : Option α) : Prop :=
  ∃ pre post, text = pre ++ w ++ post ∧ pre.getLast?.or ctx = before ∧ post.head? = next ∧
    ∀ k, m (before.map char) ((w ++ post).map char) = some k → k = 0

/-- A part of the result that neither is nor touches a replacement stands in the text like that. -/
theorem replaceFrom_stands (hne : replacement ≠ []) (hmarked : ∀ a ∈ replacement, marked a)
    (text : List α) (prev : Option Char) (atLast : Bool) (n : Nat) (ctx : Option α) (pre w post : List α)
    (h : replaceFrom char m replacement prev atLast n text = pre ++ w ++ post) (hw₀ : w ≠ [])
    (hctx : (∃ a ∈ ctx, marked a) ∨ n = 0 ∧ prev = ctx.map char)
    (hbefore : ∀ a ∈ pre.getLast?.or ctx, ¬ marked a) (hw : ∀ a ∈ w, ¬ marked a)
    (hpost : ∀ a ∈ post.head?, ¬ marked a) :
    Stands char m ctx text (pre.getLast?.or ctx) w post.head? := by
  induction text generalizing prev atLast n ctx pre with
  | nil =>
    have hmem : ∀ b ∈ w, b ∈ replaceFrom char m replacement prev atLast n [] := fun b hb => by
      rw [h]
      exact List.mem_append_left _ (List.mem_append_right _ hb)
    obtain ⟨b, w, rfl⟩ := List.exists_cons_of_ne_nil hw₀
    have hb := hmem b List.mem_cons_self
    cases n with
    | succ n => cases hb
    | zero =>
      rw [replaceFrom] at hb
      split at hb
      · cases hb
      · split at hb
        · exact absurd (hmarked b hb) (hw b List.mem_cons_self)
        · cases hb
  | cons a rest ih =>
    -- behind a replacement, or inside a match, the part does not begin with the rest
    have hbehind : ∀ prev' n' (ctx' : Option α) (pre' : List α), (∃ r ∈ ctx', marked r) →
        pre.getLast?.or ctx = pre'.getLast?.or ctx' →
        replaceFrom char m replacement prev' true n' rest = pre' ++ w ++ post →
        Stands char m ctx (a :: rest) (pre.getLast?.or ctx) w post.head? := by
      intro prev' n' ctx' pre' hctx' hlast hrun
      rw [hlast] at hbefore ⊢
      obtain ⟨pre₂, post₂, rfl, hpre₂, hhead, hnone⟩ :=
        ih prev' true n' ctx' pre' hrun (.inl hctx') hbefore
      refine ⟨a :: pre₂, post₂, rfl, ?_, hhead, hnone⟩
      cases pre₂ with
      | nil =>
        obtain ⟨r, hr, hmark⟩ := hctx'
        exact absurd hmark (hbefore r (hpre₂ ▸ hr))
      | cons b pre₂ =>
        rw [← hpre₂, List.getLast?_cons_cons, List.getLast?_cons]
        rfl
    -- behind a kept item
    have hkept : ∀ pre' : List α, pre.getLast?.or ctx = pre'.getLast?.or (some a) →
        replaceFrom char m replacement (some (char a)) false 0 rest = pre' ++ w ++ post →
        Stands char m ctx (a :: rest) (pre.getLast?.or ctx) w post.head? := by
      intro pre' hlast hrun
      rw [hlast] at hbefore ⊢
      obtain ⟨pre₂, post₂, rfl, hpre₂, hhead, hnone⟩ :=
        ih (some (char a)) false 0 (some a) pre' hrun (.inr ⟨rfl, rfl⟩) hbefore
      exact ⟨a :: pre₂, post₂, rfl, by rw [getLast?_cons_or, hpre₂], hhead, hnone⟩
    obtain ⟨last, hlast, hlastMarked⟩ : ∃ last, replacement.getLast? = some last ∧ marked last :=
      ⟨replacement.getLast hne, List.getLast?_eq_some_getLast hne, hmarked _ (List.getLast_mem hne)⟩
    have hafter : ∀ pre' : List α, (replacement ++ pre').getLast?.or ctx = pre'.getLast?.or (some last) :=
      fun pre' => by
        rw [List.getLast?_append, hlast, Option.or_assoc]
        rfl
    cases n with
    | succ n =>
      rcases hctx with hctx | ⟨hn, -⟩
      · exact hbehind _ n ctx pre hctx rfl h
      · cases hn
    | zero =>
      -- the part begins with the first item, which is kept
      have hhere : pre = [] → (∀ k, m prev ((a :: rest).map char) = some k → k = 0) →
          Stands char m ctx (a :: rest) (pre.getLast?.or ctx) w post.head? := by
        rintro rfl hnone
        rw [List.getLast?_nil, Option.none_or] at hbefore ⊢
        obtain ⟨post₂, htext, hhead⟩ := replaceFrom_kept hne hmarked _ prev atLast w post h hw hpost
        refine ⟨[], post₂, htext, rfl, hhead, ?_⟩
        rcases hctx with ⟨r, hr, hmark⟩ | ⟨-, hprev⟩
        · exact absurd hmark (hbefore r hr)
        · rw [← htext, ← hprev]
          exact hnone
      have hrun := h
      rw [replaceFrom] at hrun
      split at hrun
      · obtain ⟨pre', rfl, hrest⟩ := behind_replacement hmarked hw₀ hw hrun
        exact hbehind _ _ (some last) pre' ⟨last, rfl, hlastMarked⟩ (hafter pre') hrest
      · rename_i hzero
        cases atLast with
        | true =>
          cases pre with
          | nil =>
            exact hhere rfl fun k hk => by
              rw [hzero] at hk
              exact (Option.some.inj hk).symm
          | cons b pre =>
            rw [if_pos rfl, List.nil_append, List.cons_append, List.cons_append, List.cons.injEq] at hrun
            obtain ⟨rfl, hrun⟩ := hrun
            exact hkept pre (getLast?_cons_or a pre ctx) hrun
        | false =>
          obtain ⟨pre', rfl, hrest⟩ := behind_replacement hmarked hw₀ hw hrun
          rw [hafter] at hbefore
          cases pre' with
          | nil => exact absurd hlastMarked (hbefore last rfl)
          | cons b pre' =>
            rw [List.cons_append, List.cons_append, List.cons.injEq] at hrest
            obtain ⟨rfl, hrest⟩ := hrest
            exact hkept pre' ((hafter _).trans (getLast?_cons_or a pre' _)) hrest
      · rename_i hnone
        cases pre with
        | nil =>
          exact hhere rfl fun k hk => by
            rw [hnone] at hk
            cases hk
        | cons b pre =>
          rw [List.cons_append, List.cons_append, List.cons.injEq] at hrun
          obtain ⟨rfl, hrun⟩ := hrun
          exact hkept pre (getLast?_cons_or a pre ctx) hrun

theorem replaceAll_stands (hne : replacement ≠ []) (hmarked : ∀ a ∈ replacement, marked a) {text : List α}
    (h : replaceAll char m replacement text = pre ++ w ++ post) (hw₀ : w ≠ [])
    (hbefore : ∀ a ∈ pre.getLast?, ¬ marked a) (hw : ∀ a ∈ w, ¬ marked a)
    (hpost : ∀ a ∈ post.head?, ¬ marked a) :
    Stands char m none text pre.getLast? w post.head? := by
  have hstands := replaceFrom_stands hne hmarked text none false 0 none pre w post h hw₀ (.inr ⟨rfl, rfl⟩)
  rw [Option.or_none] at hstands
  exact hstands hbefore hw hpost

/-- A match depends on what it matches and on its neighbours. -/
theorem Matches.of_neighbours {p : Pattern} {w post post' : List α}
    (h : Matches isWord p prev ((w ++ post).map char) w.length) (hnext : post'.head? = post.head?) :
    Matches isWord p prev ((w ++ post').map char) w.length := by
  have htake : ∀ rest : List α, ((w ++ rest).map char).take (w.length + 1) =
      (w ++ rest.head?.toList).map char := fun rest => by
    rw [← List.map_take, List.take_length_add_append]
    cases rest <;> rfl
  refine h.congr ?_
  rw [htake, htake, hnext]

/-- Where a pattern has been replaced, none of its matches stands. -/
theorem Stands.not_matches {p : Pattern} (hp : 0 < p.leastLength) {ctx : Option α}
    (h : Stands char (p.matcher isWord) ctx text before w next) {post : List α} (hnext : post.head? = next) :
    ¬ Matches isWord p (before.map char) ((w ++ post).map char) w.length := by
  intro hmatch
  obtain ⟨pre, post', -, -, hpost', hnone⟩ := h
  have hmatch' := hmatch.of_neighbours (hpost'.trans hnext.symm)
  have hne : lengths isWord p (before.map char) ((w ++ post').map char) ≠ [] := List.ne_nil_of_mem hmatch'
  obtain ⟨k, ks, hks⟩ := List.exists_cons_of_ne_nil hne
  have hk : p.matcher isWord (before.map char) ((w ++ post').map char) = some k := by
    rw [Pattern.matcher, hks]
    rfl
  have hfirst : Matches isWord p (before.map char) ((w ++ post').map char) k := by
    rw [Matches, hks]
    exact List.mem_cons_self
  have hle := leastLength_le p hfirst
  have hzero := hnone k hk
  omega

/-- A text in which no match begins stays as it is. -/
theorem replaceFrom_eq_or (text : List α) (prev : Option Char) (atLast : Bool) (pre : List α)
    (hprev : prev = pre.getLast?.map char) :
    replaceFrom char m replacement prev atLast 0 text = text ∨
      ∃ pre' rest k, pre ++ text = pre' ++ rest ∧ m (pre'.getLast?.map char) (rest.map char) = some k := by
  have hhere : (∃ k, m prev (text.map char) = some k) → ∃ pre' rest k, pre ++ text = pre' ++ rest ∧
      m (pre'.getLast?.map char) (rest.map char) = some k :=
    fun ⟨k, hk⟩ => ⟨pre, text, k, rfl, hprev ▸ hk⟩
  induction text generalizing prev atLast pre with
  | nil =>
    rw [replaceFrom]
    split
    · exact .inl rfl
    · split
      · rename_i hsome
        exact .inr (hhere (Option.isSome_iff_exists.mp hsome))
      · exact .inl rfl
  | cons a rest ih =>
    rw [replaceFrom]
    split
    · rename_i hk
      exact .inr (hhere ⟨_, hk⟩)
    · rename_i hk
      exact .inr (hhere ⟨_, hk⟩)
    · have hlast : some (char a) = (pre ++ [a]).getLast?.map char := by
        rw [List.getLast?_concat, Option.map_some]
      have hcons : pre ++ a :: rest = pre ++ [a] ++ rest := by
        rw [List.append_assoc, List.singleton_append]
      rw [hcons]
      rcases ih (some (char a)) false (pre ++ [a]) hlast
        (fun ⟨k, hk⟩ => ⟨_, rest, k, rfl, hlast ▸ hk⟩) with h | h
      · exact .inl (congrArg (a :: ·) h)
      · exact .inr h

end

end CcReminder.Lib.Regex
