import CcReminder.Lib.Listing
import Mathlib.Data.List.Perm.Basic

/-!
# Rewriting a listing

Each node of a listing is removed, or it stays, with changes of its own and maybe with others behind it
(`Edited`). The listing is rewritten then as a whole (`Listing.rewritten`): its pieces are those of the
layout, and their changes are found node by node and run by run (`Listing.changes_layout`).
-/

set_option autoImplicit true

namespace CcReminder.Lib

/-! ## Lists by their indices -/

/-- Only one index counts. -/
theorem flatMap_range_single {f : Nat → List γ} (hi : i < n) (h : ∀ j, j ≠ i → f j = []) :
    (List.range n).flatMap f = f i := by
  induction n with
  | zero => exact absurd hi (Nat.not_lt_zero i)
  | succ n ih =>
    rw [List.range_succ, List.flatMap_append, List.flatMap_singleton]
    by_cases hn : n = i
    · have hnil : (List.range n).flatMap f = [] :=
        List.flatMap_eq_nil_iff.mpr fun j hj => h j (hn ▸ Nat.ne_of_lt (List.mem_range.mp hj))
      rw [hnil, hn, List.nil_append]
    · rw [ih (by omega), h n hn, List.append_nil]

theorem flatMap_range (xs : List α) (g : α → List γ) :
    xs.flatMap g = (List.range xs.length).flatMap fun i => xs[i]?.elim [] g := by
  induction xs with
  | nil => rfl
  | cons x xs ih =>
    rw [List.flatMap_cons, ih, List.length_cons, List.range_succ_eq_map, List.flatMap_cons, List.flatMap_map]
    rfl

theorem flatMap_zipIdx {xs : List α} {o : α → β} {g : α → List γ} {h : β × Nat → List γ} {k : Nat}
    (H : ∀ i x, xs[i]? = some x → g x = h (o x, k + i)) : xs.flatMap g = ((xs.map o).zipIdx k).flatMap h := by
  induction xs generalizing k with
  | nil => rfl
  | cons x xs ih =>
    have hxs := ih (k := k + 1) fun i y hy => by
      rw [Nat.add_assoc, Nat.add_comm 1]
      exact H (i + 1) y hy
    rw [List.flatMap_cons, H 0 x rfl, hxs, List.map_cons, List.zipIdx_cons, List.flatMap_cons, Nat.add_zero]

theorem perm_flatMap_index {xs : List α} {g : α → List γ} {h : Nat → List γ}
    (H : ∀ i x, xs[i]? = some x → (g x).Perm (h i)) : (xs.flatMap g).Perm ((List.range xs.length).flatMap h) := by
  rw [flatMap_range]
  refine List.Perm.flatMap_left _ fun i hi => ?_
  rw [List.getElem?_eq_getElem (List.mem_range.mp hi)]
  exact H i _ (List.getElem?_eq_getElem _)

theorem findIdxs_index {xs : List α} {p : α → Bool} {c : Nat → Bool} {k : Nat}
    (H : ∀ i x, xs[i]? = some x → p x = c (k + i)) : xs.findIdxs p k = (List.range' k xs.length).filter c := by
  induction xs generalizing k with
  | nil => rfl
  | cons x xs ih =>
    have hx : p x = c k := H 0 x rfl
    have hxs := ih (k := k + 1) fun i y hy => by
      rw [Nat.add_assoc, Nat.add_comm 1]
      exact H (i + 1) y hy
    rw [List.findIdxs_cons, hx, hxs, List.length_cons, List.range'_succ, List.filter_cons]

/-- What is added at one index. -/
theorem perm_flatMap_add {n j : Nat} (hj : j < n) (g : Nat → List γ) (added : List γ) :
    ((List.range n).flatMap fun i => if i = j then g i ++ added else g i).Perm
      ((List.range n).flatMap g ++ added) := by
  induction n with
  | zero => omega
  | succ n ih =>
    rw [List.range_succ, List.flatMap_append, List.flatMap_append, List.flatMap_singleton, List.flatMap_singleton]
    by_cases hlast : n = j
    · have hsame : (List.range n).flatMap (fun i => if i = j then g i ++ added else g i) =
          (List.range n).flatMap g := List.flatMap_congr fun i hi => if_neg (by
        have := List.mem_range.mp hi
        omega)
      rw [if_pos hlast, hsame, List.append_assoc]
    · rw [if_neg hlast, List.append_assoc]
      exact ((ih (by omega)).append_right _).trans
        (by rw [List.append_assoc]; exact List.perm_append_comm.append_left _)

/-! ## Texts within a source -/

/-- A text stands at a position of the source. -/
def Stands (source : List α) (n : Nat) (text : List α) : Prop :=
  ∃ before after, source = before ++ text ++ after ∧ before.length = n

theorem Stands.left {source a b : List α} (h : Stands source n (a ++ b)) : Stands source n a := by
  obtain ⟨before, after, rfl, rfl⟩ := h
  exact ⟨before, b ++ after, by simp only [List.append_assoc], rfl⟩

theorem Stands.right {source a b : List α} (h : Stands source n (a ++ b)) : Stands source (n + a.length) b := by
  obtain ⟨before, after, rfl, rfl⟩ := h
  exact ⟨before ++ a, after, by simp only [List.append_assoc], List.length_append⟩

namespace Listing

variable {s : α} {f : β → List α}

theorem places_cons {x : Item α β} {xs : List (Item α β)} {last : Option (Item α β)} {blank : List α} :
    (⟨x :: xs, last, blank⟩ : Listing α β).places s f n = (n + x.lead.length, x.node) ::
      (⟨xs, last, blank⟩ : Listing α β).places s f (n + ((x.text f).length + 1)) := by
  simp [places, headsPlaces, Nat.add_assoc, Nat.add_comm, Nat.add_left_comm]

theorem places_length {l : Listing α β} : (l.places s f n).length = l.nodes.length := by
  rw [← List.length_map (·.2), places_snd]

/-- What stands from the first to the last node, and the listing that has one node there. -/
theorem text_middle {l : Listing α β} (hne : l.nodes ≠ []) (n : Nat) : ∃ lead middle rest : List α,
    l.text s f = lead ++ middle ++ rest ∧ (∃ b, (l.places s f n)[0]? = some (n + lead.length, b)) ∧
      (∃ p, (l.places s f n).getLast? = some p ∧ p.1 + (f p.2).length = n + lead.length + middle.length) ∧
      ∀ b, ∃ l' : Listing α β, l'.text s f = lead ++ f b ++ rest ∧ l'.nodes = [b] ∧
        ∀ T : List α → Prop, l.Every T → l'.Every T := by
  have hf : Layout.nodeText (fun b => [Piece.keep (f b)]) = f := funext fun b => by
    simp [Layout.nodeText]
  obtain ⟨heads, last, blank⟩ := l
  cases last with
  | some y =>
    have htext := Layout.endText_eq (s := s) (P := fun b => [Piece.keep (f b)]) y heads
    rw [hf] at htext
    refine ⟨(Layout.runFirst y heads).lead, Layout.endText s (fun b => [Piece.keep (f b)]) y heads, y.trail ++ blank,
      ?_, ?_, ?_, fun b => ⟨⟨[], some ⟨(Layout.runFirst y heads).lead, b, y.trail⟩, blank⟩, ?_, rfl, fun T h => ?_⟩⟩
    · rw [text, Option.elim_some, htext]
      simp only [List.append_assoc]
    · cases heads <;> exact ⟨_, rfl⟩
    · refine ⟨_, List.getLast?_concat, ?_⟩
      have hlength := congrArg List.length htext
      simp only [List.length_append, Item.text] at hlength
      dsimp only
      omega
    · simp [text, Item.text]
    · refine ⟨fun x hx => ?_, h.blank⟩
      rw [List.mem_singleton.mp hx]
      exact ⟨(h.items _ (Layout.mem_runFirst y heads)).1,
        (h.items y (List.mem_append_right _ List.mem_cons_self)).2⟩
  | none =>
    cases heads with
    | nil => exact absurd rfl hne
    | cons x xs =>
      have htext := Layout.runText_eq (s := s) (P := fun b => [Piece.keep (f b)]) x xs
      obtain ⟨m, g, hget, hstop⟩ := Layout.runLast_place (s := s) (P := fun b => [Piece.keep (f b)]) (n := n) x xs
      rw [hf] at htext hget hstop
      refine ⟨x.lead, Layout.runText s (fun b => [Piece.keep (f b)]) x xs,
        (Layout.runLast x xs).trail ++ [s] ++ blank, ?_, ⟨x.node, rfl⟩, ⟨(m, g), ?_, hstop⟩,
        fun b => ⟨⟨[⟨x.lead, b, (Layout.runLast x xs).trail⟩], none, blank⟩, ?_, rfl, fun T h => ?_⟩⟩
      · rw [text, Option.elim_none, htext]
        simp only [List.append_assoc, List.nil_append]
      · rw [places, Option.toList_none, List.map_nil, List.append_nil, List.getLast?_eq_getElem?,
          Layout.headsPlaces_length]
        exact hget
      · simp [text, Item.text]
      · refine ⟨fun y hy => ?_, h.blank⟩
        rw [List.mem_singleton.mp hy]
        exact ⟨(h.items x List.mem_cons_self).1,
          (h.items _ (List.mem_append_left _ (Layout.mem_runLast x xs))).2⟩

/-- A listing with other nodes, each found for its index and its place. -/
theorem exists_map {g : γ → β} {R : Nat → Nat → γ → Prop} {l : Listing α β}
    (h : ∀ i p, (l.places s f n)[i]? = some p → ∃ c, g c = p.2 ∧ R i p.1 c) :
    ∃ l' : Listing α γ, l'.map g = l ∧ ∀ i q, (l'.places s (f ∘ g) n)[i]? = some q → R i q.1 q.2 := by
  obtain ⟨heads, last, blank⟩ := l
  induction heads generalizing n R with
  | nil =>
    cases last with
    | none => exact ⟨⟨[], none, blank⟩, rfl, by simp [places, headsPlaces]⟩
    | some y =>
      obtain ⟨c, hc, hR⟩ := h 0 _ rfl
      refine ⟨⟨[], some ⟨y.lead, c, y.trail⟩, blank⟩, ?_, fun i q hq => ?_⟩
      · simp only [map, List.map_nil, Option.map_some, Item.map, hc]
      · cases i with
        | zero =>
          cases hq
          exact hR
        | succ i => cases hq
  | cons x xs ih =>
    rw [places_cons] at h
    obtain ⟨c, hc, hR⟩ := h 0 _ rfl
    obtain ⟨⟨heads', last', blank'⟩, hmap, hrest⟩ := ih (R := fun i => R (i + 1)) fun i p hp => h (i + 1) p hp
    refine ⟨⟨⟨x.lead, c, x.trail⟩ :: heads', last', blank'⟩, ?_, fun i q hq => ?_⟩
    · unfold map at hmap ⊢
      injection hmap with hheads hlast hblank
      rw [List.map_cons, hheads, hlast, hblank, Item.map, hc]
    · have htext : (⟨x.lead, c, x.trail⟩ : Item α γ).text (f ∘ g) = x.text f := by
        simp only [Item.text, Function.comp, hc]
      rw [places_cons, htext] at hq
      cases i with
      | zero =>
        cases hq
        exact hR
      | succ i => exact hrest i q hq

end Listing

/-! ## Edited nodes -/

/-- A node, and what becomes of it. -/
structure Edited (s : α) (f : β → List α) where
  orig : β
  /-- The node is removed. -/
  cut : Bool
  pieces : List (Piece α)
  /-- What comes in its place. -/
  new : Listing.Several α β
  old_pieces : Splice.old pieces = f orig
  new_pieces : Splice.new pieces = Listing.severalText s f new
  apart : Splice.Apart pieces

namespace Edited

/-- A node that stays as it is. -/
def same (s : α) (f : β → List α) (b : β) : Edited s f where
  orig := b
  cut := false
  pieces := [.keep (f b)]
  new := (b, [])
  old_pieces := by simp
  new_pieces := by simp [Listing.severalText]
  apart := Splice.apart_nil.keep

/-- A node that is removed. -/
def removed (s : α) (f : β → List α) (b : β) : Edited s f := { same s f b with cut := true }

/-- The nodes in the place of a node. -/
def nodes {s : α} {f : β → List α} (e : Edited s f) : List β := e.new.1 :: e.new.2.map (·.2)

end Edited

namespace Layout

variable {s : α} {P : γ → List (Piece α)} {tail : Option (List α × γ)}

/-- All that is left is removed. -/
def isCutEnd : Layout α γ → Bool
  | cutEnd _ _ _ => true
  | _ => false

theorem endsCut_keep {x : Item α γ} {rest : Layout α γ} :
    (keep x rest).endsCut = (rest.isCutEnd || rest.endsCut) := by
  cases rest <;> rfl

theorem isCutEnd_of (cut : γ → Bool) (last : Option (Item α γ)) (blank : List α) (xs : List (Item α γ)) :
    (of cut last blank xs).isCutEnd = (last.any (fun y => cut y.node) && xs.all fun x => cut x.node) := by
  induction xs with
  | nil =>
    cases last with
    | none => rfl
    | some y => cases hcut : cut y.node <;> simp [of, hcut, isCutEnd]
  | cons x xs ih =>
    cases hcut : cut x.node with
    | false => simp [of, hcut, isCutEnd]
    | true =>
      rw [List.all_cons, hcut, Bool.true_and, ← ih, of, if_pos hcut]
      cases of cut last blank xs <;> rfl

theorem endsCut_of (cut : γ → Bool) (last : Option (Item α γ)) (blank : List α) (xs : List (Item α γ)) :
    (of cut last blank xs).endsCut = (last.any (fun y => cut y.node) && xs.any fun x => !cut x.node) := by
  induction xs with
  | nil =>
    cases last with
    | none => rfl
    | some y => cases hcut : cut y.node <;> simp [of, hcut, endsCut]
  | cons x xs ih =>
    cases hcut : cut x.node with
    | true =>
      rw [List.any_cons, hcut, Bool.not_true, Bool.false_or, ← ih, of, if_pos hcut]
      cases of cut last blank xs <;> rfl
    | false =>
      -- all that is left is removed, or something more stays
      rw [of, if_neg (by simp [hcut]), endsCut_keep, isCutEnd_of, ih, List.any_cons, hcut, Bool.not_false,
        Bool.true_or, Bool.and_true, ← Bool.and_or_distrib_left, List.any_eq_not_all_not]
      simp

/-- A last node that goes behind one that stays ends where the run does. -/
theorem cutStop_last {l : Layout α γ} (h : l.endsCut = true) : ∃ m g, (l.places s P n).getLast? = some (m, g) ∧
    l.cutStop s P n = [m + (nodeText P g).length] := by
  induction l generalizing n with
  | done => cases h
  | cutEnd => cases h
  | keep x rest ih =>
    have hcons : rest.endsCut = true → ∃ m g, ((keep x rest).places s P n).getLast? = some (m, g) ∧
        rest.cutStop s P (n + ((x.text (nodeText P)).length + 1)) = [m + (nodeText P g).length] := by
      intro hrest
      obtain ⟨m, g, hlast, hstop⟩ := ih (n := n + ((x.text (nodeText P)).length + 1)) hrest
      refine ⟨m, g, ?_, hstop⟩
      rw [places, List.getLast?_cons, hlast]
      rfl
    cases rest with
    | cutEnd run last blank =>
      refine ⟨_, _, by rw [places, places, ← List.cons_append, List.getLast?_concat], ?_⟩
      have hend := congrArg List.length (endText_eq (s := s) (P := P) last run)
      simp only [List.length_append, Item.text] at hend
      simp only [cutStop, Item.text, List.length_append, List.cons.injEq, and_true]
      omega
    | done => exact hcons h
    | keep => exact hcons h
    | cut => exact hcons h
  | cut x run rest ih =>
    obtain ⟨m, g, hlast, hstop⟩ := ih (n := n + (headsText s (nodeText P) (x :: run)).length) h
    refine ⟨m, g, ?_, hstop⟩
    rw [places, List.getLast?_append, hlast]
    rfl

end Layout

namespace Listing

variable {s : α} {f : β → List α} {tail : Option (List α × Edited s f)}

def layout (l : Listing α (Edited s f)) : Layout α (Edited s f) := Layout.of (·.cut) l.last l.blank l.heads

/-- The listing with what comes in the place of its nodes, and with a node behind a last one that goes. -/
def rewritten (tail : Option (List α × Edited s f)) (l : Listing α (Edited s f)) : Listing α β :=
  ((l.layout.result tail).map (·.new)).expand

theorem nodeText_edited : Layout.nodeText (fun e : Edited s f => e.pieces) = f ∘ (·.orig) :=
  funext fun e => e.old_pieces

theorem nodeNew_edited : Layout.nodeNew (fun e : Edited s f => e.pieces) = severalText s f ∘ (·.new) :=
  funext fun e => e.new_pieces

theorem old_layout (l : Listing α (Edited s f)) :
    Splice.old (l.layout.pieces s (·.pieces) tail) = (l.map (·.orig)).text s f := by
  rw [Layout.old_pieces, layout, Layout.text_of, nodeText_edited, text_map]

theorem new_layout (l : Listing α (Edited s f)) :
    Splice.new (l.layout.pieces s (·.pieces) tail) = (l.rewritten tail).text s f := by
  rw [Layout.new_pieces, nodeNew_edited, ← text_map, rewritten, text_expand]

theorem apart_layout (l : Listing α (Edited s f)) : Splice.Apart (l.layout.pieces s (·.pieces) tail) :=
  l.layout.apart_pieces fun e _ => e.apart

/-- **The nodes of the rewritten listing.** -/
theorem nodes_rewritten (l : Listing α (Edited s f)) : (l.rewritten tail).nodes =
    (l.nodes.flatMap fun e => if e.cut then [] else e.nodes) ++
      if l.layout.endsCut then tail.toList.flatMap (·.2.nodes) else [] := by
  have hkept : (l.nodes.filter fun e => !e.cut).flatMap Edited.nodes =
      l.nodes.flatMap fun e => if e.cut then [] else e.nodes := by
    induction l.nodes with
    | nil => rfl
    | cons e es ih => cases hcut : e.cut <;> simp [hcut, ih]
  rw [rewritten, nodes_expand, nodes_map, Layout.nodes_result, layout, Layout.kept_of, List.flatMap_map,
    List.flatMap_append, ← hkept]
  refine congrArg _ ?_
  unfold Layout.behind
  cases (Layout.of (fun e : Edited s f => e.cut) l.last l.blank l.heads).endsCut with
  | false => rfl
  | true =>
    rw [if_pos rfl, List.flatMap_map]
    rfl

/-- **The changes of the rewritten listing**: those of its nodes, the runs that go, and the node behind them. -/
theorem changes_layout (tail : Option (List α × Edited s f)) (l : Listing α (Edited s f)) (n : Nat) :
    (Splice.changes n (l.layout.pieces s (·.pieces) tail)).Perm
      (((l.places s (f ∘ (·.orig)) n).flatMap fun p => if p.2.cut then [] else Splice.changes p.1 p.2.pieces) ++
        (l.layout.cuts s (·.pieces) n ++
          (l.layout.cutStop s (·.pieces) n).flatMap (Layout.appendedAt s (·.pieces) tail))) := by
  refine (Layout.changes_pieces n l.layout).trans (.of_eq ?_)
  rw [show l.layout.inner s (·.pieces) n = _ from Layout.inner_of _ _ _ _, nodeText_edited]

theorem every_rewritten {T : List α → Prop} {l : Listing α (Edited s f)} (h : (l.map (·.orig)).Every T)
    (hnil : T []) (happend : ∀ t t', T t → T t' → T (t ++ t')) (htail : ∀ m ∈ tail, T m.1)
    (hmore : ∀ e ∈ l.nodes, ∀ m ∈ e.new.2, T m.1) (hmore' : ∀ m ∈ tail, ∀ m' ∈ m.2.new.2, T m'.1) :
    (l.rewritten tail).Every T := by
  have hevery : l.Every T := by
    refine ⟨fun x hx => ?_, h.blank⟩
    refine h.items (x.map (·.orig)) ?_
    rw [items_map]
    exact List.mem_map_of_mem hx
  have hlayout : l.layout.Every T := Layout.every_of _ hevery
  refine Every.expand (Every.map (hlayout.result hnil happend htail)) hnil fun r hr m hm => ?_
  rw [nodes_map, Layout.nodes_result] at hr
  obtain ⟨e, he, rfl⟩ := List.mem_map.mp hr
  rcases List.mem_append.mp he with he | he
  · rw [layout, Layout.kept_of] at he
    exact hmore e (List.mem_filter.mp he).1 m hm
  · unfold Layout.behind at he
    split at he
    · obtain ⟨m', hm', rfl⟩ := List.mem_map.mp he
      exact hmore' m' (Option.mem_toList.mp hm') m hm
    · cases he

end Listing

end CcReminder.Lib
