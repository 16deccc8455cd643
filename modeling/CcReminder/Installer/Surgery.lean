import CcReminder.Installer.Syntax
import CcReminder.Lib.Rewriting

/-!
# Edits as pieces

The edits of `installer/mod.rs` against the pieces of a text: the edits that delete the runs of a listing
are those that the pieces of its layout say, as long as there is only white space next to what is deleted,
and edits are applied in whatever order they were planned.
-/

set_option autoImplicit true

namespace CcReminder

open Lib
open Jsonc (IsTrivia)
open JsonText (Space)

namespace Edit

def ofChange (c : Change UInt8) : Edit := ⟨c.start, c.stop, c.text⟩

end Edit

/-! ## Applying edits -/

theorem applySorted_ofChange (source : List UInt8) (cursor : Nat) (cs : List (Change UInt8)) :
    applySorted source cursor (cs.map .ofChange) =
      match Splice.apply source cursor cs with
      | some out => .ok out
      | none => .error (invalidConfig "overlapping splice edits") := by
  induction cs generalizing cursor with
  | nil => rfl
  | cons c cs ih =>
    rw [List.map_cons, applySorted, Splice.apply]
    by_cases hlt : c.start < cursor
    · rw [if_pos (show (Edit.ofChange c).start < cursor from hlt), if_pos hlt]
    · rw [if_neg (show ¬ (Edit.ofChange c).start < cursor from hlt), if_neg hlt,
        show (Edit.ofChange c).stop = c.stop from rfl, ih]
      cases Splice.apply source c.stop cs <;> rfl

instance : Std.Total editOrder where
  total e f := by
    unfold editOrder
    omega

instance : IsTrans Edit editOrder where
  trans e f g h h' := by
    unfold editOrder at *
    omega

/-- Edits that are apart are sorted into the order of their pieces. -/
theorem insertionSort_of_perm {ps : List (Lib.Piece UInt8)} {edits : List Edit} (hapart : Splice.Apart ps)
    (hperm : edits.Perm ((Splice.changes n ps).map .ofChange)) :
    edits.insertionSort editOrder = (Splice.changes n ps).map .ofChange := by
  have hsorted := hapart n
  refine ((edits.perm_insertionSort editOrder).trans hperm).eq_of_pairwise (fun e f he hf h h' => ?_)
    (List.pairwise_insertionSort editOrder edits) (List.pairwise_map.mpr (hsorted.imp fun h => ?_))
  · -- two edits at one place are one
    have hmem := (List.perm_insertionSort editOrder edits).trans hperm
    obtain ⟨c, hc, rfl⟩ := List.mem_map.mp (hmem.mem_iff.mp he)
    obtain ⟨d, hd, rfl⟩ := List.mem_map.mp hf
    by_contra hne
    have hsym := hapart.before_or hc hd fun h => hne (congrArg _ h)
    unfold editOrder Edit.ofChange at h h'
    unfold Splice.Before at hsym
    dsimp only at h h'
    omega
  · unfold Splice.Before at h
    unfold editOrder Edit.ofChange
    dsimp only
    omega

/-- **Edits in any order.** -/
theorem applyEdits_pieces {before after : List UInt8} {ps : List (Lib.Piece UInt8)} {edits : List Edit}
    (hapart : Splice.Apart ps) (hperm : edits.Perm ((Splice.changes before.length ps).map .ofChange)) :
    applyEdits (before ++ Splice.old ps ++ after) edits = .ok (before ++ Splice.new ps ++ after) := by
  rw [applyEdits, insertionSort_of_perm hapart hperm, applySorted_ofChange, Splice.apply_changes]

/-! ## Looking around -/

theorem isAsciiWhitespace_of_space {text : List UInt8} (h : Space text) : ∀ b ∈ text, isAsciiWhitespace b = true := by
  intro b hb
  have := h b hb
  simp only [JsonText.isSpace, decide_eq_true_eq] at this
  simp only [isAsciiWhitespace, decide_eq_true_eq]
  tauto

theorem getElem?_behind {before space after : List UInt8} {b : UInt8} :
    (before ++ (space ++ b :: after))[before.length + space.length]? = some b := by simp

theorem takeWhile_space {space text : List UInt8} {b : UInt8} (hspace : Space space)
    (hb : isAsciiWhitespace b = false) : (space ++ b :: text).takeWhile isAsciiWhitespace = space := by
  rw [List.takeWhile_append_of_pos (isAsciiWhitespace_of_space hspace), List.takeWhile_cons_of_neg (by rw [hb]; simp),
    List.append_nil]

theorem skipForward_space {before space after : List UInt8} {b : UInt8} (hspace : Space space)
    (hb : isAsciiWhitespace b = false) :
    skipForward (before ++ (space ++ b :: after)) before.length = before.length + space.length := by
  rw [skipForward, List.drop_left, takeWhile_space hspace hb]

theorem skipBackward_space {before space after : List UInt8} {b : UInt8} (hspace : Space space)
    (hb : isAsciiWhitespace b = false) :
    skipBackward (before ++ b :: (space ++ after)) (before.length + 1 + space.length) = before.length + 1 := by
  have htake : (before ++ b :: (space ++ after)).take (before.length + 1 + space.length) = before ++ b :: space := by
    have hlength : before.length + 1 + space.length = (before ++ b :: space).length := by
      simp only [List.length_append, List.length_cons]
      omega
    have hassoc : before ++ b :: (space ++ after) = (before ++ b :: space) ++ after := by simp
    rw [hassoc, hlength, List.take_left]
  have hspace' : Space space.reverse := fun c hc => hspace c (List.mem_reverse.mp hc)
  have hreverse : (before ++ b :: space).reverse = space.reverse ++ b :: before.reverse := by simp
  rw [skipBackward, htake, hreverse, takeWhile_space hspace' hb, List.length_reverse, Nat.add_sub_cancel]

/-- What stops a search for a comma. -/
def Stops (b : UInt8) : Prop := isAsciiWhitespace b = false ∧ b ≠ comma

theorem comma_not_space : isAsciiWhitespace comma = false := rfl

/-- A run goes with the comma behind it. -/
theorem deleteSpan_behind (before : List UInt8) {space : List UInt8} (after : List UInt8) (hspace : Space space) (start : Nat) :
    deleteSpan (before ++ (space ++ comma :: after)) start before.length =
      .delete start (before.length + space.length + 1) := by
  rw [deleteSpan, skipForward_space hspace comma_not_space]
  exact if_pos getElem?_behind

/-- A run at the end goes with the comma before it. -/
theorem deleteSpan_before (before : List UInt8) {space : List UInt8} (run : List UInt8) {space' : List UInt8}
    (after : List UInt8) {b : UInt8} (hspace : Space space)
    (hspace' : Space space') (hb : Stops b) :
    deleteSpan (before ++ comma :: (space ++ (run ++ (space' ++ b :: after)))) (before.length + 1 + space.length)
      (before.length + 1 + space.length + run.length) =
        .delete before.length (before.length + 1 + space.length + run.length) := by
  have hassoc : before ++ comma :: (space ++ (run ++ (space' ++ b :: after))) =
      (before ++ comma :: (space ++ run)) ++ (space' ++ b :: after) := by simp
  have hlength : before.length + 1 + space.length + run.length = (before ++ comma :: (space ++ run)).length := by
    simp only [List.length_append, List.length_cons]
    omega
  have hforward : skipForward (before ++ comma :: (space ++ (run ++ (space' ++ b :: after))))
      (before.length + 1 + space.length + run.length) = (before ++ comma :: (space ++ run)).length + space'.length := by
    rw [hassoc, hlength, skipForward_space hspace' hb.1]
  have hcomma : (before ++ comma :: (space ++ (run ++ (space' ++ b :: after))))[before.length]? = some comma := by
    simp
  rw [deleteSpan, hforward, skipBackward_space hspace comma_not_space]
  dsimp only
  rw [if_neg, if_pos]
  · rfl
  · exact ⟨Nat.succ_pos _, hcomma⟩
  · rw [hassoc, getElem?_behind]
    exact fun h => hb.2 (Option.some.inj h)

/-- A run that is all there is goes without a comma. -/
theorem deleteSpan_alone (before : List UInt8) {space : List UInt8} (run : List UInt8) {space' : List UInt8}
    (after : List UInt8) {b b' : UInt8} (hspace : Space space)
    (hspace' : Space space') (hb : Stops b) (hb' : Stops b') :
    deleteSpan (before ++ b' :: (space ++ (run ++ (space' ++ b :: after)))) (before.length + 1 + space.length)
      (before.length + 1 + space.length + run.length) =
        .delete (before.length + 1 + space.length) (before.length + 1 + space.length + run.length) := by
  have hassoc : before ++ b' :: (space ++ (run ++ (space' ++ b :: after))) =
      (before ++ b' :: (space ++ run)) ++ (space' ++ b :: after) := by simp
  have hlength : before.length + 1 + space.length + run.length = (before ++ b' :: (space ++ run)).length := by
    simp only [List.length_append, List.length_cons]
    omega
  have hforward : skipForward (before ++ b' :: (space ++ (run ++ (space' ++ b :: after))))
      (before.length + 1 + space.length + run.length) = (before ++ b' :: (space ++ run)).length + space'.length := by
    rw [hassoc, hlength, skipForward_space hspace' hb.1]
  have hopen : (before ++ b' :: (space ++ (run ++ (space' ++ b :: after))))[before.length]? = some b' := by
    simp
  rw [deleteSpan, hforward, skipBackward_space hspace hb'.1]
  dsimp only
  rw [if_neg, if_neg]
  · rintro ⟨-, h⟩
    rw [Nat.add_sub_cancel, hopen] at h
    exact hb'.2 (Option.some.inj h)
  · rw [hassoc, getElem?_behind]
    exact fun h => hb.2 (Option.some.inj h)

/-! ## Runs -/

namespace Layout

open Lib.Layout

variable {P : γ → List (Lib.Piece UInt8)}

/-- **The spans that delete the runs** are what the pieces say. -/
theorem deleteSpan_runs (l : Layout UInt8 γ) {post source : List UInt8} {b : UInt8} (pre : List UInt8) (k : Nat)
    (hsource : source = pre ++ l.text comma P ++ b :: post) (hb : Stops b) (hproper : l.Proper)
    (hcuts : l.AtCuts Space)
    (hopen : ∀ run last blank, l = cutEnd run last blank → ∃ pre' b', pre = pre' ++ [b'] ∧ Stops b') :
    (l.runs comma P k pre.length).map (fun r => deleteSpan source r.2.1 r.2.2) =
      (l.cuts comma P pre.length).map .ofChange := by
  induction l generalizing pre k with
  | done => rfl
  | cutEnd run last blank =>
    obtain ⟨pre', b', rfl, hb'⟩ := hopen _ _ _ rfl
    have hspace : Space (runFirst last run).lead := (hcuts.1 _ (mem_runFirst last run)).1
    have hspace' : Space (last.trail ++ blank) := fun c hc => (List.mem_append.mp hc).elim
      ((hcuts.1 last (List.mem_append_right _ List.mem_cons_self)).2 c) (hcuts.2 c)
    have htext : source = pre' ++ b' :: ((runFirst last run).lead ++
        (endText comma P last run ++ ((last.trail ++ blank) ++ b :: post))) := by
      rw [hsource, text, endText_eq]
      simp
    have h := deleteSpan_alone pre' (endText comma P last run) post hspace hspace' hb hb'
    rw [← htext] at h
    simp only [runs, cuts, List.map_cons, List.map_nil, List.length_append, List.length_singleton]
    rw [h]
    rfl
  | keep x rest ih =>
    have hstep := ih (pre ++ (x.text (nodeText P) ++ [comma])) (k + 1)
      (by rw [hsource, text]; simp only [List.append_assoc])
    rw [List.length_append, List.length_append, List.length_singleton] at hstep
    cases rest with
    | cutEnd run last blank =>
      have hspace : Space (runFirst last run).lead := (hcuts.1 _ (mem_runFirst last run)).1
      have hspace' : Space (last.trail ++ blank) := fun c hc => (List.mem_append.mp hc).elim
        ((hcuts.1 last (List.mem_append_right _ List.mem_cons_self)).2 c) (hcuts.2 c)
      have htext : source = (pre ++ x.text (nodeText P)) ++ comma :: ((runFirst last run).lead ++
          (endText comma P last run ++ ((last.trail ++ blank) ++ b :: post))) := by
        rw [hsource, text, text, endText_eq]
        simp
      have h := deleteSpan_before (pre ++ x.text (nodeText P)) (endText comma P last run) post hspace hspace' hb
      rw [← htext, List.length_append] at h
      simp only [runs, cuts, List.map_cons, List.map_nil, ← Nat.add_assoc]
      rw [h]
      rfl
    | done => exact hstep hproper hcuts (by simp)
    | keep => exact hstep hproper hcuts (by simp)
    | cut => exact hstep hproper hcuts (by simp)
  | cut x run rest ih =>
    have hlast : Space (runLast x run).trail := (hcuts.1 _ (mem_runLast x run)).2
    have hrest : rest.Proper ∧ ∀ run last blank, rest ≠ cutEnd run last blank := by
      cases rest with
      | cutEnd => exact absurd hproper id
      | done => exact ⟨trivial, by simp⟩
      | keep => exact ⟨hproper, by simp⟩
      | cut => exact absurd hproper id
    have hstep := ih (pre ++ headsText comma (nodeText P) (x :: run)) (k + run.length + 1)
      (by rw [hsource, text]; simp only [List.append_assoc]) hrest.1 hcuts.2
      (fun run last blank h => absurd h (hrest.2 run last blank))
    have htext : source = (pre ++ x.lead ++ runText comma P x run) ++
        ((runLast x run).trail ++ comma :: (rest.text comma P ++ b :: post)) := by
      rw [hsource, text, runText_eq]
      simp
    have h := deleteSpan_behind (pre ++ x.lead ++ runText comma P x run)
      (rest.text comma P ++ b :: post) hlast (pre.length + x.lead.length)
    rw [← htext, List.length_append, List.length_append] at h
    rw [List.length_append] at hstep
    rw [runs, cuts, List.map_cons, List.map_cons, hstep, h]
    rfl

/-- The indices of the nodes that are removed, counted from `k`. -/
def marks (l : Layout UInt8 γ) (k : Nat) : List Nat := (l.marked.map (·.1)).findIdxs id k

theorem indexRuns_first (i : Nat) (is : List Nat) : ∃ last runs, indexRuns (i :: is) = (i, last) :: runs := by
  rw [indexRuns]
  split
  · split
    · exact ⟨_, _, rfl⟩
    · exact ⟨_, _, rfl⟩
  · exact ⟨_, _, rfl⟩

theorem indexRuns_apart {i : Nat} {is : List Nat} (h : ∀ j ∈ is, i + 1 < j) :
    indexRuns (i :: is) = (i, i) :: indexRuns is := by
  cases is with
  | nil => rfl
  | cons j is =>
    obtain ⟨last, runs, hruns⟩ := indexRuns_first j is
    have hne : j ≠ i + 1 := (Nat.ne_of_lt (h j List.mem_cons_self)).symm
    rw [indexRuns, hruns]
    exact if_neg hne

/-- Consecutive indices make one run. -/
theorem indexRuns_range (k m : Nat) {is : List Nat} (h : ∀ j ∈ is, k + m + 1 < j) :
    indexRuns (List.range' k (m + 1) ++ is) = (k, k + m) :: indexRuns is := by
  induction m generalizing k with
  | zero => exact indexRuns_apart h
  | succ m ih =>
    have hnext := ih (k + 1) fun j hj => by
      have := h j hj
      omega
    rw [List.range'_succ, List.cons_append, indexRuns, hnext]
    exact (if_pos rfl).trans (by rw [Nat.add_assoc, Nat.add_comm 1 m])

theorem marks_run (items : List (Item UInt8 γ)) (k : Nat) :
    ((items.map fun y => (true, y.node)).map (·.1)).findIdxs id k = List.range' k items.length := by
  induction items generalizing k with
  | nil => rfl
  | cons x xs ih =>
    rw [List.map_cons, List.map_cons, List.findIdxs_cons, ih]
    rfl

theorem marks_cut {x : Item UInt8 γ} {run : List (Item UInt8 γ)} {rest : Layout UInt8 γ} (k : Nat) :
    marks (Layout.cut x run rest) k = List.range' k (run.length + 1) ++ marks rest (k + run.length + 1) := by
  have hlength : (((x :: run).map fun y => (true, y.node)).map (·.1)).length = run.length + 1 := by simp
  rw [marks, marked, List.map_append, List.findIdxs_append, marks_run, hlength]
  rfl

theorem indexRuns_marks (l : Layout UInt8 γ) (k n : Nat) (hproper : l.Proper) :
    indexRuns (marks l k) = (l.runs comma P k n).map (·.1) := by
  induction l generalizing k n with
  | done last blank => cases last <;> rfl
  | cutEnd run last blank =>
    have h : indexRuns (List.range' k (run.length + 1) ++ []) = _ := indexRuns_range k run.length (by simp)
    rw [marks, marked, marks_run, List.length_append, List.length_singleton]
    rwa [List.append_nil] at h
  | keep x rest ih => exact ih _ _ hproper
  | cut x run rest ih =>
    have hrest : rest.Proper ∧ ∀ j ∈ marks rest (k + run.length + 1), k + run.length + 1 < j := by
      cases rest with
      | done last blank => cases last <;> exact ⟨trivial, fun j hj => by cases hj⟩
      | keep y rest => exact ⟨hproper, fun j hj => List.ge_of_mem_findIdxs j hj⟩
      | cutEnd => exact absurd hproper id
      | cut => exact absurd hproper id
    rw [marks_cut, indexRuns_range _ _ hrest.2, ih _ _ hrest.1]
    rfl

/-- The elements have the ranges of the nodes. -/
theorem elementStart_place {f : β → List UInt8} {elements : List Jsonc.Value} {places : List (Nat × β)}
    (helements : elements.map (·.range) = places.map fun p => ⟨p.1, p.1 + (f p.2).length⟩) {i : Nat} {p : Nat × β}
    (hp : places[i]? = some p) :
    elementStart elements i = p.1 ∧ elementStop elements i = p.1 + (f p.2).length := by
  have hget := congrArg (·[i]?) helements
  simp only [List.getElem?_map, hp, Option.map_some] at hget
  rw [Option.map_eq_some_iff] at hget
  obtain ⟨v, hv, hrange⟩ := hget
  rw [elementStart, elementStop, hv]
  exact ⟨congrArg Jsonc.Range.start hrange, congrArg Jsonc.Range.stop hrange⟩

theorem deleteRuns_cuts (l : Layout UInt8 γ) {pre post source : List UInt8} {b : UInt8} {elements : List Jsonc.Value}
    (hsource : source = pre ++ l.text comma P ++ b :: post) (hb : Stops b) (hproper : l.Proper)
    (hcuts : l.AtCuts Space)
    (hopen : ∀ run last blank, l = cutEnd run last blank → ∃ pre' b', pre = pre' ++ [b'] ∧ Stops b')
    (helements : elements.map (·.range) = (l.places comma P pre.length).map fun p =>
      ⟨p.1, p.1 + (nodeText P p.2).length⟩) :
    deleteRuns elements (marks l 0) source = (l.cuts comma P pre.length).map .ofChange := by
  rw [← deleteSpan_runs l pre 0 hsource hb hproper hcuts hopen, deleteRuns, indexRuns_marks l 0 pre.length hproper,
    List.map_map]
  refine List.map_congr_left fun r hr => ?_
  obtain ⟨-, -, ⟨g, hstart⟩, m, g', hlast, hstop⟩ := runs_places l 0 pre.length r hr
  rw [Nat.sub_zero] at hstart hlast
  rw [Function.comp, (elementStart_place helements hstart).1, (elementStart_place helements hlast).2, hstop]

end Layout

/-! ## A listing -/

/-- The edits of a text at a position, and what becomes of it. Nothing is inserted at its end. -/
def Rewrites (n : Nat) (edits : List Edit) (text text' : List UInt8) : Prop :=
  ∃ ps, Splice.old ps = text ∧ Splice.new ps = text' ∧ Splice.Apart ps ∧ Splice.EndsKept ps ∧
    edits.Perm ((Splice.changes n ps).map .ofChange)

theorem rewrites_same (n : Nat) (text : List UInt8) : Rewrites n [] text text :=
  ⟨[.keep text], by simp, by simp, Splice.apart_nil.keep, fun _ _ he => absurd he List.not_mem_nil, .refl _⟩

/-- Within a text that goes on behind it. -/
theorem rewrites_around {edits : List Edit} (before : List UInt8) {after : List UInt8} (ps : List (Lib.Piece UInt8)) {n : Nat}
    (hapart : Splice.Apart ps) (hafter : after ≠ [])
    (hperm : edits.Perm ((Splice.changes (n + before.length) ps).map .ofChange)) :
    Rewrites n edits (before ++ Splice.old ps ++ after) (before ++ Splice.new ps ++ after) := by
  refine ⟨.keep before :: (ps ++ [.keep after]), by simp, by simp, ?_, ?_, ?_⟩
  · exact (hapart.append Splice.apart_nil.keep (.inr fun _ _ he => absurd he List.not_mem_nil)).keep
  · exact (Splice.endsKept_keep hafter : Splice.EndsKept ((.keep before :: ps) ++ [.keep after]))
  · rw [Splice.changes_keep, Splice.changes_append]
    simpa using hperm

theorem Rewrites.append_left {edits : List Edit} {before text text' : List UInt8} {n : Nat}
    (h : Rewrites (n + before.length) edits text text') : Rewrites n edits (before ++ text) (before ++ text') := by
  obtain ⟨ps, rfl, rfl, hapart, hends, hperm⟩ := h
  refine ⟨.keep before :: ps, rfl, rfl, hapart.keep, fun m e he => ?_, hperm⟩
  have := hends (m + before.length) e he
  rw [Splice.old_keep, List.length_append]
  omega

/-- A node with its edits, for a plan. -/
theorem Rewrites.node {f : β → List UInt8} {edits : List Edit} {b b' : β} {n : Nat}
    (h : Rewrites n edits (f b) (f b')) : ∃ ps, Splice.old ps = f b ∧
      Splice.new ps = Listing.severalText comma f (b', []) ∧ Splice.Apart ps ∧
        edits.Perm ((Splice.changes n ps).map .ofChange) := by
  obtain ⟨ps, hold, hnew, hapart, -, hperm⟩ := h
  exact ⟨ps, hold, by rw [hnew]; simp [Listing.severalText], hapart, hperm⟩

/-- A node with its edits and others that are inserted behind it, for a plan. -/
theorem Rewrites.node_insert {f : β → List UInt8} {edits : List Edit} {b b' : β} {n : Nat}
    (h : Rewrites n edits (f b) (f b')) (more : List (List UInt8 × β)) : ∃ ps, Splice.old ps = f b ∧
      Splice.new ps = Listing.severalText comma f (b', more) ∧ Splice.Apart ps ∧
        (edits ++ [Edit.insert (n + (f b).length) (more.flatMap fun m => comma :: m.1 ++ f m.2)]).Perm
          ((Splice.changes n ps).map .ofChange) := by
  obtain ⟨ps, hold, hnew, hapart, hends, hperm⟩ := h
  refine ⟨ps ++ [.change [] (more.flatMap fun m => comma :: m.1 ++ f m.2)], ?_, ?_, ?_, ?_⟩
  · simp [hold]
  · simp [hnew, Listing.severalText]
  · exact hapart.append Splice.apart_single (.inl hends)
  · rw [Splice.changes_append, List.map_append, hold]
    exact hperm.append_right _

/-- What is planned for the nodes of a listing, each with its index: which go, the edits of the others, and what
comes in their place. Behind a last node that goes another one may come. -/
structure ListingPlan (β : Type) where
  cut : Nat → β → Bool
  indices : List Nat
  edits : Nat → List Edit
  new : Nat → β → Listing.Several UInt8 β
  tail : Option (List UInt8 × β)

/-- The nodes that a plan leaves. -/
def ListingPlan.nodes (plan : ListingPlan β) (nodes : List β) : List β :=
  (nodes.zipIdx.flatMap fun p =>
    if plan.cut p.2 p.1 then [] else (plan.new p.2 p.1).1 :: (plan.new p.2 p.1).2.map (·.2)) ++
      plan.tail.toList.map (·.2)

/-- The edits of a listing. -/
def ListingPlan.allEdits (plan : ListingPlan β) (f : β → List UInt8) (elements : List Jsonc.Value)
    (source : List UInt8) : List Edit :=
  (List.range elements.length).flatMap plan.edits ++ deleteRuns elements plan.indices source ++
    plan.tail.toList.map fun m => .insert (elementStop elements (elements.length - 1)) (comma :: m.1 ++ f m.2)

/-- What a plan is made for. -/
structure ListingPlan.Fits (plan : ListingPlan β) (f : β → List UInt8) (n : Nat) (l : Listing UInt8 β) : Prop where
  indices : plan.indices = (List.range l.nodes.length).filter fun i => l.nodes[i]?.any (plan.cut i)
  removed : ∀ i b, l.nodes[i]? = some b → plan.cut i b = true → plan.edits i = []
  node : ∀ i p, (l.places comma f n)[i]? = some p → plan.cut i p.2 = false → ∃ ps, Splice.old ps = f p.2 ∧
    Splice.new ps = Listing.severalText comma f (plan.new i p.2) ∧ Splice.Apart ps ∧
      (plan.edits i).Perm ((Splice.changes p.1 ps).map .ofChange)
  more : ∀ i b, ∀ m ∈ (plan.new i b).2, IsTrivia m.1
  space : ∀ i x, l.items[i]? = some x → plan.cut i x.node = true → Space x.lead ∧ Space x.trail
  blank : ∀ y ∈ l.last, plan.cut l.heads.length y.node = true → Space l.blank
  tail : ∀ m ∈ plan.tail, IsTrivia m.1 ∧ (∃ y ∈ l.last, plan.cut l.heads.length y.node = true) ∧
    ∃ i b, l.nodes[i]? = some b ∧ plan.cut i b = false

/-- The edited nodes of a plan. -/
structure ListingPlan.Marks (plan : ListingPlan β) (f : β → List UInt8) (n : Nat)
    (l : Listing UInt8 (Edited comma f)) : Prop where
  cut : ∀ i q, (l.places comma (f ∘ (·.orig)) n)[i]? = some q → q.2.cut = plan.cut i q.2.orig
  new : ∀ i q, (l.places comma (f ∘ (·.orig)) n)[i]? = some q → plan.cut i q.2.orig = false →
    q.2.new = plan.new i q.2.orig
  removed : ∀ i q, (l.places comma (f ∘ (·.orig)) n)[i]? = some q → plan.cut i q.2.orig = true → q.2.new.2 = []
  edits : ∀ i q, (l.places comma (f ∘ (·.orig)) n)[i]? = some q → plan.cut i q.2.orig = false →
    (plan.edits i).Perm ((Splice.changes q.1 q.2.pieces).map .ofChange)

namespace ListingPlan

variable {plan : ListingPlan β} {f : β → List UInt8} {n : Nat} {source : List UInt8}

theorem Fits.marks {l : Listing UInt8 β} (h : plan.Fits f n l) :
    ∃ l' : Listing UInt8 (Edited comma f), l'.map (·.orig) = l ∧ plan.Marks f n l' := by
  obtain ⟨l', hmap, hmarks⟩ := Listing.exists_map (g := fun e : Edited comma f => e.orig) (R := fun i m e =>
      e.cut = plan.cut i e.orig ∧ (plan.cut i e.orig = false → e.new = plan.new i e.orig ∧
        (plan.edits i).Perm ((Splice.changes m e.pieces).map .ofChange)) ∧
          (plan.cut i e.orig = true → e.new.2 = []))
    (l := l) (s := comma) (f := f) (n := n) fun i p hp => by
      cases hcut : plan.cut i p.2 with
      | true => exact ⟨.removed comma f p.2, rfl, hcut.symm, fun h => (by cases hcut.symm.trans h), fun _ => rfl⟩
      | false =>
        obtain ⟨ps, hold, hnew, hapart, hperm⟩ := h.node i p hp hcut
        exact ⟨⟨p.2, false, ps, plan.new i p.2, hold, hnew, hapart⟩, rfl, hcut.symm, fun _ => ⟨rfl, hperm⟩,
          fun h => (by cases hcut.symm.trans h)⟩
  exact ⟨l', hmap, fun i q hq => (hmarks i q hq).1, fun i q hq hcut => ((hmarks i q hq).2.1 hcut).1,
    fun i q hq => (hmarks i q hq).2.2, fun i q hq hcut => ((hmarks i q hq).2.1 hcut).2⟩

namespace Marks

variable {l : Listing UInt8 (Edited comma f)}

theorem place {i : Nat} {e : Edited comma f} (h : l.nodes[i]? = some e) :
    ∃ m, (l.places comma (f ∘ (·.orig)) n)[i]? = some (m, e) := by
  rw [← Listing.places_snd (s := comma) (f := f ∘ (·.orig)) (n := n), List.getElem?_map,
    Option.map_eq_some_iff] at h
  obtain ⟨q, hq, rfl⟩ := h
  exact ⟨q.1, hq⟩

theorem cut_node (h : plan.Marks f n l) {i : Nat} {e : Edited comma f} (he : l.nodes[i]? = some e) :
    e.cut = plan.cut i e.orig := by
  obtain ⟨m, hm⟩ := place (n := n) he
  exact h.cut i _ hm

theorem nodes (h : plan.Marks f n l) : (l.nodes.flatMap fun e => if e.cut then [] else e.nodes) =
    (l.map (·.orig)).nodes.zipIdx.flatMap fun p =>
      if plan.cut p.2 p.1 then [] else (plan.new p.2 p.1).1 :: (plan.new p.2 p.1).2.map (·.2) := by
  rw [Listing.nodes_map]
  refine flatMap_zipIdx fun i e he => ?_
  obtain ⟨m, hm⟩ := place (n := n) he
  rw [Nat.zero_add, h.cut i _ hm]
  cases hcut : plan.cut i e.orig with
  | true => rfl
  | false => rw [Edited.nodes, h.new i _ hm hcut]

theorem inner (h : plan.Marks f n l) (hfits : plan.Fits f n (l.map (·.orig))) :
    ((List.range l.nodes.length).flatMap plan.edits).Perm (((l.places comma (f ∘ (·.orig)) n).flatMap fun p =>
      if p.2.cut then [] else Splice.changes p.1 p.2.pieces).map .ofChange) := by
  rw [List.map_flatMap, ← Listing.places_length (s := comma) (f := f ∘ (·.orig)) (n := n)]
  refine (perm_flatMap_index fun i q hq => ?_).symm
  rw [h.cut i q hq]
  cases hcut : plan.cut i q.2.orig with
  | true =>
    have hnode : (l.map (·.orig)).nodes[i]? = some q.2.orig := by
      rw [Listing.nodes_map, ← Listing.places_snd (s := comma) (f := f ∘ (·.orig)) (n := n), List.getElem?_map,
        List.getElem?_map, hq]
      rfl
    rw [hfits.removed i _ hnode hcut]
    exact .refl _
  | false => exact (h.edits i q hq hcut).symm

theorem indices (h : plan.Marks f n l) (hfits : plan.Fits f n (l.map (·.orig))) :
    Layout.marks l.layout 0 = plan.indices := by
  have hmarked : l.layout.marked.map (·.1) = l.nodes.map (·.cut) := by
    rw [Listing.layout, Lib.Layout.marked_of, List.map_map]
    rfl
  rw [Layout.marks, hmarked, hfits.indices, List.range_eq_range', Listing.nodes_map, List.length_map,
    show l.nodes.length = (l.nodes.map (·.cut)).length from (List.length_map _).symm]
  refine findIdxs_index fun i b hb => ?_
  rw [List.getElem?_map, Option.map_eq_some_iff] at hb
  obtain ⟨e, he, rfl⟩ := hb
  rw [Nat.zero_add, List.getElem?_map, he, Option.map_some, Option.any_some]
  exact h.cut_node he

theorem atCuts (h : plan.Marks f n l) (hfits : plan.Fits f n (l.map (·.orig))) : l.layout.AtCuts Space := by
  refine Lib.Layout.atCuts_of _ (fun x hx hcut => ?_) fun y hy hcut => ?_
  · obtain ⟨i, hi, hget⟩ := List.getElem_of_mem hx
    have hitem : l.items[i]? = some x := by rw [List.getElem?_eq_getElem hi, hget]
    have hnode : l.nodes[i]? = some x.node := by rw [Listing.nodes, List.getElem?_map, hitem, Option.map_some]
    refine hfits.space i (x.map fun e : Edited comma f => e.orig) ?_ ((h.cut_node hnode).symm.trans hcut)
    rw [Listing.items_map, List.getElem?_map, hitem, Option.map_some]
  · have hlast : l.last = some y := Option.mem_toList.mp hy
    have hnode : l.nodes[l.heads.length]? = some y.node := by
      rw [Listing.nodes, Listing.items, hlast, List.getElem?_map]
      simp
    have hblank := hfits.blank
    rw [Listing.map, hlast, List.length_map] at hblank
    exact hblank _ rfl ((h.cut_node hnode).symm.trans hcut)

/-- Where a node comes behind the last one, that goes behind one that stays. -/
theorem endsCut (h : plan.Marks f n l) (hfits : plan.Fits f n (l.map (·.orig))) (hm : m ∈ plan.tail) :
    l.layout.endsCut = true := by
  obtain ⟨-, ⟨y', hlast, hcut⟩, i, b, hb, hkeep⟩ := hfits.tail m hm
  rw [Listing.map, List.length_map] at hcut
  obtain ⟨y, hy, rfl⟩ := Option.map_eq_some_iff.mp hlast
  have hitems : l.items = l.heads ++ [y] := by rw [Listing.items, hy, Option.toList_some]
  have hnode : ∀ j x, l.items[j]? = some x → x.node.cut = plan.cut j x.node.orig := fun j x hx => h.cut_node (by
    rw [Listing.nodes, List.getElem?_map, hx, Option.map_some])
  have hycut : y.node.cut = true := (hnode l.heads.length y (by rw [hitems]; simp)).trans hcut
  rw [Listing.nodes_map, Listing.nodes, List.map_map, List.getElem?_map, Option.map_eq_some_iff] at hb
  obtain ⟨x, hx, rfl⟩ := hb
  have hxcut : x.node.cut = false := (hnode i x hx).trans hkeep
  have hmem : x ∈ l.heads := by
    have hmem : x ∈ l.heads ++ [y] := hitems ▸ List.mem_of_getElem? hx
    rcases List.mem_append.mp hmem with hmem | hmem
    · exact hmem
    · rw [List.mem_singleton.mp hmem, hycut] at hxcut
      cases hxcut
  rw [Listing.layout, Lib.Layout.endsCut_of, hy, Option.any_some, hycut, Bool.true_and, List.any_eq_true]
  exact ⟨x, hmem, by rw [hxcut]; rfl⟩

theorem more (h : plan.Marks f n l) (hfits : plan.Fits f n (l.map (·.orig))) :
    ∀ e ∈ l.nodes, ∀ m ∈ e.new.2, IsTrivia m.1 := by
  intro e he m hm
  obtain ⟨i, hi, rfl⟩ := List.getElem_of_mem he
  obtain ⟨k, hk⟩ := place (n := n) (List.getElem?_eq_getElem hi)
  cases hcut : plan.cut i l.nodes[i].orig with
  | true =>
    rw [h.removed i _ hk hcut] at hm
    cases hm
  | false =>
    rw [h.new i _ hk hcut] at hm
    exact hfits.more i _ m hm

end Marks

end ListingPlan

/-- **A listing is rewritten** by the edits that its plan leads to. -/
theorem rewrites_listing {f : β → List UInt8} {l : Listing UInt8 β} {plan : ListingPlan β}
    {source before after : List UInt8} {b' b : UInt8} {elements : List Jsonc.Value}
    (hfits : plan.Fits f (before.length + 1) l)
    (hsource : source = before ++ b' :: (l.text comma f ++ b :: after)) (hb' : Stops b') (hb : Stops b)
    (htrivia : l.Every IsTrivia)
    (helements : elements.map (·.range) = (l.places comma f (before.length + 1)).map fun p =>
      ⟨p.1, p.1 + (f p.2).length⟩) :
    ∃ (ps : List (Lib.Piece UInt8)) (l' : Listing UInt8 β), Splice.old ps = l.text comma f ∧
      Splice.new ps = l'.text comma f ∧ Splice.Apart ps ∧ l'.Every IsTrivia ∧ l'.nodes = plan.nodes l.nodes ∧
      (plan.allEdits f elements source).Perm ((Splice.changes (before.length + 1) ps).map .ofChange) := by
  obtain ⟨l', rfl, hmarks⟩ := hfits.marks
  let tail : Option (List UInt8 × Edited comma f) := plan.tail.map fun m => (m.1, .same comma f m.2)
  have htail : ∀ m ∈ tail, ∃ m' ∈ plan.tail, m = (m'.1, .same comma f m'.2) := fun m hm => by
    obtain ⟨m', hm', rfl⟩ := Option.map_eq_some_iff.mp hm
    exact ⟨m', hm', rfl⟩
  have hlength : elements.length = l'.nodes.length := by
    have h := congrArg List.length helements
    rwa [List.length_map, List.length_map, Listing.places_length, Listing.nodes_map, List.length_map] at h
  have hplaces : l'.layout.places comma (·.pieces) (before.length + 1) =
      l'.places comma (f ∘ (·.orig)) (before.length + 1) := by
    rw [Listing.layout, Lib.Layout.places_of, Listing.nodeText_edited]
  have helements' : elements.map (·.range) = (l'.layout.places comma (·.pieces) (before.length + 1)).map fun p =>
      ⟨p.1, p.1 + (Lib.Layout.nodeText (fun e : Edited comma f => e.pieces) p.2).length⟩ := by
    rw [helements, hplaces, Listing.places_map, List.map_map, Listing.nodeText_edited]
    rfl
  refine ⟨l'.layout.pieces comma (·.pieces) tail, l'.rewritten tail, Listing.old_layout l', Listing.new_layout l',
    Listing.apart_layout l', ?_, ?_, ?_⟩
  · refine Listing.every_rewritten htrivia .nil (fun t t' => IsTrivia.append) (fun m hm => ?_) (hmarks.more hfits)
      fun m hm m' hm' => ?_
    · obtain ⟨m', hm', rfl⟩ := htail m hm
      exact (hfits.tail m' hm').1
    · obtain ⟨m'', -, rfl⟩ := htail m hm
      cases hm'
  · rw [Listing.nodes_rewritten, hmarks.nodes, ListingPlan.nodes]
    refine congrArg _ ?_
    cases hplan : plan.tail with
    | none => simp [tail, hplan]
    | some m => simp [tail, hplan, hmarks.endsCut hfits hplan, Edited.nodes, Edited.same]
  · have htext : source = (before ++ [b']) ++ l'.layout.text comma (·.pieces) ++ b :: after := by
      rw [hsource, Listing.layout, Lib.Layout.text_of, Listing.nodeText_edited, Listing.text_map]
      simp
    have hdelete := Layout.deleteRuns_cuts l'.layout htext hb (Lib.Layout.proper_of _ _ _ _)
      (hmarks.atCuts hfits) (fun _ _ _ _ => ⟨before, b', rfl, hb'⟩)
      (by rw [List.length_append, List.length_singleton]; exact helements')
    rw [hmarks.indices hfits, List.length_append, List.length_singleton] at hdelete
    have hinner := hmarks.inner hfits
    rw [← hlength] at hinner
    have hperm := (Listing.changes_layout tail l' (before.length + 1)).map Edit.ofChange
    rw [List.map_append, List.map_append] at hperm
    refine List.Perm.trans ?_ hperm.symm
    rw [ListingPlan.allEdits, hdelete, List.append_assoc]
    refine hinner.append (List.Perm.append_left _ (.of_eq ?_))
    cases hplan : plan.tail with
    | none => simp [tail, hplan, Lib.Layout.appendedAt]
    | some m =>
      obtain ⟨k, g, hget, hstop⟩ := Lib.Layout.cutStop_last (s := comma) (P := fun e : Edited comma f => e.pieces)
        (n := before.length + 1) (hmarks.endsCut hfits hplan)
      have hcount := congrArg List.length helements'
      rw [List.length_map, List.length_map] at hcount
      rw [List.getLast?_eq_getElem?, ← hcount] at hget
      rw [Option.toList_some, List.map_singleton, (Layout.elementStart_place helements' hget).2, hstop]
      simp [tail, hplan, Lib.Layout.appendedAt, Edit.ofChange, Edit.insert, Edited.same]

section

variable {f : β → List UInt8} {l : Listing UInt8 β} {plan : ListingPlan β} {source : List UInt8} {n : Nat} {o c : UInt8}
  {elements : List Jsonc.Value}

/-- The plan of an array or an object that stands in the source. -/
theorem rewrites_enclosed (ho : Stops o) (hc : Stops c) (hstands : Stands source n (o :: l.text comma f ++ [c]))
    (hfits : plan.Fits f (n + 1) l) (htrivia : l.Every IsTrivia)
    (helements : elements.map (·.range) = (l.places comma f (n + 1)).map fun p => ⟨p.1, p.1 + (f p.2).length⟩) :
    ∃ l' : Listing UInt8 β, l'.Every IsTrivia ∧ l'.nodes = plan.nodes l.nodes ∧
      Rewrites n (plan.allEdits f elements source) (o :: l.text comma f ++ [c]) (o :: l'.text comma f ++ [c]) := by
  obtain ⟨before, after, hsource, rfl⟩ := hstands
  have hsource' : source = before ++ o :: (l.text comma f ++ c :: after) := by
    rw [hsource]
    simp
  obtain ⟨ps, l', hold, hnew, hapart, htrivia', hnodes, hperm⟩ :=
    rewrites_listing hfits hsource' ho hc htrivia helements
  refine ⟨l', htrivia', hnodes, ?_⟩
  rw [← hold, ← hnew]
  exact rewrites_around [o] ps hapart (List.cons_ne_nil _ _) hperm

end

end CcReminder
