import CcReminder.Installer.Spec
import CcReminder.Installer.Surgery

/-!
# The handlers of a group

What the edits of `plan_event` make of the handlers of one matcher group: the owned ones go, and a new one comes
behind the last that stays, in the place of all of them when none stays, or as the first.
-/

set_option autoImplicit true

namespace CcReminder

open Lib
open Jsonc (IsTrivia)
open JsonText (Space)

/-! ## Lists -/

theorem flatMap_range_nil (n : Nat) : ((List.range n).flatMap fun _ => ([] : List α)) = [] :=
  List.flatMap_eq_nil_iff.mpr fun _ _ => rfl

theorem flatMap_zipIdx_filter (xs : List α) (p : α → Bool) :
    (xs.zipIdx.flatMap fun q => if p q.1 then [] else [q.1]) = xs.filter (!p ·) := by
  have h : (xs.flatMap fun x => if p x then [] else [x]) =
      ((xs.map id).zipIdx 0).flatMap fun q => if p q.1 then [] else [q.1] := flatMap_zipIdx fun _ _ _ => rfl
  rw [List.map_id] at h
  rw [← h]
  clear h
  induction xs with
  | nil => rfl
  | cons x xs ih => cases hp : p x <;> simp [hp, ih]

/-- The last element that is not of a kind. -/
theorem exists_last_not (xs : List α) (p : α → Bool) (h : ∃ x ∈ xs, p x = false) :
    ∃ ys x zs, xs = ys ++ x :: zs ∧ p x = false ∧ ∀ z ∈ zs, p z = true := by
  induction xs with
  | nil => simp at h
  | cons x xs ih =>
    by_cases hxs : ∃ x ∈ xs, p x = false
    · obtain ⟨ys, y, zs, rfl, hy, hzs⟩ := ih hxs
      exact ⟨x :: ys, y, zs, rfl, hy, hzs⟩
    · simp only [not_exists, not_and, Bool.not_eq_false] at hxs
      obtain ⟨y, hy, hpy⟩ := h
      rcases List.mem_cons.mp hy with rfl | hy
      · exact ⟨[], y, xs, rfl, hpy, hxs⟩
      · exact absurd hpy (by simp [hxs y hy])

theorem getLast?_filter_zipIdx {ys zs : List α} {x : α} {q : α × Nat → Bool} (hx : q (x, ys.length) = true)
    (hzs : ∀ p ∈ zs.zipIdx (ys.length + 1), q p = false) :
    ((ys ++ x :: zs).zipIdx.filter q).getLast? = some (x, ys.length) := by
  have hnil : (zs.zipIdx (ys.length + 1)).filter q = [] :=
    List.filter_eq_nil_iff.mpr fun p hp => by
      rw [hzs p hp]
      simp
  rw [List.zipIdx_append, Nat.zero_add, List.zipIdx_cons, List.filter_append, List.filter_cons_of_pos hx, hnil,
    List.getLast?_concat]

theorem flatMap_zipIdx_insert {ys zs : List α} {x new : α} {p : α → Bool} (hx : p x = false)
    (hzs : ∀ z ∈ zs, p z = true) : ((ys ++ x :: zs).zipIdx.flatMap fun q =>
      if p q.1 then [] else q.1 :: if q.2 = ys.length then [new] else []) =
        (ys ++ x :: zs).filter (!p ·) ++ [new] := by
  have hys : (ys.zipIdx.flatMap fun q => if p q.1 then [] else q.1 :: if q.2 = ys.length then [new] else []) =
      ys.filter (!p ·) := by
    rw [← flatMap_zipIdx_filter]
    refine List.flatMap_congr fun q hq => ?_
    have hlt := (List.getElem?_eq_some_iff.mp (List.mem_zipIdx_iff_getElem?.mp hq)).1
    rw [if_neg (Nat.ne_of_lt hlt)]
  have hnil : ((zs.zipIdx (ys.length + 1)).flatMap fun q =>
      if p q.1 then [] else q.1 :: if q.2 = ys.length then [new] else []) = [] := by
    refine List.flatMap_eq_nil_iff.mpr fun q hq => if_pos (hzs q.1 ?_)
    exact List.fst_mem_of_mem_zipIdx hq
  have hfilter : zs.filter (!p ·) = [] := List.filter_eq_nil_iff.mpr fun z hz => by
    rw [hzs z hz]
    simp
  rw [List.zipIdx_append, List.flatMap_append, hys, Nat.zero_add, List.zipIdx_cons, List.flatMap_cons, hnil,
    List.filter_append, List.filter_cons_of_pos (by rw [hx]; rfl), hfilter]
  simp [hx]

/-! ## Owned handlers -/

theorem handlerEvent_shift (agent : AgentKind) (k : Nat) (v : Jsonc.Value) :
    handlerEvent agent (v.shift k) = handlerEvent agent v := by
  have h : ∀ v : Jsonc.Value, handlerEvent agent v =
      (v.asObject.bind (·.getString "command")).bind (recognizeOwned agent) := fun v => by
    rw [handlerEvent]
    cases v.asObject with
    | none => rfl
    | some object => rfl
  rw [h, h, Jsonc.Value.getString_shift]

theorem arrayElements_range (n : Nat) (l : Listing UInt8 Raw) :
    (arrayElements n l).map (·.range) = (l.places comma Raw.text (n + 1)).map fun p =>
      ⟨p.1, p.1 + (Raw.text p.2).length⟩ := by
  rw [arrayElements, List.map_map]
  exact List.map_congr_left fun p _ => Raw.range_tree p.1 p.2

theorem arrayElements_length (n : Nat) (l : Listing UInt8 Raw) :
    (arrayElements n l).length = l.nodes.length := by
  rw [arrayElements, List.length_map, Listing.places_length]

theorem arrayElements_get {n i : Nat} {l : Listing UInt8 Raw} {v : Jsonc.Value}
    (h : (arrayElements n l)[i]? = some v) :
    ∃ m b, (l.places comma Raw.text (n + 1))[i]? = some (m, b) ∧ l.nodes[i]? = some b ∧
      v = b.tree m := by
  rw [arrayElements, List.getElem?_map, Option.map_eq_some_iff] at h
  obtain ⟨⟨m, b⟩, hp, rfl⟩ := h
  refine ⟨m, b, hp, ?_, rfl⟩
  rw [← Listing.places_snd (s := comma) (f := Raw.text) (n := n + 1), List.getElem?_map, hp, Option.map_some]

def isOwnedHandler (agent : AgentKind) (event : String) (handler : Raw) : Bool :=
  handlerEvent agent handler.value = some event

theorem ownedHandlerIndicesIn_eq (agent : AgentKind) (event : String) (n : Nat) (l : Listing UInt8 Raw) :
    ownedHandlerIndicesIn agent event (arraySyntax n l) =
      (List.range l.nodes.length).filter fun i => l.nodes[i]?.any (isOwnedHandler agent event) := by
  rw [ownedHandlerIndicesIn, ← arrayElements_length n l, List.range_eq_range']
  refine findIdxs_index fun i v hv => ?_
  obtain ⟨m, b, -, hb, rfl⟩ := arrayElements_get hv
  rw [Nat.zero_add, hb, Option.any_some, isOwnedHandler, Raw.tree]
  rw [handlerEvent_shift]

/-! ## Where there is only white space -/

/-- There is only white space around the nodes of a kind. -/
structure SpaceAround (p : β → Bool) (l : Listing UInt8 β) : Prop where
  item : ∀ x ∈ l.items, p x.node = true → Space x.lead ∧ Space x.trail
  blank : ∀ y ∈ l.last, p y.node = true → Space l.blank

/-! ## The edits of the handlers -/

/-- The edits of a group that stays, with the new handler that it takes. -/
def handlersEdits (handlers : Jsonc.Array) (owned : List Nat) (source : List UInt8) : Option (List UInt8) → List Edit
  | none => deleteRuns handlers.elements owned source
  | some text =>
    if allOwned (some handlers) owned then
      [.replace (elementStart handlers.elements (owned.head?.getD 0))
        (elementStop handlers.elements (owned.getLast?.getD 0)) text]
    else deleteRuns handlers.elements owned source ++ [placeHandlerInGroup handlers owned source text]

/-- A new line with the white space of another. -/
def indentation (source : List UInt8) (indentAt : Nat) : List UInt8 :=
  detectNewline source ++ lineIndent source indentAt

theorem appendText_eq (source : List UInt8) (indentAt : Nat) (text : List UInt8) :
    appendText source indentAt text = comma :: indentation source indentAt ++ text := by
  simp [appendText, indentation]

theorem isTrivia_indentation (source : List UInt8) (indentAt : Nat) : IsTrivia (indentation source indentAt) := by
  refine .of_space fun b hb => ?_
  rcases List.mem_append.mp hb with hb | hb
  · have hnewline : detectNewline source = [13, 10] ∨ detectNewline source = [10] := by
      unfold detectNewline
      split
      · split
        · exact .inl rfl
        · exact .inr rfl
      · exact .inr rfl
    rcases hnewline with h | h
    · rw [h] at hb
      rcases List.mem_cons.mp hb with rfl | hb
      · rfl
      · rw [List.mem_singleton.mp hb]
        rfl
    · rw [h] at hb
      rw [List.mem_singleton.mp hb]
      rfl
  · have hblank := List.all_eq_true.mp List.all_takeWhile b hb
    simp only [isBlank, decide_eq_true_eq] at hblank
    simp only [JsonText.isSpace, decide_eq_true_eq]
    tauto

theorem Rewrites.perm {edits edits' : List Edit} (h : Rewrites n edits text text') (hperm : edits'.Perm edits) :
    Rewrites n edits' text text' := by
  obtain ⟨ps, hold, hnew, hapart, hends, hps⟩ := h
  exact ⟨ps, hold, hnew, hapart, hends, hperm.trans hps⟩

section

variable {agent : AgentKind} {event : String} {source : List UInt8} {n : Nat} {l : Listing UInt8 Raw}

/-- The owned handlers go, and one may come behind the handler at an index. -/
def handlersPlan (agent : AgentKind) (event : String) (indices : List Nat) (place : Option (Nat × Edit))
    (more : List (List UInt8 × Raw)) : ListingPlan Raw where
  cut _ b := isOwnedHandler agent event b
  indices := indices
  edits i := if place.map (·.1) = some i then place.toList.map (·.2) else []
  new i b := (b, if place.map (·.1) = some i then more else [])
  tail := none

theorem handlersPlan_fits (hspace : SpaceAround (isOwnedHandler agent event) l) {place : Option (Nat × Edit)}
    {more : List (List UInt8 × Raw)} (hmore : ∀ m ∈ more, IsTrivia m.1)
    (hplace : ∀ p ∈ place, ∃ m b, (l.places comma Raw.text (n + 1))[p.1]? = some (m, b) ∧
      isOwnedHandler agent event b = false ∧ p.2 = .insert (m + (Raw.text b).length)
        (more.flatMap fun m => comma :: m.1 ++ Raw.text m.2)) :
    (handlersPlan agent event (ownedHandlerIndicesIn agent event (arraySyntax n l)) place more).Fits
      Raw.text (n + 1) l where
  indices := ownedHandlerIndicesIn_eq agent event n l
  removed i b hb hcut := by
    refine if_neg fun hi => ?_
    obtain ⟨p, hp, rfl⟩ := Option.map_eq_some_iff.mp hi
    obtain ⟨m, b', hget, hkeep, -⟩ := hplace p hp
    rw [← Listing.places_snd (s := comma) (f := Raw.text) (n := n + 1), List.getElem?_map, hget] at hb
    cases hb
    exact absurd (hkeep.symm.trans hcut) (by simp)
  node i q hq hcut := by
    by_cases hi : place.map (·.1) = some i
    · obtain ⟨p, hp, rfl⟩ := Option.map_eq_some_iff.mp hi
      obtain ⟨m, b, hget, -, hedit⟩ := hplace p hp
      rw [hq] at hget
      cases hget
      have h := (rewrites_same m (Raw.text b)).node_insert (f := Raw.text) more
      simp only [handlersPlan, hi, if_true]
      rw [show place = some p from hp, Option.toList_some, List.map_singleton, hedit]
      exact h
    · simp only [handlersPlan, hi, if_false]
      exact (rewrites_same q.1 (Raw.text q.2)).node (f := Raw.text)
  more i b m hm := by
    simp only [handlersPlan] at hm
    split at hm
    · exact hmore m hm
    · cases hm
  space i x hx hcut := hspace.item x (List.mem_of_getElem? hx) hcut
  blank y hy hcut := hspace.blank y hy hcut
  tail m hm := (by cases hm)

theorem rewrites_array {plan : ListingPlan Raw} (hstands : Stands source n (arrayText l))
    (hfits : plan.Fits Raw.text (n + 1) l) (htrivia : l.Every IsTrivia) :
    ∃ l' : Listing UInt8 Raw, l'.Every IsTrivia ∧ l'.nodes = plan.nodes l.nodes ∧
      Rewrites n (plan.allEdits Raw.text (arrayElements n l) source) (arrayText l) (arrayText l') :=
  rewrites_enclosed (o := 91) (c := 93) ⟨rfl, by decide⟩ ⟨rfl, by decide⟩ hstands hfits htrivia
    (arrayElements_range n l)

/-- The owned handlers are deleted. -/
theorem rewrites_deleteHandlers (hstands : Stands source n (arrayText l)) (htrivia : l.Every IsTrivia)
    (hspace : SpaceAround (isOwnedHandler agent event) l) : ∃ l' : Listing UInt8 Raw, l'.Every IsTrivia ∧
      l'.nodes = l.nodes.filter (!isOwnedHandler agent event ·) ∧
      Rewrites n (deleteRuns (arrayElements n l) (ownedHandlerIndicesIn agent event (arraySyntax n l)) source)
        (arrayText l) (arrayText l') := by
  have hfits : (handlersPlan agent event (ownedHandlerIndicesIn agent event (arraySyntax n l)) none []).Fits
      Raw.text (n + 1) l := handlersPlan_fits hspace (by simp) (by simp)
  obtain ⟨l', htrivia', hnodes, hrewrites⟩ := rewrites_array hstands hfits htrivia
  refine ⟨l', htrivia', ?_, hrewrites.perm (.of_eq ?_)⟩
  · rw [hnodes, ListingPlan.nodes, ← flatMap_zipIdx_filter]
    simp [handlersPlan]
  · simp only [ListingPlan.allEdits, handlersPlan, Option.map_none, reduceCtorEq, if_false, flatMap_range_nil,
      Option.toList_none, List.map_nil, List.append_nil, List.nil_append]

theorem mem_ownedHandlerIndicesIn {i : Nat} {b : Raw} (hb : l.nodes[i]? = some b) :
    i ∈ ownedHandlerIndicesIn agent event (arraySyntax n l) ↔ isOwnedHandler agent event b = true := by
  have hlt := (List.getElem?_eq_some_iff.mp hb).1
  rw [ownedHandlerIndicesIn_eq, List.mem_filter, hb, Option.any_some, List.mem_range]
  exact and_iff_right hlt

/-- The place of the new handler behind the last one that stays. -/
theorem placeHandlerInGroup_last (source : List UInt8) (n : Nat) {ys zs : List Raw} {x : Raw}
    (hnodes : l.nodes = ys ++ x :: zs) (hx : isOwnedHandler agent event x = false) (hzs : ∀ z ∈ zs, isOwnedHandler agent event z = true) :
    ∃ m, (l.places comma Raw.text (n + 1))[ys.length]? = some (m, x) ∧ ∀ text,
      placeHandlerInGroup (arraySyntax n l) (ownedHandlerIndicesIn agent event (arraySyntax n l)) source text =
        .insert (m + x.text.length) (comma :: indentation source (elementStart (arrayElements n l) 0) ++ text) := by
  have hnode : ∀ (i : Nat) (b : Raw), (ys ++ x :: zs)[i]? = some b → l.nodes[i]? = some b :=
    fun i b hb => hnodes ▸ hb
  have hget : l.nodes[ys.length]? = some x := hnode _ _ (by simp)
  have hplaces : ((l.places comma Raw.text (n + 1)).map (·.2))[ys.length]? = some x := by
    rw [Listing.places_snd]
    exact hget
  rw [List.getElem?_map, Option.map_eq_some_iff] at hplaces
  obtain ⟨⟨m, b⟩, hplace, rfl⟩ := hplaces
  refine ⟨m, hplace, fun text => ?_⟩
  have helement : (arrayElements n l)[ys.length]? = some (Raw.tree m b) := by
    rw [arrayElements, List.getElem?_map, hplace, Option.map_some]
  obtain ⟨hlt, helement⟩ := List.getElem?_eq_some_iff.mp helement
  have hsplit : arrayElements n l = (arrayElements n l).take ys.length ++ Raw.tree m b ::
      (arrayElements n l).drop (ys.length + 1) := by
    rw [← helement, ← List.drop_eq_getElem_cons, List.take_append_drop]
  have htake : ((arrayElements n l).take ys.length).length = ys.length := by
    rw [List.length_take]
    exact Nat.min_eq_left (Nat.le_of_lt hlt)
  have hlast : (((arrayElements n l).take ys.length ++ Raw.tree m b ::
      (arrayElements n l).drop (ys.length + 1)).zipIdx.filter fun e => !(ownedHandlerIndicesIn agent event (arraySyntax n l)).contains e.2).getLast? =
        some (Raw.tree m b, ((arrayElements n l).take ys.length).length) := by
    refine getLast?_filter_zipIdx ?_ fun p hp => ?_
    · rw [htake, Bool.not_eq_true', List.contains_eq_mem, decide_eq_false_iff_not, mem_ownedHandlerIndicesIn hget, hx]
      simp
    · obtain ⟨hle, hp⟩ := List.mem_zipIdx_iff_le_and_getElem?_sub.mp hp
      rw [htake] at hle hp
      rw [List.getElem?_drop, Nat.add_sub_cancel' hle] at hp
      obtain ⟨-, b', -, hb', -⟩ := arrayElements_get hp
      have hz : b' ∈ zs := by
        rw [hnodes, List.getElem?_append_right (by omega), show p.2 - ys.length = p.2 - ys.length - 1 + 1 by omega,
          List.getElem?_cons_succ] at hb'
        exact List.mem_of_getElem? hb'
      rw [Bool.not_eq_false', List.contains_eq_mem, decide_eq_true_iff, mem_ownedHandlerIndicesIn hb']
      exact hzs b' hz
  rw [← hsplit, htake] at hlast
  rw [placeHandlerInGroup, show (arraySyntax n l).elements = arrayElements n l from rfl, hlast]
  dsimp only
  rw [Raw.range_tree, appendText_eq]

theorem rewrites_insertHandler (hstands : Stands source n (arrayText l)) (htrivia : l.Every IsTrivia)
    (hspace : SpaceAround (isOwnedHandler agent event) l) (new : Raw)
    (hkeep : ∃ b ∈ l.nodes, isOwnedHandler agent event b = false) :
    ∃ l' : Listing UInt8 Raw, l'.Every IsTrivia ∧
      l'.nodes = l.nodes.filter (!isOwnedHandler agent event ·) ++ [new] ∧
      Rewrites n (deleteRuns (arrayElements n l) (ownedHandlerIndicesIn agent event (arraySyntax n l)) source ++
        [placeHandlerInGroup (arraySyntax n l) (ownedHandlerIndicesIn agent event (arraySyntax n l)) source new.text])
          (arrayText l) (arrayText l') := by
  obtain ⟨ys, x, zs, hnodes, hx, hzs⟩ := exists_last_not l.nodes _ hkeep
  obtain ⟨m, hplace, hedit⟩ := placeHandlerInGroup_last source n hnodes hx hzs
  have hlt : ys.length < (arrayElements n l).length := by
    rw [arrayElements_length, hnodes, List.length_append, List.length_cons]
    omega
  let lead := indentation source (elementStart (arrayElements n l) 0)
  let edit := placeHandlerInGroup (arraySyntax n l)
    (ownedHandlerIndicesIn agent event (arraySyntax n l)) source new.text
  have hfits : (handlersPlan agent event (ownedHandlerIndicesIn agent event (arraySyntax n l))
      (some (ys.length, edit)) [(lead, new)]).Fits Raw.text (n + 1) l := by
    refine handlersPlan_fits hspace (fun q hq => ?_) fun p hp => ?_
    · rw [List.mem_singleton.mp hq]
      exact isTrivia_indentation _ _
    · cases hp
      exact ⟨m, x, hplace, hx, by simp [edit, hedit, lead]⟩
  obtain ⟨l', htrivia', hnodes', hrewrites⟩ := rewrites_array hstands hfits htrivia
  refine ⟨l', htrivia', ?_, hrewrites.perm ?_⟩
  · rw [hnodes', ListingPlan.nodes, hnodes, ← flatMap_zipIdx_insert hx hzs]
    simp only [handlersPlan, Option.map_some, Option.toList_none, List.map_nil, List.append_nil]
    refine List.flatMap_congr fun q _ => ?_
    by_cases hq : q.2 = ys.length
    · rw [if_pos hq, if_pos (congrArg some hq.symm)]
      rfl
    · rw [if_neg hq, if_neg fun h => hq (Option.some.inj h).symm]
      rfl
  · have hadd := perm_flatMap_add hlt (fun _ => ([] : List Edit)) [edit]
    rw [flatMap_range_nil] at hadd
    refine List.perm_append_comm.trans ?_
    simp only [ListingPlan.allEdits, handlersPlan, Option.map_some, Option.toList_some, Option.toList_none,
      List.map_nil, List.append_nil, List.map_singleton]
    refine List.Perm.append_right _ (hadd.symm.trans (.of_eq (List.flatMap_congr fun i _ => ?_)))
    by_cases hi : i = ys.length
    · rw [if_pos hi, if_pos (congrArg some hi.symm)]
      rfl
    · rw [if_neg hi, if_neg fun h => hi (Option.some.inj h).symm]

/-- Where all handlers are owned, the new one replaces them all. -/
theorem rewrites_replaceHandlers (htrivia : l.Every IsTrivia) (new : Raw) (hne : l.nodes ≠ [])
    (hall : ∀ b ∈ l.nodes, isOwnedHandler agent event b = true) :
    ∃ l' : Listing UInt8 Raw, l'.Every IsTrivia ∧ l'.nodes = [new] ∧
      Rewrites n [.replace (elementStart (arrayElements n l)
          ((ownedHandlerIndicesIn agent event (arraySyntax n l)).head?.getD 0)) (elementStop (arrayElements n l)
            ((ownedHandlerIndicesIn agent event (arraySyntax n l)).getLast?.getD 0)) new.text]
          (arrayText l) (arrayText l') := by
  obtain ⟨lead, middle, rest, htext, ⟨b, hfirst⟩, ⟨p, hlast, hstop⟩, hnew⟩ :=
    Listing.text_middle (s := comma) (f := Raw.text) hne (n + 1)
  obtain ⟨l', htext', hnodes', htrivia'⟩ := hnew new
  have howned : ownedHandlerIndicesIn agent event (arraySyntax n l) = List.range l.nodes.length := by
    rw [ownedHandlerIndicesIn_eq, List.filter_eq_self]
    intro i hi
    rw [List.getElem?_eq_getElem (List.mem_range.mp hi), Option.any_some]
    exact hall _ (List.getElem_mem _)
  have hpos : 0 < l.nodes.length := List.length_pos_iff.mpr hne
  have hhead : (List.range l.nodes.length).head?.getD 0 = 0 := by
    rw [List.head?_range, if_neg (Nat.ne_of_gt hpos)]
    rfl
  have htail : (List.range l.nodes.length).getLast?.getD 0 = l.nodes.length - 1 := by
    rw [List.getLast?_range, if_neg (Nat.ne_of_gt hpos)]
    rfl
  rw [List.getLast?_eq_getElem?, Listing.places_length] at hlast
  have helements := arrayElements_range n l
  refine ⟨l', htrivia' _ htrivia, hnodes', ?_⟩
  rw [howned, hhead, htail, (Layout.elementStart_place helements hfirst).1,
    (Layout.elementStart_place helements hlast).2, hstop]
  have hchange : [Edit.replace (n + 1 + lead.length) (n + 1 + lead.length + middle.length) new.text] =
      (Splice.changes (n + (91 :: lead).length) [.change middle new.text]).map .ofChange := by
    have hlength : n + 1 + lead.length = n + (91 :: lead).length := by
      rw [List.length_cons]
      omega
    rw [hlength]
    rfl
  have h := rewrites_around (91 :: lead) [.change middle new.text] Splice.apart_single
    (List.append_ne_nil_of_right_ne_nil rest (List.cons_ne_nil 93 [])) (.of_eq hchange)
  simpa [arrayText, htext, htext'] using h

/-- Where there is no handler, the new one is the first. -/
theorem rewrites_firstHandler (htrivia : l.Every IsTrivia) (new : Raw) (hnil : l.nodes = []) :
    ∃ l' : Listing UInt8 Raw, l'.Every IsTrivia ∧ l'.nodes = [new] ∧
      Rewrites n (deleteRuns (arrayElements n l) (ownedHandlerIndicesIn agent event (arraySyntax n l)) source ++
        [placeHandlerInGroup (arraySyntax n l) (ownedHandlerIndicesIn agent event (arraySyntax n l)) source new.text])
          (arrayText l) (arrayText l') := by
  have helements : arrayElements n l = [] := List.length_eq_zero_iff.mp (by rw [arrayElements_length, hnil]; rfl)
  have howned : ownedHandlerIndicesIn agent event (arraySyntax n l) = [] := by
    rw [ownedHandlerIndicesIn_eq, hnil]
    rfl
  have hedit : placeHandlerInGroup (arraySyntax n l) [] source new.text = .insert (n + 1) new.text := by
    rw [placeHandlerInGroup, show (arraySyntax n l).elements = [] from helements]
    rfl
  have hblank : l.text comma Raw.text = l.blank := by
    obtain ⟨heads, last, blank⟩ := l
    rw [Listing.nodes, List.map_eq_nil_iff, Listing.items, List.append_eq_nil_iff] at hnil
    rw [Listing.text, show heads = [] from hnil.1, show last = none from Option.toList_eq_nil_iff.mp hnil.2]
    rfl
  refine ⟨⟨[], some ⟨[], new, []⟩, l.blank⟩, ⟨fun x hx => ?_, htrivia.blank⟩, rfl, ?_⟩
  · rw [List.mem_singleton.mp hx]
    exact ⟨.nil, .nil⟩
  · have hchange : [Edit.insert (n + 1) new.text] =
        (Splice.changes (n + [(91 : UInt8)].length) [.change [] new.text]).map .ofChange := rfl
    have h := rewrites_around [(91 : UInt8)] [.change [] new.text] Splice.apart_single
      (List.append_ne_nil_of_right_ne_nil l.blank (List.cons_ne_nil 93 [])) (.of_eq hchange)
    have htext : (⟨[], some ⟨[], new, []⟩, l.blank⟩ : Listing UInt8 Raw).text comma Raw.text =
        new.text ++ l.blank := by
      simp [Listing.text, Item.text]
    rw [howned, hedit, helements, arrayText, arrayText, hblank, htext]
    simpa [deleteRuns, indexRuns] using h

theorem allOwned_iff :
    allOwned (some (arraySyntax n l)) (ownedHandlerIndicesIn agent event (arraySyntax n l)) = true ↔
      l.nodes ≠ [] ∧ ∀ b ∈ l.nodes, isOwnedHandler agent event b = true := by
  have hlength : (arraySyntax n l).elements.length = (List.range l.nodes.length).length := by
    rw [List.length_range]
    exact arrayElements_length n l
  rw [allOwned, decide_eq_true_iff, Option.any_some, decide_eq_true_iff, hlength, ownedHandlerIndicesIn_eq, eq_comm,
    List.length_filter_eq_length_iff]
  constructor
  · rintro ⟨hne, hall⟩
    refine ⟨fun hnil => hne (by rw [hnil]; rfl), fun b hb => ?_⟩
    obtain ⟨i, hi⟩ := List.getElem?_of_mem hb
    have h := hall i (List.mem_range.mpr (List.getElem?_eq_some_iff.mp hi).1)
    rwa [hi] at h
  · rintro ⟨hne, hall⟩
    have howned : ∀ i ∈ List.range l.nodes.length, l.nodes[i]?.any (isOwnedHandler agent event) = true :=
      fun i hi => by
        rw [List.getElem?_eq_getElem (List.mem_range.mp hi), Option.any_some]
        exact hall _ (List.getElem_mem _)
    refine ⟨fun hnil => ?_, howned⟩
    rw [List.filter_eq_self.mpr howned, List.range_eq_nil] at hnil
    exact hne (List.length_eq_zero_iff.mp hnil)

/-- The handlers that a group has then. -/
def patchHandlers (agent : AgentKind) (event : String) (new : Option Raw) (handlers : List Raw) : List Raw :=
  handlers.filter (!isOwnedHandler agent event ·) ++ new.toList

/-- **The handlers of one group.** -/
theorem rewrites_handlers (hstands : Stands source n (arrayText l)) (htrivia : l.Every IsTrivia)
    (hspace : SpaceAround (isOwnedHandler agent event) l) (new : Option Raw) : ∃ l' : Listing UInt8 Raw,
      l'.Every IsTrivia ∧ l'.nodes = patchHandlers agent event new l.nodes ∧
      Rewrites n (handlersEdits (arraySyntax n l) (ownedHandlerIndicesIn agent event (arraySyntax n l)) source
        (new.map (·.text))) (arrayText l) (arrayText l') := by
  cases new with
  | none =>
    obtain ⟨l', htrivia', hnodes, hrewrites⟩ := rewrites_deleteHandlers hstands htrivia hspace
    exact ⟨l', htrivia', by rw [hnodes, patchHandlers, Option.toList_none, List.append_nil], hrewrites⟩
  | some new =>
    rw [Option.map_some, handlersEdits]
    by_cases hall : ∀ b ∈ l.nodes, isOwnedHandler agent event b = true
    · have hfilter : l.nodes.filter (!isOwnedHandler agent event ·) = [] := List.filter_eq_nil_iff.mpr fun b hb => by
        rw [hall b hb]
        simp
      rw [patchHandlers, hfilter, List.nil_append, Option.toList_some]
      by_cases hnil : l.nodes = []
      · rw [if_neg fun h => (allOwned_iff.mp h).1 hnil]
        exact rewrites_firstHandler htrivia new hnil
      · rw [if_pos (allOwned_iff.mpr ⟨hnil, hall⟩)]
        exact rewrites_replaceHandlers htrivia new hnil hall
    · rw [if_neg fun h => hall (allOwned_iff.mp h).2]
      refine rewrites_insertHandler hstands htrivia hspace new ?_
      by_contra hnone
      exact hall fun b hb => by_contra fun hb' => hnone ⟨b, hb, Bool.eq_false_iff.mpr hb'⟩

end

theorem Rewrites.applied {before after text text' : List UInt8} {edits : List Edit}
    (h : Rewrites before.length edits text text') :
    applyEdits (before ++ text ++ after) edits = .ok (before ++ text' ++ after) := by
  obtain ⟨ps, rfl, rfl, hapart, -, hperm⟩ := h
  exact applyEdits_pieces hapart hperm

/-! ## One group of an event -/

/-- The edits of `plan_event` within one group: of its owned handlers, and of the one that it gets. -/
def PatchServices.groupEdits (sv : PatchServices) (agent : AgentKind) (event : String) (array : Jsonc.Array)
    (desired : Option OwnedHookEntry) (source : List UInt8) (index : Nat) : List Edit :=
  let plan := eventPlan agent event array desired
  plan.handlerEdits source index ++
    (match desired with
      | some entry => if plan.target = some index then sv.placement agent array plan source entry else []
      | none => [])

section

variable {agent : AgentKind} {event : String} {array : Jsonc.Array} {desired : Option OwnedHookEntry} {index : Nat}
  {group : Jsonc.Value} {handlers : Jsonc.Array}

theorem eventPlan_at (agent : AgentKind) (event : String) (desired : Option OwnedHookEntry)
    (hgroup : array.elements[index]? = some group) (hhandlers : groupHandlers group = some handlers) :
    (eventPlan agent event array desired).handlersAt index = some handlers ∧
      (eventPlan agent event array desired).ownedAt index = ownedHandlerIndicesIn agent event handlers := by
  unfold EventPlan.handlersAt EventPlan.ownedAt eventPlan
  simp [hgroup, hhandlers]

theorem desired_of_target (htarget : (eventPlan agent event array desired).target = some index) :
    ∃ entry, desired = some entry := by
  cases desired with
  | none => cases htarget
  | some entry => exact ⟨entry, rfl⟩

/-- A group that stays has the edits of its handlers. -/
theorem groupEdits_eq (sv : PatchServices) (source : List UInt8) (hgroup : array.elements[index]? = some group)
    (hhandlers : groupHandlers group = some handlers)
    (hstays : index ∉ (eventPlan agent event array desired).cleanup) :
    sv.groupEdits agent event array desired source index =
      handlersEdits handlers (ownedHandlerIndicesIn agent event handlers) source
        (if (eventPlan agent event array desired).target = some index then
          desired.map (sv.serialiseOwnedHandler agent) else none) := by
  obtain ⟨hat, howned⟩ := eventPlan_at agent event desired hgroup hhandlers
  have hnil : deleteRuns handlers.elements [] source = [] := rfl
  unfold PatchServices.groupEdits EventPlan.handlerEdits
  dsimp only
  rw [hat, howned]
  by_cases htarget : (eventPlan agent event array desired).target = some index
  · obtain ⟨entry, hentry⟩ := desired_of_target htarget
    have hall : (eventPlan agent event array desired).targetAllOwned =
        allOwned (some handlers) (ownedHandlerIndicesIn agent event handlers) := by
      rw [EventPlan.targetAllOwned, htarget, Option.any_some, hat, howned]
    subst hentry
    simp only [PatchServices.placement, htarget, hall, hat, howned, if_true, Option.map_some, handlersEdits]
    by_cases hallOwned : allOwned (some handlers) (ownedHandlerIndicesIn agent event handlers) = true
    · rw [if_pos (.inr (.inr ⟨hallOwned, trivial⟩)), if_pos hallOwned, if_pos hallOwned, List.nil_append]
    · rw [if_neg hallOwned, if_neg hallOwned]
      by_cases hempty : ownedHandlerIndicesIn agent event handlers = []
      · rw [if_pos (.inl hempty), hempty, hnil]
      · rw [if_neg]
        rintro (h | h | h)
        · exact hempty h
        · exact hstays h
        · exact hallOwned h.1
  · have hplacement : (match desired with
        | some entry => if (eventPlan agent event array desired).target = some index then
            sv.placement agent array (eventPlan agent event array desired) source entry else []
        | none => []) = [] := by
      cases desired with
      | none => rfl
      | some entry => exact if_neg htarget
    rw [if_neg htarget, handlersEdits]
    refine (congrArg _ hplacement).trans ?_
    rw [List.append_nil]
    by_cases hempty : ownedHandlerIndicesIn agent event handlers = []
    · rw [if_pos (.inl hempty), hempty, hnil]
    · rw [if_neg]
      rintro (h | h | h)
      · exact hempty h
      · exact hstays h
      · exact htarget h.2

/-- Where no other group has an owned handler, the edits of the event are those of the group. -/
theorem planEvent_eq (sv : PatchServices) (source : List UInt8) (hgroup : array.elements[index]? = some group)
    (hothers : ∀ j, j ≠ index → (eventPlan agent event array desired).ownedAt j = [])
    (hstays : index ∉ (eventPlan agent event array desired).cleanup)
    (hplace : ∀ entry ∈ desired, (eventPlan agent event array desired).target = some index) :
    sv.planEvent agent event array desired source = sv.groupEdits agent event array desired source index := by
  have hcleanup : (eventPlan agent event array desired).cleanup = [] :=
    List.eq_nil_iff_forall_not_mem.mpr fun j hj => by
      by_cases hji : j = index
      · exact hstays (hji ▸ hj)
      · have h := (List.mem_filter.mp hj).2
        rw [decide_eq_true_iff] at h
        have howned := hothers j hji
        rw [EventPlan.ownedAt] at howned
        rw [allOwned, decide_eq_true_iff] at h
        exact h.1.1 howned
  have hnil : deleteRuns array.elements [] source = [] := rfl
  have hhandlers : (List.range array.elements.length).flatMap
      ((eventPlan agent event array desired).handlerEdits source) =
        (eventPlan agent event array desired).handlerEdits source index :=
    flatMap_range_single (List.getElem?_eq_some_iff.mp hgroup).1 fun j hj => if_pos (.inl (hothers j hj))
  unfold PatchServices.planEvent PatchServices.groupEdits
  dsimp only
  rw [hhandlers, hcleanup, hnil, List.append_nil]
  cases desired with
  | none => rfl
  | some entry =>
    dsimp only
    rw [if_pos (hplace entry rfl)]

/-- **Patching the handlers of an event.** Where the owned handlers of an event are in one group, which stays and
which the desired handler goes to, whatever white space and comments stand between its handlers, and with a
trailing comma or without: the edits that are planned for the event can be applied, the text before and behind the
handlers is kept byte for byte, each handler of another owner stays in its place with its text, the owned ones
are gone, and the desired one is the last. There may be nothing but white space around the owned handlers. -/
theorem handlers_patched (sv : PatchServices) (before after : List UInt8) {l : Listing UInt8 Raw}
    (hgroup : array.elements[index]? = some group)
    (hhandlers : groupHandlers group = some (arraySyntax before.length l)) (htrivia : l.Every IsTrivia)
    (hspace : SpaceAround (isOwnedHandler agent event) l)
    (hothers : ∀ j, j ≠ index → (eventPlan agent event array desired).ownedAt j = [])
    (hstays : index ∉ (eventPlan agent event array desired).cleanup)
    (hplace : ∀ entry ∈ desired, (eventPlan agent event array desired).target = some index) :
    ∃ l' : Listing UInt8 (List UInt8), l'.Every IsTrivia ∧
      l'.nodes = (l.nodes.filter (!isOwnedHandler agent event ·)).map (·.text) ++
        desired.toList.map (sv.serialiseOwnedHandler agent) ∧
      applyEdits (before ++ arrayText l ++ after)
          (sv.planEvent agent event array desired (before ++ arrayText l ++ after)) =
        .ok (before ++ (91 :: l'.text comma id ++ [93]) ++ after) := by
  -- the tree of the new handler does not matter any more
  let new : Option Raw := desired.map fun entry =>
    ⟨sv.serialiseOwnedHandler agent entry, .nullKeyword ⟨0, _⟩, rfl⟩
  have hnew : new.map (·.text) = desired.map (sv.serialiseOwnedHandler agent) := by
    rw [Option.map_map]
    rfl
  have htarget : (if (eventPlan agent event array desired).target = some index then
      desired.map (sv.serialiseOwnedHandler agent) else none) = desired.map (sv.serialiseOwnedHandler agent) := by
    cases desired with
    | none => exact ite_self _
    | some entry => exact if_pos (hplace entry rfl)
  have hstands : Stands (before ++ arrayText l ++ after) before.length (arrayText l) := ⟨before, after, rfl, rfl⟩
  obtain ⟨l', htrivia', hnodes, hrewrites⟩ := rewrites_handlers hstands htrivia hspace new
  rw [hnew, ← htarget, ← groupEdits_eq sv _ hgroup hhandlers hstays,
    ← planEvent_eq sv _ hgroup hothers hstays hplace] at hrewrites
  refine ⟨l'.map (·.text), htrivia'.map, ?_, ?_⟩
  · have htexts : new.toList.map (·.text) = desired.toList.map (sv.serialiseOwnedHandler agent) := by
      rw [← Option.toList_map, hnew, Option.toList_map]
    rw [Listing.nodes_map, hnodes, patchHandlers, List.map_append, htexts]
  · rw [Listing.text_map]
    exact hrewrites.applied

end

namespace Sample

/-- A handler of another owner, with a comment before it. -/
def foreignHandler : Raw := ⟨[49], .numberLit ⟨0, 1⟩ "1", rfl⟩

def ownedHandler : Raw where
  text := handlerText
  value := .object ⟨0, handlerText.length⟩ [
    (⟨0, 0⟩, "command", .stringLit ⟨0, 0⟩ hook.command), (⟨0, 0⟩, "type", .stringLit ⟨0, 0⟩ "command")]
  range_eq := rfl

def handlerListing : Listing UInt8 Raw where
  heads := [⟨utf8Bytes " /*kept*/ ", foreignHandler, []⟩]
  last := some ⟨[32], ownedHandler, []⟩
  blank := [32]

def stopGroup : Jsonc.Value := .object ⟨0, 0⟩ [
  (⟨0, 0⟩, "matcher", .stringLit ⟨0, 0⟩ ""),
  (⟨0, 0⟩, "hooks", .array (arraySyntax configHead.dropLast.length handlerListing).range
    (arraySyntax configHead.dropLast.length handlerListing).elements)]

def stopArray : Jsonc.Array := ⟨⟨0, 0⟩, [stopGroup]⟩

theorem handlerListing_trivia : handlerListing.Every IsTrivia where
  items x hx := by
    rcases List.mem_cons.mp hx with rfl | hx
    · have hbody : ¬ [42, 47] <:+: utf8Bytes "kept" ++ [42] := by decide +kernel
      exact ⟨.space rfl (.block hbody (.space rfl .nil)), .nil⟩
    · rw [List.mem_singleton.mp hx]
      exact ⟨.space rfl .nil, .nil⟩
  blank := .space rfl .nil

theorem space_single : Space [32] := fun b hb => by
  rw [List.mem_singleton.mp hb]
  rfl

theorem handlerListing_space : SpaceAround (isOwnedHandler .codex "Stop") handlerListing where
  item x hx howned := by
    rcases List.mem_cons.mp hx with rfl | hx
    · exact absurd howned (by decide +kernel)
    · rw [List.mem_singleton.mp hx]
      exact ⟨space_single, by simp [Space]⟩
  blank _ _ _ := space_single

theorem stopArray_ownedAt (j : Nat) (hj : j ≠ 0) :
    (eventPlan .codex "Stop" stopArray (some entry)).ownedAt j = [] := by
  cases j with
  | zero => exact absurd rfl hj
  | succ j => rfl

end Sample

open Sample in
/-- The comment stays. -/
theorem handlers_patched_commented : ∃ l' : Listing UInt8 (List UInt8), l'.Every IsTrivia ∧
    l'.nodes = [foreignHandler.text, handlerText] ∧
    applyEdits (configHead.dropLast ++ arrayText handlerListing ++ configTail.drop 1)
        ((patchServices fun _ => .ok none).planEvent .codex "Stop" stopArray (some entry)
          (configHead.dropLast ++ arrayText handlerListing ++ configTail.drop 1)) =
      .ok (configHead.dropLast ++ (91 :: l'.text comma id ++ [93]) ++ configTail.drop 1) :=
  have hgroup : stopArray.elements[0]? = some stopGroup := rfl
  handlers_patched (patchServices fun _ => .ok none) configHead.dropLast (configTail.drop 1) hgroup rfl
    handlerListing_trivia handlerListing_space stopArray_ownedAt (by decide +kernel) fun _ _ => by decide +kernel

end CcReminder
