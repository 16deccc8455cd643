import CcReminder.Lib.Splice

/-!
# Listings

A listing is a text of nodes with separators between them, and with some text of no meaning before and
behind each node. Every separator belongs to the node before it; the last node may have none.

Nodes are removed run by run (`Layout`). A run goes with the separator behind its last node, or, at the end
of the listing, with the one before its first node. What the pieces of the layout become is again a
listing, of the nodes that stay.
-/

set_option autoImplicit true

namespace CcReminder.Lib

structure Item (α β : Type) where
  lead : List α
  node : β
  trail : List α

structure Listing (α β : Type) where
  /-- The nodes with a separator behind them. -/
  heads : List (Item α β)
  last : Option (Item α β)
  blank : List α

namespace Item

def text (f : β → List α) (x : Item α β) : List α := x.lead ++ f x.node ++ x.trail

def map (f : β → γ) (x : Item α β) : Item α γ := ⟨x.lead, f x.node, x.trail⟩

end Item

/-- The text of items with a separator behind each of them. -/
def headsText (s : α) (f : β → List α) (xs : List (Item α β)) : List α :=
  xs.flatMap fun x => x.text f ++ [s]

@[simp] theorem headsText_nil {f : β → List α} : headsText s f [] = [] := rfl

@[simp] theorem headsText_cons {f : β → List α} {x : Item α β} :
    headsText s f (x :: xs) = x.text f ++ [s] ++ headsText s f xs := rfl

@[simp] theorem headsText_append {f : β → List α} {xs ys : List (Item α β)} :
    headsText s f (xs ++ ys) = headsText s f xs ++ headsText s f ys := List.flatMap_append

/-- The nodes of items with separators, and where they start. -/
def headsPlaces (f : β → List α) : Nat → List (Item α β) → List (Nat × β)
  | _, [] => []
  | n, x :: xs => (n + x.lead.length, x.node) :: headsPlaces f (n + ((x.text f).length + 1)) xs

namespace Listing

def items (l : Listing α β) : List (Item α β) := l.heads ++ l.last.toList

def nodes (l : Listing α β) : List β := l.items.map (·.node)

def text (s : α) (f : β → List α) (l : Listing α β) : List α :=
  headsText s f l.heads ++ l.last.elim [] (·.text f) ++ l.blank

def map (f : β → γ) (l : Listing α β) : Listing α γ := ⟨l.heads.map (·.map f), l.last.map (·.map f), l.blank⟩

/-- The nodes and where they start. -/
def places (s : α) (f : β → List α) (n : Nat) (l : Listing α β) : List (Nat × β) :=
  headsPlaces f n l.heads ++
    l.last.toList.map fun x => (n + (headsText s f l.heads).length + x.lead.length, x.node)

/-- Every text that is not a node's. -/
structure Every (T : List α → Prop) (l : Listing α β) : Prop where
  items : ∀ x ∈ l.items, T x.lead ∧ T x.trail
  blank : T l.blank

theorem items_map (f : β → γ) (l : Listing α β) : (l.map f).items = l.items.map (·.map f) := by
  unfold Listing.items map
  cases l.last <;> simp

theorem nodes_map (f : β → γ) (l : Listing α β) : (l.map f).nodes = l.nodes.map f := by
  rw [nodes, items_map, nodes, List.map_map, List.map_map]
  rfl

theorem Every.map {T : List α → Prop} {f : β → γ} {l : Listing α β} (h : l.Every T) : (l.map f).Every T := by
  refine ⟨fun x hx => ?_, h.blank⟩
  rw [items_map] at hx
  obtain ⟨y, hy, rfl⟩ := List.mem_map.mp hx
  exact h.items y hy

theorem headsText_map {f : γ → List α} {g : β → γ} {xs : List (Item α β)} :
    headsText s f (xs.map (·.map g)) = headsText s (f ∘ g) xs := by
  unfold headsText
  rw [List.flatMap_map]
  rfl

theorem text_map {f : γ → List α} {g : β → γ} {l : Listing α β} : (l.map g).text s f = l.text s (f ∘ g) := by
  unfold text map
  rw [headsText_map]
  cases l.last <;> rfl

theorem headsPlaces_map {f : γ → List α} {g : β → γ} {xs : List (Item α β)} :
    headsPlaces f n (xs.map (·.map g)) = (headsPlaces (f ∘ g) n xs).map fun p => (p.1, g p.2) := by
  induction xs generalizing n with
  | nil => rfl
  | cons x xs ih =>
    simp only [List.map_cons, headsPlaces]
    exact congrArg _ ih

theorem places_map {f : γ → List α} {g : β → γ} {l : Listing α β} :
    (l.map g).places s f n = (l.places s (f ∘ g) n).map fun p => (p.1, g p.2) := by
  unfold places map
  rw [headsPlaces_map, headsText_map]
  cases l.last <;> simp [Item.map]

theorem headsPlaces_snd {f : β → List α} {xs : List (Item α β)} :
    (headsPlaces f n xs).map (·.2) = xs.map (·.node) := by
  induction xs generalizing n with
  | nil => rfl
  | cons x xs ih => simp only [headsPlaces, List.map_cons, ih]

theorem places_snd {f : β → List α} {l : Listing α β} : (l.places s f n).map (·.2) = l.nodes := by
  unfold places nodes items
  rw [List.map_append, headsPlaces_snd, List.map_append, List.map_map]
  rfl

end Listing

/-! ## Nodes that become several -/

namespace Listing

/-- A node with others behind it. -/
abbrev Several (α β : Type) := β × List (List α × β)

def severalText (s : α) (f : β → List α) (r : Several α β) : List α :=
  f r.1 ++ r.2.flatMap fun m => s :: m.1 ++ f m.2

/-- The items of a node that becomes several: all but the last, and the last. -/
def spread (lead : List α) (node : β) (trail : List α) : List (List α × β) → List (Item α β) × Item α β
  | [] => ([], ⟨lead, node, trail⟩)
  | m :: ms =>
    let (heads, last) := spread m.1 m.2 trail ms
    (⟨lead, node, []⟩ :: heads, last)

def Item.spread (x : Item α (Several α β)) : List (Item α β) × Item α β :=
  Listing.spread x.lead x.node.1 x.trail x.node.2

/-- The listing in which the nodes that become several have done so. -/
def expand (l : Listing α (Several α β)) : Listing α β where
  heads := l.heads.flatMap (fun x => (Item.spread x).1 ++ [(Item.spread x).2]) ++
    l.last.elim [] fun x => (Item.spread x).1
  last := l.last.map fun x => (Item.spread x).2
  blank := l.blank

theorem spread_text {f : β → List α} {lead trail : List α} {node : β} (ms : List (List α × β)) :
    headsText s f (spread lead node trail ms).1 ++ (spread lead node trail ms).2.text f =
      lead ++ severalText s f (node, ms) ++ trail := by
  induction ms generalizing lead node with
  | nil => simp [spread, severalText, Item.text]
  | cons m ms ih =>
    rw [spread]
    simp only [headsText_cons, List.append_assoc]
    rw [ih]
    simp [severalText, Item.text]

theorem text_expand {f : β → List α} {l : Listing α (Several α β)} :
    l.expand.text s f = l.text s (severalText s f) := by
  have hheads : ∀ xs : List (Item α (Several α β)),
      headsText s f (xs.flatMap fun x => (Item.spread x).1 ++ [(Item.spread x).2]) =
        headsText s (severalText s f) xs := by
    intro xs
    induction xs with
    | nil => rfl
    | cons x xs ih =>
      rw [List.flatMap_cons, headsText_append, ih, headsText_append, headsText_cons, headsText_nil,
        List.append_nil, ← List.append_assoc, Item.spread, spread_text]
      rfl
  unfold expand text
  rw [headsText_append, hheads]
  cases l.last with
  | none => simp
  | some x =>
    simp only [Option.elim_some, Option.map_some, List.append_assoc]
    rw [← List.append_assoc (headsText s f (Item.spread x).1), Item.spread, spread_text]
    rfl

theorem nodes_spread {lead trail : List α} {node : β} (ms : List (List α × β)) :
    ((spread lead node trail ms).1 ++ [(spread lead node trail ms).2]).map (·.node) = node :: ms.map (·.2) := by
  induction ms generalizing lead node with
  | nil => rfl
  | cons m ms ih =>
    rw [spread]
    exact congrArg _ ih

theorem nodes_expand {l : Listing α (Several α β)} :
    l.expand.nodes = l.nodes.flatMap fun r => r.1 :: r.2.map (·.2) := by
  have hitem : ∀ x : Item α (Several α β),
      ((Item.spread x).1 ++ [(Item.spread x).2]).map (·.node) = x.node.1 :: x.node.2.map (·.2) :=
    fun x => nodes_spread _
  unfold expand nodes items
  cases l.last with
  | none =>
    simp only [Option.elim_none, List.append_nil, Option.map_none, Option.toList_none, List.map_flatMap, hitem,
      List.flatMap_map]
  | some x =>
    simp only [Option.elim_some, Option.map_some, Option.toList_some, List.append_assoc, List.map_append,
      List.map_flatMap, List.flatMap_append, List.flatMap_map]
    rw [← List.map_append, hitem]
    simp [← hitem]

theorem spread_every {T : List α → Prop} {lead trail : List α} {node : β} {ms : List (List α × β)} (hnil : T [])
    (hlead : T lead) (htrail : T trail) (hms : ∀ m ∈ ms, T m.1) :
    ∀ x ∈ (spread lead node trail ms).1 ++ [(spread lead node trail ms).2], T x.lead ∧ T x.trail := by
  induction ms generalizing lead node with
  | nil =>
    intro x hx
    rw [List.mem_singleton.mp hx]
    exact ⟨hlead, htrail⟩
  | cons m ms ih =>
    intro x hx
    rw [spread] at hx
    rcases List.mem_cons.mp hx with rfl | hx
    · exact ⟨hlead, hnil⟩
    · exact ih (hms m List.mem_cons_self) (fun m' hm' => hms m' (List.mem_cons_of_mem _ hm')) x hx

theorem Every.expand {T : List α → Prop} {l : Listing α (Several α β)} (h : l.Every T) (hnil : T [])
    (hmore : ∀ r ∈ l.nodes, ∀ m ∈ r.2, T m.1) : l.expand.Every T := by
  refine ⟨fun x hx => ?_, h.blank⟩
  have hitem : ∀ y ∈ l.items, ∀ x ∈ (Item.spread y).1 ++ [(Item.spread y).2], T x.lead ∧ T x.trail := by
    refine fun y hy => spread_every hnil (h.items y hy).1 (h.items y hy).2 ?_
    exact hmore _ (List.mem_map_of_mem hy)
  have hmem : ∃ y ∈ l.items, x ∈ (Item.spread y).1 ++ [(Item.spread y).2] := by
    unfold Listing.items Listing.expand at hx
    rcases List.mem_append.mp hx with hx | hx
    · rcases List.mem_append.mp hx with hx | hx
      · obtain ⟨y, hy, hx⟩ := List.mem_flatMap.mp hx
        exact ⟨y, List.mem_append_left _ hy, hx⟩
      · cases hlast : l.last with
        | none =>
          rw [hlast] at hx
          cases hx
        | some y =>
          rw [hlast] at hx
          exact ⟨y, List.mem_append_right _ (by rw [hlast]; exact List.mem_singleton.mpr rfl),
            List.mem_append_left _ hx⟩
    · cases hlast : l.last with
      | none =>
        rw [hlast] at hx
        cases hx
      | some y =>
        rw [hlast] at hx
        exact ⟨y, List.mem_append_right _ (by rw [hlast]; exact List.mem_singleton.mpr rfl),
          List.mem_append_right _ hx⟩
  obtain ⟨y, hy, hx⟩ := hmem
  exact hitem y hy x hx

end Listing

/-! ## Layouts -/

/-- The items of a listing, run by run. -/
inductive Layout (α γ : Type) where
  /-- Nothing is removed from here on, and there is at most one more item. -/
  | done (last : Option (Item α γ)) (blank : List α)
  /-- All that is left is removed, and no separator follows. -/
  | cutEnd (run : List (Item α γ)) (last : Item α γ) (blank : List α)
  | keep (x : Item α γ) (rest : Layout α γ)
  /-- A run of items with separators that are removed. -/
  | cut (x : Item α γ) (run : List (Item α γ)) (rest : Layout α γ)

namespace Layout

/-- The items from the right to the left; a removed one joins the run behind it. -/
def of (cut : γ → Bool) (last : Option (Item α γ)) (blank : List α) : List (Item α γ) → Layout α γ
  | [] =>
    match last with
    | none => done none blank
    | some y => if cut y.node then cutEnd [] y blank else done (some y) blank
  | x :: xs =>
    if cut x.node then
      match of cut last blank xs with
      | cutEnd run y blank => cutEnd (x :: run) y blank
      | Layout.cut y run rest => Layout.cut x (y :: run) rest
      | rest => Layout.cut x [] rest
    else keep x (of cut last blank xs)

section

variable (s : α) (P : γ → List (Piece α))

/-- The text of a node. -/
def nodeText (g : γ) : List α := Splice.old (P g)

/-- The text of a run without the separator behind it, from its first node on. -/
def runText (x : Item α γ) : List (Item α γ) → List α
  | [] => nodeText P x.node
  | y :: ys => nodeText P x.node ++ x.trail ++ [s] ++ y.lead ++ runText y ys

/-- The last item of a run. -/
def runLast (x : Item α γ) : List (Item α γ) → Item α γ
  | [] => x
  | y :: ys => runLast y ys

/-- The first item of a run that ends with an item. -/
def runFirst (last : Item α γ) : List (Item α γ) → Item α γ
  | [] => last
  | x :: _ => x

/-- The text of a run at the end, from its first node on. -/
def endText (last : Item α γ) : List (Item α γ) → List α
  | [] => nodeText P last.node
  | x :: xs => runText s P x xs ++ (runLast x xs).trail ++ [s] ++ last.lead ++ nodeText P last.node

def text : Layout α γ → List α
  | done last blank => last.elim [] (·.text (nodeText P)) ++ blank
  | cutEnd run last blank => headsText s (nodeText P) run ++ last.text (nodeText P) ++ blank
  | keep x rest => x.text (nodeText P) ++ [s] ++ text rest
  | cut x run rest => headsText s (nodeText P) (x :: run) ++ text rest

/-- What comes behind the last node, when it is removed. -/
def appended : Option (List α × γ) → List (Piece α)
  | none => []
  | some m => [.change [] (s :: m.1 ++ Splice.new (P m.2))]

/-- The pieces of a listing. -/
def pieces (tail : Option (List α × γ)) : Layout α γ → List (Piece α)
  | done last blank => (last.elim [] fun y => .keep y.lead :: P y.node ++ [.keep y.trail]) ++ [.keep blank]
  | cutEnd run last blank =>
    [.keep (runFirst last run).lead, .change (endText s P last run) [], .keep (last.trail ++ blank)]
  | keep x (cutEnd run last blank) => .keep x.lead :: P x.node ++ [.keep x.trail,
      .change (s :: (runFirst last run).lead ++ endText s P last run) []] ++ appended s P tail ++
        [.keep (last.trail ++ blank)]
  | keep x rest => .keep x.lead :: P x.node ++ .keep (x.trail ++ [s]) :: pieces tail rest
  | cut x run rest => .keep x.lead ::
      .change (runText s P x run ++ (runLast x run).trail ++ [s]) [] :: pieces tail rest

end

/-- The listing with a text in front of what its first item starts with. -/
def prepend (text : List α) (l : Listing α γ) : Listing α γ :=
  match l.heads, l.last with
  | x :: xs, _ => { l with heads := { x with lead := text ++ x.lead } :: xs }
  | [], some y => { l with last := some { y with lead := text ++ y.lead } }
  | [], none => { l with blank := text ++ l.blank }

/-- The listing of the nodes that stay, and of what comes behind the last node, when it is removed. -/
def result (tail : Option (List α × γ)) : Layout α γ → Listing α γ
  | done last blank => ⟨[], last, blank⟩
  | cutEnd run last blank => ⟨[], none, (runFirst last run).lead ++ last.trail ++ blank⟩
  | keep x (cutEnd _ last blank) =>
    match tail with
    | none => ⟨[], some x, last.trail ++ blank⟩
    | some m => ⟨[x], some ⟨m.1, m.2, []⟩, last.trail ++ blank⟩
  | keep x rest => { result tail rest with heads := x :: (result tail rest).heads }
  | cut x _ rest => prepend x.lead (result tail rest)

variable {s : α} {P : γ → List (Piece α)} {tail : Option (List α × γ)}

theorem runText_eq (x : Item α γ) (xs : List (Item α γ)) :
    headsText s (nodeText P) (x :: xs) = x.lead ++ runText s P x xs ++ (runLast x xs).trail ++ [s] := by
  induction xs generalizing x with
  | nil => simp [runText, runLast, Item.text]
  | cons y ys ih =>
    rw [headsText_cons, ih]
    simp [runText, runLast, Item.text]

theorem endText_eq (last : Item α γ) (run : List (Item α γ)) :
    headsText s (nodeText P) run ++ last.text (nodeText P) =
      (runFirst last run).lead ++ endText s P last run ++ last.trail := by
  cases run with
  | nil => simp [endText, runFirst, Item.text]
  | cons x xs =>
    rw [runText_eq]
    simp [endText, runFirst, Item.text]

theorem text_of (cut : γ → Bool) (last : Option (Item α γ)) (blank : List α) (xs : List (Item α γ)) :
    (of cut last blank xs).text s P = (⟨xs, last, blank⟩ : Listing α γ).text s (nodeText P) := by
  induction xs with
  | nil =>
    cases last with
    | none => simp [of, text, Listing.text]
    | some y => by_cases hcut : cut y.node = true <;> simp [of, text, Listing.text, hcut]
  | cons x xs ih =>
    have hcons : (⟨x :: xs, last, blank⟩ : Listing α γ).text s (nodeText P) =
        x.text (nodeText P) ++ [s] ++ (of cut last blank xs).text s P := by
      rw [ih]
      simp [Listing.text]
    rw [hcons]
    by_cases hcut : cut x.node = true
    · rw [of, if_pos hcut]
      cases of cut last blank xs with
      | done => simp [text]
      | cutEnd => simp [text]
      | keep => simp [text]
      | cut => simp [text]
    · rw [of, if_neg hcut, text]

theorem old_pieces (l : Layout α γ) : Splice.old (l.pieces s P tail) = l.text s P := by
  have happended : Splice.old (appended s P tail) = [] := by
    cases tail <;> rfl
  induction l with
  | done last blank => cases last <;> simp [pieces, text, Item.text, nodeText]
  | cutEnd run last blank => simp [pieces, text, endText_eq]
  | keep x rest ih =>
    cases rest with
    | cutEnd run last blank =>
      simp only [text]
      rw [endText_eq]
      simp [pieces, happended, Item.text, nodeText]
    | done => simpa [pieces, text, Item.text, nodeText] using ih
    | keep => simpa [pieces, text, Item.text, nodeText] using ih
    | cut => simpa [pieces, text, Item.text, nodeText] using ih
  | cut x run rest ih =>
    rw [text, runText_eq]
    simp [pieces, ih]

/-- The text of a node that stays, or comes new. -/
def nodeNew (P : γ → List (Piece α)) (g : γ) : List α := Splice.new (P g)

theorem text_prepend {f : γ → List α} {text : List α} {l : Listing α γ} :
    (prepend text l).text s f = text ++ l.text s f := by
  obtain ⟨heads, last, blank⟩ := l
  cases heads with
  | cons x xs => simp [prepend, Listing.text, Item.text]
  | nil => cases last <;> simp [prepend, Listing.text, Item.text]

/-- **What the pieces become** is the text of the listing that is left. -/
theorem new_pieces (l : Layout α γ) :
    Splice.new (l.pieces s P tail) = (l.result tail).text s (nodeNew P) := by
  induction l with
  | done last blank => cases last <;> simp [pieces, result, Listing.text, Item.text, nodeNew]
  | cutEnd run last blank => simp [pieces, result, Listing.text]
  | keep x rest ih =>
    cases rest with
    | cutEnd run last blank =>
      cases tail <;> simp [pieces, result, appended, Listing.text, Item.text, nodeNew]
    | done => simpa [pieces, result, Listing.text, Item.text, nodeNew] using ih
    | keep => simpa [pieces, result, Listing.text, Item.text, nodeNew] using ih
    | cut => simpa [pieces, result, Listing.text, Item.text, nodeNew] using ih
  | cut x run rest ih =>
    rw [result, text_prepend, ← ih]
    simp [pieces]

/-! ### The nodes -/

/-- The nodes with a mark on those that are removed. -/
def marked : Layout α γ → List (Bool × γ)
  | done last _ => last.toList.map fun y => (false, y.node)
  | cutEnd run last _ => (run ++ [last]).map fun y => (true, y.node)
  | keep x rest => (false, x.node) :: marked rest
  | cut x run rest => (x :: run).map (fun y => (true, y.node)) ++ marked rest

/-- Something is left, and then all that is left is removed. -/
def endsCut : Layout α γ → Bool
  | done _ _ => false
  | cutEnd _ _ _ => false
  | keep _ (cutEnd _ _ _) => true
  | keep _ rest => rest.endsCut
  | cut _ _ rest => rest.endsCut

theorem marked_of (cut : γ → Bool) (last : Option (Item α γ)) (blank : List α) (xs : List (Item α γ)) :
    (of cut last blank xs).marked = (⟨xs, last, blank⟩ : Listing α γ).nodes.map fun g => (cut g, g) := by
  induction xs with
  | nil =>
    cases last with
    | none => rfl
    | some y => by_cases hcut : cut y.node = true <;> simp [of, marked, Listing.nodes, Listing.items, hcut]
  | cons x xs ih =>
    have hcons : (⟨x :: xs, last, blank⟩ : Listing α γ).nodes.map (fun g => (cut g, g)) =
        (cut x.node, x.node) :: (of cut last blank xs).marked := by
      rw [ih]
      rfl
    rw [hcons]
    by_cases hcut : cut x.node = true
    · rw [of, if_pos hcut]
      cases of cut last blank xs <;> simp [marked, hcut]
    · rw [of, if_neg hcut, marked]
      simp [hcut]

theorem nodes_prepend {text : List α} {l : Listing α γ} : (prepend text l).nodes = l.nodes := by
  obtain ⟨heads, last, blank⟩ := l
  cases heads with
  | cons x xs => rfl
  | nil => cases last <;> rfl

/-- The nodes that stay. -/
def kept (l : Layout α γ) : List γ := l.marked.filterMap fun m => if m.1 then none else some m.2

/-- The node that comes behind the last node, when that is removed behind one that stays. -/
def behind (tail : Option (List α × γ)) (l : Layout α γ) : List γ :=
  match l.endsCut with
  | true => tail.toList.map (·.2)
  | false => []

theorem kept_cut {x : Item α γ} {run : List (Item α γ)} {rest : Layout α γ} :
    (Layout.cut x run rest).kept = rest.kept := by
  have hnone : ((x :: run).map fun y => (true, y.node)).filterMap
      (fun m : Bool × γ => if m.1 then none else some m.2) = [] := by
    rw [List.filterMap_map, List.filterMap_eq_nil_iff]
    exact fun _ _ => rfl
  rw [kept, marked, List.filterMap_append, hnone, List.nil_append]
  rfl

/-- **The nodes that are left**, in their order, and the one that comes new. -/
theorem nodes_result (l : Layout α γ) : (l.result tail).nodes = l.kept ++ l.behind tail := by
  induction l with
  | done last blank => cases last <;> rfl
  | cutEnd run last blank =>
    have hnone : (cutEnd run last blank).kept = [] := by
      rw [kept, marked, List.filterMap_map, List.filterMap_eq_nil_iff]
      exact fun _ _ => rfl
    rw [hnone]
    rfl
  | keep x rest ih =>
    cases rest with
    | cutEnd run last blank =>
      have hnone : (cutEnd run last blank).kept = [] := by
        rw [kept, marked, List.filterMap_map, List.filterMap_eq_nil_iff]
        exact fun _ _ => rfl
      have hkept : (keep x (cutEnd run last blank)).kept = x.node :: (cutEnd run last blank).kept := rfl
      rw [hkept, hnone]
      cases tail <;> rfl
    | done => exact congrArg (List.cons x.node) ih
    | keep => exact congrArg (List.cons x.node) ih
    | cut => exact congrArg (List.cons x.node) ih
  | cut x run rest ih =>
    rw [kept_cut, result, nodes_prepend, ih]
    rfl

theorem kept_of (cut : γ → Bool) (l : Listing α γ) :
    (of cut l.last l.blank l.heads).kept = l.nodes.filter fun g => !cut g := by
  rw [kept, marked_of, List.filterMap_map, ← List.filterMap_eq_filter]
  congr 1
  funext g
  cases hcut : cut g <;> simp [hcut, Option.guard]

/-! ### The changes -/

section

variable (s : α) (P : γ → List (Piece α))

/-- The nodes and where they start. -/
def places (n : Nat) : Layout α γ → List (Nat × γ)
  | done last _ => last.toList.map fun y => (n + y.lead.length, y.node)
  | cutEnd run last _ => headsPlaces (nodeText P) n run ++
      [(n + (headsText s (nodeText P) run).length + last.lead.length, last.node)]
  | keep x rest => (n + x.lead.length, x.node) :: places (n + ((x.text (nodeText P)).length + 1)) rest
  | cut x run rest => headsPlaces (nodeText P) n (x :: run) ++
      places (n + (headsText s (nodeText P) (x :: run)).length) rest

/-- The changes that remove a run. -/
def cuts (n : Nat) : Layout α γ → List (Change α)
  | done _ _ => []
  | cutEnd run last _ =>
    [⟨n + (runFirst last run).lead.length,
      n + (runFirst last run).lead.length + (endText s P last run).length, []⟩]
  | keep x (cutEnd run last _) =>
    [⟨n + (x.text (nodeText P)).length, n + (x.text (nodeText P)).length + 1 + (runFirst last run).lead.length +
      (endText s P last run).length, []⟩]
  | keep x rest => cuts (n + ((x.text (nodeText P)).length + 1)) rest
  | cut x run rest =>
    ⟨n + x.lead.length, n + x.lead.length + (runText s P x run).length + (runLast x run).trail.length + 1, []⟩ ::
      cuts (n + (headsText s (nodeText P) (x :: run)).length) rest

/-- The changes within the nodes that stay. -/
def inner (n : Nat) : Layout α γ → List (Change α)
  | done last _ => last.elim [] fun y => Splice.changes (n + y.lead.length) (P y.node)
  | cutEnd _ _ _ => []
  | keep x rest => Splice.changes (n + x.lead.length) (P x.node) ++
      inner (n + ((x.text (nodeText P)).length + 1)) rest
  | cut x run rest => inner (n + (headsText s (nodeText P) (x :: run)).length) rest

/-- The end of the last node, when it is removed behind one that stays. -/
def cutStop (n : Nat) : Layout α γ → List Nat
  | done _ _ => []
  | cutEnd _ _ _ => []
  | keep x (cutEnd run last _) =>
    [n + (x.text (nodeText P)).length + 1 + (runFirst last run).lead.length + (endText s P last run).length]
  | keep x rest => cutStop (n + ((x.text (nodeText P)).length + 1)) rest
  | cut x run rest => cutStop (n + (headsText s (nodeText P) (x :: run)).length) rest

/-- The insertion of the node that comes new. -/
def appendedAt (tail : Option (List α × γ)) (n : Nat) : List (Change α) :=
  tail.toList.map fun m => ⟨n, n, s :: m.1 ++ Splice.new (P m.2)⟩

end

theorem changes_appended : Splice.changes n (appended s P tail) = appendedAt s P tail n := by
  cases tail <;> rfl

/-- **The changes of the pieces** are those within the nodes that stay, those that remove the runs, and the
insertion of the node that comes new. -/
theorem changes_pieces (n : Nat) (l : Layout α γ) : (Splice.changes n (l.pieces s P tail)).Perm
    (l.inner s P n ++ (l.cuts s P n ++ (l.cutStop s P n).flatMap (appendedAt s P tail))) := by
  induction l generalizing n with
  | done last blank =>
    cases last with
    | none => exact .refl _
    | some y =>
      simp [pieces, inner, cuts, cutStop, Splice.changes_append]
  | cutEnd run last blank =>
    simp [pieces, inner, cuts, cutStop]
  | keep x rest ih =>
    have hrest : ∀ text : List α, text.length = x.trail.length + 1 → Splice.changes n
        (.keep x.lead :: P x.node ++ .keep text :: rest.pieces s P tail) =
          Splice.changes (n + x.lead.length) (P x.node) ++
            Splice.changes (n + ((x.text (nodeText P)).length + 1)) (rest.pieces s P tail) := by
      intro text htext
      simp [Splice.changes_append, Item.text, nodeText, htext]
      congr 1
      omega
    have hstep := (ih (n + ((x.text (nodeText P)).length + 1))).append_left
      (Splice.changes (n + x.lead.length) (P x.node))
    rw [← hrest (x.trail ++ [s]) (by rw [List.length_append]; rfl), ← List.append_assoc] at hstep
    cases rest with
    | cutEnd run last blank =>
      have hstart : n + x.lead.length + (Splice.old (P x.node)).length + x.trail.length =
          n + (x.lead.length + ((Splice.old (P x.node)).length + x.trail.length)) := by omega
      have hstop : ∀ m k e : Nat, m + (k + e + 1) = m + 1 + k + e := fun m k e => by omega
      simp [pieces, inner, cuts, cutStop, Splice.changes_append, changes_appended, Item.text, nodeText]
      rw [hstart, hstop]
    | done => exact hstep
    | keep => exact hstep
    | cut => exact hstep
  | cut x run rest ih =>
    have hlength : n + x.lead.length + (runText s P x run ++ (runLast x run).trail ++ [s]).length =
        n + (headsText s (nodeText P) (x :: run)).length := by
      rw [runText_eq]
      simp only [List.length_append]
      omega
    have hstop : n + (headsText s (nodeText P) (x :: run)).length =
        n + x.lead.length + (runText s P x run).length + (runLast x run).trail.length + 1 := by
      rw [← hlength]
      simp only [List.length_append, List.length_singleton]
      omega
    simp only [pieces, inner, cuts, cutStop, Splice.changes_keep, Splice.changes_change, List.cons_append]
    rw [hlength, ← hstop]
    exact ((ih _).cons _).trans List.perm_middle.symm

theorem apart_appended {blank : List α} : Splice.Apart (appended s P tail ++ [.keep blank]) := by
  cases tail with
  | none => exact Splice.apart_nil.keep
  | some m => exact fun _ => List.pairwise_singleton _ _

/-- The changes are apart where those within each node are. -/
theorem apart_pieces (l : Layout α γ) (h : ∀ g ∈ l.kept, Splice.Apart (P g)) :
    Splice.Apart (l.pieces s P tail) := by
  have hkeep : ∀ {x : Item α γ} {ps : List (Piece α)}, Splice.Apart (P x.node) → Splice.Apart ps →
      Splice.StartsKept ps → Splice.Apart (.keep x.lead :: P x.node ++ ps) := fun hx hps hstarts =>
    (hx.append hps (.inr hstarts)).keep
  induction l with
  | done last blank =>
    cases last with
    | none => exact Splice.apart_nil.keep
    | some y =>
      refine Splice.Apart.append (Splice.Apart.keep (Splice.Apart.append (h y.node List.mem_cons_self)
        Splice.apart_nil.keep (.inr ?_))) Splice.apart_nil.keep (.inr ?_)
      · exact fun _ _ he => absurd he List.not_mem_nil
      · exact fun _ _ he => absurd he List.not_mem_nil
  | cutEnd run last blank => exact Splice.Apart.keep fun _ => List.pairwise_singleton _ _
  | keep x rest ih =>
    have hx : Splice.Apart (P x.node) := h x.node List.mem_cons_self
    have hrest := ih fun g hg => h g (List.mem_cons_of_mem _ hg)
    have hcons : Splice.Apart (.keep x.lead :: P x.node ++ .keep (x.trail ++ [s]) :: rest.pieces s P tail) :=
      hkeep hx hrest.keep (Splice.startsKept_keep (List.append_ne_nil_of_right_ne_nil _ (List.cons_ne_nil _ _)))
    cases rest with
    | cutEnd run last blank =>
      have hne : s :: (runFirst last run).lead ++ endText s P last run ≠ [] := List.cons_ne_nil _ _
      have htail : Splice.Apart (appended s P tail ++ [.keep (last.trail ++ blank)]) := apart_appended
      have hcut : Splice.Apart (.keep x.trail :: .change _ [] ::
          (appended s P tail ++ [.keep (last.trail ++ blank)])) := (htail.change hne).keep
      have h' := hkeep hx hcut (Splice.startsKept_change hne).keep
      simpa only [pieces, List.cons_append, List.append_assoc, List.nil_append] using h'
    | done => exact hcons
    | keep => exact hcons
    | cut => exact hcons
  | cut x run rest ih =>
    refine Splice.Apart.keep (Splice.Apart.change ?_ (ih fun g hg => h g ?_))
    · exact List.append_ne_nil_of_right_ne_nil _ (List.cons_ne_nil _ _)
    · rw [kept_cut]
      exact hg

/-! ### The places -/

theorem places_of (cut : γ → Bool) (last : Option (Item α γ)) (blank : List α) (xs : List (Item α γ)) :
    (of cut last blank xs).places s P n =
      (⟨xs, last, blank⟩ : Listing α γ).places s (nodeText P) n := by
  induction xs generalizing n with
  | nil =>
    cases last with
    | none => rfl
    | some y => by_cases hcut : cut y.node = true <;> simp [of, places, Listing.places, headsPlaces, hcut]
  | cons x xs ih =>
    have hcons : (⟨x :: xs, last, blank⟩ : Listing α γ).places s (nodeText P) n =
        (n + x.lead.length, x.node) ::
          (of cut last blank xs).places s P (n + ((x.text (nodeText P)).length + 1)) := by
      rw [ih]
      simp [Listing.places, headsPlaces, Nat.add_assoc, Nat.add_comm, Nat.add_left_comm]
    rw [hcons]
    by_cases hcut : cut x.node = true
    · rw [of, if_pos hcut]
      cases of cut last blank xs with
      | done => simp [places, headsPlaces]
      | cutEnd => simp [places, headsPlaces, Nat.add_assoc, Nat.add_comm, Nat.add_left_comm]
      | keep => simp [places, headsPlaces]
      | cut => simp [places, headsPlaces, Nat.add_assoc, Nat.add_comm, Nat.add_left_comm]
    · rw [of, if_neg hcut, places]

/-- The changes within the nodes that stay, from the places. -/
theorem inner_of (cut : γ → Bool) (last : Option (Item α γ)) (blank : List α) (xs : List (Item α γ)) :
    (of cut last blank xs).inner s P n =
      ((⟨xs, last, blank⟩ : Listing α γ).places s (nodeText P) n).flatMap fun p =>
        if cut p.2 then [] else Splice.changes p.1 (P p.2) := by
  induction xs generalizing n with
  | nil =>
    cases last with
    | none => rfl
    | some y => by_cases hcut : cut y.node = true <;> simp [of, inner, Listing.places, headsPlaces, hcut]
  | cons x xs ih =>
    have hcons : (⟨x :: xs, last, blank⟩ : Listing α γ).places s (nodeText P) n =
        (n + x.lead.length, x.node) ::
          (⟨xs, last, blank⟩ : Listing α γ).places s (nodeText P) (n + ((x.text (nodeText P)).length + 1)) := by
      simp [Listing.places, headsPlaces, Nat.add_assoc, Nat.add_comm, Nat.add_left_comm]
    rw [hcons, List.flatMap_cons, ← ih]
    by_cases hcut : cut x.node = true
    · rw [of, if_pos hcut, if_pos hcut]
      cases of cut last blank xs with
      | done => simp [inner]
      | cutEnd => simp [inner]
      | keep => simp [inner]
      | cut => simp [inner, Nat.add_assoc, Nat.add_comm, Nat.add_left_comm]
    · rw [of, if_neg hcut, if_neg hcut, inner]

/-- The runs: the indices of their first and last nodes, counted from `k`, and where they start and stop. -/
def runs (s : α) (P : γ → List (Piece α)) (k n : Nat) : Layout α γ → List ((Nat × Nat) × (Nat × Nat))
  | done _ _ => []
  | cutEnd run last _ => [((k, k + run.length), (n + (runFirst last run).lead.length,
      n + (runFirst last run).lead.length + (endText s P last run).length))]
  | keep x rest => runs s P (k + 1) (n + ((x.text (nodeText P)).length + 1)) rest
  | cut x run rest => ((k, k + run.length),
      (n + x.lead.length, n + x.lead.length + (runText s P x run).length)) ::
        runs s P (k + run.length + 1) (n + (headsText s (nodeText P) (x :: run)).length) rest

/-- The last node of a run stops where the run does. -/
theorem runLast_place (x : Item α γ) (xs : List (Item α γ)) :
    ∃ m g, (headsPlaces (nodeText P) n (x :: xs))[xs.length]? = some (m, g) ∧
      m + (nodeText P g).length = n + x.lead.length + (runText s P x xs).length := by
  induction xs generalizing n x with
  | nil => exact ⟨_, _, rfl, rfl⟩
  | cons y ys ih =>
    obtain ⟨m, g, hget, hstop⟩ := ih (n := n + ((x.text (nodeText P)).length + 1)) y
    refine ⟨m, g, hget, hstop.trans ?_⟩
    simp only [runText, Item.text, List.length_append, List.length_singleton]
    omega

theorem headsPlaces_length {f : γ → List α} {xs : List (Item α γ)} : (headsPlaces f n xs).length = xs.length := by
  induction xs generalizing n with
  | nil => rfl
  | cons x xs ih => rw [headsPlaces, List.length_cons, ih, List.length_cons]

theorem runs_places (l : Layout α γ) (k n : Nat) : ∀ r ∈ l.runs s P k n, k ≤ r.1.1 ∧ k ≤ r.1.2 ∧
    (∃ g, (l.places s P n)[r.1.1 - k]? = some (r.2.1, g)) ∧
      ∃ m g, (l.places s P n)[r.1.2 - k]? = some (m, g) ∧ m + (nodeText P g).length = r.2.2 := by
  induction l generalizing k n with
  | done last blank => exact fun r hr => absurd hr List.not_mem_nil
  | cutEnd run last blank =>
    intro r hr
    rw [List.mem_singleton.mp hr]
    refine ⟨Nat.le_refl _, Nat.le_add_right _ _, ?_, ?_⟩
    · rw [Nat.sub_self]
      cases run <;> exact ⟨_, rfl⟩
    · rw [Nat.add_sub_cancel_left, places, List.getElem?_append_right (Nat.le_of_eq headsPlaces_length),
        headsPlaces_length, Nat.sub_self]
      refine ⟨_, _, rfl, ?_⟩
      have h := congrArg List.length (endText_eq (s := s) (P := P) last run)
      simp only [List.length_append, Item.text] at h
      dsimp only
      omega
  | keep x rest ih =>
    intro r hr
    obtain ⟨hfirst, hlast, hstart, hstop⟩ := ih _ _ r hr
    have hget : ∀ i, k + 1 ≤ i → ((keep x rest).places s P n)[i - k]? =
        (rest.places s P (n + ((x.text (nodeText P)).length + 1)))[i - (k + 1)]? := fun i hi => by
      rw [show i - k = i - (k + 1) + 1 by omega, places, List.getElem?_cons_succ]
    rw [hget _ hfirst, hget _ hlast]
    exact ⟨by omega, by omega, hstart, hstop⟩
  | cut x run rest ih =>
    have hlength : (headsPlaces (nodeText P) n (x :: run)).length = run.length + 1 := headsPlaces_length
    intro r hr
    rcases List.mem_cons.mp hr with rfl | hr
    · refine ⟨Nat.le_refl _, Nat.le_add_right _ _, ?_, ?_⟩
      · rw [Nat.sub_self]
        exact ⟨_, rfl⟩
      · obtain ⟨m, g, hget, hstop⟩ := runLast_place (s := s) (P := P) (n := n) x run
        refine ⟨m, g, ?_, hstop⟩
        rw [Nat.add_sub_cancel_left, places, List.getElem?_append_left (by omega)]
        exact hget
    · obtain ⟨hfirst, hlast, hstart, hstop⟩ := ih _ _ r hr
      have hget : ∀ i, k + run.length + 1 ≤ i → ((Layout.cut x run rest).places s P n)[i - k]? =
          (rest.places s P (n + (headsText s (nodeText P) (x :: run)).length))[i - (k + run.length + 1)]? :=
        fun i hi => by
          rw [places, List.getElem?_append_right (by omega), hlength]
          congr 1
          omega
      rw [hget _ hfirst, hget _ hlast]
      exact ⟨by omega, by omega, hstart, hstop⟩

/-! ### The texts between the nodes -/

/-- What holds of every text that is not a node's. -/
def Every (T : List α → Prop) : Layout α γ → Prop
  | done last blank => (∀ y ∈ last.toList, T y.lead ∧ T y.trail) ∧ T blank
  | cutEnd run last blank => (∀ y ∈ run ++ [last], T y.lead ∧ T y.trail) ∧ T blank
  | keep x rest => (T x.lead ∧ T x.trail) ∧ rest.Every T
  | cut x run rest => (∀ y ∈ x :: run, T y.lead ∧ T y.trail) ∧ rest.Every T

/-- What holds around the nodes that are removed. -/
def AtCuts (S : List α → Prop) : Layout α γ → Prop
  | done _ _ => True
  | cutEnd run last blank => (∀ y ∈ run ++ [last], S y.lead ∧ S y.trail) ∧ S blank
  | keep _ rest => rest.AtCuts S
  | cut x run rest => (∀ y ∈ x :: run, S y.lead ∧ S y.trail) ∧ rest.AtCuts S

theorem every_of {T : List α → Prop} (cut : γ → Bool) {last : Option (Item α γ)} {blank : List α}
    {xs : List (Item α γ)} (h : (⟨xs, last, blank⟩ : Listing α γ).Every T) : (of cut last blank xs).Every T := by
  induction xs with
  | nil =>
    cases last with
    | none => exact ⟨fun _ hy => absurd hy List.not_mem_nil, h.blank⟩
    | some y =>
      rw [of]
      split
      · exact ⟨h.items, h.blank⟩
      · exact ⟨h.items, h.blank⟩
  | cons x xs ih =>
    have hx := h.items x List.mem_cons_self
    have hrest := ih ⟨fun y hy => h.items y (List.mem_cons_of_mem _ hy), h.blank⟩
    rw [of]
    split
    · cases hof : of cut last blank xs with
      | done last blank =>
        rw [hof] at hrest
        exact ⟨fun y hy => List.mem_singleton.mp hy ▸ hx, hrest⟩
      | keep x' rest =>
        rw [hof] at hrest
        exact ⟨fun y hy => List.mem_singleton.mp hy ▸ hx, hrest⟩
      | cutEnd run last blank =>
        rw [hof] at hrest
        exact ⟨List.forall_mem_cons.mpr ⟨hx, hrest.1⟩, hrest.2⟩
      | cut x' run rest =>
        rw [hof] at hrest
        exact ⟨List.forall_mem_cons.mpr ⟨hx, hrest.1⟩, hrest.2⟩
    · exact ⟨hx, hrest⟩

theorem atCuts_of {S : List α → Prop} (cut : γ → Bool) {last : Option (Item α γ)} {blank : List α}
    {xs : List (Item α γ)}
    (h : ∀ x ∈ (⟨xs, last, blank⟩ : Listing α γ).items, cut x.node = true → S x.lead ∧ S x.trail)
    (hblank : ∀ y ∈ last.toList, cut y.node = true → S blank) : (of cut last blank xs).AtCuts S := by
  induction xs with
  | nil =>
    cases last with
    | none => trivial
    | some y =>
      rw [of]
      split
      · rename_i hcut
        refine ⟨fun y' hy' => ?_, hblank y List.mem_cons_self hcut⟩
        rw [List.mem_singleton.mp hy']
        exact h y List.mem_cons_self hcut
      · trivial
  | cons x xs ih =>
    have hrest := ih fun y hy => h y (List.mem_cons_of_mem _ hy)
    rw [of]
    split
    · rename_i hcut
      have hx := h x List.mem_cons_self hcut
      cases hof : of cut last blank xs with
      | done last blank => exact ⟨fun y hy => List.mem_singleton.mp hy ▸ hx, trivial⟩
      | keep x' rest =>
        rw [hof] at hrest
        exact ⟨fun y hy => List.mem_singleton.mp hy ▸ hx, hrest⟩
      | cutEnd run last blank =>
        rw [hof] at hrest
        exact ⟨List.forall_mem_cons.mpr ⟨hx, hrest.1⟩, hrest.2⟩
      | cut x' run rest =>
        rw [hof] at hrest
        exact ⟨List.forall_mem_cons.mpr ⟨hx, hrest.1⟩, hrest.2⟩
    · exact hrest

/-- Runs are as long as they can be. -/
def Proper : Layout α γ → Prop
  | done _ _ => True
  | cutEnd _ _ _ => True
  | keep _ rest => rest.Proper
  | cut _ _ (done _ _) => True
  | cut _ _ (keep _ rest) => rest.Proper
  | cut _ _ _ => False

theorem proper_of (cut : γ → Bool) (last : Option (Item α γ)) (blank : List α) (xs : List (Item α γ)) :
    (of cut last blank xs).Proper := by
  induction xs with
  | nil =>
    cases last with
    | none => trivial
    | some y =>
      rw [of]
      split <;> trivial
  | cons x xs ih =>
    rw [of]
    split
    · cases hof : of cut last blank xs with
      | done => trivial
      | cutEnd => trivial
      | keep =>
        rw [hof] at ih
        exact ih
      | cut x' run rest =>
        rw [hof] at ih
        cases rest <;> exact ih
    · exact ih

theorem every_prepend {T : List α → Prop} {text : List α} {l : Listing α γ} (h : l.Every T)
    (htext : ∀ t, T t → T (text ++ t)) : (prepend text l).Every T := by
  obtain ⟨heads, last, blank⟩ := l
  obtain ⟨hitems, hblank⟩ := h
  cases heads with
  | cons x xs =>
    obtain ⟨hx, hxs⟩ := List.forall_mem_cons.mp hitems
    exact ⟨List.forall_mem_cons.mpr ⟨⟨htext _ hx.1, hx.2⟩, hxs⟩, hblank⟩
  | nil =>
    cases last with
    | some y =>
      have hy := hitems y List.mem_cons_self
      exact ⟨fun x hx => List.mem_singleton.mp hx ▸ ⟨htext _ hy.1, hy.2⟩, hblank⟩
    | none => exact ⟨fun x hx => absurd hx List.not_mem_nil, htext _ hblank⟩

theorem mem_runFirst (last : Item α γ) (run : List (Item α γ)) : runFirst last run ∈ run ++ [last] := by
  cases run <;> exact List.mem_cons_self

theorem mem_runLast (x : Item α γ) (xs : List (Item α γ)) : runLast x xs ∈ x :: xs := by
  induction xs generalizing x with
  | nil => exact List.mem_cons_self
  | cons y ys ih => exact List.mem_cons_of_mem _ (ih y)

theorem Every.result {T : List α → Prop} {l : Layout α γ} (h : l.Every T) (hnil : T [])
    (happend : ∀ t t', T t → T t' → T (t ++ t')) (htail : ∀ m ∈ tail, T m.1) : (l.result tail).Every T := by
  induction l with
  | done last blank => exact ⟨h.1, h.2⟩
  | cutEnd run last blank =>
    refine ⟨fun y hy => absurd hy List.not_mem_nil, happend _ _ (happend _ _ ?_ ?_) h.2⟩
    · exact (h.1 _ (mem_runFirst last run)).1
    · exact (h.1 last (List.mem_append_right _ List.mem_cons_self)).2
  | keep x rest ih =>
    obtain ⟨hx, hrest⟩ := h
    have hcons : ({ rest.result tail with heads := x :: (rest.result tail).heads } : Listing α γ).Every T :=
      ⟨List.forall_mem_cons.mpr ⟨hx, (ih hrest).items⟩, (ih hrest).blank⟩
    cases rest with
    | cutEnd run last blank =>
      have hblank : T (last.trail ++ blank) :=
        happend _ _ (hrest.1 last (List.mem_append_right _ List.mem_cons_self)).2 hrest.2
      cases tail with
      | none => exact ⟨fun y hy => List.mem_singleton.mp hy ▸ hx, hblank⟩
      | some m =>
        refine ⟨fun y hy => ?_, hblank⟩
        rcases List.mem_cons.mp hy with rfl | hy
        · exact hx
        · exact List.mem_singleton.mp hy ▸ ⟨htail m rfl, hnil⟩
    | done => exact hcons
    | keep => exact hcons
    | cut => exact hcons
  | cut x run rest ih =>
    exact every_prepend (ih h.2) fun t ht => happend _ _ (h.1 x List.mem_cons_self).1 ht

end Layout

end CcReminder.Lib
