import CcReminder.Projects.Resolver
import Mathlib.Data.List.TakeWhile

/-!
# Paths with repeated separators and dots

How the resolver reads a path. What is behind the anchor is a walk over segments, which neither an empty
segment nor a dot disturbs. The end of the share of an UNC path is found by a count of bytes, which is
right for one separator between server and share alone.
-/

set_option autoImplicit true

namespace CcReminder

open Lib

/-! ## Segments -/

theorem splitSlash_append (a b : List Char) :
    splitSlash (a ++ '/' :: b) = splitSlash a ++ splitSlash b := by
  simp only [splitSlash, List.splitOn_append_cons_self, List.map_append]

theorem splitSlash_of_not_mem {a : List Char} (h : '/' ∉ a) : splitSlash a = [String.ofList a] := by
  rw [splitSlash, List.splitOn_eq_singleton h, List.map_singleton]

/-- The segments after a text, the last one first. -/
def walk (anchor : PathAnchor) (segments : List String) (path : List Char) : List String :=
  (splitSlash path).foldl (pushSegment anchor) segments

theorem normalizedSegments_eq (path : List Char) (anchor : PathAnchor) :
    normalizedSegments path anchor = (walk anchor [] path).reverse := rfl

theorem walk_append (anchor : PathAnchor) (segments : List String) (a b : List Char) :
    walk anchor segments (a ++ '/' :: b) = walk anchor (walk anchor segments a) b := by
  rw [walk, splitSlash_append, List.foldl_append]
  rfl

@[simp] theorem walk_nil (anchor : PathAnchor) (segments : List String) :
    walk anchor segments [] = segments := rfl

@[simp] theorem walk_slash (anchor : PathAnchor) (segments : List String) (a : List Char) :
    walk anchor segments ('/' :: a) = walk anchor segments a := walk_append anchor segments [] a

@[simp] theorem walk_dot (anchor : PathAnchor) (segments : List String) :
    walk anchor segments ['.'] = segments := by
  rw [walk, splitSlash_of_not_mem (by decide)]
  rfl

theorem walk_dropWhile (anchor : PathAnchor) (segments : List String) (a : List Char) :
    walk anchor segments (a.dropWhile (· = '/')) = walk anchor segments a := by
  induction a with
  | nil => rfl
  | cons c a ih =>
    rw [List.dropWhile_cons]
    split
    · rename_i hc
      rw [of_decide_eq_true hc, walk_slash, ih]
    · rfl

/-- Two texts with the same segments, wherever they stand. -/
def SameWalk (y z : List Char) : Prop :=
  ∀ anchor segments, walk anchor segments y = walk anchor segments z

theorem sameWalk_separator (b : List Char) : SameWalk ('/' :: b) b :=
  fun anchor segments => walk_slash anchor segments b

theorem sameWalk_dot (b : List Char) : SameWalk ('.' :: '/' :: b) b := fun anchor segments => by
  have happend := walk_append anchor segments ['.'] b
  rwa [walk_dot] at happend

theorem sameWalk_last (b : List Char) : SameWalk (b ++ ['/', '.']) b := fun anchor segments => by
  rw [walk_append, walk_dot]

theorem SameWalk.append (h : SameWalk y z) (a : List Char) : SameWalk (a ++ '/' :: y) (a ++ '/' :: z) :=
  fun anchor segments => by rw [walk_append, walk_append, h]

/-! ## Bytes -/

/-- The number of bytes of a text. -/
def byteSize (cs : List Char) : Nat := (cs.map (·.utf8Size)).sum

@[simp] theorem byteSize_cons (c : Char) (cs : List Char) :
    byteSize (c :: cs) = c.utf8Size + byteSize cs := rfl

theorem byteSize_append (a b : List Char) : byteSize (a ++ b) = byteSize a + byteSize b := by
  simp [byteSize]

theorem utf8ByteSize_ofList (cs : List Char) : (String.ofList cs).utf8ByteSize = byteSize cs := by
  induction cs with
  | nil => rfl
  | cons c cs ih =>
    have hcons : String.ofList (c :: cs) = String.singleton c ++ String.ofList cs := by
      rw [String.singleton_eq_ofList, ← String.ofList_append]
      rfl
    rw [hcons, String.utf8ByteSize_append, String.utf8ByteSize_singleton, ih, byteSize_cons]

@[simp] theorem bytesFrom_zero (cs : List Char) : bytesFrom 0 cs = some cs := by
  cases cs <;> rfl

theorem bytesFrom_append (a b : List Char) (n : Nat) :
    bytesFrom (byteSize a + n) (a ++ b) = bytesFrom n b := by
  induction a with
  | nil => simp [byteSize]
  | cons c a ih =>
    have hpos := c.utf8Size_pos
    rw [byteSize_cons]
    obtain ⟨k, hk⟩ : ∃ k, c.utf8Size + byteSize a + n = k + 1 :=
      ⟨c.utf8Size + byteSize a + n - 1, by omega⟩
    rw [hk, List.cons_append, bytesFrom, if_pos (by omega), ← ih]
    congr 1
    omega

/-- A cut that is found is found in a longer text. -/
theorem bytesFrom_append_of_some (h : bytesFrom n a = some r) (b : List Char) :
    bytesFrom n (a ++ b) = some (r ++ b) := by
  induction a generalizing n with
  | nil =>
    cases n with
    | zero =>
      cases h
      exact bytesFrom_zero b
    | succ n => cases h
  | cons c a ih =>
    cases n with
    | zero =>
      cases h
      rfl
    | succ n =>
      rw [bytesFrom] at h
      split at h
      · rename_i hle
        rw [List.cons_append, bytesFrom, if_pos hle]
        exact ih h
      · cases h

/-- Whether a cut is found in a text depends on its first bytes. -/
theorem bytesFrom_append_of_le (hn : n ≤ byteSize a) (b : List Char) :
    bytesFrom n (a ++ b) = (bytesFrom n a).map (· ++ b) := by
  induction a generalizing n with
  | nil =>
    obtain rfl : n = 0 := Nat.le_zero.mp hn
    exact bytesFrom_zero b
  | cons c a ih =>
    cases n with
    | zero => rfl
    | succ n =>
      rw [byteSize_cons] at hn
      rw [List.cons_append, bytesFrom, bytesFrom]
      split
      · exact ih (by omega)
      · rfl

/-! ## UNC paths -/

/-- A path behind its two leading separators: the server, the separators up to the share, the share and
the rest. -/
def uncServer (path : List Char) : List Char := (path.drop 2).takeWhile (· ≠ '/')

def uncTail (path : List Char) : List Char := (path.drop 2).dropWhile (· ≠ '/')

def uncGap (path : List Char) : Nat := ((uncTail path).takeWhile (· = '/')).length

def uncShare (path : List Char) : List Char :=
  ((uncTail path).dropWhile (· = '/')).takeWhile (· ≠ '/')

/-- `//server/share`, with one separator or more between the two, and a rest. -/
def IsUnc (path : List Char) : Prop :=
  ['/', '/'] <+: path ∧ uncServer path ≠ [] ∧ uncShare path ≠ []

instance (path : List Char) : Decidable (IsUnc path) := inferInstanceAs (Decidable (_ ∧ _))

/-- What the count of bytes takes for what follows the share. -/
def behindShare (path : List Char) : List Char :=
  (bytesFrom (byteSize (uncShare path) + 1) (uncTail path)).getD []

/-- It is what follows the share when one separator stands before it. -/
theorem behindShare_of_gap {path rest : List Char} (h : uncTail path = '/' :: (uncShare path ++ rest)) :
    behindShare path = rest := by
  have hbytes := bytesFrom_append ('/' :: uncShare path) rest 0
  have hslash : ('/' : Char).utf8Size = 1 := rfl
  rw [byteSize_cons, hslash, bytesFrom_zero, Nat.add_zero, Nat.add_comm, List.cons_append] at hbytes
  rw [behindShare, h, hbytes, Option.getD_some]

/-- A text without a separator, or what stands before and behind its first one. -/
theorem span_slash (a : List Char) :
    '/' ∉ a ∧ a.takeWhile (· ≠ '/') = a ∧ a.dropWhile (· ≠ '/') = [] ∨
      ∃ u v, a = u ++ '/' :: v ∧ '/' ∉ u ∧ a.takeWhile (· ≠ '/') = u ∧
        a.dropWhile (· ≠ '/') = '/' :: v := by
  induction a with
  | nil => exact .inl ⟨List.not_mem_nil, rfl, rfl⟩
  | cons c a ih =>
    by_cases hc : c = '/'
    · subst hc
      exact .inr ⟨[], a, rfl, List.not_mem_nil, rfl, rfl⟩
    have htake : (c :: a).takeWhile (· ≠ '/') = c :: a.takeWhile (· ≠ '/') :=
      List.takeWhile_cons_of_pos (decide_eq_true hc)
    have hdrop : (c :: a).dropWhile (· ≠ '/') = a.dropWhile (· ≠ '/') :=
      List.dropWhile_cons_of_pos (decide_eq_true hc)
    rw [htake, hdrop]
    rcases ih with ⟨hslash, htake', hdrop'⟩ | ⟨u, v, rfl, hslash, htake', hdrop'⟩
    · exact .inl ⟨by simp [hslash, Ne.symm hc], by rw [htake'], hdrop'⟩
    · exact .inr ⟨c :: u, v, rfl, by simp [hslash, Ne.symm hc], by rw [htake'], hdrop'⟩

/-- The segments that are not empty. -/
def components (path : List Char) : List String := (splitSlash path).filter (· ≠ "")

theorem components_append (a b : List Char) :
    components (a ++ '/' :: b) = components a ++ components b := by
  rw [components, splitSlash_append, List.filter_append]
  rfl

theorem components_dropWhile (a : List Char) : components (a.dropWhile (· = '/')) = components a := by
  induction a with
  | nil => rfl
  | cons c a ih =>
    rw [List.dropWhile_cons]
    split
    · rename_i hc
      rw [of_decide_eq_true hc, ih]
      exact (components_append [] a).symm
    · rfl

/-- The first component is what stands before the first separator. -/
theorem components_of_ne {a : List Char} (h : a.takeWhile (· ≠ '/') ≠ []) :
    components a = String.ofList (a.takeWhile (· ≠ '/')) :: components (a.dropWhile (· ≠ '/')) := by
  have hsingle : ∀ u : List Char, u ≠ [] → '/' ∉ u → components u = [String.ofList u] := by
    intro u hu hslash
    have hne : String.ofList u ≠ "" := fun heq => hu (String.ofList_eq_empty_iff.mp heq)
    rw [components, splitSlash_of_not_mem hslash]
    exact List.filter_cons_of_pos (decide_eq_true hne)
  rcases span_slash a with ⟨hslash, htake, hdrop⟩ | ⟨u, v, rfl, hslash, htake, hdrop⟩
  · rw [htake] at h
    rw [htake, hdrop, hsingle a h hslash]
    rfl
  · rw [htake] at h
    rw [htake, hdrop, components_append, hsingle u h hslash]
    exact congrArg (String.ofList u :: ·) (components_append [] v).symm

/-- The anchor of an UNC path, and what is taken for the rest. -/
theorem windowsAnchor_unc {path : List Char} (h : IsUnc path) : windowsAnchor path =
    (.windowsUnc (String.ofList (uncServer path)) (String.ofList (uncShare path)),
      behindShare path) := by
  obtain ⟨⟨host, rfl⟩, hserver, hshare⟩ := h
  have hdrop : (['/', '/'] ++ host).drop 2 = host := rfl
  have hcomponents : components host = String.ofList (uncServer (['/', '/'] ++ host)) ::
      String.ofList (uncShare (['/', '/'] ++ host)) ::
        components (((uncTail (['/', '/'] ++ host)).dropWhile (· = '/')).dropWhile (· ≠ '/')) := by
    rw [uncServer, hdrop] at hserver ⊢
    rw [components_of_ne hserver, ← components_dropWhile]
    rw [uncShare, uncTail, hdrop] at hshare ⊢
    rw [components_of_ne hshare]
  have hnonempty : String.ofList (uncServer (['/', '/'] ++ host)) ≠ "" :=
    fun heq => hserver (String.ofList_eq_empty_iff.mp heq)
  -- the bytes that are counted are those of the server, and those of the share and one separator
  have hbytes : bytesFrom (byteSize (uncServer (['/', '/'] ++ host)) +
      byteSize (uncShare (['/', '/'] ++ host)) + 1 + 2) (['/', '/'] ++ host) =
      bytesFrom (byteSize (uncShare (['/', '/'] ++ host)) + 1) (uncTail (['/', '/'] ++ host)) := by
    have hsplit : ['/', '/'] ++ host =
        (['/', '/'] ++ uncServer (['/', '/'] ++ host)) ++ uncTail (['/', '/'] ++ host) := by
      rw [List.append_assoc, uncServer, uncTail, hdrop, List.takeWhile_append_dropWhile]
    have hslashes : byteSize ['/', '/'] = 2 := rfl
    have hcut := bytesFrom_append (['/', '/'] ++ uncServer (['/', '/'] ++ host))
      (uncTail (['/', '/'] ++ host)) (byteSize (uncShare (['/', '/'] ++ host)) + 1)
    rw [← hsplit, byteSize_append, hslashes] at hcut
    rw [← hcut]
    congr 1
    omega
  have hstrip : stripPrefix "//" (['/', '/'] ++ host) = some host := by
    have hslashes : "//".toList.isPrefixOf (['/', '/'] ++ host) = true := rfl
    rw [stripPrefix, if_pos hslashes]
    rfl
  unfold windowsAnchor
  simp only [hstrip]
  rw [← components, hcomponents, List.headD_cons, List.drop_one, List.tail_cons, List.headD_cons,
    if_pos hnonempty, utf8ByteSize_ofList, utf8ByteSize_ofList, hbytes]
  rfl

/-! ## Behind the server and behind the share -/

theorem span_of_not_mem {u : List Char} (hu : '/' ∉ u) (v : List Char) :
    (u ++ '/' :: v).takeWhile (· ≠ '/') = u ∧ (u ++ '/' :: v).dropWhile (· ≠ '/') = '/' :: v := by
  have hall : ∀ c ∈ u, decide (c ≠ '/') = true := fun c hc =>
    decide_eq_true fun heq => hu (heq ▸ hc)
  constructor
  · rw [List.takeWhile_append_of_pos hall]
    exact List.append_nil u
  · rw [List.dropWhile_append_of_pos hall]
    rfl

/-- What stands before the first separator of a text, and what is from there on, in a longer text. -/
theorem span_append (a y : List Char) :
    (a ++ '/' :: y).takeWhile (· ≠ '/') = a.takeWhile (· ≠ '/') ∧
      (a ++ '/' :: y).dropWhile (· ≠ '/') = a.dropWhile (· ≠ '/') ++ '/' :: y := by
  rcases span_slash a with ⟨hslash, htake, hdrop⟩ | ⟨u, v, rfl, hslash, htake, hdrop⟩
  · rw [htake, hdrop]
    exact span_of_not_mem hslash y
  · rw [htake, hdrop, List.append_assoc, List.cons_append]
    exact span_of_not_mem hslash (v ++ '/' :: y)

theorem unc_append {a : List Char} (h : ['/', '/'] <+: a) (y : List Char) :
    uncServer (a ++ '/' :: y) = uncServer a ∧ uncTail (a ++ '/' :: y) = uncTail a ++ '/' :: y := by
  obtain ⟨host, rfl⟩ := h
  exact span_append host y

/-- A separator that is not leading stands behind both that are. -/
theorem slashes_start {a b : List Char} (h : ['/', '/'] <+: a ++ '/' :: b)
    (hlead : ∃ c ∈ a, c ≠ '/') : ['/', '/'] <+: a := by
  obtain ⟨c, hc, hne⟩ := hlead
  match a, h, hc with
  | [_], h, hc =>
    obtain rfl := List.mem_singleton.mp hc
    exact absurd (List.cons_prefix_cons.mp h).1.symm hne
  | _ :: _ :: a, h, _ =>
    obtain ⟨rfl, hrest⟩ := List.cons_prefix_cons.mp h
    obtain ⟨rfl, -⟩ := List.cons_prefix_cons.mp hrest
    exact ⟨a, rfl⟩

/-- The slashes that a text begins with, and what is behind them. -/
theorem span_separators (tail : List Char) : (∀ c ∈ tail, c = '/') ∨
    ∃ gap share, tail = gap ++ share ∧ share.takeWhile (· ≠ '/') ≠ [] ∧
      ∀ y, (tail ++ y).takeWhile (· = '/') = gap ∧ (tail ++ y).dropWhile (· = '/') = share ++ y := by
  induction tail with
  | nil => exact .inl (by simp)
  | cons c tail ih =>
    by_cases hc : c = '/'
    · subst hc
      rcases ih with hall | ⟨gap, share, rfl, hshare, hspan⟩
      · exact .inl (by simpa using hall)
      · refine .inr ⟨'/' :: gap, share, rfl, hshare, fun y => ?_⟩
        rw [List.cons_append, List.takeWhile_cons_of_pos rfl, List.dropWhile_cons_of_pos rfl,
          (hspan y).1, (hspan y).2]
        exact ⟨rfl, rfl⟩
    · refine .inr ⟨[], c :: tail, rfl, by simp [hc], fun y => ?_⟩
      rw [List.cons_append]
      exact ⟨List.takeWhile_cons_of_neg (by simpa using hc),
        List.dropWhile_cons_of_neg (by simpa using hc)⟩

theorem dropWhile_separators {tail : List Char} (h : ∀ c ∈ tail, c = '/') :
    tail.dropWhile (· = '/') = [] :=
  List.dropWhile_eq_nil_iff.mpr fun c hc => decide_eq_true (h c hc)

/-- A path that goes on behind its share: the server, the separators and the share are the same, and
the count of bytes cuts where it did. -/
theorem unc_extend {a : List Char} (h : IsUnc a) (y : List Char) : IsUnc (a ++ '/' :: y) ∧
    uncServer (a ++ '/' :: y) = uncServer a ∧ uncShare (a ++ '/' :: y) = uncShare a ∧
      uncGap (a ++ '/' :: y) = uncGap a ∧ behindShare (a ++ '/' :: y) =
        ((bytesFrom (byteSize (uncShare a) + 1) (uncTail a)).map (· ++ '/' :: y)).getD [] := by
  obtain ⟨hstart, hserver, hshare⟩ := h
  obtain ⟨hserver', htail'⟩ := unc_append hstart y
  rcases span_separators (uncTail a) with hall | ⟨gap, share, htail, -, hspan⟩
  · rw [uncShare, dropWhile_separators hall] at hshare
    exact absurd rfl hshare
  obtain ⟨hgap₀, hshare₀⟩ := hspan []
  obtain ⟨hgap₁, hshare₁⟩ := hspan ('/' :: y)
  rw [List.append_nil] at hgap₀ hshare₀
  rw [List.append_nil] at hshare₀
  have hshare' : uncShare (a ++ '/' :: y) = uncShare a := by
    rw [uncShare, uncShare, htail', hshare₁, hshare₀]
    exact (span_append share y).1
  have hgap' : uncGap (a ++ '/' :: y) = uncGap a := by
    rw [uncGap, uncGap, htail', hgap₁, hgap₀]
  -- a share stands behind one separator at least
  have hbytes : byteSize (uncShare a) + 1 ≤ byteSize (uncTail a) := by
    have hsplit : uncTail a = gap ++ (uncShare a ++ share.dropWhile (· ≠ '/')) := by
      rw [uncShare, hshare₀, List.takeWhile_append_dropWhile, ← htail]
    have hgap : 1 ≤ byteSize gap := by
      rcases span_slash (a.drop 2) with ⟨-, -, hdrop⟩ | ⟨u, v, -, -, -, hdrop⟩
      · rw [uncShare, uncTail, hdrop] at hshare
        exact absurd rfl hshare
      · have hslash : gap = '/' :: v.takeWhile (· = '/') := by
          rw [← hgap₀, uncTail, hdrop]
          rfl
        have hsize : ('/' : Char).utf8Size = 1 := rfl
        rw [hslash, byteSize_cons, hsize]
        omega
    rw [hsplit, byteSize_append, byteSize_append]
    omega
  refine ⟨⟨hstart.trans (List.prefix_append _ _), by rwa [hserver'], by rwa [hshare']⟩, hserver',
    hshare', hgap', ?_⟩
  rw [behindShare, hshare', htail', bytesFrom_append_of_le hbytes]

/-- A separator before the share stands in the gap. -/
theorem unc_gap {a : List Char} (h : ['/', '/'] <+: a) (hserver : uncServer a ≠ []) (hunc : ¬ IsUnc a)
    (b : List Char) : uncShare (a ++ '/' :: b) = uncShare ('/' :: '/' :: 's' :: '/' :: b) ∧
      uncGap (a ++ '/' :: b) = (uncTail a).length + 1 + (b.takeWhile (· = '/')).length := by
  obtain ⟨-, htail⟩ := unc_append h b
  rcases span_separators (uncTail a) with hall | ⟨gap, share, htail₀, hshare, hspan⟩
  · have hall' : ∀ c ∈ uncTail a, decide (c = '/') = true := fun c hc => decide_eq_true (hall c hc)
    constructor
    · rw [uncShare, htail, List.dropWhile_append_of_pos hall']
      rfl
    · rw [uncGap, htail, List.takeWhile_append_of_pos hall', List.length_append,
        List.takeWhile_cons_of_pos rfl, List.length_cons]
      omega
  · have hshare₀ := (hspan []).2
    rw [List.append_nil, List.append_nil] at hshare₀
    refine absurd ⟨h, hserver, ?_⟩ hunc
    rwa [uncShare, hshare₀]

/-! ## Texts and what is read of them -/

namespace PathServices

variable (os : PathServices)

/-- A path with forward slashes and in lower case. -/
def folded (path : List Char) : List Char :=
  (os.toLowercase (String.ofList (path.map fun c => if c = '\\' then '/' else c))).toList

/-- The text that the anchor is read from: on Windows without the verbatim prefix. -/
def text (platform : PathPlatform) (path : String) : List Char :=
  match platform with
  | .unix => path.toList
  | .windows =>
    match stripPrefix "//?/unc/" (os.folded path.toList) with
    | some rest => "//".toList ++ rest
    | none => (stripPrefix "//?/" (os.folded path.toList)).getD (os.folded path.toList)

/-- A separator of either kind is one of the text, where lower case is a matter of segments. -/
theorem folded_append (hlower : ∀ a b, os.toLowercase (a ++ "/" ++ b) =
    os.toLowercase a ++ "/" ++ os.toLowercase b) (hseparator : c = '/' ∨ c = '\\') (a b : List Char) :
    os.folded (a ++ c :: b) = os.folded a ++ '/' :: os.folded b := by
  have hslash : (if c = '\\' then '/' else c) = '/' := by
    rcases hseparator with rfl | rfl <;> rfl
  have hsplit : ∀ u v : List Char, String.ofList (u ++ '/' :: v) =
      String.ofList u ++ "/" ++ String.ofList v := fun u v => by
    rw [← String.toList_inj]
    simp
  rw [folded, List.map_append, List.map_cons, hslash, hsplit, hlower, folded, folded]
  simp

end PathServices

/-- What is read of a text. -/
def normalForm (platform : PathPlatform) (text : List Char) : NormalizedPath :=
  let (anchor, remainder) :=
    match platform with
    | .unix => (if text.head? = some '/' then .unixRoot else .relative, text)
    | .windows => windowsAnchor text
  { anchor, segments := normalizedSegments remainder anchor }

theorem PathServices.normalized_eq (os : PathServices) (path : String) (platform : PathPlatform) :
    os.normalized path platform = normalForm platform (os.text platform path) := by
  cases platform <;> rfl

/-- Another separator that is not leading, or a dot as a segment behind the root, the drive or the
share. -/
inductive Rewritten (platform : PathPlatform) : List Char → List Char → Prop
  | separator (hlead : ∃ c ∈ a, c ≠ '/') :
      Rewritten platform (a ++ '/' :: b) (a ++ '/' :: '/' :: b)
  | dot (hshare : platform = .windows → ['/', '/'] <+: a ++ '/' :: b → IsUnc a) :
      Rewritten platform (a ++ '/' :: b) (a ++ '/' :: '.' :: '/' :: b)
  | last (hb : b ≠ []) : Rewritten platform (a ++ '/' :: b) (a ++ '/' :: (b ++ ['/', '.']))
  | first (hplatform : platform = .unix) (hb : b.head? ≠ some '/') :
      Rewritten platform b ('.' :: '/' :: b)
  | drive (hplatform : platform = .windows) (hd : d.utf8Size = 1) (hb : b.head? ≠ some '/') :
      Rewritten platform (d :: ':' :: b) (d :: ':' :: '.' :: '/' :: b)

/-- A POSIX path, a path with or without a drive, or an UNC path that has a server and a share. -/
def Form (platform : PathPlatform) (text : List Char) : Prop :=
  platform = .windows → ¬ ['/', ':'] <+: text ∧ (['/', '/'] <+: text → IsUnc text)

/-! ## Paths that are no UNC paths -/

theorem stripPrefix_slashes (h : ¬ ['/', '/'] <+: path) : stripPrefix "//" path = none :=
  if_neg fun hstart => h (List.isPrefixOf_iff_prefix.mp hstart)

theorem windowsAnchor_drive (d : Char) (remainder : List Char) :
    windowsAnchor (d :: ':' :: remainder) = if d.utf8Size = 1 then
      (.windowsDrive (String.ofList [d, ':']) (remainder.head? = some '/'),
        remainder.dropWhile (· = '/'))
    else (.relative, d :: ':' :: remainder) := by
  have hstrip : stripPrefix "//" (d :: ':' :: remainder) = none :=
    stripPrefix_slashes fun h =>
      absurd (List.cons_prefix_cons.mp (List.cons_prefix_cons.mp h).2).1 (by decide)
  simp only [windowsAnchor, hstrip]

theorem windowsAnchor_root {rest : List Char} (hslash : ¬ ['/', '/'] <+: '/' :: rest)
    (hcolon : ¬ ['/', ':'] <+: '/' :: rest) : windowsAnchor ('/' :: rest) = (.windowsRoot, rest) := by
  simp only [windowsAnchor, stripPrefix_slashes hslash]
  split
  · rename_i remainder heq
    rw [List.cons.injEq] at heq
    exact absurd ⟨remainder, by rw [heq.2]; rfl⟩ hcolon
  · rename_i heq
    rw [List.cons.injEq] at heq
    rw [heq.2]
  · rename_i hroot
    exact absurd rfl (hroot rest)

theorem windowsAnchor_relative {c : Char} {rest : List Char} (hc : c ≠ '/')
    (hcolon : rest.head? ≠ some ':') : windowsAnchor (c :: rest) = (.relative, c :: rest) := by
  have hstrip : stripPrefix "//" (c :: rest) = none :=
    stripPrefix_slashes fun h => hc (List.cons_prefix_cons.mp h).1.symm
  simp only [windowsAnchor, hstrip]
  split
  · rename_i heq
    rw [List.cons.injEq] at heq
    exact absurd (by rw [heq.2]; rfl) hcolon
  · rename_i heq
    rw [List.cons.injEq] at heq
    exact absurd heq.1 hc
  · rfl

/-- What is read of a path with this anchor and this rest. -/
theorem normalForm_windows (h : windowsAnchor path = (anchor, rest)) :
    normalForm .windows path = { anchor, segments := (walk anchor [] rest).reverse } := by
  simp only [normalForm, h, normalizedSegments_eq]

theorem normalForm_root {u v : List Char} (hwalk : SameWalk u v)
    (hu : ¬ ['/', '/'] <+: '/' :: u ∧ ¬ ['/', ':'] <+: '/' :: u)
    (hv : ¬ ['/', '/'] <+: '/' :: v ∧ ¬ ['/', ':'] <+: '/' :: v) :
    normalForm .windows ('/' :: u) = normalForm .windows ('/' :: v) := by
  rw [normalForm_windows (windowsAnchor_root hu.1 hu.2),
    normalForm_windows (windowsAnchor_root hv.1 hv.2), hwalk]

/-- A path that begins with neither `//` nor `/:` is read alike when what follows a separator of it is. -/
theorem normalForm_plain {a y z : List Char} (hwalk : SameWalk y z)
    (hy : ¬ ['/', '/'] <+: a ++ '/' :: y ∧ ¬ ['/', ':'] <+: a ++ '/' :: y)
    (hz : ¬ ['/', '/'] <+: a ++ '/' :: z ∧ ¬ ['/', ':'] <+: a ++ '/' :: z) :
    normalForm .windows (a ++ '/' :: y) = normalForm .windows (a ++ '/' :: z) := by
  have hrelative : windowsAnchor (a ++ '/' :: y) = (.relative, a ++ '/' :: y) →
      windowsAnchor (a ++ '/' :: z) = (.relative, a ++ '/' :: z) →
        normalForm .windows (a ++ '/' :: y) = normalForm .windows (a ++ '/' :: z) := fun h₁ h₂ => by
    rw [normalForm_windows h₁, normalForm_windows h₂, hwalk.append a]
  match a with
  | [] => exact normalForm_root hwalk hy hz
  | [c] =>
    have hc : c ≠ '/' := by
      rintro rfl
      exact hy.1 ⟨y, rfl⟩
    exact hrelative (windowsAnchor_relative hc (by simp)) (windowsAnchor_relative hc (by simp))
  | c :: d :: a =>
    by_cases hd : d = ':'
    · subst hd
      by_cases hc : c.utf8Size = 1
      · have hdrive : ∀ x, windowsAnchor (c :: ':' :: a ++ '/' :: x) =
            (.windowsDrive (String.ofList [c, ':']) ((a ++ ['/']).head? = some '/'),
              (a ++ '/' :: x).dropWhile (· = '/')) := fun x => by
          have hhead : (a ++ '/' :: x).head? = (a ++ ['/']).head? := by cases a <;> rfl
          rw [List.cons_append, List.cons_append, windowsAnchor_drive, if_pos hc, hhead]
        rw [normalForm_windows (hdrive y), normalForm_windows (hdrive z), walk_dropWhile,
          walk_dropWhile, hwalk.append a]
      · have hdrive : ∀ x, windowsAnchor (c :: ':' :: a ++ '/' :: x) =
            (.relative, c :: ':' :: a ++ '/' :: x) := fun x => by
          rw [List.cons_append, List.cons_append, windowsAnchor_drive, if_neg hc]
        exact hrelative (hdrive y) (hdrive z)
    · by_cases hc : c = '/'
      · subst hc
        exact normalForm_root (hwalk.append (d :: a)) hy hz
      · have hcolon : ∀ x, (d :: a ++ '/' :: x).head? ≠ some ':' := fun x => by simp [hd]
        exact hrelative (windowsAnchor_relative hc (hcolon y)) (windowsAnchor_relative hc (hcolon z))

/-! ## Paths of either kind -/

theorem normalForm_unc (h : IsUnc path) : normalForm .windows path =
    { anchor := .windowsUnc (String.ofList (uncServer path)) (String.ofList (uncShare path)),
      segments := (walk (.windowsUnc (String.ofList (uncServer path)) (String.ofList (uncShare path)))
        [] (behindShare path)).reverse } :=
  normalForm_windows (windowsAnchor_unc h)

/-- The count of bytes takes a rest with the same segments, where the number of separators between
server and share is another one. -/
def Safe (platform : PathPlatform) (text text' : List Char) : Prop :=
  platform = .windows → IsUnc text → uncGap text' ≠ uncGap text →
    normalizedSegments (behindShare text') (windowsAnchor text).1 =
      normalizedSegments (behindShare text) (windowsAnchor text).1

theorem normalForm_behind {a y z : List Char} (h : IsUnc a) (hwalk : SameWalk y z) :
    uncGap (a ++ '/' :: y) = uncGap (a ++ '/' :: z) ∧
      normalForm .windows (a ++ '/' :: y) = normalForm .windows (a ++ '/' :: z) := by
  obtain ⟨hunc, hserver, hshare, hgap, hbehind⟩ := unc_extend h y
  obtain ⟨hunc', hserver', hshare', hgap', hbehind'⟩ := unc_extend h z
  refine ⟨hgap.trans hgap'.symm, ?_⟩
  rw [normalForm_unc hunc, normalForm_unc hunc', hserver, hserver', hshare, hshare', hbehind, hbehind']
  cases bytesFrom (byteSize (uncShare a) + 1) (uncTail a) with
  | none => rfl
  | some rest =>
    rw [Option.map_some, Option.map_some, Option.getD_some, Option.getD_some, hwalk.append rest]

theorem normalForm_last {path : List Char} (h : IsUnc path) :
    uncGap (path ++ ['/', '.']) = uncGap path ∧
      normalForm .windows (path ++ ['/', '.']) = normalForm .windows path := by
  obtain ⟨hunc, hserver, hshare, hgap, hbehind⟩ := unc_extend h ['.']
  refine ⟨hgap, ?_⟩
  rw [normalForm_unc hunc, normalForm_unc h, hserver, hshare, hbehind, behindShare]
  cases bytesFrom (byteSize (uncShare path) + 1) (uncTail path) with
  | none => rfl
  | some rest => rw [Option.map_some, Option.getD_some, Option.getD_some, sameWalk_last rest]

/-- Another text that is read alike and has as many separators between server and share. -/
def Alike (platform : PathPlatform) (text text' : List Char) : Prop :=
  normalForm platform text' = normalForm platform text ∧
    (platform = .windows → IsUnc text → uncGap text' = uncGap text)

theorem Alike.iff_safe (h : Alike platform text text') :
    normalForm platform text' = normalForm platform text ↔ Safe platform text text' :=
  iff_of_true h.1 fun hwindows hunc hgap => absurd (h.2 hwindows hunc) hgap

/-- The first two characters are of the text up to its separator. -/
theorem pair_start {a : List Char} (ha : a ≠ []) (h : [c, d] <+: a ++ '/' :: z) (y : List Char) :
    [c, d] <+: a ++ '/' :: y := by
  match a, ha with
  | [_], _ =>
    obtain ⟨rfl, hrest⟩ := List.cons_prefix_cons.mp h
    obtain ⟨rfl, -⟩ := List.cons_prefix_cons.mp hrest
    exact ⟨y, rfl⟩
  | _ :: _ :: a, _ =>
    obtain ⟨rfl, hrest⟩ := List.cons_prefix_cons.mp h
    obtain ⟨rfl, -⟩ := List.cons_prefix_cons.mp hrest
    exact ⟨a ++ '/' :: y, rfl⟩

/-- On Windows: behind the share, or in a path that is no UNC path. -/
theorem alike_windows {a y z : List Char} (hwalk : SameWalk z y)
    (hform : Form .windows (a ++ '/' :: y)) (hshare : ['/', '/'] <+: a ++ '/' :: y → IsUnc a)
    (hfirst : a = [] → ∀ c, ['/', c] <+: '/' :: z → ['/', c] <+: '/' :: y ∨ c = '.') :
    Alike .windows (a ++ '/' :: y) (a ++ '/' :: z) := by
  by_cases hslashes : ['/', '/'] <+: a ++ '/' :: y
  · obtain ⟨hgap, hnormal⟩ := normalForm_behind (hshare hslashes) hwalk
    exact ⟨hnormal, fun _ _ => hgap⟩
  have hnone : ∀ c, c ≠ '.' → ¬ ['/', c] <+: a ++ '/' :: y → ¬ ['/', c] <+: a ++ '/' :: z := by
    intro c hc hy hz
    by_cases ha : a = []
    · subst ha
      rcases hfirst rfl c hz with h | h
      · exact hy h
      · exact hc h
    · exact hy (pair_start ha hz y)
  have hcolon := (hform rfl).1
  exact ⟨normalForm_plain hwalk ⟨hnone _ (by decide) hslashes, hnone _ (by decide) hcolon⟩
    ⟨hslashes, hcolon⟩, fun _ hunc => absurd hunc.1 hslashes⟩

/-- On POSIX the anchor is a matter of the first character. -/
theorem alike_unix (hwalk : SameWalk text' text) (hhead : text'.head? = text.head?) :
    Alike .unix text text' := by
  refine ⟨?_, fun h => absurd h (by decide)⟩
  simp only [normalForm, normalizedSegments_eq, hhead]
  rw [hwalk]

/-- A separator before the share. -/
theorem normalForm_gap {a b : List Char} (hlead : ∃ c ∈ a, c ≠ '/') (hshare : ¬ IsUnc a)
    (hunc : IsUnc (a ++ '/' :: b)) :
    normalForm .windows (a ++ '/' :: '/' :: b) = normalForm .windows (a ++ '/' :: b) ↔
      Safe .windows (a ++ '/' :: b) (a ++ '/' :: '/' :: b) := by
  have hslashes := slashes_start hunc.1 hlead
  have hserver := (unc_append hslashes b).1
  have hserver' := (unc_append hslashes ('/' :: b)).1
  have hne : uncServer a ≠ [] := hserver ▸ hunc.2.1
  obtain ⟨hshare₁, hgap₁⟩ := unc_gap hslashes hne hshare b
  obtain ⟨hshare₂, hgap₂⟩ := unc_gap hslashes hne hshare ('/' :: b)
  have hsame : uncShare (a ++ '/' :: '/' :: b) = uncShare (a ++ '/' :: b) := hshare₂.trans hshare₁.symm
  have hunc' : IsUnc (a ++ '/' :: '/' :: b) :=
    ⟨hslashes.trans (List.prefix_append _ _), by rwa [hserver'], by rw [hsame]; exact hunc.2.2⟩
  have hgap : uncGap (a ++ '/' :: '/' :: b) ≠ uncGap (a ++ '/' :: b) := by
    rw [hgap₁, hgap₂, List.takeWhile_cons_of_pos rfl, List.length_cons]
    omega
  rw [normalForm_unc hunc, normalForm_unc hunc', hserver', hsame, ← hserver, Safe, windowsAnchor_unc hunc]
  simp only [NormalizedPath.mk.injEq, true_and, normalizedSegments_eq, hunc, hgap, ne_eq, not_false_eq_true,
    forall_const]

theorem normalForm_rewritten (h : Rewritten platform text text') (hform : Form platform text) :
    normalForm platform text' = normalForm platform text ↔ Safe platform text text' := by
  cases h with
  | @separator a b hlead =>
    have ha : a ≠ [] := by
      rintro rfl
      obtain ⟨_, hc, _⟩ := hlead
      cases hc
    cases platform with
    | unix =>
      refine (alike_unix ((sameWalk_separator b).append a) ?_).iff_safe
      cases a <;> rfl
    | windows =>
      by_cases hshare : ['/', '/'] <+: a ++ '/' :: b → IsUnc a
      · exact (alike_windows (sameWalk_separator b) hform hshare fun h => absurd h ha).iff_safe
      · obtain ⟨hslashes, hunc⟩ := Classical.not_imp.mp hshare
        exact normalForm_gap hlead hunc ((hform rfl).2 hslashes)
  | @dot a b hshare =>
    cases platform with
    | unix =>
      refine (alike_unix ((sameWalk_dot b).append a) ?_).iff_safe
      cases a <;> rfl
    | windows =>
      refine (alike_windows (sameWalk_dot b) hform (hshare rfl) fun _ c hc => .inr ?_).iff_safe
      exact (List.cons_prefix_cons.mp (List.cons_prefix_cons.mp hc).2).1
  | @last b a hb =>
    cases platform with
    | unix =>
      refine (alike_unix ((sameWalk_last b).append a) ?_).iff_safe
      cases a <;> rfl
    | windows =>
      by_cases hslashes : ['/', '/'] <+: a ++ '/' :: b
      · have hlast := normalForm_last ((hform rfl).2 hslashes)
        rw [List.append_assoc] at hlast
        exact Alike.iff_safe ⟨hlast.2, fun _ _ => hlast.1⟩
      · refine (alike_windows (sameWalk_last b) hform (fun h => absurd h hslashes) fun _ c hc =>
          .inl ?_).iff_safe
        cases b with
        | nil => exact absurd rfl hb
        | cons c' b =>
          obtain ⟨rfl, -⟩ := List.cons_prefix_cons.mp (List.cons_prefix_cons.mp hc).2
          exact ⟨b, rfl⟩
  | first hplatform hb =>
    subst hplatform
    refine Alike.iff_safe ⟨?_, fun h => absurd h (by decide)⟩
    simp only [normalForm, normalizedSegments_eq, sameWalk_dot text _ _, if_neg hb]
    rfl
  | @drive d b hplatform hd hb =>
    subst hplatform
    have hdrop : b.dropWhile (· = '/') = b := by
      cases b with
      | nil => rfl
      | cons c b => exact List.dropWhile_cons_of_neg (by simpa using hb)
    have hanchor := windowsAnchor_drive d b
    have hanchor' := windowsAnchor_drive d ('.' :: '/' :: b)
    rw [if_pos hd, hdrop, decide_eq_false hb] at hanchor
    rw [if_pos hd] at hanchor'
    refine Alike.iff_safe ⟨?_, fun _ hunc => ?_⟩
    · rw [normalForm_windows hanchor, normalForm_windows hanchor']
      exact congrArg (fun segments => NormalizedPath.mk _ segments.reverse) (sameWalk_dot b _ [])
    · exact absurd (List.cons_prefix_cons.mp (List.cons_prefix_cons.mp hunc.1).2).1 (by decide)

end CcReminder
