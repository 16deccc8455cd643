import CcReminder.Projects.Paths

/-!
# The longest path above a directory

Where no two registered paths are the same the longest path above a directory is one path, whatever the
order of the list. A directory that is left through `..` is not above what is outside it.
-/

set_option autoImplicit true

namespace CcReminder

open Lib

namespace PathServices

variable (os : PathServices)

/-- The same services with another disk. -/
def withDisk (canonicalize : String → Option String) : PathServices := { os with canonicalize }

/-- A directory that the disk does not have: it is read as it is written. -/
def Missing (platform : PathPlatform) (cwd : String) : Prop :=
  platform = .windows → os.canonicalize cwd = none

/-- The roots and aliases are pairwise distinct. -/
def Distinct (platform : PathPlatform) (projects : List ProjectRegistration) : Prop :=
  ((projects.flatMap ProjectRegistration.paths).map (os.normalized · platform)).Nodup

/-- A registered path is the directory or above it. -/
def Above (platform : PathPlatform) (cwd path : String) : Prop :=
  isPrefix (os.normalized path platform) (os.normalized cwd platform) = true

/-- The number of segments of a path. -/
def depth (platform : PathPlatform) (path : String) : Nat :=
  (os.normalized path platform).segments.length

/-- The project that owns the longest path above a directory is found, and none where there is no such
path. -/
structure OwnsLongest (platform : PathPlatform) (cwd : String) (projects : List ProjectRegistration) :
    Prop where
  found : ∀ project ∈ projects, ∀ path ∈ project.paths, os.Above platform cwd path →
    (∀ project' ∈ projects, ∀ path' ∈ project'.paths, os.Above platform cwd path' →
      os.depth platform path' ≤ os.depth platform path) →
    os.resolveProject cwd projects platform = .matched project.id project.displayName
  missed : (∀ project ∈ projects, ∀ path ∈ project.paths, ¬ os.Above platform cwd path) →
    os.resolveProject cwd projects platform = .unmatched

/-- All registered paths, each with its project. -/
def registered (platform : PathPlatform) (projects : List ProjectRegistration) :
    List (ProjectRegistration × NormalizedPath) :=
  projects.flatMap fun project => project.paths.map fun path => (project, os.normalized path platform)

variable {os}

theorem queried_eq (h : os.Missing platform cwd) : os.queried cwd platform = os.normalized cwd platform := by
  cases platform with
  | unix => rfl
  | windows => rw [queried, h rfl, Option.getD_none]

theorem matchesOf_eq (cwd : NormalizedPath) (platform : PathPlatform)
    (projects : List ProjectRegistration) : os.matchesOf cwd platform projects =
      (os.registered platform projects).filter fun m => isPrefix m.2 cwd :=
  List.filter_flatMap.symm

theorem mem_registered : m ∈ os.registered platform projects ↔
    ∃ project ∈ projects, ∃ path ∈ project.paths, (project, os.normalized path platform) = m := by
  simp only [registered, List.mem_flatMap, List.mem_map]

theorem Distinct.inj (h : os.Distinct platform projects) :
    ∀ a ∈ os.registered platform projects, ∀ b ∈ os.registered platform projects, a.2 = b.2 → a = b := by
  have hmap : (os.registered platform projects).map Prod.snd =
      (projects.flatMap ProjectRegistration.paths).map (os.normalized · platform) := by
    rw [registered, List.map_flatMap, List.map_flatMap]
    simp only [List.map_map, Function.comp_def]
  intro a ha b hb heq
  exact List.inj_on_of_nodup_map (hmap ▸ h) ha hb heq

theorem isPrefix_iff {root path : NormalizedPath} : isPrefix root path = true ↔
    root.anchor = path.anchor ∧ root.segments <+: path.segments := by
  simp [isPrefix]

/-- Two paths above one directory that are as long are the same. -/
theorem eq_of_isPrefix {a b cwd : NormalizedPath} (ha : isPrefix a cwd = true) (hb : isPrefix b cwd = true)
    (hlen : a.segments.length = b.segments.length) : a = b := by
  obtain ⟨haanchor, ha⟩ := isPrefix_iff.mp ha
  obtain ⟨hbanchor, hb⟩ := isPrefix_iff.mp hb
  have hsegments : a.segments = b.segments :=
    (List.prefix_of_prefix_length_le ha hb hlen.le).eq_of_length hlen
  obtain ⟨_, _⟩ := a
  obtain ⟨_, _⟩ := b
  simp_all

theorem Distinct.inj_length (h : os.Distinct platform projects) {cwd : NormalizedPath} :
    ∀ a ∈ os.matchesOf cwd platform projects, ∀ b ∈ os.matchesOf cwd platform projects,
      a.2.segments.length = b.2.segments.length → a = b := by
  intro a ha b hb hlen
  rw [matchesOf_eq, List.mem_filter] at ha hb
  exact h.inj a ha.1 b hb.1 (eq_of_isPrefix ha.2 hb.2 hlen)

theorem ownsLongest (hcwd : os.Missing platform cwd) (h : os.Distinct platform projects) :
    os.OwnsLongest platform cwd projects where
  found := by
    intro project hproject path hpath habove hlongest
    have hmem : (project, os.normalized path platform) ∈
        os.matchesOf (os.normalized cwd platform) platform projects := by
      rw [matchesOf_eq, List.mem_filter]
      exact ⟨mem_registered.mpr ⟨project, hproject, path, hpath, rfl⟩, habove⟩
    rw [resolveProject, queried_eq hcwd]
    cases hmax : maxByKey (fun m : ProjectRegistration × NormalizedPath => m.2.segments.length)
        (os.matchesOf (os.normalized cwd platform) platform projects) with
    | none =>
      rw [maxByKey_eq_none hmax] at hmem
      cases hmem
    | some m =>
      obtain ⟨before, after, hsplit, hbefore, hafter⟩ := maxByKey_eq_some_iff.mp hmax
      have hm := mem_of_maxByKey hmax
      have hle : os.depth platform path ≤ m.2.segments.length := by
        rw [hsplit, List.mem_append, List.mem_cons] at hmem
        rcases hmem with hmem | rfl | hmem
        · exact hbefore _ hmem
        · exact Nat.le_refl _
        · exact (hafter _ hmem).le
      have hge : m.2.segments.length ≤ os.depth platform path := by
        have hm' := hm
        rw [matchesOf_eq, List.mem_filter] at hm'
        obtain ⟨project', hproject', path', hpath', rfl⟩ := mem_registered.mp hm'.1
        exact hlongest project' hproject' path' hpath' hm'.2
      obtain rfl := h.inj_length _ hmem _ hm (Nat.le_antisymm hle hge)
      rfl
  missed := by
    intro hnone
    have hempty : os.matchesOf (os.normalized cwd platform) platform projects = [] := by
      rw [matchesOf_eq, List.filter_eq_nil_iff]
      intro m hm
      obtain ⟨project, hproject, path, hpath, rfl⟩ := mem_registered.mp hm
      exact hnone project hproject path hpath
    rw [resolveProject, queried_eq hcwd, hempty]
    rfl

theorem resolveProject_perm (h : os.Distinct platform projects) (hperm : projects.Perm projects') :
    os.resolveProject cwd projects platform = os.resolveProject cwd projects' platform := by
  have hmatches : (os.matchesOf (os.queried cwd platform) platform projects).Perm
      (os.matchesOf (os.queried cwd platform) platform projects') := hperm.flatMap_right _
  simp only [resolveProject, maxByKey_perm hmatches h.inj_length]

/-! ## Another text of a path -/

/-- The same project, in the paths of which one text may stand for another. -/
def SameButPath (t t' : String) (p q : ProjectRegistration) : Prop :=
  p.id = q.id ∧ p.displayName = q.displayName ∧
    List.Forall₂ (fun path path' => path' = path ∨ path = t ∧ path' = t') p.paths q.paths

theorem map_normalized_of_sameButPath (h : SameButPath t t' p q)
    (ht : os.normalized t' platform = os.normalized t platform) :
    q.paths.map (os.normalized · platform) = p.paths.map (os.normalized · platform) := by
  have hmap : ∀ {paths paths' : List String},
      List.Forall₂ (fun path path' => path' = path ∨ path = t ∧ path' = t') paths paths' →
        paths'.map (os.normalized · platform) = paths.map (os.normalized · platform) := by
    intro paths paths' hpaths
    induction hpaths with
    | nil => rfl
    | cons hpath _ ih =>
      rw [List.map_cons, List.map_cons, ih]
      rcases hpath with rfl | ⟨rfl, rfl⟩
      · rfl
      · rw [ht]
  exact hmap h.2.2

theorem map_named_congr {p q : ProjectRegistration} (hid : p.id = q.id)
    (hname : p.displayName = q.displayName)
    (hpaths : q.paths.map (os.normalized · platform) = p.paths.map (os.normalized · platform))
    (cwd : NormalizedPath) : (os.matchesOf cwd platform [p]).map named =
      (os.matchesOf cwd platform [q]).map named := by
  have hmap : ∀ r : ProjectRegistration, (os.matchesOf cwd platform [r]).map named =
      ((r.paths.map (os.normalized · platform)).filter (isPrefix · cwd)).map fun path =>
        ((r.id, r.displayName), path.segments.length) := fun r => by
    rw [map_named_matchesOf, List.filter_map, List.map_map]
    rfl
  rw [hmap, hmap, hid, hname, hpaths]

theorem resolveProject_paths (h : List.Forall₂ (SameButPath t t') projects projects')
    (ht : os.normalized t' platform = os.normalized t platform) :
    os.resolveProject cwd projects platform = os.resolveProject cwd projects' platform := by
  have hnamed : (os.matchesOf (os.queried cwd platform) platform projects).map named =
      (os.matchesOf (os.queried cwd platform) platform projects').map named := by
    have hcons : ∀ p ps, os.matchesOf (os.queried cwd platform) platform (p :: ps) =
        os.matchesOf (os.queried cwd platform) platform [p] ++
          os.matchesOf (os.queried cwd platform) platform ps := fun p ps => by
      simp only [matchesOf, List.flatMap_cons, List.flatMap_nil, List.append_nil]
    induction h with
    | nil => rfl
    | @cons p q ps qs hpq _ ih =>
      rw [hcons, hcons q, List.map_append, List.map_append, ih,
        map_named_congr hpq.1 hpq.2.1 (map_normalized_of_sameButPath hpq ht)]
  rw [resolveProject_eq, resolveProject_eq, hnamed]

/-! ## Left directories -/

end PathServices

/-- A directory after one segment: `..` is the directory above, and there is none above the root. -/
def enter (directory : List String) (segment : String) : List String :=
  if segment = "" ∨ segment = "." then directory
  else if segment = ".." then directory.dropLast
  else directory ++ [segment]

/-- Behind a root `..` leads to the directory above. -/
theorem pushSegment_enter (h : anchor.keepsParents = false) {segments : List String}
    (hparents : ".." ∉ segments) (segment : String) :
    (pushSegment anchor segments segment).reverse = enter segments.reverse segment ∧
      ".." ∉ pushSegment anchor segments segment := by
  by_cases hdot : segment = "" ∨ segment = "."
  · simp only [pushSegment, enter, if_pos hdot]
    exact ⟨trivial, hparents⟩
  by_cases hparent : segment = ".."
  · cases segments with
    | nil =>
      simp only [pushSegment, enter, if_neg hdot, if_pos hparent, h]
      exact ⟨rfl, List.not_mem_nil⟩
    | cons last rest =>
      have hlast : last ≠ ".." := fun heq => hparents (heq ▸ List.mem_cons_self)
      simp only [pushSegment, enter, if_neg hdot, if_pos hparent, if_pos hlast]
      refine ⟨?_, fun hmem => hparents (List.mem_cons_of_mem _ hmem)⟩
      rw [List.reverse_cons, List.dropLast_concat]
  · simp only [pushSegment, enter, if_neg hdot, if_neg hparent]
    exact ⟨List.reverse_cons, by simp [hparents, Ne.symm hparent]⟩

theorem walk_enter (h : anchor.keepsParents = false) {segments : List String} (hparents : ".." ∉ segments)
    (path : List Char) :
    (walk anchor segments path).reverse = (splitSlash path).foldl enter segments.reverse ∧
      ".." ∉ walk anchor segments path := by
  rw [walk]
  induction splitSlash path generalizing segments with
  | nil => exact ⟨rfl, hparents⟩
  | cons segment rest ih =>
    obtain ⟨hreverse, hparents'⟩ := pushSegment_enter h hparents segment
    rw [List.foldl_cons, List.foldl_cons, ← hreverse]
    exact ih hparents'

/-- A path that begins at a root and goes on from a directory. -/
theorem segments_enter (h : anchor.keepsParents = false) (base tail : List Char) :
    (walk anchor [] (base ++ '/' :: tail)).reverse =
      (splitSlash tail).foldl enter (walk anchor [] base).reverse := by
  rw [walk_append]
  exact (walk_enter h (walk_enter h List.not_mem_nil base).2 tail).1

/-- What is read of a path that goes on: the directory that is entered from it, unless the path is its
anchor. -/
theorem normalForm_enter {base : List Char} (hform : Form platform base)
    (habsolute : (normalForm platform base).anchor.keepsParents = false) (tail : List Char) :
    (normalForm platform base).segments = [] ∨
      (normalForm platform (base ++ '/' :: tail)).segments =
        (splitSlash tail).foldl enter (normalForm platform base).segments := by
  cases platform with
  | unix =>
    have hhead : base.head? = some '/' := by
      by_contra hhead
      simp only [normalForm, if_neg hhead] at habsolute
      cases habsolute
    have hhead' : (base ++ '/' :: tail).head? = some '/' := by
      cases base with
      | nil => rfl
      | cons c base => exact hhead
    refine .inr ?_
    simp only [normalForm, hhead, hhead', normalizedSegments_eq]
    exact segments_enter rfl base tail
  | windows =>
    obtain ⟨hcolon, hunc⟩ := hform rfl
    by_cases hslashes : ['/', '/'] <+: base
    · obtain ⟨hunc', hserver, hshare, -, hbehind⟩ := unc_extend (hunc hslashes) tail
      rw [normalForm_unc (hunc hslashes), normalForm_unc hunc', hserver, hshare, hbehind, behindShare]
      cases bytesFrom (byteSize (uncShare base) + 1) (uncTail base) with
      | none => exact .inl rfl
      | some rest =>
        refine .inr ?_
        rw [Option.map_some, Option.getD_some, Option.getD_some]
        exact segments_enter rfl rest tail
    rcases base with _ | ⟨c, _ | ⟨d, rest⟩⟩
    · cases habsolute
    · by_cases hc : c = '/'
      · subst hc
        exact .inl rfl
      · rw [normalForm_windows (windowsAnchor_relative hc (by simp))] at habsolute
        cases habsolute
    · by_cases hd : d = ':'
      · subst hd
        by_cases hc : c.utf8Size = 1
        · have hanchor := windowsAnchor_drive c rest
          have hanchor' := windowsAnchor_drive c (rest ++ '/' :: tail)
          rw [if_pos hc] at hanchor hanchor'
          have hhead : rest.head? = some '/' := by
            by_contra hhead
            rw [normalForm_windows hanchor, decide_eq_false hhead] at habsolute
            cases habsolute
          have hhead' : (rest ++ '/' :: tail).head? = some '/' := by
            cases rest with
            | nil => rfl
            | cons _ _ => exact hhead
          rw [decide_eq_true hhead] at hanchor
          rw [decide_eq_true hhead'] at hanchor'
          refine .inr ?_
          rw [List.cons_append, List.cons_append, normalForm_windows hanchor,
            normalForm_windows hanchor', walk_dropWhile, walk_dropWhile]
          exact segments_enter rfl rest tail
        · rw [normalForm_windows (by rw [windowsAnchor_drive, if_neg hc])] at habsolute
          cases habsolute
      · by_cases hc : c = '/'
        · subst hc
          have hnone : ∀ c', ¬ ['/', c'] <+: '/' :: d :: rest →
              ¬ ['/', c'] <+: '/' :: d :: rest ++ '/' :: tail := fun c' hbase h => by
            obtain ⟨rfl, -⟩ := List.cons_prefix_cons.mp (List.cons_prefix_cons.mp h).2
            exact hbase ⟨rest, rfl⟩
          have hanchor : windowsAnchor ('/' :: (d :: rest ++ '/' :: tail)) =
              (.windowsRoot, d :: rest ++ '/' :: tail) :=
            windowsAnchor_root (hnone _ hslashes) (hnone _ hcolon)
          refine .inr ?_
          rw [normalForm_windows (windowsAnchor_root hslashes hcolon), List.cons_append,
            normalForm_windows hanchor]
          exact segments_enter rfl (d :: rest) tail
        · rw [normalForm_windows (windowsAnchor_relative hc (by simp [hd]))] at habsolute
          cases habsolute

namespace PathServices

variable (os : PathServices)

/-- A directory that is written behind a root and that `..` leads out of it. -/
def Leaves (platform : PathPlatform) (root cwd : String) : Prop :=
  ∃ tail, os.text platform cwd = os.text platform root ++ '/' :: tail ∧
    ¬ (os.normalized root platform).segments <+:
      (splitSlash tail).foldl enter (os.normalized root platform).segments

variable {os}

theorem not_above_of_leaves (hform : Form platform (os.text platform root))
    (habsolute : (os.normalized root platform).anchor.keepsParents = false)
    (h : os.Leaves platform root cwd) : ¬ os.Above platform cwd root := by
  obtain ⟨tail, hcwd, houtside⟩ := h
  rw [normalized_eq] at habsolute houtside
  rw [Above, normalized_eq, normalized_eq, hcwd, isPrefix_iff]
  rintro ⟨-, hstart⟩
  rcases normalForm_enter hform habsolute tail with hempty | henter
  · rw [hempty] at houtside
    exact houtside List.nil_prefix
  · exact houtside (henter ▸ hstart)

/-! ## What is asked of the resolver -/

/-- The longest path above a directory is found, in any order of the list; it does not matter which of two
texts stands for a directory, a root or an alias; and a root is not above a directory outside it. -/
structure Proper (os : PathServices) (platform : PathPlatform) (t t' : String) : Prop where
  longest : ∀ disk cwd projects, (os.withDisk disk).Missing platform cwd →
    os.Distinct platform projects → (os.withDisk disk).OwnsLongest platform cwd projects
  order : ∀ disk cwd projects projects', (os.withDisk disk).Missing platform cwd →
    os.Distinct platform projects → projects.Perm projects' →
      (os.withDisk disk).resolveProject cwd projects platform =
        (os.withDisk disk).resolveProject cwd projects' platform
  inCwd : ∀ disk projects, (os.withDisk disk).Missing platform t →
    (os.withDisk disk).Missing platform t' → os.Distinct platform projects →
      (os.withDisk disk).resolveProject t' projects platform =
        (os.withDisk disk).resolveProject t projects platform
  inPaths : ∀ disk cwd projects projects', (os.withDisk disk).Missing platform cwd →
    os.Distinct platform projects → List.Forall₂ (SameButPath t t') projects projects' →
      (os.withDisk disk).resolveProject cwd projects' platform =
        (os.withDisk disk).resolveProject cwd projects platform
  left : ∀ root cwd, Form platform (os.text platform root) →
    (os.normalized root platform).anchor.keepsParents = false →
      os.Leaves platform root cwd → ¬ os.Above platform cwd root

/-- A project with one path. -/
def single (path : String) : ProjectRegistration where
  id := 1
  displayName := "app"
  canonicalRoot := path
  aliases := []

theorem distinct_single (os : PathServices) (platform : PathPlatform) (path : String) :
    os.Distinct platform [single path] := List.nodup_singleton _

/-- One project is found where its root is above the directory. -/
theorem resolveProject_single (h : os.Missing platform cwd) (path : String) :
    os.resolveProject cwd [single path] platform = .matched 1 "app" ↔ os.Above platform cwd path := by
  have hlongest := ownsLongest h (os.distinct_single platform path)
  constructor
  · intro hmatched
    by_contra habove
    rw [hlongest.missed] at hmatched
    · cases hmatched
    · intro project hproject path' hpath'
      obtain rfl := List.mem_singleton.mp hproject
      obtain rfl := List.mem_singleton.mp hpath'
      exact habove
  · intro habove
    refine hlongest.found (single path) List.mem_cons_self path List.mem_cons_self habove ?_
    intro project hproject path' hpath' _
    obtain rfl := List.mem_singleton.mp hproject
    obtain rfl := List.mem_singleton.mp hpath'
    exact Nat.le_refl _

theorem above_refl (os : PathServices) (platform : PathPlatform) (path : String) :
    os.Above platform path path := isPrefix_iff.mpr ⟨rfl, List.prefix_rfl⟩

theorem proper_of_normalized (h : os.normalized t' platform = os.normalized t platform) :
    Proper os platform t t' where
  longest := fun _ _ _ hcwd hdistinct => ownsLongest hcwd hdistinct
  order := fun _ _ _ _ _ hdistinct hperm => resolveProject_perm hdistinct hperm
  inCwd := by
    intro disk projects ht ht' _
    have hqueried : (os.withDisk disk).queried t' platform = (os.withDisk disk).queried t platform := by
      rw [queried_eq ht, queried_eq ht']
      exact h
    rw [resolveProject, resolveProject, hqueried]
  inPaths := by
    intro disk cwd projects projects' _ _ hpaths
    have hdisk : (os.withDisk disk).normalized t' platform = (os.withDisk disk).normalized t platform := h
    exact (resolveProject_paths hpaths hdisk).symm
  left := fun _ _ hform habsolute hleaves => not_above_of_leaves hform habsolute hleaves

/-- A text that finds the same root as another, and that is found as it is, is read alike. -/
theorem normalized_of_proper (h : Proper os platform t t') :
    os.normalized t' platform = os.normalized t platform := by
  have hmissing : ∀ path, (os.withDisk fun _ => none).Missing platform path := fun _ _ => rfl
  have hfound : ∀ path, os.Above platform t path ↔ os.Above platform t' path := fun path => by
    have hsame := h.inCwd (fun _ => none) [single path] (hmissing t) (hmissing t')
      (os.distinct_single platform path)
    exact (resolveProject_single (hmissing t) path).symm.trans
      ((iff_of_eq (congrArg (· = _) hsame.symm)).trans (resolveProject_single (hmissing t') path))
  obtain ⟨hanchor, hstart⟩ := isPrefix_iff.mp ((hfound t).mp (os.above_refl platform t))
  obtain ⟨-, hstart'⟩ := isPrefix_iff.mp ((hfound t').mpr (os.above_refl platform t'))
  have hsegments := hstart.eq_of_length (Nat.le_antisymm hstart.length_le hstart'.length_le)
  exact (NormalizedPath.mk.injEq ..).mpr ⟨hanchor.symm, hsegments.symm⟩

/-- The resolver does what is asked of it for a text with another separator or dot, unless the separator
stands between the server and the share of an UNC path and the count of bytes then leaves other segments. -/
theorem proper_iff_safe (h : Rewritten platform (os.text platform t) (os.text platform t'))
    (hform : Form platform (os.text platform t)) :
    Proper os platform t t' ↔ Safe platform (os.text platform t) (os.text platform t') := by
  rw [← normalForm_rewritten h hform, ← normalized_eq, ← normalized_eq]
  exact ⟨normalized_of_proper, proper_of_normalized⟩

namespace Sample

/-- No directory is on this disk. -/
def windows : PathServices where
  canonicalize := fun _ => none
  toLowercase := fun path => String.ofList (path.toList.map Char.toLower)

theorem proper_drive : Proper windows .windows "C:\\Repos\\App" "C:\\Repos\\.\\App" := by
  have htext : windows.text .windows "C:\\Repos\\App" = "c:/repos".toList ++ '/' :: "app".toList := by
    decide +kernel
  have htext' : windows.text .windows "C:\\Repos\\.\\App" =
      "c:/repos".toList ++ '/' :: '.' :: '/' :: "app".toList := by
    decide +kernel
  refine (proper_iff_safe ?_ ?_).mpr ?_
  · rw [htext, htext']
    exact .dot fun _ h => absurd h (by decide)
  · rw [htext]
    exact fun _ => by decide
  · rw [htext]
    exact fun _ h => absurd h.1 (by decide)

/-- Two separators between server and share: the end of the share is taken for a directory. -/
theorem not_proper_unc : ¬ ∀ (os : PathServices) (platform : PathPlatform) (t t' : String),
    Rewritten platform (os.text platform t) (os.text platform t') →
      Form platform (os.text platform t) → Proper os platform t t' := by
  intro h
  have htext : windows.text .windows "\\\\server\\share\\app" =
      "//server".toList ++ '/' :: "share/app".toList := by
    decide +kernel
  have htext' : windows.text .windows "\\\\server\\\\share\\app" =
      "//server".toList ++ '/' :: '/' :: "share/app".toList := by
    decide +kernel
  have hproper := h windows .windows "\\\\server\\share\\app" "\\\\server\\\\share\\app"
    (by rw [htext, htext']; exact .separator ⟨'s', by decide, by decide⟩)
    (by rw [htext]; exact fun _ => by decide)
  have hsame := hproper.inCwd (fun _ => none) [single "\\\\server\\share\\app"] (fun _ => rfl)
    (fun _ => rfl) (windows.distinct_single .windows _)
  exact absurd hsame (by decide +kernel)

end Sample

end PathServices

end CcReminder
