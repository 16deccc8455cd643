import CcReminder.Lib.MaxByKey
import CcReminder.Services

/-!
# The project of a directory

`projects/resolver.rs`: the registered path that is the longest whole-segment prefix of a directory.
Among prefixes of one length the last wins.
-/

set_option autoImplicit true

namespace CcReminder

open Lib

/-- `fs::canonicalize(path).ok()` and `str::to_lowercase`. -/
structure PathServices where
  canonicalize : String → Option String
  toLowercase : String → String

inductive PathAnchor where
  | relative
  | unixRoot
  | windowsRoot
  | windowsDrive (drive : String) (absolute : Bool)
  | windowsUnc (server share : String)
  deriving DecidableEq

structure NormalizedPath where
  anchor : PathAnchor
  segments : List String
  deriving DecidableEq

/-- `str::split('/')`. -/
def splitSlash (path : List Char) : List String := (path.splitOn '/').map String.ofList

/-- Whether a leading `..` stays. -/
def PathAnchor.keepsParents : PathAnchor → Bool
  | .relative | .windowsDrive _ false => true
  | _ => false

/-- The segments so far, the last one first, after one more. -/
def pushSegment (anchor : PathAnchor) (segments : List String) (segment : String) : List String :=
  if segment = "" ∨ segment = "." then segments
  else if segment = ".." then
    match segments with
    | last :: rest => if last ≠ ".." then rest
        else if anchor.keepsParents then segment :: segments else segments
    | [] => if anchor.keepsParents then [segment] else []
  else segment :: segments

def normalizedSegments (path : List Char) (anchor : PathAnchor) : List String :=
  ((splitSlash path).foldl (pushSegment anchor) []).reverse

/-- `str::strip_prefix`. -/
def stripPrefix (start : String) (path : List Char) : Option (List Char) :=
  if start.toList.isPrefixOf path then some (path.drop start.length) else none

/-- `str::get(n..)`: `n` counts bytes and must be a boundary. -/
def bytesFrom : Nat → List Char → Option (List Char)
  | 0, cs => some cs
  | _ + 1, [] => none
  | n + 1, c :: cs => if c.utf8Size ≤ n + 1 then bytesFrom (n + 1 - c.utf8Size) cs else none

/-- The anchor of a Windows path with forward slashes, and what follows it. -/
def windowsAnchor (path : List Char) : PathAnchor × List Char :=
  match stripPrefix "//" path with
  | some rest =>
    let components := (splitSlash rest).filter (· ≠ "")
    let server := components.headD ""
    let share := (components.drop 1).headD ""
    let consumed := server.utf8ByteSize + share.utf8ByteSize + (if server ≠ "" then 1 else 0) + 2
    (.windowsUnc server share, (bytesFrom consumed path).getD [])
  | none =>
    match path with
    | drive :: ':' :: remainder =>
      if drive.utf8Size = 1 then
        (.windowsDrive (String.ofList [drive, ':']) (remainder.head? = some '/'),
          remainder.dropWhile (· = '/'))
      else (.relative, path)
    | '/' :: rest => (.windowsRoot, rest)
    | _ => (.relative, path)

namespace PathServices

variable (os : PathServices)

def normalizedWindows (path : String) (foldCase : Bool) : NormalizedPath :=
  let slashed := String.ofList (path.toList.map fun c => if c = '\\' then '/' else c)
  let path := (if foldCase then os.toLowercase slashed else slashed).toList
  let path :=
    match stripPrefix "//?/unc/" path with
    | some rest => "//".toList ++ rest
    | none => (stripPrefix "//?/" path).getD path
  let (anchor, remainder) := windowsAnchor path
  { anchor, segments := normalizedSegments remainder anchor }

def normalized (path : String) : PathPlatform → NormalizedPath
  | .unix =>
    let anchor := if path.toList.head? = some '/' then .unixRoot else .relative
    { anchor, segments := normalizedSegments path.toList anchor }
  | .windows => os.normalizedWindows path true

end PathServices

/-- `root` is `path` or a directory above it. -/
def isPrefix (root path : NormalizedPath) : Bool :=
  root.anchor = path.anchor ∧ root.segments.isPrefixOf path.segments

namespace ProjectRegistration

/-- The root, and then the aliases. -/
def paths (project : ProjectRegistration) : List String := project.canonicalRoot :: project.aliases

end ProjectRegistration

namespace PathServices

variable (os : PathServices)

/-- The registered paths above `cwd`, each with its project. -/
def matchesOf (cwd : NormalizedPath) (platform : PathPlatform) (projects : List ProjectRegistration) :
    List (ProjectRegistration × NormalizedPath) :=
  projects.flatMap fun project =>
    (project.paths.map fun path => (project, os.normalized path platform)).filter fun m =>
      isPrefix m.2 cwd

/-- The real form of the queried directory, as far as the platform asks for it. -/
def queried (cwd : String) : PathPlatform → NormalizedPath
  | .windows => os.normalized ((os.canonicalize cwd).getD cwd) .windows
  | .unix => os.normalized cwd .unix

def resolveProject (cwd : String) (projects : List ProjectRegistration) (platform : PathPlatform) :
    ProjectMatch :=
  let cwd := os.queried cwd platform
  match maxByKey (fun m => m.2.segments.length) (os.matchesOf cwd platform projects) with
  | some (project, _) => .matched project.id project.displayName
  | none => .unmatched

/-- Two projects that no directory tells apart. -/
def SameProject (p q : ProjectRegistration) : Prop :=
  p.id = q.id ∧ p.displayName = q.displayName ∧ p.paths.Perm q.paths

/-- What `resolve_project` returns of the path that it has found. -/
def named (m : ProjectRegistration × NormalizedPath) : (ProjectId × String) × Nat :=
  ((m.1.id, m.1.displayName), m.2.segments.length)

/-- The paths of one project above `cwd`, by name and length. -/
theorem map_named_matchesOf (p : ProjectRegistration) (cwd : NormalizedPath)
    (platform : PathPlatform) : (os.matchesOf cwd platform [p]).map named =
      (p.paths.filter fun path => isPrefix (os.normalized path platform) cwd).map fun path =>
        ((p.id, p.displayName), (os.normalized path platform).segments.length) := by
  simp only [matchesOf, List.flatMap_cons, List.flatMap_nil, List.append_nil]
  induction p.paths with
  | nil => rfl
  | cons path paths ih =>
    simp only [List.map_cons, List.filter_cons]
    split
    · rw [List.map_cons, List.map_cons, ih]
      rfl
    · exact ih

theorem maxByKey_matchesOf {p q : ProjectRegistration} (h : SameProject p q) (cwd : NormalizedPath)
    (platform : PathPlatform) :
    maxByKey Prod.snd ((os.matchesOf cwd platform [p]).map named) =
      maxByKey Prod.snd ((os.matchesOf cwd platform [q]).map named) := by
  obtain ⟨hid, hname, hpaths⟩ := h
  rw [map_named_matchesOf, map_named_matchesOf, hid, hname]
  refine maxByKey_perm ((hpaths.filter _).map _) fun a ha b hb hlength => ?_
  obtain ⟨_, _, rfl⟩ := List.mem_map.mp ha
  obtain ⟨_, _, rfl⟩ := List.mem_map.mp hb
  exact Prod.ext rfl hlength

theorem maxByKey_congr {ps qs : List ProjectRegistration} (h : List.Forall₂ SameProject ps qs)
    (cwd : NormalizedPath) (platform : PathPlatform) :
    maxByKey Prod.snd ((os.matchesOf cwd platform ps).map named) =
      maxByKey Prod.snd ((os.matchesOf cwd platform qs).map named) := by
  have hcons : ∀ p ps, os.matchesOf cwd platform (p :: ps) =
      os.matchesOf cwd platform [p] ++ os.matchesOf cwd platform ps := fun p ps => by
    simp only [matchesOf, List.flatMap_cons, List.flatMap_nil, List.append_nil]
  induction h with
  | nil => rfl
  | @cons p q ps qs hpq _ ih =>
    rw [hcons, hcons q, List.map_append, List.map_append, maxByKey_append, maxByKey_append, ih,
      os.maxByKey_matchesOf hpq]

/-- What is returned is a matter of names and lengths. -/
theorem resolveProject_eq (cwd : String) (projects : List ProjectRegistration)
    (platform : PathPlatform) : os.resolveProject cwd projects platform =
      ((maxByKey Prod.snd ((os.matchesOf (os.queried cwd platform) platform projects).map named)).map
        fun m => ProjectMatch.matched m.1.1 m.1.2).getD .unmatched := by
  rw [maxByKey_map]
  simp only [resolveProject]
  change _ = Option.getD (Option.map _ (Option.map named (maxByKey
    (fun m : ProjectRegistration × NormalizedPath => m.2.segments.length) _))) _
  cases maxByKey (fun m : ProjectRegistration × NormalizedPath => m.2.segments.length)
    (os.matchesOf (os.queried cwd platform) platform projects) <;> rfl

/-- The paths of a project may be listed in any order. -/
theorem resolveProject_congr {ps qs : List ProjectRegistration} (h : List.Forall₂ SameProject ps qs)
    (cwd : String) (platform : PathPlatform) :
    os.resolveProject cwd ps platform = os.resolveProject cwd qs platform := by
  rw [resolveProject_eq, resolveProject_eq, os.maxByKey_congr h]

/-- A project that is found is registered. -/
theorem resolveProject_mem {projects : List ProjectRegistration}
    (h : os.resolveProject cwd projects platform = .matched projectId displayName) :
    ∃ project ∈ projects, project.id = projectId ∧ project.displayName = displayName := by
  simp only [resolveProject] at h
  split at h
  · rename_i project path hmax
    cases h
    have hmem := mem_of_maxByKey hmax
    obtain ⟨p, hp, hm⟩ := List.mem_flatMap.mp hmem
    obtain ⟨_, _, hpath⟩ := List.mem_map.mp (List.mem_filter.mp hm).1
    cases hpath
    exact ⟨_, hp, rfl, rfl⟩
  · cases h

/-! ## The nearest path -/

/-- The last of the longest registered paths above a directory is one of this project. -/
def Nearest (cwd : String) (projects : List ProjectRegistration) (platform : PathPlatform)
    (projectId : ProjectId) (displayName : String) : Prop :=
  ∃ before m after,
    os.matchesOf (os.queried cwd platform) platform projects = before ++ m :: after ∧
      (∀ x ∈ before, x.2.segments.length ≤ m.2.segments.length) ∧
      (∀ x ∈ after, x.2.segments.length < m.2.segments.length) ∧
      m.1.id = projectId ∧ m.1.displayName = displayName

theorem resolveProject_matched_iff {projects : List ProjectRegistration} :
    os.resolveProject cwd projects platform = .matched projectId displayName ↔
      os.Nearest cwd projects platform projectId displayName := by
  simp only [resolveProject, Nearest]
  constructor
  · intro h
    split at h
    · rename_i project path hmax
      obtain ⟨before, after, hmatches, hbefore, hafter⟩ := maxByKey_eq_some_iff.mp hmax
      cases h
      exact ⟨before, (project, path), after, hmatches, hbefore, hafter, rfl, rfl⟩
    · cases h
  · rintro ⟨before, m, after, hmatches, hbefore, hafter, rfl, rfl⟩
    rw [maxByKey_eq_some_iff.mpr ⟨before, after, hmatches, hbefore, hafter⟩]

/-- Two lists of projects with the same nearest path, or with none. -/
def SameNearest (cwd : String) (platform : PathPlatform) (projects projects' : List ProjectRegistration) :
    Prop :=
  ∀ projectId displayName, os.Nearest cwd projects platform projectId displayName ↔
    os.Nearest cwd projects' platform projectId displayName

theorem resolveProject_eq_iff {projects projects' : List ProjectRegistration} :
    os.resolveProject cwd projects platform = os.resolveProject cwd projects' platform ↔
      os.SameNearest cwd platform projects projects' := by
  simp only [SameNearest, ← resolveProject_matched_iff]
  constructor
  · intro h projectId displayName
    rw [h]
  · intro h
    cases hfirst : os.resolveProject cwd projects platform with
    | matched projectId displayName => exact ((h projectId displayName).mp hfirst).symm
    | unmatched =>
      cases hsecond : os.resolveProject cwd projects' platform with
      | unmatched => rfl
      | matched projectId displayName =>
        rw [(h projectId displayName).mpr hsecond] at hfirst
        cases hfirst

end PathServices

end CcReminder
