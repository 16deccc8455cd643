import CcReminder.Storage.Spool.Safety

/-!
# Drains without faults

A drain on a host where no operation fails inserts the events of its candidates, as many as it may take,
and rejects what is no event. One drain after the other inserts every event of the spool.
-/

set_option autoImplicit true

namespace CcReminder

open Lib Host

/-- No operation fails. -/
def Host.Quiet (h : Host) : Prop := ∀ n, (h.conn.world n).fault = false

/-- Rows that wait are added to `ingress_events`, and nothing else happens there. -/
structure Database.Receives (db db' : Database) : Prop where
  kept : ∀ {k r}, db.ingressEvents.find? k = some r → db'.ingressEvents.find? k = some r
  added : ∀ {k r}, db'.ingressEvents.find? k = some r →
    db.ingressEvents.find? k = some r ∨ r.state = .pending

namespace Database.Receives

theorem refl (db : Database) : Receives db db := ⟨id, .inl⟩

theorem trans {db db' db'' : Database} (h : Receives db db') (h' : Receives db' db'') :
    Receives db db'' :=
  ⟨fun hk => h'.kept (h.kept hk), fun hk => (h'.added hk).elim h.added .inr⟩

theorem isSome {db db' : Database} (h : Receives db db') (k : Uuid)
    (hk : (db.ingressEvents.find? k).isSome) : (db'.ingressEvents.find? k).isSome := by
  obtain ⟨r, hr⟩ := Option.isSome_iff_exists.mp hk
  exact Option.isSome_iff_exists.mpr ⟨r, h.kept hr⟩

theorem insertIngress (db : Database) (event : SafeIngressEvent) :
    Receives db (db.insertIngress event) := by
  unfold Database.insertIngress
  dsimp only
  split
  · rename_i table hinsert
    have hfresh := (Table.insert?_eq_some_iff.mp hinsert).1
    refine ⟨fun {k r} hk => ?_, fun {k r} hk => ?_⟩
    · rw [Table.find?_insert? hinsert, if_neg, hk]
      rintro rfl
      cases hfresh.symm.trans hk
    · rw [Table.find?_insert? hinsert] at hk
      split at hk
      · cases hk
        exact .inr rfl
      · exact .inl hk
  · exact refl db

end Database.Receives

namespace Spool

variable {sv : Services} {id : Uuid} {h : Host}

/-! ## One file -/

theorem fileOp_quiet {q : Spool → Option (α × Spool)} (hquiet : h.Quiet)
    (hq : q h.spool = some (a, s')) : ∃ h', fileOp e q h = (.ok a, h') ∧ h'.Quiet ∧
      h'.spool = s' ∧ h'.conn.db = h.conn.db := by
  refine ⟨{ conn := { h.conn with world := fun n => h.conn.world (n + 1) }, spool := s' }, ?_,
    fun n => hquiet (n + 1), rfl, rfl⟩
  simp only [fileOp, Txn.bind_run, onConn, draw, Txn.step_run, hquiet 0, Bool.false_eq_true, if_false,
    hq]

theorem insertIngress_quiet {event : SafeIngressEvent} (hquiet : h.Quiet)
    (hsize : (sv.encodeSafe event).length ≤ MAX_SAFE_ENVELOPE_BYTES) : ∃ h',
      onConn (HookCommand.insertIngress sv event) h = (.ok (), h') ∧ h'.Quiet ∧ h'.spool = h.spool ∧
        h'.conn.db = h.conn.db.insertIngress event := by
  refine ⟨{ h with conn := { h.conn with
    db := h.conn.db.insertIngress event, world := fun n => h.conn.world (n + 2) } }, ?_,
    fun n => hquiet (n + 2), rfl, rfl⟩
  simp only [onConn, HookCommand.insertIngress, HookCommand.validateSafeEnvelope,
    if_neg (Nat.not_lt.mpr hsize), Txn.mapError, insertIngress, connect, execute, statement, draw,
    Txn.bind_run, Txn.step_run, hquiet 0, hquiet 1, Bool.false_eq_true, if_false]

theorem freshName_free (s : Spool) : s.rejected.find? s.freshName = none := by
  refine Table.find?_eq_none_iff.mpr fun r hr hname => ?_
  have hle : ∀ {names : List Nat} {n}, n ∈ names → n ≤ names.foldr max 0 := by
    intro names n hn
    induction names with
    | nil => cases hn
    | cons m names ih =>
      rcases List.mem_cons.mp hn with rfl | hn
      · exact le_max_left _ _
      · exact (ih hn).trans (le_max_right _ _)
  have hbound := hle (List.mem_map_of_mem (f := RejectedFile.name) hr)
  rw [hname, freshName] at hbound
  exact absurd hbound (Nat.not_succ_le_self _)

theorem linkRejected_some {s : Spool} {f : SpoolFile} (hf : s.files.find? (id, .processing) = some f) :
    ∃ name s', s.linkRejected id = some (name, s') := by
  cases hins : s.rejected.insert? { name := s.freshName, bytes := f.bytes } with
  | none =>
    have hsome := Table.insert?_eq_none_iff.mp hins
    rw [show RejectedFile.name { name := s.freshName, bytes := f.bytes } = s.freshName from rfl,
      freshName_free] at hsome
    cases hsome
  | some rejected =>
    refine ⟨s.freshName, { s with rejected }, ?_⟩
    simp only [linkRejected, hf, hins, Option.bind_eq_bind, Option.bind_some, Option.pure_def]

theorem rename_some {s : Spool} {f : SpoolFile} (hf : s.files.find? (id, .json) = some f) :
    ∃ s', s.rename id = some ((), s') := by
  have hid : f.id = id := congrArg Prod.fst (Table.find?_key hf)
  subst hid
  cases hins : (s.files.delete fun g => g.path = (f.id, .json) ∨ g.path = (f.id, .processing)).insert?
      { f with extension := .processing } with
  | none =>
    obtain ⟨g, hg⟩ := Option.isSome_iff_exists.mp (Table.insert?_eq_none_iff.mp hins)
    rw [path_mk, Table.find?_delete, Option.filter_eq_some_iff] at hg
    have hpath : g.path = (f.id, .processing) := Table.find?_key hg.1
    simp [hpath] at hg
  | some files => exact ⟨{ s with files }, by
      simp only [rename, hf, hins, Option.bind_eq_bind, Option.bind_some, Option.pure_def]⟩

theorem remove_some {s : Spool} (h : (s.files.find? path).isSome) : ∃ s', s.remove path = some ((), s') :=
  ⟨_, if_pos h⟩

/-- What a drain without faults makes of one file. -/
structure Takes (sv : Services) (path : Uuid × SpoolExtension) (h h' : Host) : Prop where
  quiet : h'.Quiet
  ingress : h.conn.db.Receives h'.conn.db
  event : ∀ {f event}, h.spool.files.find? path = some f → parse sv f.bytes = some event →
    (h'.conn.db.ingressEvents.find? event.eventId).isSome
  rejected : ∀ {name r}, h.spool.rejected.find? name = some r → h'.spool.rejected.find? name = some r
  reject : ∀ {f}, h.spool.files.find? path = some f → parse sv f.bytes = none →
    ∃ r ∈ h'.spool.rejected.rows, r.bytes = f.bytes
  files : ∀ q, h'.spool.files.find? q =
    if q = path ∨ q = (path.1, .processing) then none else h.spool.files.find? q

theorem claim_quiet {path : Uuid × SpoolExtension} {f : SpoolFile} (hquiet : h.Quiet)
    (hne : path.2 ≠ .tmp) (hf : h.spool.files.find? path = some f) : ∃ h' g,
      claim path h = (.ok true, h') ∧ h'.Quiet ∧ h'.conn.db = h.conn.db ∧
      h'.spool.rejected = h.spool.rejected ∧ g.bytes = f.bytes ∧
        ∀ q, h'.spool.files.find? q =
          if q = (path.1, .processing) then some g
          else if q = path then none else h.spool.files.find? q := by
  obtain ⟨id, extension⟩ := path
  cases extension with
  | tmp => exact absurd rfl hne
  | processing =>
    refine ⟨h, f, rfl, hquiet, rfl, rfl, rfl, fun q => ?_⟩
    split
    · rename_i hq
      rw [hq, hf]
    · rfl
  | json =>
    obtain ⟨spool', hspool⟩ := rename_some hf
    obtain ⟨h', hrun, hquiet', rfl, hdb⟩ := fileOp_quiet (e := spoolError "") hquiet
      (q := (·.rename id)) hspool
    obtain ⟨f', hf', hfiles⟩ := rename_ok hspool
    cases hf.symm.trans hf'
    have hrejected : h'.spool.rejected = h.spool.rejected := by
      simp only [rename, hf, Option.bind_eq_bind, Option.bind_some, Option.bind_eq_some_iff,
        Option.pure_def, Option.some.injEq, Prod.mk.injEq, true_and] at hspool
      obtain ⟨files, -, hspool⟩ := hspool
      rw [← hspool]
    refine ⟨h', { f with extension := .processing }, ?_, hquiet', hdb, hrejected, rfl, hfiles⟩
    simp only [claim, reduceCtorEq, if_false, Txn.bind_run, Txn.result_run, hrun]
    rfl

theorem unlink_quiet {g : SpoolFile} (hquiet : h.Quiet)
    (hg : h.spool.files.find? (id, .processing) = some g) (e : AppError) : ∃ h',
      fileOp e (·.remove (id, .processing)) h = (.ok (), h') ∧ h'.Quiet ∧ h'.conn.db = h.conn.db ∧
      h'.spool.rejected = h.spool.rejected ∧
        ∀ q, h'.spool.files.find? q =
          if q = (id, .processing) then none else h.spool.files.find? q := by
  obtain ⟨spool', hspool⟩ := remove_some (Option.isSome_iff_exists.mpr ⟨g, hg⟩)
  obtain ⟨h', hrun, hquiet', rfl, hdb⟩ := fileOp_quiet (e := e) hquiet
    (q := (·.remove (id, .processing))) hspool
  have hrejected : h'.spool.rejected = h.spool.rejected := by
    unfold remove at hspool
    split at hspool
    · simp only [Option.some.injEq, Prod.mk.injEq, true_and] at hspool
      rw [← hspool]
    · cases hspool
  exact ⟨h', hrun, hquiet', hdb, hrejected, remove_ok hspool⟩

theorem reject_quiet {g : SpoolFile} (hquiet : h.Quiet)
    (hg : h.spool.files.find? (id, .processing) = some g) : ∃ h',
      reject id h = (.ok (), h') ∧ h'.Quiet ∧ h'.conn.db = h.conn.db ∧
      (∀ {name r}, h.spool.rejected.find? name = some r → h'.spool.rejected.find? name = some r) ∧
      (∃ r ∈ h'.spool.rejected.rows, r.bytes = g.bytes) ∧
        ∀ q, h'.spool.files.find? q =
          if q = (id, .processing) then none else h.spool.files.find? q := by
  obtain ⟨name, spool₁, hlink⟩ := linkRejected_some hg
  obtain ⟨hfiles, g', hg', hfresh, hrejected⟩ := linkRejected_ok hlink
  cases hg.symm.trans hg'
  obtain ⟨h₁, hrun₁, hquiet₁, rfl, hdb₁⟩ := fileOp_quiet (e := spoolError "spool reject") hquiet
    (q := (·.linkRejected id)) hlink
  obtain ⟨h₂, hrun₂, hquiet₂, hspool₂, hdb₂⟩ := fileOp_quiet (e := permissionError) hquiet₁
    (q := fun s => some ((), s)) rfl
  have hg₂ : h₂.spool.files.find? (id, .processing) = some g := by rw [hspool₂, hfiles, hg]
  obtain ⟨h₃, hrun₃, hquiet₃, hdb₃, hrejected₃, hfiles₃⟩ := unlink_quiet hquiet₂ hg₂
    (spoolError "spool reject delete")
  rw [← hspool₂, ← hrejected₃] at hrejected
  refine ⟨h₃, ?_, hquiet₃, hdb₃.trans (hdb₂.trans hdb₁), fun {name' r} hr => ?_, ?_, fun q => ?_⟩
  · simp only [reject, Txn.bind_run, Txn.result_run, hrun₁, hrun₂, hrun₃]
  · rw [hrejected, if_neg, hr]
    rintro rfl
    cases hfresh.symm.trans hr
  · have hr := hrejected name
    rw [if_pos rfl] at hr
    exact ⟨_, (Table.find?_eq_some_iff.mp hr).1, rfl⟩
  · rw [hfiles₃, hspool₂, hfiles]

variable (sv) in
theorem drainFile_quiet {path : Uuid × SpoolExtension} {f : SpoolFile} (hquiet : h.Quiet)
    (hne : path.2 ≠ .tmp) (hf : h.spool.files.find? path = some f) :
    ∃ r h', drainFile sv path h = (.ok r, h') ∧ Takes sv path h h' := by
  obtain ⟨h₁, g, hclaim, hquiet₁, hdb₁, hrejected₁, hbytes, hfiles₁⟩ := claim_quiet hquiet hne hf
  have hg₁ : h₁.spool.files.find? (path.1, .processing) = some g := by rw [hfiles₁, if_pos rfl]
  have hread : h₁.spool.read (path.1, .processing) = some (g.bytes, h₁.spool) := by
    simp only [Spool.read, hg₁, Option.bind_eq_bind, Option.bind_some, Option.pure_def]
  obtain ⟨h₂, hrun₂, hquiet₂, hspool₂, hdb₂⟩ := fileOp_quiet (e := spoolError "") hquiet₁
    (q := (·.read (path.1, .processing))) hread
  have hfiles : ∀ q, (if q = (path.1, .processing) then none else h₁.spool.files.find? q) =
      if q = path ∨ q = (path.1, .processing) then none else h.spool.files.find? q := fun q => by
    rw [hfiles₁]
    by_cases hq' : q = (path.1, .processing)
    · rw [if_pos hq', if_pos (.inr hq')]
    · rw [if_neg hq', if_neg hq']
      by_cases hq : q = path
      · rw [if_pos hq, if_pos (.inl hq)]
      · rw [if_neg hq, if_neg (not_or.mpr ⟨hq, hq'⟩)]
  cases hparse : parse sv g.bytes with
  | none =>
    obtain ⟨h₃, hrun₃, hquiet₃, hdb₃, hkept₃, hrejected₃, hfiles₃⟩ := reject_quiet hquiet₂
      (hspool₂ ▸ hg₁)
    refine ⟨none, h₃, ?_, hquiet₃, ?_, fun {f' event} hf' hevent => ?_, fun {name r} hr => ?_,
      fun {f'} hf' _ => ?_, fun q => ?_⟩
    · simp only [drainFile, ingest, Txn.bind_run, Txn.result_run, hclaim, if_true, hrun₂,
        Except.toOption, Option.bind_some, hparse, hrun₃]
      rfl
    · rw [hdb₃, hdb₂, hdb₁]
      exact .refl _
    · cases hf.symm.trans hf'
      rw [← hbytes, hparse] at hevent
      cases hevent
    · exact hkept₃ (by rw [hspool₂, hrejected₁, hr])
    · cases hf.symm.trans hf'
      rwa [← hbytes]
    · rw [hfiles₃, hspool₂, hfiles]
  | some event =>
    have hsize : (sv.encodeSafe event).length ≤ MAX_SAFE_ENVELOPE_BYTES := by
      unfold parse at hparse
      split at hparse
      · exact of_decide_eq_true (Option.filter_eq_some_iff.mp hparse).2
      · cases hparse
    obtain ⟨h₃, hrun₃, hquiet₃, hspool₃, hdb₃⟩ := insertIngress_quiet hquiet₂ hsize
    have hg₃ : h₃.spool.files.find? (path.1, .processing) = some g := by rw [hspool₃, hspool₂, hg₁]
    obtain ⟨h₄, hrun₄, hquiet₄, hdb₄, hrejected₄, hfiles₄⟩ := unlink_quiet hquiet₃ hg₃
      (spoolError "spool delete")
    refine ⟨some event, h₄, ?_, hquiet₄, ?_, fun {f' event'} hf' hevent => ?_, fun {name r} hr => ?_,
      fun {f'} hf' hnone => ?_, fun q => ?_⟩
    · simp only [drainFile, ingest, Txn.bind_run, Txn.result_run, hclaim, if_true, hrun₂,
        Except.toOption, Option.bind_some, hparse, Txn.mapError, hrun₃, unlink, hrun₄, Txn.pure_run]
    · rw [hdb₄, hdb₃, hdb₂, hdb₁]
      exact .insertIngress _ _
    · cases hf.symm.trans hf'
      rw [← hbytes, hparse] at hevent
      cases hevent
      rw [hdb₄, hdb₃, Database.find?_insertIngress]
      simp
    · rw [hrejected₄, hspool₃, hspool₂, hrejected₁, hr]
    · cases hf.symm.trans hf'
      rw [← hbytes, hparse] at hnone
      cases hnone
    · rw [hfiles₄, hspool₃, hspool₂, hfiles]

/-! ## All candidates -/

/-- A file that comes later is not taken along with an earlier one. -/
def Apart (p q : Uuid × SpoolExtension) : Prop := q ≠ p ∧ q ≠ (p.1, .processing)

/-- What a drain without faults makes of the files at these paths. -/
structure Drained (sv : Services) (paths : List (Uuid × SpoolExtension)) (h h' : Host) : Prop where
  quiet : h'.Quiet
  ingress : h.conn.db.Receives h'.conn.db
  event : ∀ path ∈ paths, ∀ {f event}, h.spool.files.find? path = some f →
    parse sv f.bytes = some event → (h'.conn.db.ingressEvents.find? event.eventId).isSome
  rejected : ∀ {name r}, h.spool.rejected.find? name = some r → h'.spool.rejected.find? name = some r
  reject : ∀ path ∈ paths, ∀ {f}, h.spool.files.find? path = some f → parse sv f.bytes = none →
    ∃ r ∈ h'.spool.rejected.rows, r.bytes = f.bytes
  gone : ∀ path ∈ paths, h'.spool.files.find? path = none
  others : ∀ q, (∀ path ∈ paths, Apart path q) →
    h'.spool.files.find? q = h.spool.files.find? q
  subset : ∀ q, (h'.spool.files.find? q).isSome → (h.spool.files.find? q).isSome

variable (sv) in
theorem drainFiles_quiet {paths : List (Uuid × SpoolExtension)} (hquiet : h.Quiet)
    (hpaths : ∀ p ∈ paths, p.2 ≠ .tmp ∧ (h.spool.files.find? p).isSome)
    (hapart : paths.Pairwise Apart) : ∃ events h', drainFiles sv paths h = (.ok events, h') ∧
      Drained sv paths h h' := by
  induction paths generalizing h with
  | nil =>
    exact ⟨[], h, rfl, hquiet, .refl _, nofun, id, nofun, nofun, fun _ _ => rfl, fun _ => id⟩
  | cons p paths ih =>
    obtain ⟨hne, hsome⟩ := hpaths p List.mem_cons_self
    obtain ⟨f, hf⟩ := Option.isSome_iff_exists.mp hsome
    obtain ⟨hfirst, hrest⟩ := List.pairwise_cons.mp hapart
    obtain ⟨r, h₁, hrun₁, htakes⟩ := drainFile_quiet sv hquiet hne hf
    have hsame : ∀ q, Apart p q → h₁.spool.files.find? q = h.spool.files.find? q := fun q hq => by
      rw [htakes.files, if_neg (not_or.mpr hq)]
    obtain ⟨events, h₂, hrun₂, hdrained⟩ := ih htakes.quiet (fun q hq => by
      rw [hsame q (hfirst q hq)]
      exact hpaths q (List.mem_cons_of_mem _ hq)) hrest
    refine ⟨r.toList ++ events, h₂, ?_, hdrained.quiet, htakes.ingress.trans hdrained.ingress,
      fun q hq {g event} hg hevent => ?_, fun hr => hdrained.rejected (htakes.rejected hr),
      fun q hq {g} hg hnone => ?_, fun q hq => ?_, fun q hq => ?_, fun q hq => ?_⟩
    · simp only [drainFiles, Txn.bind_run, hrun₁, hrun₂, Txn.pure_run]
    · rcases List.mem_cons.mp hq with rfl | hq
      · exact hdrained.ingress.isSome _ (htakes.event hg hevent)
      · exact hdrained.event q hq ((hsame q (hfirst q hq)).trans hg) hevent
    · rcases List.mem_cons.mp hq with rfl | hq
      · obtain ⟨r, hr, hbytes⟩ := htakes.reject hg hnone
        exact ⟨r, Table.mem_rows_iff.mpr (hdrained.rejected (Table.mem_rows_iff.mp hr)), hbytes⟩
      · exact hdrained.reject q hq ((hsame q (hfirst q hq)).trans hg) hnone
    · rcases List.mem_cons.mp hq with rfl | hq
      · have hnone : h₁.spool.files.find? q = none := by rw [htakes.files, if_pos (.inl rfl)]
        rw [← Option.not_isSome_iff_eq_none] at hnone ⊢
        exact mt (hdrained.subset q) hnone
      · exact hdrained.gone q hq
    · rw [hdrained.others q fun p' hp' => hq p' (List.mem_cons_of_mem _ hp'),
        hsame q (hq p List.mem_cons_self)]
    · have hsome := hdrained.subset q hq
      rw [htakes.files] at hsome
      split at hsome
      · cases hsome
      · exact hsome

/-! ## Candidates -/

instance : Std.Total candidateOrder where
  total f g := by
    unfold candidateOrder
    rcases le_total f.1.toNat g.1.toNat with h | h <;>
      by_cases hf : f.2 = .processing <;> by_cases hg : g.2 = .processing <;> simp [hf, hg, h]

instance : IsTrans (Uuid × SpoolExtension) candidateOrder where
  trans f g k hfg hgk := by
    unfold candidateOrder at *
    rcases hfg with ⟨hf, hg⟩ | ⟨hfg, hle⟩ <;> rcases hgk with ⟨hg', hk⟩ | ⟨hgk, hle'⟩
    · exact .inl ⟨hf, hk⟩
    · exact .inl ⟨hf, mt hgk.mpr hg⟩
    · exact .inl ⟨hfg.mpr hg', hk⟩
    · exact .inr ⟨hfg.trans hgk, hle.trans hle'⟩

theorem candidates_apart (s : Spool) : s.candidates.Pairwise Apart := by
  have hsorted : s.candidates.Pairwise candidateOrder := List.pairwise_insertionSort _ _
  have hnodup : s.candidates.Nodup := by
    refine (List.perm_insertionSort _ _).nodup_iff.mpr (List.Nodup.sublist ?_ s.files.nodup)
    exact (List.filter_sublist.trans (List.take_sublist _ _)).map _
  refine hsorted.imp₂ (fun p q horder hne => ⟨hne.symm, ?_⟩) hnodup
  rintro rfl
  rcases horder with ⟨-, hq⟩ | ⟨hiff, -⟩
  · exact hq rfl
  · exact hne (Prod.ext rfl (hiff.mpr rfl))

theorem mem_candidates {s : Spool} {path : Uuid × SpoolExtension} (h : path ∈ s.candidates) :
    path.2 ≠ .tmp ∧ (s.files.find? path).isSome := by
  obtain ⟨f, hf, rfl⟩ := List.mem_map.mp ((List.perm_insertionSort _ _).mem_iff.mp h)
  obtain ⟨hf, hspooled⟩ := List.mem_filter.mp hf
  exact ⟨of_decide_eq_true hspooled,
    Option.isSome_iff_exists.mpr ⟨f, Table.mem_rows_iff.mp (List.mem_of_mem_take hf)⟩⟩

/-- A directory that is not too large is listed in full. -/
theorem mem_candidates_of_le {s : Spool} (hrows : s.files.rows.length ≤ MAX_SPOOL_FILES)
    (hne : path.2 ≠ .tmp) (hf : s.files.find? path = some f) : path ∈ s.candidates := by
  obtain rfl : f.path = path := Table.find?_key hf
  refine (List.perm_insertionSort _ _).mem_iff.mpr (List.mem_map_of_mem (List.mem_filter.mpr ⟨?_, ?_⟩))
  · rw [List.take_of_length_le hrows]
    exact Table.mem_rows_iff.mpr hf
  · exact decide_eq_true hne

/-! ## One drain after the other -/

variable (sv) in
theorem drain_quiet (hquiet : h.Quiet) (limit : Nat) : ∃ events h',
    drain sv limit h = (.ok events, h') ∧
      Drained sv (h.spool.candidates.take (min limit MAX_SPOOL_FILES)) h h' := by
  obtain ⟨h₁, hrun₁, hquiet₁, hspool₁, hdb₁⟩ := fileOp_quiet (e := spoolError "spool read") hquiet
    (q := fun s => some (s.candidates, s)) rfl
  obtain ⟨events, h₂, hrun₂, hdrained⟩ := drainFiles_quiet sv hquiet₁
    (fun p hp => hspool₁ ▸ mem_candidates (List.mem_of_mem_take hp))
    ((candidates_apart h.spool).sublist (List.take_sublist (min limit MAX_SPOOL_FILES) _))
  refine ⟨events, h₂, ?_, ?_⟩
  · simp only [drain, Txn.bind_run, hrun₁, hrun₂]
  · obtain ⟨hquiet₂, hingress, hevent, hrejected, hreject, hgone, hothers, hsubset⟩ := hdrained
    rw [hdb₁] at hingress
    simp only [hspool₁] at hevent hrejected hreject hothers hsubset
    exact ⟨hquiet₂, hingress, hevent, hrejected, hreject, hgone, hothers, hsubset⟩

/-- The host after so many drains. -/
def drains (sv : Services) (limit : Nat) : Nat → Host → Host
  | 0, h => h
  | n + 1, h => drains sv limit n (drain sv limit h).2

theorem drains_ingress (hquiet : h.Quiet) (n : Nat) (k : Uuid)
    (hk : (h.conn.db.ingressEvents.find? k).isSome) :
    ((drains sv limit n h).conn.db.ingressEvents.find? k).isSome := by
  induction n generalizing h with
  | zero => exact hk
  | succ n ih =>
    obtain ⟨events, h', hrun, hdrained⟩ := drain_quiet sv hquiet limit
    rw [drains, hrun]
    exact ih hdrained.quiet (hdrained.ingress.isSome k hk)

/-- **Every event of the spool is inserted.** -/
theorem drains_event {event : SafeIngressEvent} (hquiet : h.Quiet) (hlimit : 0 < limit)
    (hrows : h.spool.files.rows.length ≤ MAX_SPOOL_FILES) (hn : h.spool.count ≤ n)
    (hne : path.2 ≠ .tmp) (hf : h.spool.files.find? path = some f)
    (hevent : parse sv f.bytes = some event) :
    ((drains sv limit n h).conn.db.ingressEvents.find? event.eventId).isSome := by
  induction n generalizing h with
  | zero =>
    have hmem := mem_spooledPaths.mpr ⟨hne, Option.isSome_iff_exists.mpr ⟨f, hf⟩⟩
    have hpos := Finset.card_pos.mpr ⟨path, hmem⟩
    rw [card_spooledPaths] at hpos
    exact absurd hn (Nat.not_le.mpr hpos)
  | succ n ih =>
    obtain ⟨events, h', hrun, hdrained⟩ := drain_quiet sv hquiet limit
    rw [drains, hrun]
    set paths := h.spool.candidates.take (min limit MAX_SPOOL_FILES) with hpaths
    have hmem := mem_candidates_of_le hrows hne hf
    by_cases htaken : path ∈ paths
    · exact drains_ingress hdrained.quiet n _ (hdrained.event path htaken hf hevent)
    -- The file is behind those that are taken, of which there is one at least.
    have hlater : ∀ p ∈ paths, Apart p path := by
      intro p hp
      rw [← List.take_append_drop (min limit MAX_SPOOL_FILES) h.spool.candidates] at hmem
      have hapart := candidates_apart h.spool
      rw [← List.take_append_drop (min limit MAX_SPOOL_FILES) h.spool.candidates] at hapart
      rcases List.mem_append.mp hmem with htake | hdrop
      · exact absurd htake htaken
      · exact (List.pairwise_append.mp hapart).2.2 p hp path hdrop
    have hcount : h'.spool.count < h.spool.count := by
      obtain ⟨first, hfirst⟩ : ∃ p, p ∈ paths := by
        refine List.exists_mem_of_ne_nil _ fun hnil => ?_
        rcases List.take_eq_nil_iff.mp hnil with hzero | hnil
        · simp only [MAX_SPOOL_FILES] at hzero
          omega
        · rw [hnil] at hmem
          cases hmem
      rw [← card_spooledPaths, ← card_spooledPaths]
      refine Finset.card_lt_card (Finset.ssubset_iff_of_subset (fun q hq => ?_) |>.mpr ⟨first, ?_, ?_⟩)
      · obtain ⟨hq, hsome⟩ := mem_spooledPaths.mp hq
        exact mem_spooledPaths.mpr ⟨hq, hdrained.subset q hsome⟩
      · exact mem_spooledPaths.mpr (mem_candidates (List.mem_of_mem_take hfirst))
      · intro hmem'
        have hsome := (mem_spooledPaths.mp hmem').2
        rw [hdrained.gone first hfirst] at hsome
        cases hsome
    exact ih hdrained.quiet ((Table.length_le_of_subset hdrained.subset).trans hrows)
      (Nat.le_of_lt_succ (hcount.trans_le hn)) ((hdrained.others path hlater).trans hf)

end Spool

end CcReminder
