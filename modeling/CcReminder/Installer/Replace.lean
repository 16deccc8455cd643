import CcReminder.Installer.Spec

/-!
# Checked replacement

What a checked replacement has done when it returns. Each step before the rename fails with the
target as it was; after it the new bytes are there, and only the check of what was written may still
fail.
-/

set_option autoImplicit true

namespace CcReminder

open Lib

/-! ## One operation -/

/-- An operation fails by itself or by what it finds, and then changes nothing, or it is done. -/
theorem filesOp_cases {f : (String → Option ConfigFile) →
    Except AppError (α × (String → Option ConfigFile))} (h : filesOp e f m = (r, m')) :
    m.conn.Precedes m'.conn ∧
      (((m.conn.world 0).fault = true ∧ r = .error e ∧ m'.files = m.files) ∨
        (∃ e', f m.files = .error e' ∧ r = .error e' ∧ m'.files = m.files) ∨
        ∃ a, f m.files = .ok (a, m'.files) ∧ r = .ok a) := by
  simp only [filesOp, onDb, Txn.bind_run, Txn.step_run, draw] at h
  by_cases hfault : (m.conn.world 0).fault
  · rw [if_pos hfault] at h
    cases h
    exact ⟨⟨1, rfl⟩, .inl ⟨hfault, rfl, rfl⟩⟩
  · rw [if_neg hfault, Txn.step_run] at h
    cases hf : f m.files with
    | error e' =>
      simp only [hf] at h
      cases h
      exact ⟨⟨1, rfl⟩, .inr (.inl ⟨e', rfl, rfl, rfl⟩)⟩
    | ok p =>
      simp only [hf] at h
      cases h
      exact ⟨⟨1, rfl⟩, .inr (.inr ⟨p.1, rfl, rfl⟩)⟩

theorem fileCheck_cases (h : fileCheck e m = (r, m')) :
    m.conn.Precedes m'.conn ∧ m'.files = m.files ∧ (r = .error e ∨ r = .ok ()) := by
  obtain ⟨hp, ⟨-, rfl, hfiles⟩ | ⟨e', he, -⟩ | ⟨⟨⟩, hf, rfl⟩⟩ := filesOp_cases h
  · exact ⟨hp, hfiles, .inl rfl⟩
  · cases he
  · simp only [Except.ok.injEq, Prod.mk.injEq, true_and] at hf
    exact ⟨hp, hf.symm, .inr rfl⟩

/-- A file is read, or it is not there, or the operating system fails. -/
theorem readFile_cases (h : readFile missing failed path m = (r, m')) :
    m.conn.Precedes m'.conn ∧ m'.files = m.files ∧
      (((m.conn.world 0).fault = true ∧ r = .error failed) ∨
        (m.files path = none ∧ r = .error missing) ∨
        ∃ file, m.files path = some file ∧ r = .ok file.bytes) := by
  obtain ⟨hp, ⟨hfault, rfl, hfiles⟩ | ⟨e', he, rfl, hfiles⟩ | ⟨bytes, hf, rfl⟩⟩ := filesOp_cases h
  · exact ⟨hp, hfiles, .inl ⟨hfault, rfl⟩⟩
  · cases hfile : m.files path with
    | some file => simp [hfile] at he
    | none =>
      rw [hfile] at he
      cases he
      exact ⟨hp, hfiles, .inr (.inl ⟨rfl, rfl⟩)⟩
  · cases hfile : m.files path with
    | none => simp [hfile] at hf
    | some file =>
      simp only [hfile, Except.ok.injEq, Prod.mk.injEq] at hf
      exact ⟨hp, hf.2.symm, .inr (.inr ⟨file, rfl, by rw [hf.1]⟩)⟩

namespace HookServices

variable {sv : HookServices}

/-- The mode of a file is found, without an error. -/
theorem originalMode_ok (h : originalMode path mode m = (r, m')) :
    m.conn.Precedes m'.conn ∧ m'.files = m.files ∧ ∃ mode', r = .ok mode' := by
  cases mode with
  | some mode =>
    cases h
    exact ⟨.refl _, rfl, _, rfl⟩
  | none =>
    simp only [originalMode, fileMode, onDb, Txn.bind_run, Txn.step_run, draw] at h
    cases h
    exact ⟨⟨1, rfl⟩, rfl, _, rfl⟩

/-- The target is untouched, or it is the new file. -/
theorem performReplace_cases (h : sv.performReplace path bytes mode m = (r, m')) :
    m.conn.Precedes m'.conn ∧ ((∃ e, r = .error e) ∧ m'.files = m.files ∨
      r = .ok () ∧ ∃ mode', m'.files = Function.update m.files path (some ⟨bytes, mode'⟩)) := by
  rcases Txn.bind_cases h with ⟨e, h₁, rfl⟩ | ⟨⟨⟩, m₁, h₁, h⟩
  · obtain ⟨hp, hfiles, -⟩ := fileCheck_cases h₁
    exact ⟨hp, .inl ⟨⟨e, rfl⟩, hfiles⟩⟩
  obtain ⟨hp₁, hfiles₁, -⟩ := fileCheck_cases h₁
  rcases Txn.bind_cases h with ⟨e, h₂, rfl⟩ | ⟨⟨⟩, m₂, h₂, h⟩
  · obtain ⟨hp, hfiles, -⟩ := fileCheck_cases h₂
    exact ⟨hp₁.trans hp, .inl ⟨⟨e, rfl⟩, hfiles.trans hfiles₁⟩⟩
  obtain ⟨hp₂, hfiles₂, -⟩ := fileCheck_cases h₂
  rcases Txn.bind_cases h with ⟨e, h₃, rfl⟩ | ⟨⟨⟩, m₃, h₃, h⟩
  · obtain ⟨hp, hfiles, -⟩ := fileCheck_cases h₃
    exact ⟨hp₁.trans (hp₂.trans hp), .inl ⟨⟨e, rfl⟩, hfiles.trans (hfiles₂.trans hfiles₁)⟩⟩
  obtain ⟨hp₃, hfiles₃, -⟩ := fileCheck_cases h₃
  rcases Txn.bind_cases h with ⟨e, h₄, rfl⟩ | ⟨⟨⟩, m₄, h₄, h⟩
  · obtain ⟨hp, hfiles, -⟩ := fileCheck_cases h₄
    exact ⟨hp₁.trans (hp₂.trans (hp₃.trans hp)),
      .inl ⟨⟨e, rfl⟩, hfiles.trans (hfiles₃.trans (hfiles₂.trans hfiles₁))⟩⟩
  obtain ⟨hp₄, hfiles₄, -⟩ := fileCheck_cases h₄
  have hfiles : m₄.files = m.files := hfiles₄.trans (hfiles₃.trans (hfiles₂.trans hfiles₁))
  obtain ⟨hp, hcases⟩ := filesOp_cases h
  refine ⟨hp₁.trans (hp₂.trans (hp₃.trans (hp₄.trans hp))), ?_⟩
  rcases hcases with ⟨-, rfl, hsame⟩ | ⟨e, he, -⟩ | ⟨⟨⟩, hf, rfl⟩
  · exact .inl ⟨⟨_, rfl⟩, hsame.trans hfiles⟩
  · cases he
  · simp only [Except.ok.injEq, Prod.mk.injEq, true_and] at hf
    exact .inr ⟨rfl, _, by rw [← hf, hfiles]⟩

/-- The check of what was written reads the file and changes nothing. -/
theorem verifyResult_cases (h : sv.verifyResult path bytes m = (r, m'))
    (hfile : m.files path = some ⟨bytes, mode⟩) : m'.files = m.files ∧
      ((∃ n, (m.conn.world n).fault = true) ∧ r = .error replaceFailed ∨
        isUtf8 bytes = false ∧ r = .error (invalidConfig "non-utf8 configuration after replace") ∨
        isUtf8 bytes = true ∧ r = sv.parser.validate bytes) := by
  rcases Txn.bind_cases h with ⟨e, h₁, rfl⟩ | ⟨written, m₁, h₁, h⟩
  · obtain ⟨-, hfiles, ⟨hfault, he⟩ | ⟨hnone, -⟩ | ⟨file, -, he⟩⟩ := readFile_cases h₁
    · cases he
      exact ⟨hfiles, .inl ⟨⟨0, hfault⟩, rfl⟩⟩
    · rw [hfile] at hnone
      cases hnone
    · cases he
  · obtain ⟨-, hfiles, ⟨-, he⟩ | ⟨-, he⟩ | ⟨file, hread, he⟩⟩ := readFile_cases h₁
    · cases he
    · cases he
    · cases he
      obtain rfl : file = ⟨bytes, mode⟩ := Option.some.inj (hread.symm.trans hfile)
      rw [if_neg (not_not.mpr rfl)] at h
      cases hutf : isUtf8 bytes with
      | false =>
        simp only [hutf, Bool.not_false, if_true] at h
        cases h
        exact ⟨hfiles, .inr (.inl ⟨rfl, rfl⟩)⟩
      | true =>
        simp only [hutf, Bool.not_true, Bool.false_eq_true, if_false] at h
        refine ⟨(liftMachine_keeps.run h).trans hfiles, .inr (.inr ⟨rfl, ?_⟩)⟩
        cases hvalid : sv.parser.validate bytes <;> rw [hvalid] at h <;> cases h <;> rfl

/-! ## The whole replacement -/

/-- What a checked replacement may have done, with what it returned. -/
structure Replaced (sv : HookServices) (path inspectedHash : String) (bytes : List UInt8) (m : Machine)
    (r : Except AppError Unit) (m' : Machine) : Prop where
  /-- No other file is touched. -/
  frame : ∀ other ≠ path, m'.files other = m.files other
  /-- Without an error the target holds the new bytes, and they were checked. -/
  ok : r = .ok () → (∃ mode', m'.files path = some ⟨bytes, mode'⟩) ∧ isUtf8 bytes = true ∧
    sv.parser.validate bytes = .ok ()
  /-- With an error the target is as it was, or it holds the new bytes and their check failed. -/
  error : ∀ e, r = .error e → m'.files = m.files ∨ (∃ mode', m'.files path = some ⟨bytes, mode'⟩) ∧
    ((∃ n, (m.conn.world n).fault = true) ∧ e = replaceFailed ∨
      isUtf8 bytes = false ∧ e = invalidConfig "non-utf8 configuration after replace" ∨
      sv.parser.validate bytes = .error e)
  /-- Over any other content than the inspected one nothing is written. -/
  drift : (∀ file, m.files path = some file → sv.sha256Hex file.bytes ≠ inspectedHash) →
    (∃ e, r = .error e) ∧ m'.files = m.files

/-- A replacement that stopped before it published anything. -/
theorem Replaced.of_unchanged {e : AppError} (hfiles : m'.files = m.files) :
    Replaced sv path inspectedHash bytes m (.error e) m' where
  frame _ _ := by rw [hfiles]
  ok h := by cases h
  error _ _ := .inl hfiles
  drift _ := ⟨⟨e, rfl⟩, hfiles⟩

theorem atomicReplaceChecked_replaced
    (h : sv.atomicReplaceChecked path inspectedHash bytes mode m = (r, m')) :
    Replaced sv path inspectedHash bytes m r m' := by
  rcases Txn.bind_cases h with ⟨e, h₁, rfl⟩ | ⟨⟨⟩, m₁, h₁, h⟩
  · exact .of_unchanged (fileCheck_cases h₁).2.1
  obtain ⟨hp₁, hfiles₁, -⟩ := fileCheck_cases h₁
  rcases Txn.bind_cases h with ⟨e, h₂, rfl⟩ | ⟨current, m₂, h₂, h⟩
  · exact .of_unchanged ((readFile_cases h₂).2.1.trans hfiles₁)
  obtain ⟨hp₂, hfiles₂, ⟨-, he⟩ | ⟨-, he⟩ | ⟨file, hread, he⟩⟩ := readFile_cases h₂
  · cases he
  · cases he
  cases he
  replace hfiles₂ := hfiles₂.trans hfiles₁
  rw [hfiles₁] at hread
  by_cases hhash : sv.sha256Hex file.bytes ≠ inspectedHash
  · rw [if_pos hhash] at h
    cases h
    exact .of_unchanged hfiles₂
  rw [if_neg hhash] at h
  rcases Txn.bind_cases h with ⟨e, h₃, rfl⟩ | ⟨mode₃, m₃, h₃, h⟩
  · obtain ⟨-, hfiles, -⟩ := originalMode_ok h₃
    exact .of_unchanged (hfiles.trans hfiles₂)
  obtain ⟨hp₃, hfiles₃, -⟩ := originalMode_ok h₃
  replace hfiles₃ := hfiles₃.trans hfiles₂
  rcases Txn.bind_cases h with ⟨e, h₄, rfl⟩ | ⟨⟨⟩, m₄, h₄, h⟩
  · obtain ⟨-, ⟨-, hfiles⟩ | ⟨hok, -⟩⟩ := performReplace_cases h₄
    · exact .of_unchanged (hfiles.trans hfiles₃)
    · cases hok
  obtain ⟨hp₄, ⟨⟨e, he⟩, -⟩ | ⟨-, mode₄, hfiles₄⟩⟩ := performReplace_cases h₄
  · cases he
  -- the new bytes are published, and only their check is left
  rw [hfiles₃] at hfiles₄
  obtain ⟨k, hworld⟩ : m.conn.Precedes m₄.conn := hp₁.trans (hp₂.trans (hp₃.trans hp₄))
  have htarget : m₄.files path = some ⟨bytes, mode₄⟩ := by rw [hfiles₄, Function.update_self]
  obtain ⟨hfiles, hcheck⟩ := verifyResult_cases h htarget
  have htarget' : m'.files path = some ⟨bytes, mode₄⟩ := by rw [hfiles, htarget]
  refine ⟨fun other hother => ?_, fun hr => ⟨⟨mode₄, htarget'⟩, ?_⟩,
    fun e hr => .inr ⟨⟨mode₄, htarget'⟩, ?_⟩, fun hdrift => absurd (hdrift file hread) hhash⟩
  · rw [hfiles, hfiles₄, Function.update_of_ne hother]
  · rcases hcheck with ⟨-, he⟩ | ⟨-, he⟩ | ⟨hutf, hvalid⟩
    · cases he.symm.trans hr
    · cases he.symm.trans hr
    · exact ⟨hutf, hvalid.symm.trans hr⟩
  · rcases hcheck with ⟨⟨n, hfault⟩, he⟩ | ⟨hutf, he⟩ | ⟨hutf, hvalid⟩
    · refine .inl ⟨⟨n + k, ?_⟩, by cases he.symm.trans hr; rfl⟩
      rw [hworld] at hfault
      exact hfault
    · exact .inr (.inl ⟨hutf, by cases he.symm.trans hr; rfl⟩)
    · exact .inr (.inr (hvalid.symm.trans hr))

/-- **A checked replacement** publishes all of the new bytes or none of them, and says without an
error only that it published and checked them. -/
theorem atomicReplaceChecked_checked (sv : HookServices) (path inspectedHash : String)
    (bytes : List UInt8) (mode : Option UInt32) (m : Machine) :
    Replaced sv path inspectedHash bytes m (sv.atomicReplaceChecked path inspectedHash bytes mode m).1
      (sv.atomicReplaceChecked path inspectedHash bytes mode m).2 :=
  atomicReplaceChecked_replaced rfl

/-- An error leaves the target as it was. -/
def UndoneOnError (sv : HookServices) (path inspectedHash : String) (bytes : List UInt8)
    (mode : Option UInt32) (m : Machine) : Prop :=
  ∀ e, (sv.atomicReplaceChecked path inspectedHash bytes mode m).1 = .error e →
    (sv.atomicReplaceChecked path inspectedHash bytes mode m).2.files path = m.files path

end HookServices

namespace Sample

/-- An empty file, which cannot be read again once it was replaced. -/
def rereadFails : Machine where
  conn := { db := {}, world := fun n => { uuid := n, fault := n = 7 } }
  files := Function.update machine.files "/hooks.json" (some ⟨[], some 0o600⟩)

/-- The new bytes are published, and the error of the check does not undo them. -/
theorem not_undoneOnError : ¬ installer.sv.UndoneOnError "/hooks.json" (installer.sv.sha256Hex [])
    config (some 0o600) rereadFails := by
  intro h
  have hrun : (installer.sv.atomicReplaceChecked "/hooks.json" (installer.sv.sha256Hex []) config
      (some 0o600) rereadFails).1 = .error replaceFailed := by decide +kernel
  have hfile : (installer.sv.atomicReplaceChecked "/hooks.json" (installer.sv.sha256Hex []) config
      (some 0o600) rereadFails).2.files "/hooks.json" ≠ rereadFails.files "/hooks.json" := by
    decide +kernel
  exact hfile (h replaceFailed hrun)

end Sample

end CcReminder
