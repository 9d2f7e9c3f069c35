import CloudBackup.Database.Tables
import CloudBackup.Library.UnixPath
import Mathlib.Data.List.Infix

/-!
Where the databases are kept. A backup has a file of its own under its name, and a
restore has one under a name that is put together from those of the backup and of the
target. `validateBackupOrTargetName` is there to keep these names apart. It refuses a
name that holds the separator, but not one that ends or begins with half of it.
-/

namespace CloudBackup.Database

open UnixPath

/-! ### Names -/

def restoreDbPrefix : Str := "restore__".toList

def restoreDbSeparator : Str := "__".toList

def getRestoreDbKey (backupName targetName : Str) : Str :=
  restoreDbPrefix ++ backupName ++ restoreDbSeparator ++ targetName

inductive NameErr
  | separator
  | pathSeparator
  | reservedName
  deriving DecidableEq, Repr

def validateBackupOrTargetName (name : Str) : Except NameErr Unit :=
  if restoreDbSeparator <:+: name then .error .separator
  else if name.any (fun c => c = '/' || c = '\\') then .error .pathSeparator
  else if name = ['.'] ∨ name = ['.', '.'] then .error .reservedName
  else .ok ()

/-! ### Paths -/

/-- `filepath.Abs`, given what `os.Getwd` returns. -/
def absPath (getwd : Option { dir : Str // isAbs dir = true }) (path : Str) : Option Str :=
  if isAbs path then some (clean path) else getwd.map fun dir => join dir.1 path

def sqlite : Str := ".sqlite".toList

def getDbFilePath (getwd : Option { dir : Str // isAbs dir = true }) (datadir backupName : Str) :
    Option Str :=
  absPath getwd (datadir ++ '/' :: backupName ++ sqlite)

def getRestoreDbFilePath (getwd : Option { dir : Str // isAbs dir = true })
    (datadir backupName targetName : Str) : Option Str :=
  absPath getwd (datadir ++ '/' :: (getRestoreDbKey backupName targetName ++ sqlite))

def SameFile (p q : Option Str) : Prop := ∃ file, p = some file ∧ q = some file

/-! ### Two names around a separator -/

/-- A list without two separators in a row, behind it two of them, and then another
list: the two can be told apart, up to a separator at the end of the first or at the
start of the second. -/
theorem append_double_eq {α : Type} {c : α} {a a' b b' : List α} (ha : ¬ [c, c] <:+: a) (ha' : ¬ [c, c] <:+: a')
    (h : a ++ c :: c :: b = a' ++ c :: c :: b') :
    (a = a' ∧ b = b') ∨ (a' = a ++ [c] ∧ b = c :: b') ∨ (a = a' ++ [c] ∧ b' = c :: b) := by
  -- a longer rest than one separator has two of them
  have hrest : ∀ {a a' b b' x : List α}, ¬ [c, c] <:+: a' → a' = a ++ x →
      c :: c :: b = x ++ c :: c :: b' → (a = a' ∧ b = b') ∨ (a' = a ++ [c] ∧ b = c :: b') := by
    intro a a' b b' x hne hx heq
    rcases x with _ | ⟨d, _ | ⟨e, x⟩⟩
    · simp only [List.nil_append, List.cons.injEq, true_and] at heq
      exact .inl ⟨by simpa using hx.symm, heq⟩
    · simp only [List.cons_append, List.nil_append, List.cons.injEq, true_and] at heq
      obtain ⟨rfl, rfl⟩ := heq
      exact .inr ⟨hx, rfl⟩
    · simp only [List.cons_append, List.cons.injEq] at heq
      obtain ⟨rfl, rfl, -⟩ := heq
      exact absurd ⟨a, x, by simp [hx]⟩ hne
  rcases List.append_eq_append_iff.mp h with ⟨x, hx, heq⟩ | ⟨x, hx, heq⟩
  · exact (hrest ha' hx heq).imp_right .inl
  · rcases hrest ha hx heq with ⟨rfl, rfl⟩ | hshift
    · exact .inl ⟨rfl, rfl⟩
    · exact .inr (.inr hshift)

/-- An underscore has moved from the end of the backup's name to the start of the
target's. -/
def Shifted (backupName targetName backupName' targetName' : Str) : Prop :=
  backupName = backupName' ++ ['_'] ∧ targetName' = '_' :: targetName

structure Accepted (name : Str) : Prop where
  noSeparator : ¬ ['_', '_'] <:+: name
  noSlash : '/' ∉ name

theorem accepted_of_validate {name : Str} (h : validateBackupOrTargetName name = .ok ()) :
    Accepted name := by
  unfold validateBackupOrTargetName at h
  split at h
  · cases h
  · rename_i hsep
    split at h
    · cases h
    · rename_i hslash
      refine ⟨hsep, fun hmem => hslash ?_⟩
      exact List.any_eq_true.mpr ⟨'/', hmem, by simp⟩

theorem getRestoreDbKey_eq (b t : Str) :
    getRestoreDbKey b t = restoreDbPrefix ++ (b ++ '_' :: '_' :: t) := by
  rw [getRestoreDbKey, List.append_assoc, List.append_assoc]
  rfl

section

variable {b t b' t' : Str}

theorem getRestoreDbKey_eq_iff (hb : Accepted b) (hb' : Accepted b') :
    getRestoreDbKey b t = getRestoreDbKey b' t' ↔
      (b = b' ∧ t = t') ∨ Shifted b t b' t' ∨ Shifted b' t' b t := by
  rw [getRestoreDbKey_eq, getRestoreDbKey_eq, List.append_cancel_left_eq]
  constructor
  · intro h
    rcases append_double_eq hb.noSeparator hb'.noSeparator h with heq | hshift | hshift
    · exact .inl heq
    · exact .inr (.inr hshift)
    · exact .inr (.inl hshift)
  · rintro (⟨rfl, rfl⟩ | ⟨rfl, rfl⟩ | ⟨rfl, rfl⟩)
    · rfl
    · simp
    · simp

/-- A key holds the separator, and the name of a backup does not. -/
theorem getRestoreDbKey_ne (hb' : Accepted b') : getRestoreDbKey b t ≠ b' := by
  rintro rfl
  apply hb'.noSeparator
  rw [getRestoreDbKey_eq]
  exact ⟨restoreDbPrefix ++ b, t, by simp⟩

theorem noSlash_getRestoreDbKey (hb : Accepted b) (ht : Accepted t) : '/' ∉ getRestoreDbKey b t := by
  have hprefix : '/' ∉ restoreDbPrefix := by decide
  have hseparator : '/' ∉ restoreDbSeparator := by decide
  rw [getRestoreDbKey]
  simp only [List.mem_append, hprefix, hseparator, hb.noSlash, ht.noSlash, or_self, not_false_eq_true]

end

/-! ### One directory for all -/

theorem isName_sqlite {name : Str} (h : '/' ∉ name) : IsName (name ++ sqlite) := by
  have hlong : 7 ≤ (name ++ sqlite).length := by
    rw [List.length_append]
    exact Nat.le_add_left 7 name.length
  have hsqlite : '/' ∉ sqlite := by decide
  refine ⟨?_, ?_, ?_, ?_⟩
  · intro heq
    simp [heq] at hlong
  · simp only [List.mem_append, h, hsqlite, or_self, not_false_eq_true]
  · intro heq
    simp [heq] at hlong
  · intro heq
    simp [heq] at hlong

/-- The file of a name is in the data directory, if that can be found at all. -/
theorem absPath_name (getwd : Option { dir : Str // isAbs dir = true }) (datadir : Str) :
    (∀ n, absPath getwd (datadir ++ '/' :: n) = none) ∨ ∃ dir : Names, (∀ m ∈ dir, IsName m) ∧
      ∀ n, IsName n → absPath getwd (datadir ++ '/' :: n) = some (text (dir ++ [n])) := by
  have hbelow : ∀ (dir : Str), isAbs dir = true → ∀ n, IsName n →
      clean (dir ++ '/' :: n) = text (components dir ++ [n]) := by
    intro dir hdir n hn
    have hjoin := @join_tail_text dir hdir [n] (by simpa using hn)
    have hne : dir ≠ [] := by
      rintro rfl
      cases hdir
    rw [join, if_neg fun hnil => hne hnil.1, if_neg hne] at hjoin
    simpa [text] using hjoin
  cases hdata : datadir with
  | nil =>
      refine .inr ⟨[], by simp, fun n hn => ?_⟩
      have hclean := (@isClean_text [n] (by simpa using hn)).2
      rw [absPath, if_pos (by rfl)]
      simpa [text] using congrArg some hclean
  | cons c rest =>
      by_cases habs : isAbs (c :: rest) = true
      · refine .inr ⟨components (c :: rest), fun m hm => isName_of_mem_components habs hm, fun n hn => ?_⟩
        rw [absPath, if_pos (by exact habs), hbelow (c :: rest) habs n hn]
      · have hrel : ∀ n, isAbs (c :: rest ++ '/' :: n) = isAbs (c :: rest) := fun _ => rfl
        cases getwd with
        | none => exact .inl fun n => by rw [absPath, if_neg (by rw [hrel]; exact habs)]; rfl
        | some wd =>
            have hwd : isAbs (wd.1 ++ '/' :: (c :: rest)) = true := by
              obtain ⟨wd, hwd⟩ := wd
              cases wd with
              | nil => cases hwd
              | cons d wd => exact hwd
            have hne : wd.1 ≠ [] := by
              intro hnil
              have hwd' := wd.2
              rw [hnil] at hwd'
              cases hwd'
            refine .inr ⟨components (wd.1 ++ '/' :: (c :: rest)),
              fun m hm => isName_of_mem_components hwd hm, fun n hn => ?_⟩
            rw [absPath, if_neg (by rw [hrel]; exact habs), Option.map_some, join,
              if_neg fun hnil => hne hnil.1, if_neg hne, ← hbelow _ hwd n hn]
            simp

theorem absPath_inj {getwd : Option { dir : Str // isAbs dir = true }} {datadir n n' : Str} (hn : '/' ∉ n)
    (hn' : '/' ∉ n') (h : SameFile (absPath getwd (datadir ++ '/' :: (n ++ sqlite)))
      (absPath getwd (datadir ++ '/' :: (n' ++ sqlite)))) : n = n' := by
  obtain ⟨file, hfile, hfile'⟩ := h
  rcases absPath_name getwd datadir with hnone | ⟨dir, hdir, hname⟩
  · rw [hnone] at hfile
    cases hfile
  · rw [hname _ (isName_sqlite hn)] at hfile
    rw [hname _ (isName_sqlite hn')] at hfile'
    have heq := congrArg components (Option.some.inj (hfile.trans hfile'.symm))
    have hall : ∀ m : Str, '/' ∉ m → ∀ x ∈ dir ++ [m ++ sqlite], IsName x := by
      intro m hm x hx
      rcases List.mem_append.mp hx with hx | hx
      · exact hdir x hx
      · obtain rfl := List.mem_singleton.mp hx
        exact isName_sqlite hm
    rw [components_text (hall n hn), components_text (hall n' hn')] at heq
    simpa using heq

/-! ### The files of jobs -/

/-- Two backups, with a target each, have files of their own for themselves and for the
restores. -/
structure KeptApart (getwd : Option { dir : Str // isAbs dir = true }) (datadir b t b' t' : Str) : Prop where
  keys : (b, t) ≠ (b', t') → getRestoreDbKey b t ≠ getRestoreDbKey b' t'
  restores : (b, t) ≠ (b', t') →
    ¬ SameFile (getRestoreDbFilePath getwd datadir b t) (getRestoreDbFilePath getwd datadir b' t')
  backups : b ≠ b' → ¬ SameFile (getDbFilePath getwd datadir b) (getDbFilePath getwd datadir b')
  others : ∀ name, validateBackupOrTargetName name = .ok () → getRestoreDbKey b t ≠ name ∧
    ¬ SameFile (getRestoreDbFilePath getwd datadir b t) (getDbFilePath getwd datadir name)

end CloudBackup.Database
