import CloudBackup.Httpd.ReportTokens
import CloudBackup.Library.StableSort
import CloudBackup.Library.Timestamps
import CloudBackup.Restore.Confinement

/-!
The list of restores: `getRowsForHandlerPostReportRestoreList`. Every target has a database of
its own. The rows of all of them are put together, sorted and cut to the page that is asked
for.

They are sorted by the texts of their start times, which are not always in the order of the
times (`CloudBackup.Library.Timestamps`); and the end of the page is computed with 64 bits, so
that it may lie before its beginning, which ends the request. `restoreList_window_iff` says
when neither matters.

The databases that are there can be opened and read.
-/

namespace CloudBackup.Httpd

open StableSort Timestamps
open Restore (textLe textLe_total textLe_trans)

/-! ### The databases -/

structure RestoreJobsRow where
  backupName : Str
  targetName : Str
  id : Str
  startTime : ℤ
  endTime : ℤ
  state : Str
  deriving DecidableEq, Repr

/-- The restore databases of the targets, in the order of the configuration, each with its rows
in the order in which they are visited. There is none for a target that was never restored
from. Ids of jobs are UUIDs, and all the rows fit into memory. -/
structure RestoreDbs where
  targets : List (Option (List RestoreJobsRow))
  ids : ((targets.flatMap (·.getD [])).map RestoreJobsRow.id).Nodup
  few : (targets.flatMap (·.getD [])).length < 2 ^ 62

def isListed (backupName : Str) (earliestStart latestStart : ℤ) (row : RestoreJobsRow) : Bool :=
  row.backupName = backupName ∧ row.state ≠ "started".toList ∧ earliestStart ≤ row.startTime ∧
    row.startTime ≤ latestStart

def reportJobsListQuery (backupName : Str) (earliestStart latestStart : ℤ) (limit offset : ℕ)
    (rows : List RestoreJobsRow) : List RestoreJobsRow :=
  (((rows.filter (isListed backupName earliestStart latestStart)).insertionSort fun r r' =>
    r.startTime ≤ r'.startTime).drop offset).take limit

structure ReportBackupListDbResults where
  name : Str
  jobId : Str
  startTime : Str
  endTime : Str
  state : Str
  deriving DecidableEq, Repr

/-- `merged[i:j]`; `none` is a panic. -/
def slice {α : Type} (l : List α) (i j : ℕ) : Option (List α) :=
  if i ≤ j ∧ j ≤ l.length then some ((l.take j).drop i) else none

def applyOffsetAndLimit {α : Type} (merged : List α) (limit offset : ℕ) : Option (List α) :=
  if merged.length ≤ offset then some []
  else
    let stop := (offset + limit) % 2 ^ 64
    slice merged offset (if merged.length < stop then merged.length else stop)

section

variable (zone : ℤ → ℤ)

def listResult (row : RestoreJobsRow) : ReportBackupListDbResults :=
  ⟨row.backupName, row.id, formatRFC3339Nano zone row.startTime, formatRFC3339Nano zone row.endTime, row.state⟩

def queryOneTargetRestoreJobsList (backupName : Str) (db : Option (List RestoreJobsRow))
    (earliestStart latestStart : ℤ) : List ReportBackupListDbResults :=
  match db with
  | none => []
  | some rows => (reportJobsListQuery backupName earliestStart latestStart (2 ^ 62) 0 rows).map (listResult zone)

def getRowsForHandlerPostReportRestoreList (backupName : Str) (dbs : RestoreDbs) (limit offset : ℕ)
    (earliestStart latestStart : ℤ) : Option (List ReportBackupListDbResults) :=
  let merged := (dbs.targets.flatMap fun db =>
    queryOneTargetRestoreJobsList zone backupName db earliestStart latestStart).insertionSort fun r r' =>
      textLe r.startTime r'.startTime
  applyOffsetAndLimit merged limit offset

end

/-! ### The rows that match -/

/-- The rows of all databases that match, one database after the other. -/
def restoreRows (backupName : Str) (dbs : RestoreDbs) (earliestStart latestStart : ℤ) : List RestoreJobsRow :=
  dbs.targets.flatMap fun db =>
    (((db.getD []).filter (isListed backupName earliestStart latestStart)).insertionSort fun r r' =>
      r.startTime ≤ r'.startTime)

section

variable {zone : ℤ → ℤ} {backupName : Str} {dbs : RestoreDbs} {earliestStart latestStart : ℤ}

theorem restoreRows_perm : (restoreRows backupName dbs earliestStart latestStart).Perm
    ((dbs.targets.flatMap (·.getD [])).filter (isListed backupName earliestStart latestStart)) := by
  rw [restoreRows, List.filter_flatMap]
  exact List.Perm.flatMap_left _ fun db _ => List.perm_insertionSort _ _

theorem length_restoreRows_lt (backupName : Str) (dbs : RestoreDbs) (earliestStart latestStart : ℤ) :
    (restoreRows backupName dbs earliestStart latestStart).length < 2 ^ 62 := by
  rw [restoreRows_perm.length_eq]
  exact (List.length_filter_le _ _).trans_lt dbs.few

theorem nodup_listResult : ((restoreRows backupName dbs earliestStart latestStart).map (listResult zone)).Nodup := by
  refine List.Nodup.of_map ReportBackupListDbResults.jobId ?_
  rw [List.map_map, (restoreRows_perm.map _).nodup_iff]
  exact dbs.ids.sublist (List.filter_sublist.map _)

theorem queryOneTarget_eq {db : Option (List RestoreJobsRow)} (hdb : db ∈ dbs.targets) :
    queryOneTargetRestoreJobsList zone backupName db earliestStart latestStart =
      (((db.getD []).filter (isListed backupName earliestStart latestStart)).insertionSort fun r r' =>
        r.startTime ≤ r'.startTime).map (listResult zone) := by
  cases db with
  | none => rfl
  | some rows =>
      have hrows : rows.length ≤ (dbs.targets.flatMap (·.getD [])).length := by
        obtain ⟨before, after, hsplit⟩ := List.append_of_mem hdb
        simp only [hsplit, List.flatMap_append, List.flatMap_cons, List.length_append, Option.getD_some]
        omega
      have hfew := dbs.few
      have hlimit : ((rows.filter (isListed backupName earliestStart latestStart)).insertionSort fun r r' =>
          r.startTime ≤ r'.startTime).length ≤ 2 ^ 62 := by
        rw [List.length_insertionSort]
        have hfilter := List.length_filter_le (isListed backupName earliestStart latestStart) rows
        omega
      simp only [queryOneTargetRestoreJobsList, reportJobsListQuery, List.drop_zero, Option.getD_some]
      rw [List.take_of_length_le hlimit]

def timeOrder (r r' : RestoreJobsRow) : Prop := r.startTime ≤ r'.startTime

def textOrder (zone : ℤ → ℤ) (r r' : RestoreJobsRow) : Prop :=
  textLe (formatRFC3339Nano zone r.startTime) (formatRFC3339Nano zone r'.startTime) = true

instance : DecidableRel timeOrder := fun r r' => inferInstanceAs (Decidable (r.startTime ≤ r'.startTime))

instance (zone : ℤ → ℤ) : DecidableRel (textOrder zone) := fun _ _ => inferInstanceAs (Decidable (_ = true))

instance : Std.Total timeOrder := ⟨fun r r' => le_total r.startTime r'.startTime⟩

instance : IsTrans RestoreJobsRow timeOrder := ⟨fun _ _ _ h h' => le_trans (α := ℤ) h h'⟩

instance : Std.Total (textOrder zone) := ⟨fun _ _ => textLe_total _ _⟩

instance : IsTrans RestoreJobsRow (textOrder zone) := ⟨fun _ _ _ h h' => textLe_trans h h'⟩

theorem merged_eq : (dbs.targets.flatMap fun db =>
      queryOneTargetRestoreJobsList zone backupName db earliestStart latestStart).insertionSort
        (fun r r' => textLe r.startTime r'.startTime) =
    ((restoreRows backupName dbs earliestStart latestStart).insertionSort (textOrder zone)).map (listResult zone) := by
  rw [List.map_insertionSort (textOrder zone) (fun r r' : ReportBackupListDbResults => textLe r.startTime r'.startTime)
    (listResult zone) _ fun _ _ _ _ => Iff.rfl, restoreRows, List.map_flatMap]
  congr 1
  exact List.flatMap_congr fun db hdb => queryOneTarget_eq hdb

variable {limit offset : ℕ}

theorem slice_eq {α : Type} (l : List α) {i j : ℕ} (h : i ≤ j) (hj : j ≤ l.length) :
    slice l i j = some (window (j - i) i l) := by
  rw [slice, if_pos ⟨h, hj⟩, window, List.drop_take]

/-- The page is cut as it should, if its end does not lie before its beginning. -/
theorem applyOffsetAndLimit_eq {α : Type} {merged : List α} (hlimit : limit < 2 ^ 64) (hfew : merged.length < 2 ^ 64) :
    applyOffsetAndLimit merged limit offset =
      if merged.length ≤ offset ∨ offset + limit < 2 ^ 64 then some (window limit offset merged) else none := by
  rw [applyOffsetAndLimit]
  by_cases hpast : merged.length ≤ offset
  · rw [if_pos hpast, if_pos (.inl hpast), window, List.drop_eq_nil_of_le hpast, List.take_nil]
  · rw [if_neg hpast]
    dsimp only
    by_cases hwrap : offset + limit < 2 ^ 64
    · have hpage : merged.length ≤ offset ∨ offset + limit < 2 ^ 64 := .inr hwrap
      rw [if_pos hpage, Nat.mod_eq_of_lt hwrap]
      split
      · rename_i hlong
        rw [slice_eq merged (by omega) le_rfl, window, window, List.take_of_length_le List.length_drop.le,
          List.take_of_length_le (by rw [List.length_drop]; omega)]
      · rw [slice_eq merged (by omega) (by omega), Nat.add_sub_cancel_left]
    -- the end is 2 ^ 64 too small
    · have hpage : ¬ (merged.length ≤ offset ∨ offset + limit < 2 ^ 64) := not_or.mpr ⟨hpast, hwrap⟩
      rw [if_neg hpage, slice, if_neg]
      rintro ⟨hle, -⟩
      split at hle <;> omega

theorem getRows_eq (hlimit : limit < 2 ^ 64) :
    getRowsForHandlerPostReportRestoreList zone backupName dbs limit offset earliestStart latestStart =
      if (restoreRows backupName dbs earliestStart latestStart).length ≤ offset ∨ offset + limit < 2 ^ 64 then
        some ((window limit offset ((restoreRows backupName dbs earliestStart latestStart).insertionSort
          (textOrder zone))).map (listResult zone))
      else none := by
  have hfew := length_restoreRows_lt backupName dbs earliestStart latestStart
  have hlength : (((restoreRows backupName dbs earliestStart latestStart).insertionSort (textOrder zone)).map
      (listResult zone)).length = (restoreRows backupName dbs earliestStart latestStart).length := by
    rw [List.length_map, List.length_insertionSort]
  rw [getRowsForHandlerPostReportRestoreList, merged_eq, applyOffsetAndLimit_eq hlimit (by omega), hlength, window,
    window, List.map_take, List.map_drop]

/-- The page has the rows from `offset` to `offset + limit` of all that match, sorted by the
time of their start, and nothing panics. -/
def IsWindow (zone : ℤ → ℤ) (backupName : Str) (dbs : RestoreDbs) (limit offset : ℕ)
    (earliestStart latestStart : ℤ) : Prop :=
  getRowsForHandlerPostReportRestoreList zone backupName dbs limit offset earliestStart latestStart =
    some ((window limit offset ((restoreRows backupName dbs earliestStart latestStart).insertionSort
      timeOrder)).map (listResult zone))

/-- The texts of the starts leave the rows of the page where their times put them: a row that is
on the page by its time comes, by its text, behind as many later rows as it comes before
earlier ones. -/
def TextsAgree (zone : ℤ → ℤ) (rows : List RestoreJobsRow) (limit offset : ℕ) : Prop :=
  ∀ row ∈ rows.zipIdx, offset ≤ place timeOrder rows row → place timeOrder rows row < offset + limit →
    overtaken timeOrder (textOrder zone) rows row = overtaken (textOrder zone) timeOrder rows row

theorem textsAgree_iff {rows : List RestoreJobsRow} :
    TextsAgree zone rows limit offset ↔ SamePlaces timeOrder (textOrder zone) rows limit offset := by
  simp only [TextsAgree, SamePlaces, place_eq_iff]

/-- The page is right exactly if it lies behind the end, or its end fits into 64 bits and the
texts put no other rows into it. -/
theorem restoreList_window_iff (hlimit : limit < 2 ^ 64) :
    IsWindow zone backupName dbs limit offset earliestStart latestStart ↔
      (restoreRows backupName dbs earliestStart latestStart).length ≤ offset ∨
        (offset + limit < 2 ^ 64 ∧
          TextsAgree zone (restoreRows backupName dbs earliestStart latestStart) limit offset) := by
  have hpast : ∀ {r : RestoreJobsRow → RestoreJobsRow → Prop} [DecidableRel r],
      (restoreRows backupName dbs earliestStart latestStart).length ≤ offset →
      window limit offset ((restoreRows backupName dbs earliestStart latestStart).insertionSort r) = [] := by
    intro r _ hle
    rw [window, List.drop_eq_nil_of_le (by rwa [List.length_insertionSort]), List.take_nil]
  rw [IsWindow, getRows_eq hlimit]
  by_cases hle : (restoreRows backupName dbs earliestStart latestStart).length ≤ offset
  · rw [if_pos (.inl hle), hpast hle, hpast hle]
    exact iff_of_true rfl (.inl hle)
  · by_cases hwrap : offset + limit < 2 ^ 64
    · rw [if_pos (.inr hwrap), Option.some.injEq, map_window_eq_iff nodup_listResult, textsAgree_iff]
      simp only [hle, hwrap, false_or, true_and]
    · rw [if_neg (not_or.mpr ⟨hle, hwrap⟩)]
      simp only [hle, hwrap, false_or, false_and, reduceCtorEq]

end

/-! ### Two targets -/

def startedAt (id : Str) (nanos : ℤ) : RestoreJobsRow :=
  ⟨"home".toList, "s3".toList, id, nanos, nanos, "finished".toList⟩

def twoRestores (late early : ℤ) : RestoreDbs where
  targets := [some [startedAt "1".toList late], none, some [startedAt "2".toList early]]
  ids := show ["1".toList, "2".toList].Nodup by decide
  few := by simp

theorem restoreList_window_secondPage : IsWindow utc "home".toList (twoRestores 1000000000 0) 1 1 0 2000000000 := by
  refine (restoreList_window_iff (by decide)).mpr (.inr ⟨by decide, ?_⟩)
  unfold TextsAgree
  decide

/-- A page that begins with the second row and whose end is one too large for 64 bits; and two
rows of one second, whose texts end with `00.5Z` and `00Z`. -/
theorem restoreList_window_fails :
    ¬ IsWindow utc "home".toList (twoRestores 500000000 0) (2 ^ 64 - 1) 1 0 2000000000 ∧
      ¬ IsWindow utc "home".toList (twoRestores 500000000 0) 1 0 0 2000000000 := by
  unfold IsWindow
  constructor
  · decide
  · decide

end CloudBackup.Httpd
