import CloudBackup.Library.Runs
import CloudBackup.ObjectStore.Keys

/-!
`SquashForwardSlashes` as its loop has it, and what is there when the loop is done. A round
halves each run of slashes, so that a long one takes several rounds. But there is only one text that
the loop can end with: the one in which every run of slashes is a single slash.

All keys of a bucket are made with it, but for that of the keystore.
-/

namespace CloudBackup.ObjectStore.Keys

open Database Runs

/-! ### The loop -/

/-- After some rounds the text is `t`, and there are no two slashes in a row in it. -/
def SquashReturns (s t : Str) : Prop := ∃ rounds, squashLoop rounds s = t ∧ ¬ ['/', '/'] <:+: t

theorem squashForwardSlashes_squashLoop (rounds : ℕ) (s : Str) :
    squashForwardSlashes (squashLoop rounds s) = squashForwardSlashes s := by
  induction rounds generalizing s with
  | zero => rfl
  | succ rounds ih =>
      rw [squashLoop]
      split
      · rw [ih, squashForwardSlashes_replaceAll]
      · rfl

/-! ### The runs of slashes -/

theorem squashForwardSlashes_eq_squeeze (s : Str) : squashForwardSlashes s = squeeze '/' s := by
  induction s using squeeze_induction (a := '/') with
  | nil => rfl
  | other c s hc ih => rw [squashForwardSlashes_cons hc, squeeze_cons_of_ne hc, ih]
  | again s ih => rw [squashForwardSlashes, squeeze_cons_cons, ih]
  | last s hs ih =>
      cases s with
      | nil => rfl
      | cons c s =>
          have hc : c ≠ '/' := by simpa using hs
          rw [squeeze_cons_of_head hs, ← ih, squashForwardSlashes_slash hc, squashForwardSlashes_cons hc]

theorem squashReturns_iff {s t : Str} : SquashReturns s t ↔ t = squeeze '/' s := by
  constructor
  · rintro ⟨rounds, rfl, hpair⟩
    rw [← squashForwardSlashes_eq_squeeze, ← squashForwardSlashes_squashLoop rounds,
      squashForwardSlashes_of_noPair hpair]
  · rintro rfl
    exact ⟨s.length, (squashLoop_eq le_rfl).trans (squashForwardSlashes_eq_squeeze s), not_pair_squeeze '/' s⟩

/-- The loop comes to an end for every text. Of each run of slashes a single one is left, and all else
is left in its order. So there are no two slashes in a row, and to squash once more changes nothing. -/
theorem squashForwardSlashes_normalForm (s : Str) :
    (∀ rs, IsRuns '/' rs ∧ rs.flatten = s ↔ rs = runs '/' s) ∧
      (∀ t, SquashReturns s t ↔ t = (runs '/' s).filterMap List.head?) ∧
      (squeeze '/' s).filter (· ≠ '/') = s.filter (· ≠ '/') ∧
      ¬ ['/', '/'] <:+: squeeze '/' s ∧
      ∀ t, SquashReturns (squeeze '/' s) t ↔ t = squeeze '/' s := by
  refine ⟨fun rs => isRuns_iff, fun t => squashReturns_iff, filter_squeeze '/' s, not_pair_squeeze '/' s, fun t => ?_⟩
  rw [squashReturns_iff, squeeze_squeeze]

/-! ### The keys -/

theorem squashForwardSlashes_noPair (s : Str) : ¬ ['/', '/'] <:+: squashForwardSlashes s := by
  rw [squashForwardSlashes_eq_squeeze]
  exact not_pair_squeeze '/' s

/-- No key has two slashes in a row, whatever the prefix and the path are. -/
theorem calculateRemotePath_noPair (storePrefix path : Str) (metadata : Bool) :
    ¬ ['/', '/'] <:+: calculateRemotePath storePrefix path metadata := by
  rw [calculateRemotePath]
  split <;> exact squashForwardSlashes_noPair _

theorem calculateAzureStorageRemotePath_noPair (storePrefix path : Str) (metadata : Bool) (version : ℤ)
    (deleteMarker : Bool) :
    ¬ ['/', '/'] <:+: (calculateAzureStorageRemotePath storePrefix path metadata version deleteMarker).1 := by
  rw [calculateAzureStorageRemotePath]
  split <;> exact squashForwardSlashes_noPair _

end CloudBackup.ObjectStore.Keys
