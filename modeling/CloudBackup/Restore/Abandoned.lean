import CloudBackup.ObjectStore.Transfer
import CloudBackup.Restore.RestoreJob

/-!
A restore that is cancelled and resumed, seen from one row of a file. `restoreOne` waits for
its `Get` and for the context: if it is cancelled it returns at once, and the goroutine with
the `Get` is left alone. That one goes on until its store notices; meanwhile the job may have
been resumed, and the row restored by another `Get` to the same path.

All of them write the same content, each from its own descriptor, so their writes do no harm
to each other. But `os.Create` empties a file that is there. `Step` takes a condition on the
state in which an abandoned `Get` may do so: without one the file can be lost, and under
`Harmless` it cannot.
-/

namespace CloudBackup.Restore.Abandoned

open Cbcrypto Database ObjectStore FileWrites

/-- A goroutine that runs `Get`: if it has created the file, what it has still to do to it
and what it will return. -/
structure Task where
  created : Bool
  ahead : List (FileOp UInt8)
  ret : Option GetResult
  deriving DecidableEq, Repr

def Task.ofAttempt (a : Attempt) : Task := ⟨false, a.1, a.2⟩

/-- The task after its next operation. The first one is `os.Create`. -/
def Task.tail (t : Task) : Task := { t with created := true, ahead := t.ahead.tail }

/-- The file at the destination, the state of the row, the `Get` that `restoreOne` waits for
and those it has left alone. -/
structure State where
  file : Option Bytes
  row : FileState
  current : Option Task
  abandoned : List Task
  deriving DecidableEq, Repr

/-- The state of the row after `restoreOne`, which stays as it is if that was cancelled. -/
def outcome (ret : GetResult) (row : FileState) : FileState :=
  if ret.err.isSome then .failed else if ret.cancelled then row else .done

def setFileState (ok : Bool) (row' row : FileState) : FileState := if ok then row' else row

section

variable (A : Aead) (rec : Record) (remoteVersion : Str) (content body : Bytes) (allowed : State → Prop)

inductive Step : State → State → Prop
  /-- A run of the job comes to the row, which it does as long as it is not done. -/
  | start {s : State} (st : Store) (inc : Incoming) (hcurrent : s.current = none)
      (hrow : s.row ≠ .done) (hholds : Holds A st.enc content rec.props.encrypted body)
      (hserves : Serves inc body) (ok : Bool) :
      Step s { s with
        row := setFileState ok .inProgress s.row
        current := some (.ofAttempt (st.download A rec remoteVersion inc)) }
  | write {s : State} {t : Task} {op : FileOp UInt8} {ahead : List (FileOp UInt8)}
      (hcurrent : s.current = some t) (hahead : t.ahead = op :: ahead) :
      Step s { s with file := op.run s.file, current := some t.tail }
  | finish {s : State} {t : Task} (ret : GetResult) (hcurrent : s.current = some t)
      (hahead : t.ahead = []) (hret : t.ret = some ret) (ok : Bool) :
      Step s { s with row := setFileState ok (outcome ret s.row) s.row, current := none }
  /-- The context is cancelled while `restoreOne` waits. -/
  | cancel {s : State} {t : Task} (hcurrent : s.current = some t) :
      Step s { s with current := none, abandoned := t :: s.abandoned }
  | leak {s : State} {l r : List Task} {t : Task} {op : FileOp UInt8} {ahead : List (FileOp UInt8)}
      (habandoned : s.abandoned = l ++ t :: r) (hahead : t.ahead = op :: ahead)
      (hallowed : op = .create → allowed s) :
      Step s { s with file := op.run s.file, abandoned := l ++ t.tail :: r }

end

/-- A new job: anything may be at the destination. -/
def State.Initial (s : State) : Prop := s.row ≠ .done ∧ s.current = none ∧ s.abandoned = []

def State.Ended (s : State) : Prop := s.current = none ∧ ∀ t ∈ s.abandoned, t.ahead = []

/-- A row that is done has its file. -/
def State.Restored (content : Bytes) (s : State) : Prop :=
  s.Ended → s.row = .done → s.file = some content

/-- The file is empty anyway, or no later `Get` has created it. -/
def State.Harmless (s : State) : Prop :=
  s.file = some [] ∨ s.row ≠ .done ∧ ∀ t, s.current = some t → t.created = false

/-! ### The invariant -/

def Task.Left (content : Bytes) (t : Task) : Prop :=
  if t.created then Writes content t.ahead else Transfers content (t.ahead, t.ret)

def Task.OnFile (content : Bytes) (t : Task) (file : Option Bytes) : Prop :=
  t.created = true → t.ret = some .done → ∃ x, file = some x ∧ Filling content t.ahead x

structure Inv (content : Bytes) (s : State) : Prop where
  abandoned : ∀ t ∈ s.abandoned, t.Left content
  current : ∀ t, s.current = some t → t.Left content ∧ t.OnFile content s.file
  done : s.row = .done → s.current = none ∧ s.file = some content

theorem Task.Left.ofAttempt {content : Bytes} {a : Attempt} (h : Transfers content a) :
    (Task.ofAttempt a).Left content := h

/-- The next operation of a download: it creates the file, or it writes a part of it. -/
theorem Task.Left.cases {content : Bytes} {t : Task} {op : FileOp UInt8} {ahead : List (FileOp UInt8)}
    (h : t.Left content) (hahead : t.ahead = op :: ahead) :
    (t.created = false ∧ op = .create ∧ Writes content ahead ∧
      (t.ret = some .done → ∀ p < content.length, Covers ahead p)) ∨
    (t.created = true ∧ Writes content ahead ∧
      ∃ off c, op = .writeAt off c ∧ c <+: content.drop off) := by
  unfold Task.Left at h
  rw [hahead] at h
  cases hcreated : t.created with
  | false =>
      simp only [hcreated, Bool.false_eq_true, if_false] at h
      cases h with
      | created hws hdone => exact .inl ⟨rfl, rfl, hws, hdone⟩
  | true =>
      simp only [hcreated, if_true] at h
      exact .inr ⟨rfl, fun op' hop' => h op' (List.mem_cons_of_mem _ hop'), h op List.mem_cons_self⟩

theorem Task.Left.tail {content : Bytes} {t : Task} {op : FileOp UInt8} {ahead : List (FileOp UInt8)}
    (h : t.Left content) (hahead : t.ahead = op :: ahead) : t.tail.Left content := by
  have hws : Writes content ahead := by
    rcases h.cases hahead with ⟨-, -, hws, -⟩ | ⟨-, hws, -⟩ <;> exact hws
  simpa [Task.Left, Task.tail, hahead] using hws

theorem Task.OnFile.tail {content : Bytes} {t : Task} {op : FileOp UInt8}
    {ahead : List (FileOp UInt8)} {file : Option Bytes} (h : t.Left content)
    (hfile : t.OnFile content file) (hahead : t.ahead = op :: ahead) :
    t.tail.OnFile content (op.run file) := by
  intro _ hret
  rcases h.cases hahead with ⟨-, rfl, -, hcover⟩ | ⟨hcreated, -, off, c, rfl, hc⟩
  · refine ⟨[], rfl, ?_⟩
    simpa [Task.tail, hahead] using Filling.of_empty (hcover hret)
  · obtain ⟨x, rfl, hx⟩ := hfile hcreated hret
    rw [hahead] at hx
    refine ⟨_, rfl, ?_⟩
    simpa [Task.tail, hahead] using hx.next hc

theorem Task.OnFile.writeAt {content c : Bytes} {t : Task} {file : Option Bytes} {off : ℕ}
    (h : t.OnFile content file) (hc : c <+: content.drop off) :
    t.OnFile content ((FileOp.writeAt off c).run file) := by
  intro hcreated hret
  obtain ⟨x, rfl, hx⟩ := h hcreated hret
  exact ⟨_, rfl, hx.overlay hc⟩

/-- A file that holds the content is not changed by a write of it. -/
theorem run_writeAt_content {content c : Bytes} {off : ℕ} (hc : c <+: content.drop off) :
    (FileOp.writeAt off c).run (some content) = some content := by
  rw [run_writeAt, ((filling_self content).overlay hc).eq]

theorem Task.file_of_done {content : Bytes} {t : Task} {file : Option Bytes} (h : t.Left content)
    (hfile : t.OnFile content file) (hahead : t.ahead = []) (hret : t.ret = some .done) :
    file = some content := by
  cases hcreated : t.created with
  | false =>
      simp only [Task.Left, hcreated, Bool.false_eq_true, if_false, hahead] at h
      cases h with
      | stopped hne => exact absurd hret hne
  | true =>
      obtain ⟨x, rfl, hx⟩ := hfile hcreated hret
      rw [hahead] at hx
      rw [hx.eq]

theorem outcome_eq_done {ret : GetResult} {row : FileState} (h : outcome ret row = .done)
    (hrow : row ≠ .done) : ret = .done := by
  obtain ⟨cancelled, err⟩ := ret
  unfold outcome at h
  cases err with
  | some e => cases h
  | none =>
      cases cancelled with
      | true => exact absurd h hrow
      | false => rfl

theorem Inv.row_ne_done {content : Bytes} {s : State} (h : Inv content s) {t : Task}
    (hcurrent : s.current = some t) : s.row ≠ .done := by
  intro hrow
  rw [(h.done hrow).1] at hcurrent
  cases hcurrent

/-! ### A run -/

section

variable {A : Aead} {rec : Record} {remoteVersion : Str} {content body : Bytes}

theorem Inv.initial {s : State} (h : s.Initial) : Inv content s := by
  obtain ⟨hrow, hcurrent, habandoned⟩ := h
  refine ⟨?_, ?_, fun hdone => absurd hdone hrow⟩
  · rw [habandoned]
    simp
  · rw [hcurrent]
    simp

theorem Inv.leak {s : State} (h : Inv content s) {l r : List Task} {t : Task} {op : FileOp UInt8}
    {ahead : List (FileOp UInt8)} (habandoned : s.abandoned = l ++ t :: r)
    (hahead : t.ahead = op :: ahead) (hharmless : op = .create → s.Harmless) :
    Inv content { s with file := op.run s.file, abandoned := l ++ t.tail :: r } := by
  have hleft : t.Left content := h.abandoned t (by rw [habandoned]; simp)
  have hothers : ∀ t' ∈ l ++ t.tail :: r, t'.Left content := by
    intro t' ht'
    rcases List.mem_append.mp ht' with hl | hr
    · exact h.abandoned t' (by rw [habandoned]; simp [hl])
    · rcases List.mem_cons.mp hr with rfl | hr
      · exact hleft.tail hahead
      · exact h.abandoned t' (by rw [habandoned]; simp [hr])
  rcases hleft.cases hahead with ⟨-, rfl, -, -⟩ | ⟨-, -, off, c, rfl, hc⟩
  · rcases hharmless rfl with hempty | ⟨hrow, hcurrent⟩
    · -- the file is empty before and after
      have hrun : FileOp.create.run s.file = s.file := by rw [run_create, hempty]
      rw [hrun]
      exact ⟨hothers, h.current, h.done⟩
    · refine ⟨hothers, fun t' ht' => ⟨(h.current t' ht').1, ?_⟩, fun hdone => absurd hdone hrow⟩
      intro hcreated
      rw [hcurrent t' ht'] at hcreated
      cases hcreated
  · refine ⟨hothers, fun t' ht' => ⟨(h.current t' ht').1, (h.current t' ht').2.writeAt hc⟩, ?_⟩
    intro hdone
    obtain ⟨hnone, hfile⟩ := h.done hdone
    refine ⟨hnone, ?_⟩
    dsimp only
    rw [hfile, run_writeAt_content hc]

theorem Inv.step (hfile : rec.props.type = .file) {s s' : State} (h : Inv content s)
    (hstep : Step A rec remoteVersion content body State.Harmless s s') : Inv content s' := by
  cases hstep with
  | start st inc hcurrent hrow hholds hserves ok =>
      refine ⟨h.abandoned, fun t ht => ?_, fun hdone => ?_⟩
      · cases ht
        refine ⟨.ofAttempt (st.download_transfers hfile remoteVersion hholds hserves), ?_⟩
        intro hcreated
        cases hcreated
      · cases ok with
        | true => cases hdone
        | false => exact absurd hdone hrow
  | @write t op ahead hcurrent hahead =>
      obtain ⟨hleft, hon⟩ := h.current t hcurrent
      refine ⟨h.abandoned, fun t' ht' => ?_, fun hdone => absurd hdone (h.row_ne_done hcurrent)⟩
      cases ht'
      exact ⟨hleft.tail hahead, hon.tail hleft hahead⟩
  | @finish t ret hcurrent hahead hret ok =>
      obtain ⟨hleft, hon⟩ := h.current t hcurrent
      have hrow := h.row_ne_done hcurrent
      refine ⟨h.abandoned, fun t' ht' => (by cases ht'), fun hdone => ⟨rfl, ?_⟩⟩
      cases ok with
      | true =>
          rw [outcome_eq_done hdone hrow] at hret
          exact Task.file_of_done hleft hon hahead hret
      | false => exact absurd hdone hrow
  | @cancel t hcurrent =>
      refine ⟨fun t' ht' => ?_, fun t' ht' => (by cases ht'), fun hdone =>
        absurd hdone (h.row_ne_done hcurrent)⟩
      rcases List.mem_cons.mp ht' with rfl | ht'
      · exact (h.current t' hcurrent).1
      · exact h.abandoned t' ht'
  | leak habandoned hahead hharmless => exact h.leak habandoned hahead hharmless

/-- If an abandoned download never empties a file that a later one has begun to write, a row
that is done has its file, in every run and whatever the order. -/
theorem restored_of_harmless (hfile : rec.props.type = .file) {s₀ s : State} (h₀ : s₀.Initial)
    (hrun : Relation.ReflTransGen (Step A rec remoteVersion content body State.Harmless) s₀ s) :
    s.Restored content := by
  have hinv : Inv content s := by
    induction hrun with
    | refl => exact Inv.initial h₀
    | tail _ hstep ih => exact ih.step hfile hstep
  intro _ hdone
  exact (hinv.done hdone).2

end

/-! ### A file that is lost -/

def late : Incoming :=
  { undisturbed [] with response := .body ⟨[], .source, false⟩, downloadOk := false, ctxCanceled := true }

theorem serves_late : Serves late [1, 2, 3] where
  present := by simp [late]
  front := by
    intro src hsrc
    cases hsrc
    exact List.nil_prefix
  whole := by
    intro src hsrc hfinal
    cases hsrc
    cases hfinal
  parts := by simp [late, undisturbed]
  complete := by simp [late]

abbrev SmallStep (allowed : State → Prop) : State → State → Prop :=
  Step clearAead.toAead plainRecord "7".toList [1, 2, 3] [1, 2, 3] allowed

def pendingRow : State := ⟨none, .pending, none, []⟩

def lateTask : Task := ⟨false, [.create], some .stopped⟩

def wholeTask : Task := ⟨false, [.create, .writeAt 0 [1, 2, 3]], some .done⟩

/-- The first run is cancelled while it waits for `Get`, which has the body but has not come
to create the file. The second one is about to begin. -/
def cancelledRow : State := ⟨none, .inProgress, none, [lateTask]⟩

def doneRow (abandoned : List Task) : State := ⟨some [1, 2, 3], .done, none, abandoned⟩

theorem cancelledRow_reached (allowed : State → Prop) :
    Relation.ReflTransGen (SmallStep allowed) pendingRow cancelledRow := by
  have hstart : SmallStep allowed pendingRow { pendingRow with row := .inProgress, current := some lateTask } :=
    .start (plainStore .gcpStorage) late rfl (by decide) .plain serves_late true
  exact .tail (.single hstart) (.cancel rfl)

/-- The second run, if the file is not there when it begins. -/
theorem doneRow_reached (allowed : State → Prop) {s : State} (hcurrent : s.current = none)
    (hrow : s.row ≠ .done) : Relation.ReflTransGen (SmallStep allowed) s (doneRow s.abandoned) := by
  have hstart : SmallStep allowed s { s with row := .inProgress, current := some wholeTask } :=
    .start (plainStore .gcpStorage) (undisturbed [1, 2, 3]) hcurrent hrow .plain
      (serves_undisturbed [1, 2, 3]) true
  exact Relation.ReflTransGen.tail (.tail (.tail (.single hstart) (.write rfl rfl)) (.write rfl rfl))
    (.finish .done rfl rfl rfl true)

theorem restored_of_harmless_cancelled : (doneRow [lateTask]).Restored [1, 2, 3] := by
  have hrun : Relation.ReflTransGen (SmallStep State.Harmless) pendingRow (doneRow [lateTask]) :=
    (cancelledRow_reached State.Harmless).trans (doneRow_reached State.Harmless rfl (by decide))
  exact restored_of_harmless rfl ⟨by decide, rfl, rfl⟩ hrun

/-- Once the row is done, the abandoned `Get` creates the file, and finds that it is
cancelled. The row stays done, and the file is empty. -/
theorem not_restored_late :
    ¬ ∀ (A : Aead) (rec : Record) (remoteVersion : Str) (content body : Bytes) (s₀ s : State),
      rec.props.type = .file → s₀.Initial →
      Relation.ReflTransGen (Step A rec remoteVersion content body fun _ => True) s₀ s →
      s.Restored content := by
  intro h
  have hleak : SmallStep (fun _ => True) (doneRow [lateTask])
      ⟨some [], .done, none, [lateTask.tail]⟩ :=
    @Step.leak _ _ _ _ _ _ (doneRow [lateTask]) [] [] lateTask .create [] rfl rfl fun _ => trivial
  have hrun := ((cancelledRow_reached fun _ => True).trans
    (doneRow_reached (fun _ => True) rfl (by decide))).tail hleak
  have hlost := h _ _ _ _ _ _ _ rfl ⟨by decide, rfl, rfl⟩ hrun ⟨rfl, by decide⟩ rfl
  cases hlost

end CloudBackup.Restore.Abandoned
