import CloudBackup.Backup.TablesInStep
import CloudBackup.ObjectStore.Lookup
import CloudBackup.ObjectStore.Undo

/-!
What is left of an operation that stops early. The database is as it was, since
the transaction is rolled back. The buckets are changed back with `Delete`, and
that does not always work: the context may be cancelled by then, a failed commit
is not followed by any `Delete`, and not every store can take back what it did.

The targets that an operation gets to, and the requests that succeed there, can
be told from what happens outside of it; `begun` and `delivers` do so. With them
`noTrace_iff` says exactly when nothing is left.
-/

namespace CloudBackup.Backup

open Cbcrypto Database ObjectStore Iteration

/-- Nothing has changed, in the database or at any target. -/
def NoTrace (w w' : World) : Prop :=
  w'.db = w.db ∧ ∀ n, (w.buckets n).SameObjects (w'.buckets n)

/-- No target has a number in use that its provider is still to give out. -/
def World.Numbered (C : Cloud) (w : World) : Prop := ∀ n, (w.buckets n).Numbered C

/-- What the loops of `UploadAndUpdateDB` and `markDeleted` ask of a target. -/
structure Sending where
  skips : Target → Bool
  send : Target → ℕ → Bucket → Sent × Bucket

def uploads (C : Cloud) (cfg : ConfigBackup) (rec : Record) : Sending :=
  ⟨fun t => (preUploadCheck rec cfg t.store).isSome, fun t v b => t.store.upload C rec v t.out b⟩

def markers (C : Cloud) (rec : Record) : Sending :=
  ⟨fun _ => false, fun t v b => t.store.markDeleted C rec v t.out.reply b⟩

def failed (s : Sent) : Bool := s.cancelled || s.err.isSome

def uuids (db : Db) : List Str := db.remoteFiles.map RemoteFile.uuid

section Inputs

variable (S : Sending) (rec : Record) (w : World)

/-- The next version of the item at a target. -/
def version (t : Target) : ℕ := calcRemoteFileVersion w.db rec.path t.store.name

def answer (t : Target) : Sent × Bucket := S.send t (version rec w t) (w.buckets t.store.name)

def delivers (t : Target) : Bool := t.queryOk && !S.skips t && !failed (answer S rec w t).1

def goesOn (used : List Str) (t : Target) : Bool :=
  t.queryOk && (S.skips t || (delivers S rec w t && rowsOk used t))

/-- The targets that the loop gets to, and if it gets through all of them. -/
def begun (used : List Str) : List Target → List Target × Bool
  | [] => ([], true)
  | t :: ts =>
      if goesOn S rec w used t then
        let rest := begun (if S.skips t then used else used ++ t.newV4.toList) ts
        (t :: rest.1, rest.2)
      else ([t], false)

def entry (t : Target) : SuccessfullyProcessed :=
  ⟨t.store, version rec w t, (answer S rec w t).1.remoteVersion, t.undo⟩

structure Tracks (ds : List Target) (p : Pass) : Prop where
  processed : p.processed = ds.map (entry S rec w)
  sent : ∀ t ∈ ds, p.buckets t.store.name = (answer S rec w t).2
  other : ∀ n, (∀ t ∈ ds, t.store.name ≠ n) → p.buckets n = w.buckets n

end Inputs

/-! ### A pass -/

structure PassSpec (S : Sending) (rec : Record) (body : Target → Pass → Flow Pass Halt) : Prop where
  query : ∀ t p, t.queryOk = false → ∃ h, body t p = .stop h p
  skip : ∀ t p, t.queryOk = true → S.skips t = true →
    ∃ events, body t p = .next { p with events := events }
  refused : ∀ t p sent b, t.queryOk = true → S.skips t = false →
    S.send t (calcRemoteFileVersion p.db rec.path t.store.name) (p.buckets t.store.name) = (sent, b) →
    failed sent = true → ∃ h, body t p = .stop h (p.setBucket t.store.name b)
  added : ∀ t p sent b, t.queryOk = true → S.skips t = false →
    S.send t (calcRemoteFileVersion p.db rec.path t.store.name) (p.buckets t.store.name) = (sent, b) →
    failed sent = false → rowsOk (uuids p.db) t = true →
    ∃ db, uuids db = uuids p.db ++ t.newV4.toList ∧
      (∀ n, t.store.name ≠ n →
        calcRemoteFileVersion db rec.path n = calcRemoteFileVersion p.db rec.path n) ∧
      body t p = .next { (p.setBucket t.store.name b).addProcessed t
        (calcRemoteFileVersion p.db rec.path t.store.name) sent.remoteVersion with db := db }
  notAdded : ∀ t p sent b, t.queryOk = true → S.skips t = false →
    S.send t (calcRemoteFileVersion p.db rec.path t.store.name) (p.buckets t.store.name) = (sent, b) →
    failed sent = false → rowsOk (uuids p.db) t = false →
    ∃ h db, body t p = .stop h { (p.setBucket t.store.name b).addProcessed t
      (calcRemoteFileVersion p.db rec.path t.store.name) sent.remoteVersion with db := db }

section

variable {C : Cloud} {cfg : ConfigBackup} {rec : Record} {jobUuid : Str}

theorem addRows_spec (t : Target) (jobUuid : Str) (deleteMarker : Bool) (rec : Record) (rv : Str)
    (p q : Pass) (hq : q.db = p.db) :
    (rowsOk (uuids p.db) t = true →
      ∃ db, uuids db = uuids p.db ++ t.newV4.toList ∧
        (∀ n, t.store.name ≠ n →
          calcRemoteFileVersion db rec.path n = calcRemoteFileVersion p.db rec.path n) ∧
        addRows t jobUuid deleteMarker rec (calcRemoteFileVersion p.db rec.path t.store.name) rv q =
          .next { q with db := db }) ∧
    (rowsOk (uuids p.db) t = false → ∃ h db,
      addRows t jobUuid deleteMarker rec (calcRemoteFileVersion p.db rec.path t.store.name) rv q =
        .stop h { q with db := db }) := by
  rw [← hq]
  rcases addRows_cases t jobUuid deleteMarker rec (calcRemoteFileVersion q.db rec.path t.store.name) rv q
    with ⟨hrows, e, db, hstop⟩ | ⟨hrows, uuid, huuid, -, hnext⟩
  · refine ⟨fun h => ?_, fun _ => ⟨.error e, db, hstop⟩⟩
    rw [uuids, hrows] at h
    cases h
  · refine ⟨fun _ => ⟨_, ?_, ?_, hnext⟩, fun h => ?_⟩
    · simp [uuids, huuid, remoteFile]
    · intro n hne
      unfold calcRemoteFileVersion
      rw [newest_addedRows_of_ne fun hc => hne hc.2]
    · rw [uuids, hrows] at h
      cases h

/-- An upload that succeeded: what is left is to add the rows. -/
theorem uploadTarget_sent {t : Target} {p : Pass} {sent : Sent} {b : Bucket} (hq : t.queryOk = true)
    (hskip : (uploads C cfg rec).skips t = false)
    (hsend : (uploads C cfg rec).send t (calcRemoteFileVersion p.db rec.path t.store.name)
      (p.buckets t.store.name) = (sent, b)) (hfailed : failed sent = false) :
    uploadTarget C cfg rec t p =
      addRows t rec.jobUuid false rec (calcRemoteFileVersion p.db rec.path t.store.name) sent.remoteVersion
        ((p.setBucket t.store.name b).addProcessed t (calcRemoteFileVersion p.db rec.path t.store.name)
          sent.remoteVersion) := by
  have hnone : preUploadCheck rec cfg t.store = none := by simpa [uploads] using hskip
  have hup : t.store.upload C rec (calcRemoteFileVersion p.db rec.path t.store.name) t.out
    (p.buckets t.store.name) = (sent, b) := hsend
  obtain ⟨hcan, herr⟩ : sent.cancelled = false ∧ sent.err = none := by simpa [failed] using hfailed
  simp only [uploadTarget, hq, hnone, hup, hcan, herr, Bool.not_true, Bool.false_eq_true, if_false]

theorem uploadTarget_spec : PassSpec (uploads C cfg rec) rec (uploadTarget C cfg rec) where
  query t p hq := ⟨.error .version, by simp [uploadTarget, hq]⟩
  skip t p hq hskip := by
    obtain ⟨reason, hreason⟩ := Option.isSome_iff_exists.mp hskip
    exact ⟨p.events ++ [⟨.skipped reason t.store.name, rec.path⟩], by
      simp [uploadTarget, hq, hreason]⟩
  refused t p sent b hq hskip hsend hfailed := by
    have hnone : preUploadCheck rec cfg t.store = none := by simpa [uploads] using hskip
    have hup : t.store.upload C rec (calcRemoteFileVersion p.db rec.path t.store.name) t.out
      (p.buckets t.store.name) = (sent, b) := hsend
    simp only [uploadTarget, hq, hnone, hup]
    cases hcan : sent.cancelled with
    | true => exact ⟨.cancelled, by simp⟩
    | false =>
        cases herr : sent.err with
        | none => simp [failed, hcan, herr] at hfailed
        | some e => exact ⟨.error (.store e), by simp⟩
  added t p sent b hq hskip hsend hfailed hrows := by
    rw [uploadTarget_sent hq hskip hsend hfailed]
    exact (addRows_spec t rec.jobUuid false rec sent.remoteVersion p ((p.setBucket t.store.name b).addProcessed t
      (calcRemoteFileVersion p.db rec.path t.store.name) sent.remoteVersion) rfl).1 hrows
  notAdded t p sent b hq hskip hsend hfailed hrows := by
    rw [uploadTarget_sent hq hskip hsend hfailed]
    exact (addRows_spec t rec.jobUuid false rec sent.remoteVersion p ((p.setBucket t.store.name b).addProcessed t
      (calcRemoteFileVersion p.db rec.path t.store.name) sent.remoteVersion) rfl).2 hrows

theorem markTarget_sent {t : Target} {p : Pass} {sent : Sent} {b : Bucket} (hq : t.queryOk = true)
    (hsend : (markers C rec).send t (calcRemoteFileVersion p.db rec.path t.store.name)
      (p.buckets t.store.name) = (sent, b)) (hfailed : failed sent = false) :
    markTarget C jobUuid rec t p =
      addRows t jobUuid true rec (calcRemoteFileVersion p.db rec.path t.store.name) sent.remoteVersion
        ((p.setBucket t.store.name b).addProcessed t (calcRemoteFileVersion p.db rec.path t.store.name)
          sent.remoteVersion) := by
  have hmark : t.store.markDeleted C rec (calcRemoteFileVersion p.db rec.path t.store.name)
    t.out.reply (p.buckets t.store.name) = (sent, b) := hsend
  obtain ⟨hcan, herr⟩ : sent.cancelled = false ∧ sent.err = none := by simpa [failed] using hfailed
  simp only [markTarget, hq, hmark, hcan, herr, Bool.not_true, Bool.false_eq_true, if_false]

theorem markTarget_spec : PassSpec (markers C rec) rec (markTarget C jobUuid rec) where
  query t p hq := ⟨.error .version, by simp [markTarget, hq]⟩
  skip t p hq hskip := by cases hskip
  refused t p sent b hq hskip hsend hfailed := by
    have hmark : t.store.markDeleted C rec (calcRemoteFileVersion p.db rec.path t.store.name)
      t.out.reply (p.buckets t.store.name) = (sent, b) := hsend
    simp only [markTarget, hq, hmark]
    cases herr : sent.err with
    | some e => exact ⟨.error (.store e), by simp⟩
    | none =>
        cases hcan : sent.cancelled with
        | true => exact ⟨.cancelled, by simp⟩
        | false => simp [failed, hcan, herr] at hfailed
  added t p sent b hq hskip hsend hfailed hrows := by
    rw [markTarget_sent hq hsend hfailed]
    exact (addRows_spec t jobUuid true rec sent.remoteVersion p ((p.setBucket t.store.name b).addProcessed t
      (calcRemoteFileVersion p.db rec.path t.store.name) sent.remoteVersion) rfl).1 hrows
  notAdded t p sent b hq hskip hsend hfailed hrows := by
    rw [markTarget_sent hq hsend hfailed]
    exact (addRows_spec t jobUuid true rec sent.remoteVersion p ((p.setBucket t.store.name b).addProcessed t
      (calcRemoteFileVersion p.db rec.path t.store.name) sent.remoteVersion) rfl).2 hrows

end

/-! ### The loop -/

section

variable {S : Sending} {rec : Record} {w : World} {ds : List Target} {p : Pass} {t : Target}

/-- A target that has not been asked yet finds everything as it was at the start. -/
theorem Tracks.answer_eq (h : Tracks S rec w ds p) (hds : ∀ d ∈ ds, d.store.name ≠ t.store.name)
    (hcalc : calcRemoteFileVersion p.db rec.path t.store.name = version rec w t) :
    S.send t (calcRemoteFileVersion p.db rec.path t.store.name) (p.buckets t.store.name) =
      answer S rec w t := by
  rw [hcalc, h.other _ hds, answer]

theorem Tracks.congr (h : Tracks S rec w ds p) {q : Pass} (hp : q.processed = p.processed)
    (hb : q.buckets = p.buckets) : Tracks S rec w ds q :=
  ⟨hp.trans h.processed, by rw [hb]; exact h.sent, by rw [hb]; exact h.other⟩

theorem Tracks.refuse (h : Tracks S rec w ds p) (hds : ∀ d ∈ ds, d.store.name ≠ t.store.name) :
    Tracks S rec w ds (p.setBucket t.store.name (w.buckets t.store.name)) := by
  refine h.congr rfl ?_
  rw [Pass.setBucket, ← h.other _ hds]
  exact Function.update_eq_self _ _

theorem Tracks.add (h : Tracks S rec w ds p) (hds : ∀ d ∈ ds, d.store.name ≠ t.store.name) (db : Db) :
    Tracks S rec w (ds ++ [t]) { (p.setBucket t.store.name (answer S rec w t).2).addProcessed t
      (version rec w t) (answer S rec w t).1.remoteVersion with db := db } := by
  refine ⟨?_, ?_, ?_⟩
  · simp [Pass.addProcessed, Pass.setBucket, h.processed, entry]
  · intro d hd
    rcases List.mem_append.mp hd with hd | hd
    · change Function.update p.buckets t.store.name _ d.store.name = _
      rw [Function.update_of_ne (hds d hd)]
      exact h.sent d hd
    · obtain rfl := List.mem_singleton.mp hd
      exact Function.update_self _ _ _
  · intro n hn
    change Function.update p.buckets t.store.name _ n = _
    rw [Function.update_of_ne (hn t (by simp)).symm]
    exact h.other n fun d hd => hn d (by simp [hd])

/-- One pass: it goes on or not as the inputs say, and it keeps track. -/
theorem pass_tracks {body : Target → Pass → Flow Pass Halt} (hspec : PassSpec S rec body)
    (hrefuse : failed (answer S rec w t).1 = true → (answer S rec w t).2 = w.buckets t.store.name)
    (h : Tracks S rec w ds p) (hds : ∀ d ∈ ds, d.store.name ≠ t.store.name)
    (hcalc : calcRemoteFileVersion p.db rec.path t.store.name = version rec w t) :
    ∃ q, Tracks S rec w (ds ++ [t].filter (delivers S rec w)) q ∧
      if goesOn S rec w (uuids p.db) t then
        body t p = .next q ∧
        uuids q.db = (if S.skips t then uuids p.db else uuids p.db ++ t.newV4.toList) ∧
        ∀ n, t.store.name ≠ n →
          calcRemoteFileVersion q.db rec.path n = calcRemoteFileVersion p.db rec.path n
      else ∃ halt, body t p = .stop halt q := by
  have hanswer := h.answer_eq hds hcalc
  cases hq : t.queryOk with
  | false =>
      obtain ⟨halt, hstop⟩ := hspec.query t p hq
      exact ⟨p, by simpa [delivers, hq] using h, by simp [goesOn, hq, hstop]⟩
  | true =>
      cases hskip : S.skips t with
      | true =>
          obtain ⟨events, hnext⟩ := hspec.skip t p hq hskip
          refine ⟨{ p with events := events }, ?_, by simp [goesOn, hq, hskip, hnext]⟩
          rw [show [t].filter (delivers S rec w) = [] by simp [delivers, hskip], List.append_nil]
          exact h.congr rfl rfl
      | false =>
          cases hfailed : failed (answer S rec w t).1 with
          | true =>
              obtain ⟨halt, hstop⟩ := hspec.refused t p (answer S rec w t).1 (answer S rec w t).2 hq
                hskip hanswer hfailed
              rw [hrefuse hfailed] at hstop
              refine ⟨p.setBucket t.store.name (w.buckets t.store.name), ?_, ?_⟩
              · simpa [delivers, hq, hskip, hfailed] using h.refuse hds
              · simp [goesOn, delivers, hq, hskip, hfailed, hstop]
          | false =>
              have hdel : [t].filter (delivers S rec w) = [t] := by
                simp [delivers, hq, hskip, hfailed]
              rw [hdel]
              cases hrows : rowsOk (uuids p.db) t with
              | false =>
                  obtain ⟨halt, db, hstop⟩ := hspec.notAdded t p (answer S rec w t).1
                    (answer S rec w t).2 hq hskip hanswer hfailed hrows
                  rw [hcalc] at hstop
                  refine ⟨_, h.add hds db, ?_⟩
                  simpa [goesOn, delivers, hq, hskip, hfailed, hrows] using ⟨halt, hstop⟩
              | true =>
                  obtain ⟨db, huuids, hother, hnext⟩ := hspec.added t p (answer S rec w t).1
                    (answer S rec w t).2 hq hskip hanswer hfailed hrows
                  rw [hcalc] at hnext
                  refine ⟨_, h.add hds db, ?_⟩
                  simpa [goesOn, delivers, hq, hskip, hfailed, hrows] using ⟨hnext, huuids, hother⟩

/-- The loop follows `begun`. Its state is that of the requests that were
successful on the way. -/
theorem forEach_tracks {body : Target → Pass → Flow Pass Halt} (hspec : PassSpec S rec body)
    {targets : List Target} (hnodup : (targets.map (·.store.name)).Nodup)
    (hrefuse : ∀ t ∈ targets, failed (answer S rec w t).1 = true →
      (answer S rec w t).2 = w.buckets t.store.name)
    (h : Tracks S rec w ds p)
    (hfresh : ∀ t ∈ targets, (∀ d ∈ ds, d.store.name ≠ t.store.name) ∧
      calcRemoteFileVersion p.db rec.path t.store.name = version rec w t) :
    ∃ q, Tracks S rec w (ds ++ (begun S rec w (uuids p.db) targets).1.filter (delivers S rec w)) q ∧
      if (begun S rec w (uuids p.db) targets).2 then forEach body targets p = .next q
      else ∃ halt, forEach body targets p = .stop halt q := by
  induction targets generalizing ds p with
  | nil => exact ⟨p, by simpa [begun] using h, by simp [begun]⟩
  | cons t targets ih =>
      obtain ⟨hds, hcalc⟩ := hfresh t (by simp)
      obtain ⟨q, htracks, hflow⟩ := pass_tracks hspec (hrefuse t (by simp)) h hds hcalc
      cases hgo : goesOn S rec w (uuids p.db) t with
      | false =>
          obtain ⟨halt, hstop⟩ : ∃ halt, body t p = .stop halt q := by simpa [hgo] using hflow
          refine ⟨q, by simpa [begun, hgo] using htracks, ?_⟩
          simpa [begun, hgo] using ⟨halt, forEach_cons_stop hstop⟩
      | true =>
          rw [if_pos hgo] at hflow
          obtain ⟨hnext, huuids, hother⟩ := hflow
          have hne : ∀ t' ∈ targets, t.store.name ≠ t'.store.name := by
            intro t' ht' heq
            exact (List.nodup_cons.mp hnodup).1 (List.mem_map.mpr ⟨t', ht', heq.symm⟩)
          have hfresh' : ∀ t' ∈ targets, (∀ d ∈ ds ++ [t].filter (delivers S rec w),
              d.store.name ≠ t'.store.name) ∧
              calcRemoteFileVersion q.db rec.path t'.store.name = version rec w t' := by
            intro t' ht'
            obtain ⟨hds', hcalc'⟩ := hfresh t' (List.mem_cons_of_mem t ht')
            refine ⟨?_, (hother _ (hne t' ht')).trans hcalc'⟩
            intro d hd
            rcases List.mem_append.mp hd with hd | hd
            · exact hds' d hd
            · obtain rfl := List.mem_singleton.mp (List.mem_of_mem_filter hd)
              exact hne t' ht'
          obtain ⟨q', htracks', hflow'⟩ := ih (List.nodup_cons.mp hnodup).2
            (fun t' ht' => hrefuse t' (List.mem_cons_of_mem t ht')) htracks hfresh'
          rw [huuids] at htracks' hflow'
          refine ⟨q', ?_, ?_⟩
          · rw [List.append_assoc, ← List.filter_append] at htracks'
            simpa [begun, hgo] using htracks'
          · rw [forEach_cons_next hnext]
            simpa [begun, hgo] using hflow'

end

/-! ### Cleaning up -/

theorem foldl_delete (C : Cloud) (rec : Record) {es : List SuccessfullyProcessed}
    (hnodup : (es.map (·.store.name)).Nodup) (buckets : Str → Bucket) :
    (∀ e ∈ es, es.foldl (fun buckets e => Function.update buckets e.store.name
        (e.store.delete C rec e.version e.remoteVersion e.undo (buckets e.store.name))) buckets
        e.store.name =
      e.store.delete C rec e.version e.remoteVersion e.undo (buckets e.store.name)) ∧
    ∀ n, (∀ e ∈ es, e.store.name ≠ n) →
      es.foldl (fun buckets e => Function.update buckets e.store.name
        (e.store.delete C rec e.version e.remoteVersion e.undo (buckets e.store.name))) buckets n =
      buckets n := by
  induction es generalizing buckets with
  | nil => exact ⟨by simp, fun _ _ => rfl⟩
  | cons e es ih =>
      obtain ⟨hself, hother⟩ := ih (List.nodup_cons.mp hnodup).2 (Function.update buckets e.store.name
        (e.store.delete C rec e.version e.remoteVersion e.undo (buckets e.store.name)))
      have hne : ∀ e' ∈ es, e'.store.name ≠ e.store.name := by
        intro e' he' heq
        exact (List.nodup_cons.mp hnodup).1 (List.mem_map.mpr ⟨e', he', heq⟩)
      constructor
      · intro e' he'
        rcases List.mem_cons.mp he' with rfl | he'
        · rw [List.foldl_cons, hother _ hne, Function.update_self]
        · rw [List.foldl_cons, hself e' he', Function.update_of_ne (hne e' he')]
      · intro n hn
        rw [List.foldl_cons, hother n fun e' he' => hn e' (List.mem_cons_of_mem e he'),
          Function.update_of_ne (hn e (by simp)).symm]

section

variable {C : Cloud} {S : Sending} {rec : Record} {w : World} {ds : List Target} {p : Pass}

/-- What is left at a target that was asked with success, with or without a
`Delete` for it. -/
def leftover (C : Cloud) (S : Sending) (rec : Record) (w : World) (cleaned : Bool) (t : Target) :
    Bucket :=
  if cleaned then
    t.store.delete C rec (version rec w t) (answer S rec w t).1.remoteVersion t.undo (answer S rec w t).2
  else (answer S rec w t).2

theorem Tracks.noTrace_cleanUp (h : Tracks S rec w ds p) (hnodup : (ds.map (·.store.name)).Nodup) :
    NoTrace w ⟨w.db, cleanUp C rec p⟩ ↔
      ∀ t ∈ ds, (w.buckets t.store.name).SameObjects (leftover C S rec w true t) := by
  have hes : (p.processed.map (·.store.name)).Nodup := by
    rw [h.processed, List.map_map]
    exact hnodup
  obtain ⟨hself, hother⟩ := foldl_delete C rec hes p.buckets
  have hclean : ∀ t ∈ ds, cleanUp C rec p t.store.name = leftover C S rec w true t := by
    intro t ht
    have hmem : entry S rec w t ∈ p.processed := by
      rw [h.processed]
      exact List.mem_map_of_mem ht
    have := hself _ hmem
    rw [show (entry S rec w t).store.name = t.store.name from rfl, h.sent t ht] at this
    exact this
  constructor
  · rintro ⟨-, hsame⟩ t ht
    rw [← hclean t ht]
    exact hsame t.store.name
  · intro hsame
    refine ⟨rfl, fun n => ?_⟩
    by_cases hn : ∃ t ∈ ds, t.store.name = n
    · obtain ⟨t, ht, rfl⟩ := hn
      change (w.buckets t.store.name).SameObjects (cleanUp C rec p t.store.name)
      rw [hclean t ht]
      exact hsame t ht
    · have hall : ∀ t ∈ ds, t.store.name ≠ n := fun t ht heq => hn ⟨t, ht, heq⟩
      have hun : cleanUp C rec p n = w.buckets n := by
        rw [← h.other n hall]
        refine hother n ?_
        rw [h.processed]
        intro e he
        obtain ⟨t, ht, rfl⟩ := List.mem_map.mp he
        exact hall t ht
      change (w.buckets n).SameObjects (cleanUp C rec p n)
      rw [hun]
      exact .refl _

theorem Tracks.noTrace_buckets (h : Tracks S rec w ds p) :
    NoTrace w ⟨w.db, p.buckets⟩ ↔
      ∀ t ∈ ds, (w.buckets t.store.name).SameObjects (leftover C S rec w false t) := by
  constructor
  · rintro ⟨-, hsame⟩ t ht
    have hbucket : (w.buckets t.store.name).SameObjects (p.buckets t.store.name) := hsame _
    rw [h.sent t ht] at hbucket
    exact hbucket
  · intro hsame
    refine ⟨rfl, fun n => ?_⟩
    by_cases hn : ∃ t ∈ ds, t.store.name = n
    · obtain ⟨t, ht, rfl⟩ := hn
      change (w.buckets t.store.name).SameObjects (p.buckets t.store.name)
      rw [h.sent t ht]
      exact hsame t ht
    · change (w.buckets n).SameObjects (p.buckets n)
      rw [h.other n fun t ht heq => hn ⟨t, ht, heq⟩]
      exact .refl _

theorem begun_sublist (used : List Str) (targets : List Target) :
    (begun S rec w used targets).1.Sublist targets := by
  induction targets generalizing used with
  | nil => exact List.Sublist.refl _
  | cons t targets ih =>
      unfold begun
      split
      · exact (ih _).cons_cons t
      · exact (List.nil_sublist targets).cons_cons t

theorem nodup_begun {used : List Str} {targets : List Target}
    (h : (targets.map (·.store.name)).Nodup) :
    (((begun S rec w used targets).1.filter (delivers S rec w)).map (·.store.name)).Nodup :=
  h.sublist (((List.filter_sublist).trans (begun_sublist used targets)).map _)

/-- What a transaction leaves behind that does not go through. -/
theorem finish_noTrace {body : Target → Pass → Flow Pass Halt} (hspec : PassSpec S rec body)
    {targets : List Target} (hnodup : (targets.map (·.store.name)).Nodup)
    (hrefuse : ∀ t ∈ targets, failed (answer S rec w t).1 = true →
      (answer S rec w t).2 = w.buckets t.store.name) {db : Db}
    (hdb : db.remoteFiles = w.db.remoteFiles) {commitOk : Bool}
    (hfail : let r := finish C rec commitOk w.db (forEach body targets ⟨db, w.buckets, [], []⟩)
      r.cancelled = true ∨ r.err ≠ none) :
    NoTrace w (finish C rec commitOk w.db (forEach body targets ⟨db, w.buckets, [], []⟩)).world ↔
      ∀ t ∈ (begun S rec w (uuids w.db) targets).1, delivers S rec w t = true →
        (w.buckets t.store.name).SameObjects
          (leftover C S rec w (!(begun S rec w (uuids w.db) targets).2) t) := by
  have huuids : uuids db = uuids w.db := by rw [uuids, uuids, hdb]
  have hstart : Tracks S rec w [] ⟨db, w.buckets, [], []⟩ := ⟨rfl, by simp, fun _ _ => rfl⟩
  obtain ⟨q, htracks, hflow⟩ := forEach_tracks hspec hnodup hrefuse hstart fun t _ =>
    ⟨by simp, by
      change calcRemoteFileVersion db rec.path t.store.name = _
      rw [version, calcRemoteFileVersion, calcRemoteFileVersion, newest_congr hdb]⟩
  rw [List.nil_append, show uuids (⟨db, w.buckets, [], []⟩ : Pass).db = uuids w.db from huuids] at htracks
  rw [show uuids (⟨db, w.buckets, [], []⟩ : Pass).db = uuids w.db from huuids] at hflow
  have hfilter : ∀ P : Target → Prop,
      (∀ t ∈ (begun S rec w (uuids w.db) targets).1.filter (delivers S rec w), P t) ↔
        ∀ t ∈ (begun S rec w (uuids w.db) targets).1, delivers S rec w t = true → P t := by
    intro P
    simp [List.mem_filter, and_imp]
  rw [← hfilter]
  cases hthrough : (begun S rec w (uuids w.db) targets).2 with
  | false =>
      obtain ⟨halt, hstop⟩ : ∃ halt, forEach body targets ⟨db, w.buckets, [], []⟩ = .stop halt q := by
        simpa [hthrough] using hflow
      rw [hstop]
      cases halt <;> exact htracks.noTrace_cleanUp (nodup_begun hnodup)
  | true =>
      have hnext : forEach body targets ⟨db, w.buckets, [], []⟩ = .next q := by
        simpa [hthrough] using hflow
      rw [hnext] at hfail ⊢
      cases commitOk with
      | false => exact htracks.noTrace_buckets
      | true => simp [finish] at hfail

end

/-! ### What can be taken back -/

def uploadRestored (C : Cloud) (rec : Record) (w : World) (undone : Bool) (t : Target) : Prop :=
  rec.props.type = .file → ∀ body,
    wireBody C.aead.toAead t.store.enc rec.skipEncryption t.out.content.1 t.out.rand = .ok body →
    t.store.restoresUpload rec.path (version rec w t) body undone (w.buckets t.store.name)

def markerRestored (rec : Record) (w : World) (undone : Bool) (t : Target) : Prop :=
  rec.props.type = .file →
    t.store.restoresMarker rec.path (version rec w t) undone (w.buckets t.store.name)

section

variable {C : Cloud} {cfg : ConfigBackup} {rec : Record} {w : World} {t : Target}

theorem delete_file {st : Store} {v : ℕ} {rv : Str} {undo : Reply} {b : Bucket}
    (htype : rec.props.type = .file) : st.delete C rec v rv undo b =
      if undo.takesEffect then st.deleteObject C rec.path v rv b else b := by
  cases undo with
  | ok => simp [Store.delete, htype, Reply.takesEffect]
  | failed stored => cases stored <;> simp [Store.delete, htype, Reply.takesEffect]
  | cancelled => simp [Store.delete, htype, Reply.takesEffect]

theorem delete_notFile {st : Store} {v : ℕ} {rv : Str} {undo : Reply} {b : Bucket}
    (htype : rec.props.type ≠ .file) : st.delete C rec v rv undo b = b := by
  simp [Store.delete, htype]

/-- A `Delete` that is not made and one without an effect are the same. -/
theorem ite_and_takesEffect (cleaned : Bool) (undo : Reply) (b b' : Bucket) :
    (if cleaned && undo.takesEffect then b else b') =
      if cleaned then (if undo.takesEffect then b else b') else b' := by
  cases cleaned <;> simp

theorem upload_refused (h : t.out.reply ≠ .failed true)
    (hfailed : failed (answer (uploads C cfg rec) rec w t).1 = true) :
    (answer (uploads C cfg rec) rec w t).2 = w.buckets t.store.name := by
  change failed (t.store.upload C rec (version rec w t) t.out (w.buckets t.store.name)).1 = true
    at hfailed
  change (t.store.upload C rec (version rec w t) t.out (w.buckets t.store.name)).2 = _
  rcases Store.upload_cases C t.store rec (version rec w t) t.out (w.buckets t.store.name) with
    ⟨-, hup⟩ | ⟨-, body, -, -, hup⟩ | ⟨-, sent, b, hup, -, hb⟩
  · rw [hup]
  · rw [hup] at hfailed
    cases hfailed
  · rw [hup]
    rcases hb with hb | ⟨hreply, -⟩
    · exact hb
    · exact absurd hreply h

theorem upload_leftover (hnum : (w.buckets t.store.name).Numbered C)
    (hdel : delivers (uploads C cfg rec) rec w t = true) (cleaned : Bool) :
    (w.buckets t.store.name).SameObjects (leftover C (uploads C cfg rec) rec w cleaned t) ↔
      uploadRestored C rec w (cleaned && t.undo.takesEffect) t := by
  have hok : failed (t.store.upload C rec (version rec w t) t.out (w.buckets t.store.name)).1 = false := by
    simp only [delivers, Bool.and_eq_true, Bool.not_eq_true'] at hdel
    exact hdel.2
  unfold leftover
  change (w.buckets t.store.name).SameObjects (if cleaned then t.store.delete C rec (version rec w t)
      (t.store.upload C rec (version rec w t) t.out (w.buckets t.store.name)).1.remoteVersion t.undo
      (t.store.upload C rec (version rec w t) t.out (w.buckets t.store.name)).2
    else (t.store.upload C rec (version rec w t) t.out (w.buckets t.store.name)).2) ↔ _
  rcases Store.upload_cases C t.store rec (version rec w t) t.out (w.buckets t.store.name) with
    ⟨htype, hup⟩ | ⟨htype, body, hbody, -, hup⟩ | ⟨-, sent, b, hup, hfail, -⟩
  · rw [hup, delete_notFile htype, ite_self]
    exact ⟨fun _ hfile => absurd hfile htype, fun _ => .refl _⟩
  · rw [hup, delete_file htype]
    have hput : (w.buckets t.store.name).SameObjects (if cleaned && t.undo.takesEffect then
        t.store.deleteObject C rec.path (version rec w t)
          (t.store.put C rec.path (version rec w t) body (w.buckets t.store.name)).1
          (t.store.put C rec.path (version rec w t) body (w.buckets t.store.name)).2
        else (t.store.put C rec.path (version rec w t) body (w.buckets t.store.name)).2) ↔ _ :=
      Store.sameObjects_put hnum body (cleaned && t.undo.takesEffect)
    rw [← ite_and_takesEffect, hput]
    constructor
    · intro h _ body' hbody'
      rw [hbody] at hbody'
      cases hbody'
      exact h
    · exact fun h => h htype body hbody
  · rw [hup] at hok
    rcases hfail with hfail | hfail <;> simp_all [failed]

theorem markDeleted_notFile {st : Store} {v : ℕ} {reply : Reply} {b : Bucket}
    (htype : rec.props.type ≠ .file) : (st.markDeleted C rec v reply b).2 = b := by
  cases hkind : st.kind <;> simp [Store.markDeleted, hkind, htype]

/-- A reply that does not reach the bucket shows as an error, and the others are
all alike. -/
theorem markDeleted_reply {st : Store} {v : ℕ} {reply : Reply} {b : Bucket}
    (htype : rec.props.type = .file) (h : reply ≠ .failed true) :
    st.markDeleted C rec v reply b = st.markDeleted C rec v .ok b ∨
      (st.markDeleted C rec v reply b).2 = b ∧ failed (st.markDeleted C rec v reply b).1 = true := by
  cases reply with
  | ok => exact .inl rfl
  | failed stored =>
      cases stored with
      | true => exact absurd rfl h
      | false =>
          cases hkind : st.kind <;> simp [Store.markDeleted, hkind, htype, Store.markDeletedS3,
            Store.markDeletedGcp, Store.markDeletedAzure, failed]
  | cancelled =>
      cases hkind : st.kind <;> simp [Store.markDeleted, hkind, htype, Store.markDeletedS3,
        Store.markDeletedGcp, Store.markDeletedAzure, failed]

theorem markDeleted_ok_failed {st : Store} {v : ℕ} {b : Bucket} (htype : rec.props.type = .file)
    (hfailed : failed (st.markDeleted C rec v .ok b).1 = true) :
    (st.markDeleted C rec v .ok b).2 = b := by
  cases hkind : st.kind with
  | gcpStorage =>
      by_cases hlive : (b.generations (calculateRemotePath st.storePrefix rec.path)).live = none
      · simp [Store.markDeleted, hkind, htype, Store.markDeletedGcp, hlive]
      · simp [Store.markDeleted, hkind, htype, Store.markDeletedGcp, hlive, failed] at hfailed
  | awsS3 => simp [Store.markDeleted, hkind, htype, Store.markDeletedS3, failed] at hfailed
  | azureBlob => simp [Store.markDeleted, hkind, htype, Store.markDeletedAzure, failed] at hfailed
  | testNull => simp [Store.markDeleted, hkind]

theorem marker_refused (h : t.out.reply ≠ .failed true)
    (hfailed : failed (answer (markers C rec) rec w t).1 = true) :
    (answer (markers C rec) rec w t).2 = w.buckets t.store.name := by
  change failed (t.store.markDeleted C rec (version rec w t) t.out.reply
    (w.buckets t.store.name)).1 = true at hfailed
  change (t.store.markDeleted C rec (version rec w t) t.out.reply (w.buckets t.store.name)).2 = _
  by_cases htype : rec.props.type = .file
  · rcases markDeleted_reply htype h with hok | ⟨hb, -⟩
    · rw [hok] at hfailed ⊢
      exact markDeleted_ok_failed htype hfailed
    · exact hb
  · exact markDeleted_notFile htype

theorem marker_leftover (h : t.out.reply ≠ .failed true) (hnum : (w.buckets t.store.name).Numbered C)
    (hdel : delivers (markers C rec) rec w t = true) (cleaned : Bool) :
    (w.buckets t.store.name).SameObjects (leftover C (markers C rec) rec w cleaned t) ↔
      markerRestored rec w (cleaned && t.undo.takesEffect) t := by
  have hok : failed (t.store.markDeleted C rec (version rec w t) t.out.reply
      (w.buckets t.store.name)).1 = false := by
    simp only [delivers, Bool.and_eq_true, Bool.not_eq_true'] at hdel
    exact hdel.2
  unfold leftover
  change (w.buckets t.store.name).SameObjects (if cleaned then t.store.delete C rec (version rec w t)
      (t.store.markDeleted C rec (version rec w t) t.out.reply (w.buckets t.store.name)).1.remoteVersion
      t.undo (t.store.markDeleted C rec (version rec w t) t.out.reply (w.buckets t.store.name)).2
    else (t.store.markDeleted C rec (version rec w t) t.out.reply (w.buckets t.store.name)).2) ↔ _
  by_cases htype : rec.props.type = .file
  · rcases markDeleted_reply htype h with hreply | ⟨-, hfailed⟩
    · rw [hreply] at hok ⊢
      rcases hsent : t.store.markDeleted C rec (version rec w t) .ok (w.buckets t.store.name) with
        ⟨sent, b⟩
      rw [hsent] at hok
      have herr : sent.err = none := by
        simp only [failed, Bool.or_eq_false_iff, Option.isSome_eq_false_iff, Option.isNone_iff_eq_none]
          at hok
        exact hok.2
      rw [delete_file htype, ← ite_and_takesEffect,
        Store.sameObjects_markDeleted hnum htype hsent herr]
      exact ⟨fun h _ => h, fun h => h htype⟩
    · rw [hok] at hfailed
      cases hfailed
  · rw [delete_notFile htype, ite_self, markDeleted_notFile htype]
    exact ⟨fun _ hfile => absurd hfile htype, fun _ => .refl _⟩

end

/-! ### Operations that stop early -/

/-- A call of `UploadAndUpdateDB` or `markDeleted`. -/
inductive Call
  | uploadAndUpdateDB (cfg : ConfigBackup) (op : Operation) (stmts : Statements) (rec : Record)
  | markDeleted (cfg : ConfigBackup) (lstat : Lstat) (stmts : Statements) (jobUuid : Str) (rec : Record)

namespace Call

variable (C : Cloud) (pathMatch : Str → Str → Option Bool) (targets : List Target) (w : World)

def run : Call → Result
  | .uploadAndUpdateDB cfg op stmts rec => Backup.uploadAndUpdateDB C cfg op stmts targets rec w
  | .markDeleted cfg lstat stmts jobUuid rec =>
      Backup.markDeleted C pathMatch cfg lstat stmts targets jobUuid rec w

def StopsEarly (c : Call) : Prop :=
  (c.run C pathMatch targets w).cancelled = true ∨ (c.run C pathMatch targets w).err ≠ none

def sends : Call → Bool
  | .uploadAndUpdateDB _ op stmts rec => stmts.beginOk &&
      (filesEntry op stmts.filesOk rec w.db).isSome && decide (op.operationType = .upload)
  | .markDeleted cfg lstat stmts _ rec => stmts.beginOk && stmts.filesOk &&
      gone pathMatch cfg lstat rec

def sending : Call → Sending
  | .uploadAndUpdateDB cfg _ _ rec => uploads C cfg rec
  | .markDeleted _ _ _ _ rec => markers C rec

def record : Call → Record
  | .uploadAndUpdateDB _ _ _ rec => rec
  | .markDeleted _ _ _ _ rec => rec

def restored (undone : Bool) (t : Target) : Call → Prop
  | .uploadAndUpdateDB _ _ _ rec => uploadRestored C rec w undone t
  | .markDeleted _ _ _ _ rec => markerRestored rec w undone t

/-- Every request that has succeeded by the time the call stops is taken back
without a trace. The requests are only taken back if the loop has stopped, and
not if it went through and the commit failed. -/
def TakenBack (c : Call) : Prop :=
  c.sends pathMatch w = true →
    let loop := begun (c.sending C) c.record w (uuids w.db) targets
    ∀ t ∈ loop.1, delivers (c.sending C) c.record w t = true →
      c.restored C w (!loop.2 && t.undo.takesEffect) t

end Call

section

variable {C : Cloud} {pathMatch : Str → Str → Option Bool} {targets : List Target} {w : World}

theorem NoTrace.refl (w : World) : NoTrace w w := ⟨rfl, fun _ => .refl _⟩

theorem updateTarget_quiet (rec : Record) (w : World) (db : Db) (targets : List Target) :
    let p := (forEach (updateTarget rec) targets ⟨db, w.buckets, [], []⟩).state
    p.buckets = w.buckets ∧ p.processed = [] := by
  refine forEach_invariant (I := fun p : Pass => p.buckets = w.buckets ∧ p.processed = []) ?_ ⟨rfl, rfl⟩
  intro t _ p hp
  unfold updateTarget
  dsimp only
  split
  · exact hp
  · split
    · exact hp
    · split
      · exact hp
      · split
        · exact hp
        · rename_i remoteVersion _
          obtain ⟨db', hstate⟩ := addRows_state t rec.jobUuid false rec
            (calcRemoteFileVersion p.db rec.path t.store.name) remoteVersion p
          rw [hstate]
          exact hp

theorem update_noTrace (rec : Record) (commitOk : Bool) (db : Db)
    (hfail : let r := finish C rec commitOk w.db (forEach (updateTarget rec) targets ⟨db, w.buckets, [], []⟩)
      r.cancelled = true ∨ r.err ≠ none) :
    NoTrace w (finish C rec commitOk w.db
      (forEach (updateTarget rec) targets ⟨db, w.buckets, [], []⟩)).world := by
  obtain ⟨hbuckets, hprocessed⟩ := updateTarget_quiet rec w db targets
  have hclean : ∀ p : Pass, p.buckets = w.buckets → p.processed = [] →
      NoTrace w ⟨w.db, cleanUp C rec p⟩ := by
    intro p hb hp
    rw [cleanUp, hp, hb]
    exact .refl w
  cases hloop : forEach (updateTarget rec) targets ⟨db, w.buckets, [], []⟩ with
  | stop halt p =>
      rw [hloop] at hbuckets hprocessed
      cases halt <;> exact hclean p hbuckets hprocessed
  | next p =>
      rw [hloop] at hbuckets hfail
      cases commitOk with
      | true => simp [finish] at hfail
      | false =>
          change NoTrace w ⟨w.db, p.buckets⟩
          rw [show p.buckets = w.buckets from hbuckets]
          exact .refl w

/-- A transaction whose requests are all known to be taken back, or not. -/
theorem finish_noTrace_iff {S : Sending} {rec : Record} {body : Target → Pass → Flow Pass Halt}
    (hspec : PassSpec S rec body) (hnodup : (targets.map (·.store.name)).Nodup)
    (hrefuse : ∀ t ∈ targets, failed (answer S rec w t).1 = true →
      (answer S rec w t).2 = w.buckets t.store.name) {restored : Bool → Target → Prop}
    (hleft : ∀ t ∈ targets, delivers S rec w t = true → ∀ cleaned,
      (w.buckets t.store.name).SameObjects (leftover C S rec w cleaned t) ↔
        restored (cleaned && t.undo.takesEffect) t) {db : Db}
    (hdb : db.remoteFiles = w.db.remoteFiles) {commitOk : Bool}
    (hfail : let r := finish C rec commitOk w.db (forEach body targets ⟨db, w.buckets, [], []⟩)
      r.cancelled = true ∨ r.err ≠ none) :
    NoTrace w (finish C rec commitOk w.db (forEach body targets ⟨db, w.buckets, [], []⟩)).world ↔
      ∀ t ∈ (begun S rec w (uuids w.db) targets).1, delivers S rec w t = true →
        restored (!(begun S rec w (uuids w.db) targets).2 && t.undo.takesEffect) t := by
  rw [finish_noTrace hspec hnodup hrefuse hdb hfail]
  refine forall₃_congr fun t ht hdel => ?_
  exact hleft t ((begun_sublist _ _).subset ht) hdel _

theorem upload_noTrace_iff {cfg : ConfigBackup} {op : Operation} {stmts : Statements} {rec : Record}
    (hnodup : (targets.map (·.store.name)).Nodup) (hreply : ∀ t ∈ targets, t.out.reply ≠ .failed true)
    (hnum : w.Numbered C)
    (hfail : (Call.uploadAndUpdateDB cfg op stmts rec).StopsEarly C pathMatch targets w) :
    NoTrace w ((Call.uploadAndUpdateDB cfg op stmts rec).run C pathMatch targets w).world ↔
      (Call.uploadAndUpdateDB cfg op stmts rec).TakenBack C pathMatch targets w := by
  unfold Call.StopsEarly at hfail
  unfold Call.TakenBack Call.sends
  simp only [Call.run, uploadAndUpdateDB, countResult_world, countResult_cancelled,
    countResult_err] at hfail ⊢
  cases hbegin : stmts.beginOk with
  | false => simp [NoTrace.refl]
  | true =>
      cases hfiles : filesEntry op stmts.filesOk rec w.db with
      | none => simp [NoTrace.refl]
      | some db =>
          simp only [hbegin, hfiles, Bool.not_true, Bool.false_eq_true, if_false] at hfail ⊢
          by_cases hop : op.operationType = .upload
          · rw [operateTarget, if_pos hop] at hfail ⊢
            rw [finish_noTrace_iff uploadTarget_spec hnodup
              (fun t ht => upload_refused (hreply t ht))
              (fun t _ hdel => upload_leftover (hnum _) hdel) (filesEntry_files hfiles).2.1 hfail]
            simp only [hop, Option.isSome_some, Bool.and_true, decide_true, forall_true_left]
            rfl
          · rw [operateTarget, if_neg hop] at hfail ⊢
            simp [hop, update_noTrace rec stmts.commitOk db hfail]

theorem putMarkers_noTrace_iff {stmts : Statements} {jobUuid : Str} {rec : Record}
    (hnodup : (targets.map (·.store.name)).Nodup) (hreply : ∀ t ∈ targets, t.out.reply ≠ .failed true)
    (hnum : w.Numbered C)
    (hfail : (putMarkers C stmts targets jobUuid rec w).cancelled = true ∨
      (putMarkers C stmts targets jobUuid rec w).err ≠ none) :
    NoTrace w (putMarkers C stmts targets jobUuid rec w).world ↔
      ((stmts.beginOk && stmts.filesOk) = true →
        ∀ t ∈ (begun (markers C rec) rec w (uuids w.db) targets).1,
          delivers (markers C rec) rec w t = true →
          markerRestored rec w (!(begun (markers C rec) rec w (uuids w.db) targets).2 &&
            t.undo.takesEffect) t) := by
  unfold putMarkers at hfail ⊢
  cases hbegin : stmts.beginOk with
  | false => simp [NoTrace.refl]
  | true =>
      cases hfiles : stmts.filesOk with
      | false => simp [NoTrace.refl]
      | true =>
          simp only [hbegin, hfiles, Bool.not_true, Bool.false_eq_true, if_false] at hfail ⊢
          rw [finish_noTrace_iff markTarget_spec hnodup (fun t ht => marker_refused (hreply t ht))
            (fun t ht hdel => marker_leftover (hreply t ht) (hnum _) hdel)
            (filesDelete_remoteFiles w.db rec.path) hfail]
          simp

theorem mark_noTrace_iff {cfg : ConfigBackup} {lstat : Lstat} {stmts : Statements} {jobUuid : Str}
    {rec : Record} (hnodup : (targets.map (·.store.name)).Nodup)
    (hreply : ∀ t ∈ targets, t.out.reply ≠ .failed true) (hnum : w.Numbered C)
    (hfail : (Call.markDeleted cfg lstat stmts jobUuid rec).StopsEarly C pathMatch targets w) :
    NoTrace w ((Call.markDeleted cfg lstat stmts jobUuid rec).run C pathMatch targets w).world ↔
      (Call.markDeleted cfg lstat stmts jobUuid rec).TakenBack C pathMatch targets w := by
  unfold Call.StopsEarly at hfail
  unfold Call.TakenBack Call.sends
  simp only [Call.run] at hfail ⊢
  cases hgone : gone pathMatch cfg lstat rec with
  | false =>
      obtain ⟨err, hr⟩ := markDeleted_of_not_gone hgone
      rw [hr]
      simp [NoTrace.refl]
  | true =>
      rw [markDeleted_of_gone hgone] at hfail ⊢
      rw [putMarkers_noTrace_iff hnodup hreply hnum hfail, Bool.and_true]
      rfl

/-- When an operation that stops early leaves no trace. -/
theorem noTrace_iff (C : Cloud) (pathMatch : Str → Str → Option Bool) (c : Call)
    (targets : List Target) (w : World) (hnodup : (targets.map (·.store.name)).Nodup)
    (hreply : ∀ t ∈ targets, t.out.reply ≠ .failed true) (hnum : w.Numbered C)
    (hfail : c.StopsEarly C pathMatch targets w) :
    NoTrace w (c.run C pathMatch targets w).world ↔ c.TakenBack C pathMatch targets w := by
  cases c with
  | uploadAndUpdateDB cfg op stmts rec => exact upload_noTrace_iff hnodup hreply hnum hfail
  | markDeleted cfg lstat stmts jobUuid rec => exact mark_noTrace_iff hnodup hreply hnum hfail

end

def s3Target (name : String) : Target :=
  smoothTarget { plainStore .awsS3 with name := name.toList } 7 name

def newFile : Call :=
  .uploadAndUpdateDB plainConfig .new ⟨true, true, true⟩
    ⟨"/file".toList, ⟨.file, [], 1, 1, 1, [], [], [], [], false⟩, "job".toList, true⟩

def failsLate : List Target := [s3Target "first", { s3Target "second" with collectionsOk := false }]

theorem noTrace_iff_failsLate :
    (newFile.run plainCloud (fun _ _ => none) failsLate World.empty).err = some .collections ∧
      NoTrace World.empty (newFile.run plainCloud (fun _ _ => none) failsLate World.empty).world := by
  refine ⟨by decide, ?_⟩
  refine (noTrace_iff plainCloud (fun _ _ => none) newFile failsLate World.empty (by decide)
    ?_ (fun _ => Bucket.numbered_empty _) (.inr (by decide))).mpr ?_
  · intro t ht
    simp only [failsLate, List.mem_cons, List.not_mem_nil, or_false] at ht
    rcases ht with rfl | rfl <;> exact nofun
  · intro _ loop t ht _ _ body _
    have hstop : loop.2 = false := by decide
    have hmem : t ∈ failsLate := (begun_sublist _ _).subset ht
    simp only [failsLate, List.mem_cons, List.not_mem_nil, or_false] at hmem
    rw [hstop]
    rcases hmem with rfl | rfl <;> rfl

def cancelledLate : List Target :=
  let second := s3Target "second"
  [{ s3Target "first" with undo := .cancelled },
    { second with out := { second.out with reply := .cancelled }, undo := .cancelled }]

/-- The object of the first target stays, without a row in the database. -/
theorem noTrace_cancelledLate :
    ¬ ∀ (c : Call) (targets : List Target) (w : World), (targets.map (·.store.name)).Nodup →
      (∀ t ∈ targets, t.out.reply ≠ .failed true) → w.Numbered plainCloud →
      c.StopsEarly plainCloud (fun _ _ => none) targets w →
      NoTrace w (c.run plainCloud (fun _ _ => none) targets w).world := by
  intro h
  have hreply : ∀ t ∈ cancelledLate, t.out.reply ≠ .failed true := by
    intro t ht
    simp only [cancelledLate, List.mem_cons, List.not_mem_nil, or_false] at ht
    rcases ht with rfl | rfl <;> exact nofun
  have hsame := (h newFile cancelledLate World.empty (by decide) hreply
    (fun _ => Bucket.numbered_empty _) (.inl (by decide))).2 "first".toList
  have hleft : ((newFile.run plainCloud (fun _ _ => none) cancelledLate World.empty).world.buckets
      "first".toList).versions "prefix/data/file".toList = [⟨0, some [7]⟩] := by decide
  rw [hsame.versions] at hleft
  cases hleft

/-! ### Numbers in a run -/

section

variable {C : Cloud} {S : Sending} {rec : Record}

/-- A pass changes at most the bucket of its target, by what the target is asked. -/
theorem PassSpec.buckets {body : Target → Pass → Flow Pass Halt} (hspec : PassSpec S rec body)
    (t : Target) (p : Pass) : (body t p).state.buckets = p.buckets ∨
      (body t p).state.buckets = Function.update p.buckets t.store.name
        (S.send t (calcRemoteFileVersion p.db rec.path t.store.name) (p.buckets t.store.name)).2 := by
  cases hq : t.queryOk with
  | false =>
      obtain ⟨halt, hstop⟩ := hspec.query t p hq
      exact .inl (by rw [hstop]; rfl)
  | true =>
      cases hskip : S.skips t with
      | true =>
          obtain ⟨events, hnext⟩ := hspec.skip t p hq hskip
          exact .inl (by rw [hnext]; rfl)
      | false =>
          rcases hsend : S.send t (calcRemoteFileVersion p.db rec.path t.store.name)
            (p.buckets t.store.name) with ⟨sent, b⟩
          refine .inr ?_
          cases hfailed : failed sent with
          | true =>
              obtain ⟨halt, hstop⟩ := hspec.refused t p sent b hq hskip hsend hfailed
              rw [hstop]
              rfl
          | false =>
              cases hrows : rowsOk (uuids p.db) t with
              | false =>
                  obtain ⟨halt, db, hstop⟩ := hspec.notAdded t p sent b hq hskip hsend hfailed hrows
                  rw [hstop]
                  rfl
              | true =>
                  obtain ⟨db, -, -, hnext⟩ := hspec.added t p sent b hq hskip hsend hfailed hrows
                  rw [hnext]
                  rfl

theorem numbered_update {buckets : Str → Bucket} (h : ∀ n, (buckets n).Numbered C) {b : Bucket}
    (hb : b.Numbered C) (name : Str) : ∀ n, (Function.update buckets name b n).Numbered C := by
  intro n
  rcases eq_or_ne n name with rfl | hne
  · rw [Function.update_self]
    exact hb
  · rw [Function.update_of_ne hne]
    exact h n

theorem numbered_forEach {body : Target → Pass → Flow Pass Halt} (hspec : PassSpec S rec body)
    (hsend : ∀ t v b, b.Numbered C → (S.send t v b).2.Numbered C) (targets : List Target) {p : Pass}
    (h : ∀ n, (p.buckets n).Numbered C) : ∀ n, ((forEach body targets p).state.buckets n).Numbered C := by
  refine forEach_invariant (I := fun p : Pass => ∀ n, (p.buckets n).Numbered C) ?_ h
  intro t _ p hp
  rcases hspec.buckets t p with hb | hb
  · rw [hb]
    exact hp
  · rw [hb]
    exact numbered_update hp (hsend _ _ _ (hp _)) _

theorem numbered_cleanUp (rec : Record) {p : Pass} (h : ∀ n, (p.buckets n).Numbered C) :
    ∀ n, (cleanUp C rec p n).Numbered C := by
  unfold cleanUp
  induction p.processed generalizing p with
  | nil => exact h
  | cons e es ih =>
      exact @ih { p with buckets := _ } (numbered_update h (Store.numbered_delete (h _) _ _ _) _)

theorem numbered_finish (rec : Record) (commitOk : Bool) (db : Db) {flow : Flow Pass Halt}
    (h : ∀ n, (flow.state.buckets n).Numbered C) : (finish C rec commitOk db flow).world.Numbered C := by
  cases flow with
  | stop halt p => cases halt <;> exact numbered_cleanUp rec h
  | next p => cases commitOk <;> exact h

variable {w : World}

theorem numbered_uploadAndUpdateDB (h : w.Numbered C) (cfg : ConfigBackup) (op : Operation)
    (stmts : Statements) (targets : List Target) (rec : Record) :
    (uploadAndUpdateDB C cfg op stmts targets rec w).world.Numbered C := by
  rw [uploadAndUpdateDB, countResult_world]
  split
  · exact h
  · split
    · exact h
    · rename_i db _
      refine numbered_finish rec stmts.commitOk w.db ?_
      unfold operateTarget
      split
      · exact numbered_forEach uploadTarget_spec (fun t _ _ hb => Store.numbered_upload hb rec t.out)
          targets h
      · rw [(updateTarget_quiet rec w db targets).1]
        exact h

theorem numbered_putMarkers (h : w.Numbered C) (stmts : Statements) (targets : List Target)
    (jobUuid : Str) (rec : Record) : (putMarkers C stmts targets jobUuid rec w).world.Numbered C := by
  unfold putMarkers
  split
  · exact h
  · split
    · exact h
    · exact numbered_finish rec stmts.commitOk w.db (numbered_forEach markTarget_spec
        (fun t _ _ hb => Store.numbered_markDeleted hb rec t.out.reply) targets h)

theorem numbered_step (pathMatch : Str → Str → Option Bool) (a : Action) (h : w.Numbered C) :
    (a.apply C pathMatch w).Numbered C := by
  cases a with
  | walk cfg jobUuid it =>
      have hdo : (doItem C cfg jobUuid it w).world.Numbered C := by
        unfold doItem
        split
        · exact h
        · split
          · exact h
          · exact numbered_uploadAndUpdateDB h cfg _ it.stmts it.targets _
          · exact h
      change (walkItem C cfg jobUuid it w).world.Numbered C
      unfold walkItem
      dsimp only
      split
      · exact hdo
      · exact hdo
  | mark cfg jobUuid e =>
      change (markEntry C pathMatch cfg jobUuid e w).world.Numbered C
      have hmark : ∀ rec, (markDeleted C pathMatch cfg e.lstat e.stmts e.targets jobUuid rec w).world.Numbered C := by
        intro rec
        unfold markDeleted
        split
        · split
          · exact h
          · exact h
          · exact numbered_putMarkers h e.stmts e.targets jobUuid rec
        · exact numbered_putMarkers h e.stmts e.targets jobUuid rec
      unfold markEntry
      split
      · exact h
      · exact h
      · dsimp only
        split
        · exact hmark _
        · exact hmark _

/-- The numbers are in order in every state of a run. -/
theorem numbered_reaches {pathMatch : Str → Str → Option Bool} {allowed : Action → World → Prop}
    (h : Reaches allowed (Action.apply C pathMatch) World.empty w) : w.Numbered C :=
  h.invariant (fun _ => Bucket.numbered_empty C) fun a _ hs _ => numbered_step pathMatch a hs

end

end CloudBackup.Backup
