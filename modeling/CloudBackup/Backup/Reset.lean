import CloudBackup.Backup.Visits

/-!
`ResetEncryptedFlags`, and the run that comes after it. No row of `files` has its flag
then, and `needsUpload` looks at the flag before anything else. So a run that encrypts
sends every regular file that it can read the row of, once at least
(`reset_reuploads`). It asks the targets one after the other, and the first one that
fails is the last one that is asked.
-/

namespace CloudBackup

namespace Database

/-- `ResetEncryptedFlags`: the number of rows changed, and the database afterwards. -/
def resetEncryptedFlags (db : Db) : ℕ × Db :=
  ((db.files.filter (·.props.encrypted)).length,
    { db with files := db.files.map fun f =>
        if f.props.encrypted then { f with props := { f.props with encrypted := false } } else f })

theorem not_encrypted_of_mem_reset {db : Db} {f : FilesRow} (h : f ∈ (resetEncryptedFlags db).2.files) :
    f.props.encrypted = false := by
  obtain ⟨g, -, rfl⟩ := List.mem_map.mp h
  dsimp only
  split
  · rfl
  · rename_i hflag
    exact Bool.eq_false_iff.mpr hflag

end Database

namespace Backup

open Database ObjectStore Iteration

section

variable (C : Cloud) (cfg : ConfigBackup) (jobUuid : Str)

/-- The pass for a target is made when `Do` sends the content of an item: it starts
from `p`, and the record is `rec`. -/
def SendsTo (it : Item) (w : World) (op : Operation) (rec : Record) (t : Target) (p : Pass) : Prop :=
  it.ctxDone = false ∧ decideItem cfg jobUuid it w.db = .operate op rec ∧ op.operationType = .upload ∧
    it.stmts.beginOk = true ∧
    ∃ db, filesEntry op it.stmts.filesOk rec w.db = some db ∧
      ComesTo (operateTarget C cfg op rec) it.targets ⟨db, w.buckets, [], []⟩ t p

/-- The pass for a target is a call of `Upload`, which it ends with. It leaves the bucket of the
target to this call; and if the store takes the content of the file, that is what is stored. -/
structure Sends (op : Operation) (rec : Record) (t : Target) (p : Pass) : Prop where
  query : t.queryOk = true
  allowed : preUploadCheck rec cfg t.store = none
  request : (operateTarget C cfg op rec t p).state.buckets = Function.update p.buckets t.store.name
    (t.store.upload C rec (calcRemoteFileVersion p.db rec.path t.store.name) t.out (p.buckets t.store.name)).2
  content : ∀ body, wireBody C.aead.toAead t.store.enc rec.skipEncryption t.out.content.1 t.out.rand = .ok body →
    t.out.reply = .ok → (operateTarget C cfg op rec t p).state.buckets t.store.name =
      (t.store.put C rec.path (calcRemoteFileVersion p.db rec.path t.store.name) body (p.buckets t.store.name)).2

/-- `Upload` is called for the content of an item and a target. -/
def Uploads (it : Item) (w : World) (t : Target) : Prop :=
  ∃ op rec p, SendsTo C cfg jobUuid it w op rec t p ∧ Sends C cfg op rec t p

/-- The content of an item is skipped for a target: its path is reserved, or it is too
large. -/
def Skips (it : Item) (w : World) (t : Target) : Prop :=
  ∃ op rec p reason, SendsTo C cfg jobUuid it w op rec t p ∧ preUploadCheck rec cfg t.store = some reason

/-- The pass for a target is the last one: it fails, or the job is cancelled. -/
def EndsAt (it : Item) (w : World) (t : Target) : Prop :=
  ∃ op rec p halt p', SendsTo C cfg jobUuid it w op rec t p ∧
    operateTarget C cfg op rec t p = .stop halt p'

end

section

variable {C : Cloud} {cfg : ConfigBackup} {jobUuid : Str} {it : Item} {w : World}

/-! ### One item -/

/-- The row of a regular file has no flag, but the file is to be encrypted. -/
theorem decideItem_of_flag (hencrypt : cfg.encrypt = true) (hfile : it.disk.fileType = .file) {rec : Record}
    (hrow : getBackedupObjectPropertiesFromDb it.queryOk w.db it.path = .ok (some rec))
    (hflag : rec.props.encrypted = false) :
    ∃ rec', decideItem cfg jobUuid it w.db = .operate .contentUpdate rec' := by
  have hchange : contentChange it.disk rec.props cfg.checksum cfg.encrypt = (true, []) := by
    rw [contentChange, hflag, hencrypt, if_pos ⟨Bool.false_ne_true, hfile⟩]
  rw [decideItem, hrow]
  dsimp only
  rw [existingRecord, needsUpload, hchange]
  unfold prepareFileRecord
  rw [hfile]
  exact ⟨_, rfl⟩

/-- The row that is read is the only one, so that it can be updated. -/
theorem filesEntry_of_read {rec rec' : Record} (hpath : rec'.path = it.path)
    (hrow : getBackedupObjectPropertiesFromDb it.queryOk w.db it.path = .ok (some rec)) :
    ∃ db, filesEntry .contentUpdate true rec' w.db = some db := by
  have hone : (filesQuery w.db it.path).length = 1 := by
    unfold getBackedupObjectPropertiesFromDb at hrow
    split at hrow
    · cases hrow
    · split at hrow
      · cases hrow
      · rename_i row rows hquery
        split at hrow
        · cases hrow
        · split at hrow
          · cases hrow
          · split at hrow
            · cases hrow
            · rename_i hrows
              rw [hquery, not_not.mp hrows]
              rfl
  have hcount : (filesUpdate w.db (filesRow rec')).1 = 1 := by
    rw [← hone, ← hpath]
    rfl
  unfold filesEntry
  rw [if_neg (by simp), if_neg (by simp), if_neg (by simp [hcount])]
  exact ⟨_, rfl⟩

theorem addRows_buckets (t : Target) (jobUuid : Str) (deleteMarker : Bool) (rec : Record) (version : ℕ)
    (remoteVersion : Str) (p : Pass) : (addRows t jobUuid deleteMarker rec version remoteVersion p).state.buckets =
      p.buckets := by
  unfold addRows
  split
  · rfl
  · split <;> rfl

/-- A pass for the content of a file that is neither skipped nor without a version. -/
theorem sends_of_allowed {op : Operation} {rec : Record} {t : Target} (p : Pass) (hop : op.operationType = .upload)
    (hfile : rec.props.type = .file) (hquery : t.queryOk = true) (hallowed : preUploadCheck rec cfg t.store = none) :
    Sends C cfg op rec t p := by
  have hrequest : (operateTarget C cfg op rec t p).state.buckets = Function.update p.buckets t.store.name
      (t.store.upload C rec (calcRemoteFileVersion p.db rec.path t.store.name) t.out (p.buckets t.store.name)).2 := by
    rw [operateTarget, if_pos hop, uploadTarget, hquery, hallowed]
    dsimp only
    rw [if_neg (by decide)]
    split
    · rfl
    · split
      · rfl
      · rw [addRows_buckets]
        rfl
  refine ⟨hquery, hallowed, hrequest, fun body hbody hreply => ?_⟩
  rw [hrequest, Function.update_self, Store.upload, if_neg (not_not.mpr hfile), hbody, hreply]

/-- A target has its turn, unless the loop has ended before. -/
theorem uploads_or_ends {op : Operation} {rec : Record} {db : Db} (hctx : it.ctxDone = false)
    (hfile : it.disk.fileType = .file)
    (hdecide : decideItem cfg jobUuid it w.db = .operate op rec) (hop : op.operationType = .upload)
    (hbegin : it.stmts.beginOk = true) (hfiles : filesEntry op it.stmts.filesOk rec w.db = some db)
    {pre post : List Target} {t : Target} (htargets : it.targets = pre ++ t :: post)
    (hquery : t.queryOk = true) :
    Uploads C cfg jobUuid it w t ∨ Skips C cfg jobUuid it w t ∨ ∃ t' ∈ pre, EndsAt C cfg jobUuid it w t' := by
  have hsends : ∀ {t' p}, ComesTo (operateTarget C cfg op rec) it.targets ⟨db, w.buckets, [], []⟩ t' p →
      SendsTo C cfg jobUuid it w op rec t' p :=
    fun h => ⟨hctx, hdecide, hop, hbegin, db, hfiles, h⟩
  rcases comesTo_or_stops (operateTarget C cfg op rec) ⟨db, w.buckets, [], []⟩ htargets with
    ⟨p, hp⟩ | ⟨t', ht', p, halt, p', hp, hstop⟩
  · cases hskip : preUploadCheck rec cfg t.store with
    | none =>
        have htype := (decideItem_operate hdecide).type.trans hfile
        exact .inl ⟨op, rec, p, hsends hp, sends_of_allowed p hop htype hquery hskip⟩
    | some reason => exact .inr (.inl ⟨op, rec, p, reason, hsends hp, hskip⟩)
  · exact .inr (.inr ⟨t', ht', op, rec, p, halt, p', hsends hp, hstop⟩)

/-- An operation that succeeds has gone through all of its targets. -/
theorem operate_of_success {op : Operation} {rec : Record}
    (hdecide : decideItem cfg jobUuid it w.db = .operate op rec)
    (hcan : (walkItem C cfg jobUuid it w).cancelled = false)
    (herr : (walkItem C cfg jobUuid it w).err = none) :
    it.ctxDone = false ∧ it.stmts.beginOk = true ∧ ∃ db p, filesEntry op it.stmts.filesOk rec w.db = some db ∧
      forEach (operateTarget C cfg op rec) it.targets ⟨db, w.buckets, [], []⟩ = .next p := by
  have hctx : it.ctxDone = false := by
    rw [← Bool.not_eq_true]
    intro hctx
    simp [walkItem, doItem, hctx] at hcan
  have hbegin : it.stmts.beginOk = true := by
    rw [← Bool.not_eq_false]
    intro hbegin
    simp [walkItem, doItem, hctx, hdecide, uploadAndUpdateDB, hbegin] at herr
  refine ⟨hctx, hbegin, ?_⟩
  rcases walkItem_cases C cfg jobUuid it w with
    ⟨hcan', -⟩ | ⟨-, herr', -⟩ | ⟨rec', hdecide', -⟩ | ⟨op', rec', db, p, hdecide', hfiles, hloop, -⟩
  · rw [hcan] at hcan'
    cases hcan'
  · exact absurd herr herr'
  · rw [hdecide] at hdecide'
    cases hdecide'
  · rw [hdecide] at hdecide'
    cases hdecide'
    exact ⟨db, p, hfiles, hloop⟩

/-- The content of an item that was sent without an error has been sent to every target
that did not skip it. -/
theorem uploads_of_success {op : Operation} {rec : Record} (hfile : it.disk.fileType = .file)
    (hdecide : decideItem cfg jobUuid it w.db = .operate op rec) (hop : op.operationType = .upload)
    (hcan : (walkItem C cfg jobUuid it w).cancelled = false)
    (herr : (walkItem C cfg jobUuid it w).err = none) {t : Target} (ht : t ∈ it.targets) :
    Uploads C cfg jobUuid it w t ∨ Skips C cfg jobUuid it w t := by
  obtain ⟨hctx, hbegin, db, p, hfiles, hloop⟩ := operate_of_success hdecide hcan herr
  obtain ⟨q, q', hq, hnext⟩ := comesTo_of_next hloop ht
  have hsends : SendsTo C cfg jobUuid it w op rec t q := ⟨hctx, hdecide, hop, hbegin, db, hfiles, hq⟩
  cases hskip : preUploadCheck rec cfg t.store with
  | some reason => exact .inr ⟨op, rec, q, reason, hsends, hskip⟩
  | none =>
      have htype := (decideItem_operate hdecide).type.trans hfile
      refine .inl ⟨op, rec, q, hsends, sends_of_allowed q hop htype ?_ hskip⟩
      rw [← Bool.not_eq_false]
      intro hquery
      rw [operateTarget, if_pos hop, uploadTarget, hquery] at hnext
      cases hnext

/-- Only the content of a file without the flag is sent again; the rest is known to be
encrypted already. -/
theorem encrypted_of_metadataUpdate (hencrypt : cfg.encrypt = true) (hfile : it.disk.fileType = .file)
    {rec : Record} (hdecide : decideItem cfg jobUuid it w.db = .operate .metadataUpdate rec) :
    ∃ f ∈ w.db.files, f.path = it.path ∧ f.props.encrypted = true := by
  have hverdict := hdecide
  unfold decideItem at hverdict
  split at hverdict
  · cases hverdict
  · cases (newRecord_operate hverdict).1
  · rename_i dbRecord hread
    obtain ⟨f, hf, hpath, rfl⟩ := getBackedup_row hread
    refine ⟨f, hf, hpath, ?_⟩
    rw [← Bool.not_eq_false]
    intro hflag
    obtain ⟨rec', hcontent⟩ := @decideItem_of_flag cfg jobUuid it w hencrypt hfile _ hread hflag
    rw [hdecide] at hcontent
    cases hcontent

end

/-! ### A run -/

section

variable {C : Cloud} {pathMatch : Str → Str → Option Bool} {cfg : ConfigBackup} {dereference : Bool}
  {v : Volume} {jobUuid : Str} {env : Surroundings} {s : Scanning} {it : Item} {w : World}

/-- The run has sent the content of the item at a path, if that is a regular file, to
every target that did not skip it. -/
def WasSent (pathMatch : Str → Str → Option Bool) (cfg : ConfigBackup) (dereference : Bool) (v : Volume)
    (C : Cloud) (jobUuid : Str) (env : Surroundings) (s : Scanning) (path : Str) : Prop :=
  ∃ it w, Visits pathMatch cfg dereference v C jobUuid env s it w ∧ it.path = path ∧
    (it.disk.fileType = .file →
      ∀ t ∈ it.targets, Uploads C cfg jobUuid it w t ∨ Skips C cfg jobUuid it w t)

/-- A row that has the flag is of an item that the run has sent. -/
def FlagsOfSent (pathMatch : Str → Str → Option Bool) (cfg : ConfigBackup) (dereference : Bool) (v : Volume)
    (C : Cloud) (jobUuid : Str) (env : Surroundings) (s : Scanning) (w : World) : Prop :=
  ∀ f ∈ w.db.files, f.props.encrypted = true → WasSent pathMatch cfg dereference v C jobUuid env s f.path

theorem FlagsOfSent.visit (hencrypt : cfg.encrypt = true)
    (hvisit : Visits pathMatch cfg dereference v C jobUuid env s it w)
    (h : FlagsOfSent pathMatch cfg dereference v C jobUuid env s w) :
    FlagsOfSent pathMatch cfg dereference v C jobUuid env s (walkItem C cfg jobUuid it w).world := by
  rcases walkItem_cases C cfg jobUuid it w with
    ⟨-, hdb⟩ | ⟨-, -, hdb⟩ | ⟨rec, -, hr⟩ | ⟨op, rec, db, p, hdecide, hfiles, hloop, hr⟩
  · unfold FlagsOfSent
    rw [hdb]
    exact h
  · obtain ⟨rows, hrows⟩ := markItemAsFailed_cases it.failedFilesOk
      ⟨jobUuid, it.path, it.disk.fileType⟩ w.db
    unfold FlagsOfSent
    rw [hdb, hrows]
    exact h
  · unfold FlagsOfSent
    rw [hr]
    dsimp only
    rw [(collectTarget_tables jobUuid it.path it.targets w.db).1]
    exact h
  · intro f hf hflag
    rw [hr] at hf
    dsimp only at hf
    rw [(operate_files hloop).1] at hf
    rcases (filesEntry_files hfiles).1 f hf with rfl | ⟨hold, -⟩
    · -- the row of the item itself: its content was sent now, or it had the flag before
      change WasSent pathMatch cfg dereference v C jobUuid env s rec.path
      rw [(decideItem_operate hdecide).path_eq]
      by_cases hfile : it.disk.fileType = .file
      · by_cases hop : op.operationType = .upload
        · refine ⟨it, w, hvisit, rfl, fun _ t ht => uploads_of_success hfile hdecide hop ?_ ?_ ht⟩
          · rw [hr]
          · rw [hr]
        · have hmeta : op = .metadataUpdate := by
            cases op with
            | new => exact absurd rfl hop
            | contentUpdate => exact absurd rfl hop
            | metadataUpdate => rfl
          subst hmeta
          obtain ⟨g, hg, hpath, hgflag⟩ := encrypted_of_metadataUpdate hencrypt hfile hdecide
          rw [← hpath]
          exact h g hg hgflag
      · exact ⟨it, w, hvisit, rfl, fun hfile' => absurd hfile' hfile⟩
    · exact h f hold hflag

/-- After `ResetEncryptedFlags`, a run that encrypts decides to send the content of a
regular file whose row it can read, unless it has sent it before. It then comes to the
targets in turn, until the loop ends at one of them. -/
theorem reset_reuploads (hencrypt : cfg.encrypt = true) {db : Db}
    (hreset : s.world.db = (resetEncryptedFlags db).2)
    (hvisit : Visits pathMatch cfg dereference v C jobUuid env s it w) (hfile : it.disk.fileType = .file)
    {rec : Record} (hrow : getBackedupObjectPropertiesFromDb it.queryOk w.db it.path = .ok (some rec)) :
    (∃ rec', decideItem cfg jobUuid it w.db = .operate .contentUpdate rec' ∧
      (it.ctxDone = false → it.stmts.beginOk = true → it.stmts.filesOk = true →
        ∀ pre t post, it.targets = pre ++ t :: post → t.queryOk = true →
          Uploads C cfg jobUuid it w t ∨ Skips C cfg jobUuid it w t ∨
            ∃ t' ∈ pre, EndsAt C cfg jobUuid it w t')) ∨
    ∃ it' w', Visits pathMatch cfg dereference v C jobUuid env s it' w' ∧ it'.path = it.path ∧
      ∀ t ∈ it'.targets, Uploads C cfg jobUuid it' w' t ∨ Skips C cfg jobUuid it' w' t := by
  have hstart : FlagsOfSent pathMatch cfg dereference v C jobUuid env s s.world := by
    intro f hf hflag
    rw [hreset] at hf
    rw [not_encrypted_of_mem_reset hf] at hflag
    cases hflag
  have hflags := (visits_invariant hstart fun _ _ hv => FlagsOfSent.visit hencrypt hv).2 it w hvisit
  obtain ⟨f, hf, hpath, hrec⟩ := getBackedup_row hrow
  cases hflag : f.props.encrypted with
  | false =>
      left
      obtain ⟨rec', hdecide⟩ := @decideItem_of_flag cfg jobUuid it w hencrypt hfile rec hrow
        (by rw [hrec]; exact hflag)
      refine ⟨rec', hdecide, ?_⟩
      intro hctx hbegin hfiles pre t post htargets hquery
      obtain ⟨db', hentry⟩ := filesEntry_of_read (decideItem_operate hdecide).path_eq hrow
      rw [← hfiles] at hentry
      exact uploads_or_ends hctx hfile hdecide rfl hbegin hentry htargets hquery
  | true =>
      right
      obtain ⟨it', w', hvisit', hpath', hsent⟩ := hflags f hf hflag
      have hsame : it'.path = it.path := hpath'.trans hpath
      refine ⟨it', w', hvisit', hsame, hsent ?_⟩
      have hseen := hvisit'.seen
      rw [hsame] at hseen
      rw [hseen.unique hvisit.seen]
      exact hfile

end

def fileVolume : Volume := chainVolume ["file".toList] (by decide)

def resetState : Scanning :=
  let w := encryptedUpload.apply plainCloud (fun _ _ => none) World.empty
  ⟨⟨(resetEncryptedFlags w.db).2, w.buckets⟩, [], 0⟩

def resetSurroundings (targets : List Target) : Surroundings :=
  ⟨fun _ _ => false, fun _ => true, fun _ => smoothItem "" (smallFile 1 1) targets⟩

def resetConfig : ConfigBackup := { encryptingConfig with paths := ["/file".toList] }

def resetItem (targets : List Target) : Item := smoothItem "/file" (smallFile 1 1) targets

theorem visits_resetItem (targets : List Target) :
    Visits (fun _ _ => none) resetConfig false fileVolume plainCloud "job".toList (resetSurroundings targets)
      resetState (resetItem targets) resetState.world := by
  have hsingle : Single (fun _ _ => none) resetConfig false fileVolume "/file".toList (smallFile 1 1) :=
    ⟨rfl, by decide, by decide, by decide⟩
  have hbegins : Begins false fileVolume "job".toList (resetSurroundings targets) "/file".toList resetState
      { resetState with topItems := [⟨"job".toList, "/file".toList, .file⟩] } := by
    refine ⟨rfl, rfl, smallFile 1 1, ?_, ?_⟩
    · rw [hsingle.clean]
      exact hsingle.examine
    · rw [hsingle.clean]
      rfl
  exact (hsingle.visits hbegins).mpr ⟨rfl, rfl⟩

theorem resetState_files : resetState.world.db.files =
    [⟨"/file".toList, ⟨.file, [], 1, 1, 1, [], [], [], [], false⟩, "first".toList⟩] := by
  decide +kernel

theorem read_resetState : getBackedupObjectPropertiesFromDb true resetState.world.db "/file".toList =
    .ok (some ⟨"/file".toList, ⟨.file, [], 1, 1, 1, [], [], [], [], false⟩, "first".toList, false⟩) := by
  rw [getBackedupObjectPropertiesFromDb, filesQuery, resetState_files]
  rfl

theorem reset_reuploads_file : ∃ it w,
    Visits (fun _ _ => none) resetConfig false fileVolume plainCloud "job".toList
      (resetSurroundings [encryptingTarget "second"]) resetState it w ∧ it.path = "/file".toList ∧
    ∀ t ∈ it.targets, Uploads plainCloud resetConfig "job".toList it w t ∨
      Skips plainCloud resetConfig "job".toList it w t := by
  have hvisit := visits_resetItem [encryptingTarget "second"]
  rcases reset_reuploads rfl rfl hvisit rfl read_resetState with
    ⟨rec, -, htargets⟩ | ⟨it', w', hvisit', hpath, hsent⟩
  · refine ⟨_, _, hvisit, rfl, ?_⟩
    intro t ht
    obtain rfl := List.mem_singleton.mp ht
    rcases htargets rfl rfl rfl [] _ [] rfl rfl with huploads | hskips | ⟨t', ht', -⟩
    · exact .inl huploads
    · exact .inr hskips
    · cases ht'
  · exact ⟨it', w', hvisit', hpath, hsent⟩

def refusingTarget : Target :=
  let t := encryptingTarget "second"
  { t with out := { t.out with reply := .failed false } }

def otherTarget : Target :=
  let t := encryptingTarget "third"
  { t with store := { t.store with name := "other".toList } }

theorem refusingTarget_upload {C : Cloud} {rec : Record} (hfile : rec.props.type = .file) (version : ℕ) (b : Bucket) :
    (refusingTarget.store.upload C rec version refusingTarget.out b).1.err ≠ none := by
  unfold Store.upload
  rw [if_neg (not_not.mpr hfile)]
  split
  · simp
  · simp [refusingTarget]

/-- The loop over the targets does not come to the second one. -/
theorem not_sendsTo_otherTarget {op : Operation} {rec : Record} {p : Pass} :
    ¬ SendsTo plainCloud resetConfig "job".toList (resetItem [refusingTarget, otherTarget]) resetState.world op
      rec otherTarget p := by
  have hname : otherTarget.store.name ≠ refusingTarget.store.name := by decide
  rintro ⟨-, hdecide, hop, -, db, -, hcomes⟩
  rw [decideItem, resetItem, smoothItem, read_resetState] at hdecide
  cases hdecide
  rcases comesTo_cons hcomes with ⟨heq, -⟩ | ⟨p', hnext, -⟩
  · exact hname (congrArg (·.store.name) heq)
  · rw [operateTarget, if_pos hop] at hnext
    rcases uploadTarget_next hnext with ⟨reason, hskip, -⟩ | ⟨-, sent, b, hsent, -, herr, -⟩
    · exact absurd hskip (by cases reason <;> decide)
    · have hrefused := congrArg (·.1.err) hsent
      dsimp only at hrefused
      rw [herr] at hrefused
      exact refusingTarget_upload rfl _ _ hrefused

/-- The file is not sent to the second target. -/
theorem not_reuploads_refused : ¬ ∀ (targets : List Target) (t : Scanning),
    runBackup plainCloud (fun _ _ => none) resetConfig false fileVolume "job".toList
      (resetSurroundings targets) "target".toList (fun _ => smoothRound) 1 resetState =
        some (.marked (.returned false), t) →
    ∀ it w, Visits (fun _ _ => none) resetConfig false fileVolume plainCloud "job".toList
      (resetSurroundings targets) resetState it w → it.disk.fileType = .file →
      (∃ f ∈ w.db.files, f.path = it.path ∧ f.props.type = .file) →
      ∀ t ∈ it.targets, Uploads plainCloud resetConfig "job".toList it w t ∨
        Skips plainCloud resetConfig "job".toList it w t := by
  intro h
  have hending : (runBackup plainCloud (fun _ _ => none) resetConfig false fileVolume "job".toList
      (resetSurroundings [refusingTarget, otherTarget]) "target".toList (fun _ => smoothRound) 1
      resetState).map Prod.fst = some (.marked (.returned false)) := by
    decide +kernel
  obtain ⟨⟨ending, t⟩, hrun, rfl⟩ := Option.map_eq_some_iff.mp hending
  have hrow : ∃ f ∈ resetState.world.db.files, f.path = "/file".toList ∧ f.props.type = .file := by
    rw [resetState_files]
    exact ⟨_, List.mem_singleton.mpr rfl, rfl, rfl⟩
  rcases h _ t hrun _ _ (visits_resetItem _) rfl hrow otherTarget
    (List.mem_cons_of_mem _ (List.mem_singleton.mpr rfl)) with
    ⟨op, rec, p, hsends, -⟩ | ⟨op, rec, p, reason, hsends, -⟩
  · exact not_sendsTo_otherTarget hsends
  · exact not_sendsTo_otherTarget hsends

end Backup

end CloudBackup
