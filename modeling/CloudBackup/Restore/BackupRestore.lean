import CloudBackup.Backup.Depiction
import CloudBackup.Restore.RestoredTree

/-!
From the disk to the disk. `stored_contents` is about the store: after any history of
backups every live row of a file can be read, and gives what was sent last for it.
`backup_restored` is about the whole program. A run takes a picture of the disk, other jobs
go on, and a restore of the job, however often it was cut off before, puts back what
the run has seen.
-/

namespace CloudBackup.Restore

open Cbcrypto Keystore Database ObjectStore Backup UnixPath FileTree Iteration

def nodeOf (contents : Str → Bytes) (path : Str) (stat : OnDisk) : Option (Node Bytes) :=
  match stat.fileType with
  | .dir => some .dir
  | .symlink => stat.readlink.map .symlink
  | .file => some (.file (contents path))
  | .unknown => none

section

variable (pathMatch : Str → Str → Option Bool) (cfg : ConfigBackup) (dereference : Bool) (v : Volume)
  (contents : Str → Bytes)

/-- The path is that of a live row. -/
def Requested (selected : List RemoteFile) (path : Str) : Prop :=
  ∃ r ∈ liveRows selected, r.localPath = path

/-- What is below the directory is what a run saw of the requested paths, and the
directories on the way there. -/
structure Reproduces (selected : List RemoteFile) (dir : Names) (d : Disk Bytes) : Prop where
  seen : ∀ path stat, Seen pathMatch cfg dereference v path stat → Requested selected path →
    components path ≠ [] → ∃ node, nodeOf contents path stat = some node ∧
      d.tree.node (dir ++ components path) = some node
  only : ∀ way node, way ≠ [] → d.tree.node (dir ++ way) = some node →
    ∃ path stat, Seen pathMatch cfg dereference v path stat ∧ Requested selected path ∧
      (components path = way ∨ way <+: components path ∧ node = .dir)

end

/-- A run reads from a store and a bucket that are as they should be. -/
def LifeEvent.ReadsFrom (reads : Store → Bucket → Prop) : LifeEvent → Prop
  | .start m => reads m.st m.b
  | .resume m => reads m.st m.b
  | .restart _ => True
  | .leak _ => True

structure Encounter.Calm (m : Encounter) : Prop where
  bringUp : m.env.bringUp = .ok
  ok : m.env.NoFailures
  crash : m.env.crashAfter = none
  cond : ∀ r, (m.cond r).ctxDone = false ∧ (m.cond r).ctxDoneWaiting = false ∧ (m.cond r).writeOk = true

/-! ### The store -/

section

variable {C : Cloud} {keys : Str → Option (Bytes × Block keystoreUUIDSize)} {st : Store}
  {pathMatch : Str → Str → Option Bool} {l : Log} {r : RemoteFile}

theorem get_of_sentAs {u : Upload} {b : Bucket} {es : EncryptionState} (hfile : r.props.type = .file)
    (hsent : SentAs C.aead.toAead keys r u)
    (hfind : st.find C r.localPath r.version r.remoteVersion b = .ok u.body)
    (hkeys : r.props.encrypted = true → keys r.target = some (es.kek, es.keystoreUUID) ∧ es.kek.length = kekSize) :
    stored C { st with enc := es } b r = .ok (some u.content) := by
  have hfind' : ({ st with enc := es } : Store).find C r.localPath r.version r.remoteVersion b = .ok u.body := hfind
  have hdecode := decode_sentAs hsent hkeys
  simp [stored, Store.get, restoreRecord, hfile, hfind', hdecode, Except.map]

/-- After any history of a store, with whatever was marked as deleted or rolled back in
between, every live row of a file can be read with the keys of its target, and gives the
content of the last upload for it. -/
theorem stored_contents
    (hrun : Reaches (fun a l => Regular keys st a l.world) (logStep C pathMatch) Log.empty l)
    (hr : r ∈ l.world.db.remoteFiles) (hfile : r.props.type = .file) (hlive : r.deleteMarker = false)
    {es : EncryptionState} (hkeys : r.props.encrypted = true →
      keys st.name = some (es.kek, es.keystoreUUID) ∧ es.kek.length = kekSize) :
    ∃ u, lastUpload l.uploads r.localPath st.name r.version = some u ∧
      stored C { st with enc := es } (l.world.buckets st.name) r = .ok (some u.content) := by
  have hstocked := stocked_reaches hrun
  have htarget := (hstocked.mine r hr).1
  obtain ⟨u, hlast, hsent⟩ := hstocked.logged.rows r hr hfile hlive
  obtain ⟨-, u', hlast', hfind⟩ := hstocked.leads r hr hfile hlive
  rw [htarget] at hlast
  obtain rfl : u = u' := Option.some.inj (hlast.symm.trans hlast')
  exact ⟨u, hlast, get_of_sentAs hfile hsent hfind (by rw [htarget]; exact hkeys)⟩

end

/-! ### The rows -/

section

variable {C : Cloud} {K : Codec} {sidecars : Str → Option Bytes} {s : Start} {db : Db} {st st' : Store}
  {pathMatch globMatch : Str → Str → Option Bool} {cfg : ConfigBackup} {dereference : Bool} {v : Volume}
  {contents : Str → Bytes} {jobUuid : Str} {l : Log} {req : Request} {exclusions : List Str} {r : RemoteFile}

theorem collectedBy_iff_mem_jobItems : r ∈ jobItems db jobUuid ↔ CollectedBy db jobUuid r := by
  unfold jobItems CollectedBy
  rw [List.mem_flatMap]
  constructor
  · rintro ⟨r', hr', hmem⟩
    obtain ⟨c, hc, rfl⟩ := List.mem_map.mp hmem
    obtain ⟨hc, hmatch⟩ := List.mem_filter.mp hc
    exact ⟨hr', c, hc, of_decide_eq_true hmatch⟩
  · rintro ⟨hr, c, hc, hmatch⟩
    exact ⟨r, hr, List.mem_map.mpr ⟨c, List.mem_filter.mpr ⟨hc, decide_eq_true hmatch⟩, rfl⟩⟩

theorem mem_of_mem_mergeChildren {items childItems : List RemoteFile} (h : r ∈ mergeChildren items childItems) :
    r ∈ items ∨ r ∈ childItems := by
  obtain ⟨new, heq, -, hnew, -⟩ := merging_mergeChildren items childItems
  rw [heq] at h
  exact (List.mem_append.mp h).imp_right fun hr => (hnew r hr).1

theorem collectedBy_of_selected (hr : r ∈ selectedItems globMatch db req exclusions) :
    CollectedBy db req.sourceBackupJobId r := by
  rw [← collectedBy_iff_mem_jobItems]
  have hfetch := List.mem_of_mem_filter hr
  unfold foundItems at hfetch
  split at hfetch
  · exact (mem_itemsWhere.mp hfetch).1
  · unfold withChildren at hfetch
    dsimp only at hfetch
    split at hfetch
    · exact (mem_exactItems.mp hfetch).1
    · rcases mem_of_mem_mergeChildren hfetch with hmem | hmem
      · exact (mem_exactItems.mp hmem).1
      · exact (mem_itemsWhere.mp hmem).1

theorem selected_of_collectedBy (hall : req.allFiles = true) (hr : CollectedBy db req.sourceBackupJobId r) :
    r ∈ selectedItems globMatch db req [] := by
  refine List.mem_filter.mpr ⟨?_, rfl⟩
  rw [foundItems, hall]
  exact mem_itemsWhere.mpr ⟨collectedBy_iff_mem_jobItems.mpr hr, rfl⟩

/-- With the configuration of the backup, the store that a restore opens has the keys. -/
theorem stored_of_openStore (hencrypt : s.encrypt = cfg.encrypt) (htarget : s.target = { st with enc := s.target.enc })
    (hopen : openStore K s (sidecars st.name) db = .ok st') {u : Upload} {b : Bucket}
    (hfile : r.props.type = .file) (henc : r.props.encrypted = cfg.encrypt) (hname : r.target = st.name)
    (hsent : SentAs C.aead.toAead (targetKeys K s.encryptPass sidecars) r u)
    (hfind : st.find C r.localPath r.version r.remoteVersion b = .ok u.body) :
    stored C st' b r = .ok (some u.content) := by
  have hsname : s.target.name = st.name := by rw [htarget]
  rw [← hsname] at hopen
  cases hon : s.encrypt with
  | false =>
      obtain ⟨-, rfl⟩ := (openStore_off hon).mp hopen
      rw [htarget]
      exact get_of_sentAs hfile hsent hfind fun hyes => by rw [henc, ← hencrypt, hon] at hyes; cases hyes
  | true =>
      obtain ⟨-, -, -, keys, hkeys, rfl⟩ := (openStore_on hon).mp hopen
      obtain ⟨body, -, hof⟩ := targetKeys_eq_some hkeys
      rw [htarget]
      exact get_of_sentAs hfile hsent hfind fun _ => ⟨by rw [hname, ← hsname]; exact hkeys, length_keysOf hof⟩

theorem treeLike_of_depicts {keys : Str → Option (Bytes × Block keystoreUUIDSize)} {selected : List RemoteFile}
    (h : Depicts C pathMatch cfg dereference v contents keys st jobUuid l)
    (hrooted : Rooted pathMatch cfg dereference v)
    (hselected : ∀ r ∈ selected, CollectedBy l.world.db jobUuid r) : TreeLike (liveRows selected) := by
  have hrow : ∀ r ∈ liveRows selected, IsClean r.localPath ∧
      ∃ stat, Seen pathMatch cfg dereference v r.localPath stat ∧ r.props.type = stat.fileType := by
    intro r hr
    obtain ⟨hmem, hlive⟩ := mem_liveRows.mp hr
    obtain ⟨hclean, stat, hseen, hpicture⟩ := h.rows r (hselected r hmem) hlive
    exact ⟨hclean, stat, hseen, hpicture.type⟩
  refine ⟨fun r hr => (hrow r hr).1, ?_, ?_, ?_⟩
  · intro r hr r' hr' heq
    obtain ⟨hmem, hlive⟩ := mem_liveRows.mp hr
    obtain ⟨hmem', hlive'⟩ := mem_liveRows.mp hr'
    exact h.once r r' (hselected r hmem) hlive (hselected r' hmem') hlive' heq
  · intro r' hr' r hr hbelow
    obtain ⟨hclean, stat, hseen, htype⟩ := hrow r' hr'
    obtain ⟨-, stat', hseen', -⟩ := hrow r hr
    exact htype.trans (hrooted.dir_above hseen hclean hseen' hbelow)
  · intro r hr hnil
    obtain ⟨-, stat, hseen, htype⟩ := hrow r hr
    exact htype.trans (hrooted.top _ stat hseen hnil)

end

/-! ### The tree -/

theorem TreeLike.treeOf_eq {rows : List RemoteFile} {content : RemoteFile → Bytes} {r : RemoteFile}
    (h : TreeLike rows) (hr : r ∈ rows) : treeOf content rows (components r.localPath) = entryOf content r := by
  unfold treeOf
  cases hfind : rows.find? fun r' => components r'.localPath = components r.localPath with
  | none => exact absurd (List.find?_eq_none.mp hfind r hr) (by simp)
  | some r' =>
      have heq : components r'.localPath = components r.localPath := by simpa using List.find?_some hfind
      obtain rfl := h.eq_of_components (List.mem_of_find?_eq_some hfind) hr heq
      rfl

/-- What is in the tree of some rows lies on the way to one of them. -/
theorem of_treeOf {rows : List RemoteFile} {content : RemoteFile → Bytes} {way : Names} {node : Node Bytes}
    (h : treeOf content rows way = some node) :
    ∃ r ∈ rows, components r.localPath = way ∨ way <+: components r.localPath ∧ node = .dir := by
  unfold treeOf at h
  split at h
  · rename_i r hfind
    exact ⟨r, List.mem_of_find?_eq_some hfind, .inl (by simpa using List.find?_some hfind)⟩
  · split at h
    · rename_i hany
      obtain ⟨r, hr, hpre⟩ := List.any_eq_true.mp hany
      exact ⟨r, hr, .inr ⟨List.isPrefixOf_iff_prefix.mp hpre, (Option.some.inj h).symm⟩⟩
    · cases h

structure SameConfiguration (cfg : ConfigBackup) (password : Bytes) (st : Store) (s : Start) : Prop where
  encrypt : s.encrypt = cfg.encrypt
  password : s.encryptPass = password
  target : s.target = { st with enc := s.target.enc }

section

variable (C : Cloud) (K : Codec) (pathMatch : Str → Str → Option Bool) (cfg : ConfigBackup)
  (sidecars : Str → Option Bytes) (password : Bytes) (st : Store) (jobUuid : Str)

/-- What other jobs make of the world. -/
def Later (w w' : World) : Prop :=
  Reaches (fun a w => Regular (targetKeys K password sidecars) st a w ∧ a.jobUuid ≠ jobUuid)
    (Action.apply C pathMatch) w w'

/-- The store and the bucket as a restore finds them at some later time. -/
def FoundLater (w : World) (st' : Store) (b : Bucket) : Prop :=
  ∃ s w', SameConfiguration cfg password st s ∧ Later C K pathMatch sidecars password st jobUuid w w' ∧
    openStore K s (sidecars st.name) w'.db = .ok st' ∧ b = w'.buckets st.name

end

section

variable {C : Cloud} {K : Codec} {pathMatch globMatch : Str → Str → Option Bool} {cfg : ConfigBackup}
  {dereference : Bool} {v : Volume} {contents : Str → Bytes} {sidecars : Str → Option Bytes} {password : Bytes}
  {st st' : Store} {jobUuid : Str} {uploads : List Upload} {w w' : World} {r : RemoteFile} {b : Bucket}
  {selected : List RemoteFile}

theorem nodeOf_eq {keys : Str → Option (Bytes × Block keystoreUUIDSize)} {l : Log} {stat : OnDisk}
    (h : PictureOf C cfg contents keys st l r stat) :
    ∃ node, nodeOf contents r.localPath stat = some node ∧ entryOf (fun r => contents r.localPath) r = some node := by
  unfold nodeOf entryOf
  rw [h.type]
  cases htype : stat.fileType with
  | dir => exact ⟨.dir, rfl, rfl⟩
  | symlink => exact ⟨.symlink r.props.linkTarget, by rw [h.linkTarget htype]; rfl, rfl⟩
  | file => exact ⟨.file (contents r.localPath), rfl, rfl⟩
  | unknown => exact absurd htype h.known

/-- Whenever a restore reads the file of a row, it gets the contents of the day. -/
theorem stored_of_depicts
    (h : Depicts C pathMatch cfg dereference v contents (targetKeys K password sidecars) st jobUuid ⟨w, uploads⟩)
    (hstocked : Stocked C (targetKeys K password sidecars) st ⟨w, uploads⟩)
    (hfound : FoundLater C K pathMatch cfg sidecars password st jobUuid w st' b)
    (hr : CollectedBy w.db jobUuid r) (hlive : r.deleteMarker = false) (hfile : r.props.type = .file) :
    stored C st' b r = .ok (some (contents r.localPath)) := by
  obtain ⟨s, w', hsame, hlater, hopen, rfl⟩ := hfound
  obtain ⟨uploads', hdepicts, hstocked', hiff⟩ := h.reaches hstocked hlater
  have hcollected := (hiff r).mpr hr
  obtain ⟨-, stat, -, hpicture⟩ := hdepicts.rows r hcollected hlive
  have hstat : stat.fileType = .file := hpicture.type.symm.trans hfile
  obtain ⟨u, -, hcontent, hsent, hfind⟩ := hpicture.content hstat
  rw [← hcontent]
  obtain rfl := hsame.password
  exact stored_of_openStore hsame.encrypt hsame.target hopen hfile (hpicture.encrypted hstat)
    (hstocked'.mine r hcollected.1).1 hsent hfind

/-- The tree of the rows is what the run has seen. -/
theorem reproduces_of_depicts {keys : Str → Option (Bytes × Block keystoreUUIDSize)} {l : Log} {dir : Names}
    {d : Disk Bytes} (h : Depicts C pathMatch cfg dereference v contents keys st jobUuid l)
    (hselected : ∀ r ∈ selected, CollectedBy l.world.db jobUuid r) (htree : TreeLike (liveRows selected))
    (hd : ∀ way, way ≠ [] → d.tree.node (dir ++ way) = treeOf (fun r => contents r.localPath) (liveRows selected) way) :
    Reproduces pathMatch cfg dereference v contents selected dir d := by
  refine ⟨?_, fun way node hway hnode => ?_⟩
  · rintro path stat hseen ⟨r, hr, rfl⟩ hne
    obtain ⟨hmem, hlive⟩ := mem_liveRows.mp hr
    obtain ⟨-, stat', hseen', hpicture⟩ := h.rows r (hselected r hmem) hlive
    obtain rfl := hseen.unique hseen'
    obtain ⟨node, hnode, hentry⟩ := nodeOf_eq hpicture
    exact ⟨node, hnode, by rw [hd _ hne, htree.treeOf_eq hr, hentry]⟩
  · rw [hd way hway] at hnode
    obtain ⟨r, hr, hplace⟩ := of_treeOf hnode
    obtain ⟨hmem, hlive⟩ := mem_liveRows.mp hr
    obtain ⟨-, stat, hseen, -⟩ := h.rows r (hselected r hmem) hlive
    exact ⟨r.localPath, stat, hseen, ⟨r, hr, rfl⟩, hplace⟩

end

def sidecarKeys : Str → Option (Bytes × Block keystoreUUIDSize) := targetKeys plainCodec [5] oneSidecar

theorem regular_smooth {cfg : ConfigBackup} {job : Str} {disk : OnDisk} {uuid : String} {w : World}
    (hencrypt : cfg.encrypt = true) (huuid : uuid.toList ≠ [])
    (hsum : disk.getFileMD5Sum ≠ some [])
    (hskips : skipsNone (.walk cfg job (smoothItem "/file" disk [encryptingTarget uuid])) w = true) :
    Regular sidecarKeys (plainStore .awsS3) (.walk cfg job (smoothItem "/file" disk [encryptingTarget uuid])) w where
  target := ⟨encryptingTarget uuid, rfl, rfl⟩
  keeping := by
    refine ⟨by simp [smoothItem], fun t ht => ?_⟩
    obtain rfl := List.mem_singleton.mp ht
    exact ⟨hencrypt.symm, fun _ => targetKeys_oneSidecar _⟩
  skips := hskips
  uuids := by
    intro t ht heq
    obtain rfl := List.mem_singleton.mp ht
    exact huuid (Option.some.inj heq)
  walks := by
    rintro cfg' job' it ⟨⟩
    exact ⟨show IsClean "/file".toList by decide, fun _ _ => hsum⟩
  takesOver := fun _ _ _ _ _ _ _ => .inl rfl

def keyedStore : Store := (encryptingTarget "second").store

def encryptedLog : Log := logStep plainCloud (fun _ _ => none) encryptedUpload Log.empty

theorem reaches_encryptedLog : Reaches (fun a l => Regular sidecarKeys (plainStore .awsS3) a l.world)
    (logStep plainCloud fun _ _ => none) Log.empty encryptedLog :=
  .step encryptedUpload .refl (regular_smooth rfl (by decide) (by decide) (by decide +kernel))

theorem stored_contents_encrypted :
    stored plainCloud keyedStore (encryptedLog.world.buckets "target".toList) encryptedRow = .ok (some [7]) := by
  obtain ⟨u, hlast, hstored⟩ := @stored_contents plainCloud sidecarKeys (plainStore .awsS3) (fun _ _ => none) _
    encryptedRow reaches_encryptedLog (by decide +kernel) rfl rfl keyedStore.enc
    fun _ => ⟨targetKeys_oneSidecar _, List.length_replicate⟩
  have hcontent : (lastUpload encryptedLog.uploads encryptedRow.localPath "target".toList
      encryptedRow.version).map Upload.content = some [7] := by
    decide +kernel
  rw [show lastUpload encryptedLog.uploads encryptedRow.localPath "target".toList encryptedRow.version = some u
    from hlast] at hcontent
  rw [← Option.some.inj hcontent]
  exact hstored

def summedWorld : World := summedRun "second".toList "second" encryptedWorld

theorem depictingRun_summed : ∃ t, DepictingRun plainCloud (fun _ _ => none) summedConfig false summedVolume
    (fun _ => [7]) sidecarKeys (plainStore .awsS3) "second".toList (fun _ => .found .file)
    (summedSurroundings "second") (fun _ => smoothRound) ⟨encryptedWorld, [], 0⟩ t ⟨summedWorld, []⟩
    encryptedLog.uploads := by
  have hfiles : encryptedWorld.db.files =
      [⟨"/file".toList, ⟨.file, [], 1, 1, 1, [], [], [], [], true⟩, "first".toList⟩] := by
    decide +kernel
  obtain ⟨t, hrun⟩ := @flawless_summed "second".toList "second" encryptedWorld (by decide +kernel)
    (by decide +kernel) (by decide +kernel) (by decide +kernel)
  refine ⟨t, hrun, fun turn => ⟨rfl, ?_, _, List.mem_singleton.mpr rfl, rfl, rfl, rfl⟩, ?_, ?_, ?_, ?_,
    fun _ _ => rfl, ?_⟩
  · intro t ht
    obtain rfl := List.mem_singleton.mp ht
    decide
  · intro it w hvisit
    obtain ⟨rfl, rfl⟩ := (single_summed.visits (begins_summed _ _ _)).mp hvisit
    refine ⟨regular_smooth rfl (by decide) (by decide) (by decide +kernel), fun t ht => ?_⟩
    obtain rfl := List.mem_singleton.mp ht
    rfl
  · intro k path w
    refine ⟨⟨_, rfl, rfl⟩, trivial, rfl, fun t ht heq => ?_, fun _ _ _ heq => ?_, fun _ _ _ _ heq => ?_⟩
    · obtain rfl := List.mem_singleton.mp ht
      exact absurd (Option.some.inj heq) (by decide)
    · cases heq
    · cases heq
  · intro path stat hseen
    obtain ⟨rfl, rfl⟩ := single_summed.seen hseen
    exact ⟨by decide, ⟨1, by decide⟩, fun _ _ => ⟨_, rfl, by decide⟩, fun _ => rfl⟩
  · intro path stat _ f hf _ _ _
    rw [hfiles] at hf
    obtain rfl := List.mem_singleton.mp hf
    rfl
  · -- the row has no checksum, so that a change is detected
    intro path stat hseen _ f hf _ hcontent
    obtain ⟨rfl, rfl⟩ := single_summed.seen hseen
    change f ∈ encryptedWorld.db.files at hf
    rw [hfiles] at hf
    obtain rfl := List.mem_singleton.mp hf
    cases hcontent

theorem openStore_keyed (db : Db) :
    openStore plainCodec (smoothStart true) (oneSidecar "target".toList) db = .ok keyedStore :=
  (openStore_on rfl).mpr ⟨rfl, by decide, rfl, _, targetKeys_oneSidecar _, rfl⟩

def keyedEncounter : Encounter :=
  ⟨smoothEnv, true, keyedStore, summedWorld.buckets "target".toList, fun _ => smoothConditions, fun _ => []⟩

def summedItems : List RemoteFile :=
  selectedItems (fun _ _ => none) summedWorld.db ⟨true, [], "second".toList⟩ []

end CloudBackup.Restore
