import CloudBackup.Config.Template

/-!
`Save` writes the configuration file with `os.WriteFile`, which truncates the file, writes to
it piece by piece and closes it. Only then is the configuration in memory replaced. The
process can die anywhere in between, and each of the calls can fail. From the truncation on,
until the last byte is written, the file is neither the old one nor the new one.
-/

namespace CloudBackup.Config

inductive SavePoint
  /-- The lock is taken. -/
  | start
  /-- There is something to write. -/
  | marshalled
  /-- The file is truncated, and so many bytes are written. -/
  | written (n : ℕ)
  /-- The file is closed. -/
  | complete
  /-- The configuration in memory is replaced. -/
  | saved
  /-- The handler reports an error; with how many bytes were written, if the file was
  truncated. -/
  | failed (n : Option ℕ)
  deriving DecidableEq, Repr

structure Saving where
  point : SavePoint
  file : List UInt8
  memory : CfgTemplate

section

variable (marshal : CfgTemplate → Option (List UInt8)) (newConfig : CfgTemplate)

inductive SaveStep : Saving → Saving → Prop
  | marshal {file memory} (h : (marshal newConfig).isSome) : SaveStep ⟨.start, file, memory⟩ ⟨.marshalled, file, memory⟩
  | noMarshal {file memory} (h : marshal newConfig = none) :
      SaveStep ⟨.start, file, memory⟩ ⟨.failed none, file, memory⟩
  | noOpen {file memory} : SaveStep ⟨.marshalled, file, memory⟩ ⟨.failed none, file, memory⟩
  | truncate {file memory} : SaveStep ⟨.marshalled, file, memory⟩ ⟨.written 0, [], memory⟩
  | write {n k : ℕ} {toWrite file memory} (h : marshal newConfig = some toWrite) (hk : n + k ≤ toWrite.length) :
      SaveStep ⟨.written n, file, memory⟩ ⟨.written (n + k), toWrite.take (n + k), memory⟩
  /-- The error of a write, or that of closing the file. -/
  | noWrite {n : ℕ} {file memory} : SaveStep ⟨.written n, file, memory⟩ ⟨.failed (some n), file, memory⟩
  | close {n : ℕ} {toWrite file memory} (h : marshal newConfig = some toWrite) (hn : n = toWrite.length) :
      SaveStep ⟨.written n, file, memory⟩ ⟨.complete, file, memory⟩
  | update {file memory} : SaveStep ⟨.complete, file, memory⟩ ⟨.saved, file, newConfig⟩

/-- The points at which a save can stop. -/
def Reached (oldFile : List UInt8) (oldConfig : CfgTemplate) : Saving → Prop :=
  Relation.ReflTransGen (SaveStep marshal newConfig) ⟨.start, oldFile, oldConfig⟩

def SavePoint.isFailed : SavePoint → Bool
  | .failed _ => true
  | _ => false

/-- The file is the old one or the new one, and after an error all is as it was. -/
structure Atomic (oldFile : List UInt8) (oldConfig : CfgTemplate) (s : Saving) : Prop where
  whole : s.file = oldFile ∨ marshal newConfig = some s.file
  undone : s.point.isFailed = true → s.file = oldFile ∧ s.memory = oldConfig

/-- The stop is not between the truncation and the last byte, and not an error after that.
There is the chance that what is written so far is just what the file was before. -/
def Undamaged (oldFile : List UInt8) : SavePoint → Prop
  | .written n => ∀ toWrite ∈ marshal newConfig, oldFile = toWrite.take n ∨ n = toWrite.length
  | .failed (some n) => ∀ toWrite ∈ marshal newConfig, oldFile = toWrite.take n
  | _ => True

/-- What is in the file and in memory at each point. -/
def Kept (oldFile : List UInt8) (oldConfig : CfgTemplate) (s : Saving) : Prop :=
  match s.point with
  | .start => s.file = oldFile ∧ s.memory = oldConfig
  | .marshalled => (marshal newConfig).isSome ∧ s.file = oldFile ∧ s.memory = oldConfig
  | .written n => ∃ toWrite, marshal newConfig = some toWrite ∧ n ≤ toWrite.length ∧ s.file = toWrite.take n ∧
      s.memory = oldConfig
  | .complete => marshal newConfig = some s.file
  | .saved => marshal newConfig = some s.file
  | .failed none => s.file = oldFile ∧ s.memory = oldConfig
  | .failed (some n) => ∃ toWrite, marshal newConfig = some toWrite ∧ n ≤ toWrite.length ∧
      s.file = toWrite.take n ∧ s.memory = oldConfig

end

variable {marshal : CfgTemplate → Option (List UInt8)} {newConfig oldConfig : CfgTemplate} {oldFile : List UInt8}

theorem Kept.step {s s' : Saving} (h : Kept marshal newConfig oldFile oldConfig s)
    (hstep : SaveStep marshal newConfig s s') : Kept marshal newConfig oldFile oldConfig s' := by
  cases hstep with
  | marshal hsome => exact ⟨hsome, h⟩
  | noMarshal => exact h
  | noOpen => exact h.2
  | truncate =>
      obtain ⟨toWrite, htoWrite⟩ := Option.isSome_iff_exists.mp h.1
      exact ⟨toWrite, htoWrite, Nat.zero_le _, List.take_zero.symm, h.2.2⟩
  | write htoWrite hk =>
      obtain ⟨_, _, _, _, hmemory⟩ := h
      exact ⟨_, htoWrite, hk, rfl, hmemory⟩
  | noWrite => exact h
  | close htoWrite hn =>
      obtain ⟨toWrite', htoWrite', -, hfile, -⟩ := h
      obtain rfl := Option.some.inj (htoWrite.symm.trans htoWrite')
      rw [hn, List.take_length] at hfile
      exact htoWrite.trans (congrArg some hfile.symm)
  | update => exact h

theorem Reached.kept {s : Saving} (h : Reached marshal newConfig oldFile oldConfig s) :
    Kept marshal newConfig oldFile oldConfig s := by
  induction h with
  | refl => exact ⟨rfl, rfl⟩
  | tail _ hstep ih => exact ih.step hstep

/-- A save is atomic at the points where the file is not damaged, and only there. -/
theorem atomic_iff_undamaged {s : Saving} (h : Reached marshal newConfig oldFile oldConfig s) :
    Atomic marshal newConfig oldFile oldConfig s ↔ Undamaged marshal newConfig oldFile s.point := by
  have hkept := h.kept
  obtain ⟨point, file, memory⟩ := s
  cases point with
  | start => exact ⟨fun _ => trivial, fun _ => ⟨.inl hkept.1, by simp [SavePoint.isFailed]⟩⟩
  | marshalled => exact ⟨fun _ => trivial, fun _ => ⟨.inl hkept.2.1, by simp [SavePoint.isFailed]⟩⟩
  | written n =>
      obtain ⟨toWrite, htoWrite, hn, hfile, -⟩ := hkept
      constructor
      · rintro ⟨hwhole, -⟩ b hb
        obtain rfl := Option.some.inj (htoWrite.symm.trans hb)
        rcases hwhole with hold | hnew
        · exact .inl (hold.symm.trans hfile)
        · have hlength := congrArg List.length (hfile.symm.trans (Option.some.inj (hnew.symm.trans htoWrite)))
          rw [List.length_take, Nat.min_eq_left hn] at hlength
          exact .inr hlength
      · intro hundamaged
        refine ⟨?_, by simp [SavePoint.isFailed]⟩
        rcases hundamaged toWrite htoWrite with hold | hall
        · exact .inl (hfile.trans hold.symm)
        · rw [hall, List.take_length] at hfile
          exact .inr (hfile ▸ htoWrite)
  | complete => exact ⟨fun _ => trivial, fun _ => ⟨.inr hkept, by simp [SavePoint.isFailed]⟩⟩
  | saved => exact ⟨fun _ => trivial, fun _ => ⟨.inr hkept, by simp [SavePoint.isFailed]⟩⟩
  | failed n =>
      cases n with
      | none => exact ⟨fun _ => trivial, fun _ => ⟨.inl hkept.1, fun _ => hkept⟩⟩
      | some n =>
          obtain ⟨toWrite, htoWrite, -, hfile, hmemory⟩ := hkept
          constructor
          · rintro ⟨-, hundone⟩ b hb
            obtain rfl := Option.some.inj (htoWrite.symm.trans hb)
            exact (hundone rfl).1.symm.trans hfile
          · intro hundamaged
            have hold := hfile.trans (hundamaged toWrite htoWrite).symm
            exact ⟨.inl hold, fun _ => ⟨hold, hmemory⟩⟩

def toBytes (s : List Char) : List UInt8 := s.map fun c => c.toNat.toUInt8

/-- What `yaml.Marshal` makes of a configuration that has a directory for its data, and for
the rest what it has by default. -/
def plainYaml (c : CfgTemplate) : Option (List UInt8) :=
  some <| toBytes <| "data_dir: ".toList ++ c.dataDir ++
    "\nrestore_dir: \"\"\nhtml_dir: webstatic\nuser: []\nhttp:\n  bind_address: 127.0.0.1:8080\n".toList ++
    "https:\n  enabled: false\n  bind_address: 127.0.0.1:8443\n  ssl_cert_path: \"\"\n".toList ++
    "  ssl_key_path: \"\"\nbackup: []\n".toList

def plainConfig (dataDir : List Char) : CfgTemplate := { dataDir := dataDir }

def plainFile (dataDir : List Char) : List UInt8 := (plainYaml (plainConfig dataDir)).getD []

theorem reached_saved {toWrite : List UInt8} {k : ℕ} (h : marshal newConfig = some toWrite)
    (hk : k ≤ toWrite.length) : Reached marshal newConfig oldFile oldConfig ⟨.saved, toWrite, newConfig⟩ := by
  have htruncated : Reached marshal newConfig oldFile oldConfig ⟨.written 0, [], oldConfig⟩ :=
    Relation.ReflTransGen.refl.tail (.marshal (by rw [h]; rfl)) |>.tail .truncate
  have hfirst := htruncated.tail (.write (k := k) h (by omega))
  have hsecond := hfirst.tail (.write (k := toWrite.length - k) h (by omega))
  rw [show 0 + k + (toWrite.length - k) = toWrite.length by omega, List.take_length] at hsecond
  exact (hsecond.tail (.close h rfl)).tail .update

theorem atomic_saved :
    Reached plainYaml (plainConfig "/b".toList) (plainFile "/a".toList) (plainConfig "/a".toList)
        ⟨.saved, plainFile "/b".toList, plainConfig "/b".toList⟩ ∧
      Atomic plainYaml (plainConfig "/b".toList) (plainFile "/a".toList) (plainConfig "/a".toList)
        ⟨.saved, plainFile "/b".toList, plainConfig "/b".toList⟩ :=
  have h := reached_saved (k := 10) (rfl : plainYaml (plainConfig "/b".toList) = some (plainFile "/b".toList))
    (by decide +kernel)
  ⟨h, (atomic_iff_undamaged h).mpr trivial⟩

/-- If the process dies right after the truncation, the file is empty. -/
theorem not_atomic_truncated :
    Reached plainYaml (plainConfig "/b".toList) (plainFile "/a".toList) (plainConfig "/a".toList)
        ⟨.written 0, [], plainConfig "/a".toList⟩ ∧
      ¬ Atomic plainYaml (plainConfig "/b".toList) (plainFile "/a".toList) (plainConfig "/a".toList)
        ⟨.written 0, [], plainConfig "/a".toList⟩ := by
  refine ⟨Relation.ReflTransGen.refl.tail (.marshal rfl) |>.tail .truncate, ?_⟩
  rintro ⟨hwhole, -⟩
  rcases hwhole with hold | hnew
  · exact absurd hold (by decide)
  · exact absurd hnew (by decide)

end CloudBackup.Config
