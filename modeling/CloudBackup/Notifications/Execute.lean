import CloudBackup.Config.Template

/-!
The notifications of a job: emails first, then scripts, each with a failure of its own that
stops nothing. `Execute` goes through all entries of the configuration, for whatever state
the job is in. The events that an entry asks for, its `Type`, are validated but not looked at.
-/

namespace CloudBackup.Notifications

open Config Casing

/-! ### Entries and attempts -/

/-- What `Execute` is told about the job. -/
structure Job where
  jobId : Str
  jobType : Str
  jobState : Str
  jobName : Str
  jobReport : Str := []
  jobError : Str := []
  deriving DecidableEq, Repr

structure Email where
  sender : Str
  recipients : List Str
  cc : List Str
  subject : Str
  text : Str := []
  html : Str := []
  deriving DecidableEq, Repr

structure PlainAuth where
  user : Str
  pass : Str
  host : Str
  deriving DecidableEq, Repr

structure Submission where
  email : Email
  address : Str
  auth : Option PlainAuth
  deriving DecidableEq, Repr

inductive Entry
  | email (entry : ConfigNotificationEmail)
  | script (entry : ConfigNotificationScript)
  deriving DecidableEq, Repr

/-- An entry that was delivered, with what was sent or run for it, and with the error if that failed. -/
inductive Attempt
  | email (entry : ConfigNotificationEmail) (sent : Submission) (err : Option Str)
  | script (entry : ConfigNotificationScript) (command : List Str) (err : Option Str)
  deriving DecidableEq, Repr

namespace Attempt

def entry : Attempt → Entry
  | email entry _ _ => .email entry
  | script entry _ _ => .script entry

def err : Attempt → Option Str
  | email _ _ err => err
  | script _ _ err => err

def isFailedScript : Attempt → Bool
  | email _ _ _ => false
  | script _ _ err => err.isSome

end Attempt

/-- The host and what is outside of the daemon. `prepareHtmlEmail` has no result if the report
cannot be decoded. Whether an attempt fails may depend on all attempts before it. -/
structure Env where
  tables : Tables
  windows : Bool := false
  hostname : Option Str
  prepareHtmlEmail : List Str → Str → Option Str
  send : List Attempt → Submission → Option Str
  setupTmpFile : List Attempt → Str → Option Str
  run : List Attempt → List Str → Option (Str × Str)

section

variable (env : Env)

/-! ### Emails -/

def prepareFromAddress : Str := "cloudbackup@".toList ++ env.hostname.getD "unknown".toList

def emailText (job : Job) : List Str :=
  let seeLogs := "Check backup server logs for more details".toList
  let has := job.jobType ++ " job \"".toList ++ job.jobName ++ "\" having id ".toList ++ job.jobId ++
    " has ".toList ++ job.jobState
  let hasBeen := job.jobType ++ " job \"".toList ++ job.jobName ++ "\" having id ".toList ++ job.jobId ++
    " has been ".toList ++ job.jobState
  if job.jobState = "cancelled".toList then [hasBeen, seeLogs]
  else if job.jobState = "crashed".toList then
    [has, seeLogs, ("When a job is marked as crashed it means that there is a record of the job" ++
      " starting but not record of it finishing, failing or being cancelled and the job is no longer running. " ++
      "A potential scenario for this is " ++
      "that the server got restarted, it crashed itself or the backup software encountered an issue and crashed. " ++
      "For the last scenario, check backup server logs for more details").toList]
  else [has, seeLogs]

def emailSubject (job : Job) : Str :=
  if job.jobState = "test".toList then "Notification test".toList
  else if job.jobState = "cancelled".toList then
    job.jobType ++ " job \"".toList ++ job.jobName ++ "\" has been ".toList ++ job.jobState
  else job.jobType ++ " job \"".toList ++ job.jobName ++ "\" has ".toList ++ job.jobState

def emailBody (job : Job) : Str :=
  if job.jobState = "test".toList then
    ("Receiving this email proves that the backup server's SMTP(email) settings" ++
      " are correct.\nNotification test job having id '").toList ++ job.jobId ++
      "' has completed successfully.".toList
  else if job.jobState = "failed".toList then
    if job.jobError = [] then []
    else "Job failed with error: ".toList ++ job.jobError ++ "\nCheck backup server logs for more details".toList
  else if job.jobState = "crashed".toList then []
  else ['\n'].intercalate (emailText job)

def emailHtml (job : Job) : Str :=
  if job.jobType = "backup".toList ∧ job.jobReport ≠ [] then
    (env.prepareHtmlEmail (emailText job) job.jobReport).getD []
  else []

def submission (emailEntry : ConfigNotificationEmail) (job : Job) : Submission where
  email :=
    { sender := if emailEntry.sender = [] then prepareFromAddress env else emailEntry.sender
      recipients := [emailEntry.recipient]
      cc := emailEntry.cc
      subject := emailSubject job
      text := emailBody job
      html := emailHtml env job }
  address := emailEntry.server ++ ':' :: emailEntry.port
  auth := if emailEntry.user = [] then none else some ⟨emailEntry.user, emailEntry.pass, emailEntry.server⟩

def sendEmail (before : List Attempt) (emailEntry : ConfigNotificationEmail) (job : Job) : Attempt :=
  let sent := submission env emailEntry job
  .email emailEntry sent (env.send before sent)

/-! ### Scripts -/

def isPathSeparator (c : Char) : Bool := c = '/' || (env.windows && c = '\\')

def ext (path : Str) : Str :=
  let last := path.reverse.takeWhile fun c => !isPathSeparator env c
  if last.any fun c => c = '.' then '.' :: (last.takeWhile fun c => c ≠ '.').reverse else []

def scriptCommand (path reportFile : Str) (job : Job) : List Str :=
  let arguments := [job.jobType, job.jobName, job.jobId, job.jobState, job.jobError, reportFile]
  if toLower env.tables (ext env path) = ".ps1".toList ∧ env.windows = true then
    "powershell.exe".toList :: "-File".toList :: path :: arguments
  else path :: arguments

def scriptError (path err output : Str) : Str :=
  "While executing notification script '".toList ++ path ++ "', encountered error: ".toList ++ err ++
    "\nScript output was: ".toList ++ output

/-- `runScript`, after the attempts `before`. Without a temporary file for the report the script is run
all the same. -/
def runScript (before : List Attempt) (scriptEntry : ConfigNotificationScript) (job : Job) : Attempt :=
  let reportFile := (env.setupTmpFile before job.jobReport).getD []
  let command := scriptCommand env scriptEntry.path reportFile job
  .script scriptEntry command ((env.run before command).map fun failure =>
    scriptError scriptEntry.path failure.1 failure.2)

/-! ### The loops -/

structure Tally where
  numErrors : ℕ := 0
  numNotificators : ℕ := 0
  failedScripts : ℕ := 0
  totalErrors : Str := []
  attempts : List Attempt := []
  deriving DecidableEq, Repr

/-- The end of a pass. `failed` is what an error adds to `failedScripts`. -/
def Tally.record (t : Tally) (attempt : Attempt) (failed : ℕ) : Tally :=
  match attempt.err with
  | none => { t with numNotificators := t.numNotificators + 1, attempts := t.attempts ++ [attempt] }
  | some err =>
      { numErrors := t.numErrors + 1
        numNotificators := t.numNotificators + 1
        failedScripts := t.failedScripts + failed
        totalErrors := t.totalErrors ++ err ++ "; ".toList
        attempts := t.attempts ++ [attempt] }

def emailPass (job : Job) (t : Tally) (emailEntry : ConfigNotificationEmail) : Tally :=
  t.record (sendEmail env t.attempts emailEntry job) 0

def scriptPass (job : Job) (t : Tally) (scriptEntry : ConfigNotificationScript) : Tally :=
  t.record (runScript env t.attempts scriptEntry job) 1

def passes (config : CfgTemplate) (job : Job) : Tally :=
  config.notifications.script.foldl (scriptPass env job) (config.notifications.email.foldl (emailPass env job) {})

structure Outcome where
  failedScripts : ℕ
  err : Option Str
  attempts : List Attempt
  deriving DecidableEq, Repr

def executeError (t : Tally) : Str :=
  Nat.toDigits 10 t.numNotificators ++ " notification definitions were run and ".toList ++
    Nat.toDigits 10 t.numErrors ++ " encountered errors. The errors were: ".toList ++ t.totalErrors

def execute (config : CfgTemplate) (job : Job) : Outcome :=
  let t := passes env config job
  ⟨t.failedScripts, if 0 < t.numErrors then some (executeError t) else none, t.attempts⟩

/-! ### What is delivered -/

/-- The counters agree with the attempts. -/
structure Tally.Exact (t : Tally) : Prop where
  numErrors : t.numErrors = t.attempts.countP fun a => a.err.isSome
  numNotificators : t.numNotificators = t.attempts.length
  failedScripts : t.failedScripts = t.attempts.countP Attempt.isFailedScript

theorem Tally.record_attempts (t : Tally) (attempt : Attempt) (failed : ℕ) :
    (t.record attempt failed).attempts = t.attempts ++ [attempt] := by
  rw [record]
  cases attempt.err <;> rfl

theorem Tally.Exact.record {t : Tally} (h : t.Exact) {attempt : Attempt} {failed : ℕ}
    (hfailed : (if attempt.isFailedScript = true then 1 else 0) = if attempt.err.isSome = true then failed else 0) :
    (t.record attempt failed).Exact := by
  cases herr : attempt.err with
  | none =>
      simp only [herr, Option.isSome_none, Bool.false_eq_true, if_false] at hfailed
      constructor
      · simp [Tally.record, herr, h.numErrors]
      · simp [Tally.record, herr, h.numNotificators]
      · simp [Tally.record, herr, h.failedScripts, List.countP_append, List.countP_singleton, hfailed]
  | some err =>
      simp only [herr, Option.isSome_some, if_true] at hfailed
      constructor
      · simp [Tally.record, herr, h.numErrors]
      · simp [Tally.record, herr, h.numNotificators]
      · simp [Tally.record, herr, h.failedScripts, List.countP_append, List.countP_singleton, hfailed]

variable {env}

theorem Tally.Exact.emailPass {t : Tally} (h : t.Exact) (job : Job) (e : ConfigNotificationEmail) :
    (emailPass env job t e).Exact := by
  refine h.record ?_
  rw [ite_self]
  rfl

theorem Tally.Exact.scriptPass {t : Tally} (h : t.Exact) (job : Job) (s : ConfigNotificationScript) :
    (scriptPass env job t s).Exact := h.record rfl

theorem emailPasses_attempts (job : Job) (l : List ConfigNotificationEmail) (t : Tally) :
    (l.foldl (emailPass env job) t).attempts.map Attempt.entry = t.attempts.map Attempt.entry ++ l.map Entry.email := by
  induction l generalizing t with
  | nil => simp
  | cons e l ih =>
      rw [List.foldl_cons, ih, emailPass, Tally.record_attempts]
      simp [sendEmail, Attempt.entry]

theorem scriptPasses_attempts (job : Job) (l : List ConfigNotificationScript) (t : Tally) :
    (l.foldl (scriptPass env job) t).attempts.map Attempt.entry =
      t.attempts.map Attempt.entry ++ l.map Entry.script := by
  induction l generalizing t with
  | nil => simp
  | cons s l ih =>
      rw [List.foldl_cons, ih, scriptPass, Tally.record_attempts]
      simp [runScript, Attempt.entry]

theorem exact_passes (config : CfgTemplate) (job : Job) : (passes env config job).Exact := by
  have hemails : (config.notifications.email.foldl (emailPass env job) {}).Exact :=
    List.foldlRecOn _ _ ⟨rfl, rfl, rfl⟩ fun t h e _ => h.emailPass job e
  exact List.foldlRecOn _ _ hemails fun t h s _ => h.scriptPass job s

theorem execute_entries (config : CfgTemplate) (job : Job) :
    (execute env config job).attempts.map Attempt.entry =
      config.notifications.email.map Entry.email ++ config.notifications.script.map Entry.script := by
  show (passes env config job).attempts.map Attempt.entry = _
  rw [passes, scriptPasses_attempts, emailPasses_attempts]
  rfl

/-! ### The events of an entry -/

def wants (type : List Str) (state : Str) : Bool := state = "test".toList || stringInSlice state type

theorem wants_test {type : List Str} {state : Str} (h : state = "test".toList) : wants type state = true := by
  rw [wants, decide_eq_true h, Bool.true_or]

theorem wants_of_ne {type : List Str} {state : Str} (h : state ≠ "test".toList) :
    wants type state = stringInSlice state type := by
  rw [wants, decide_eq_false h, Bool.false_or]

def wantedEntries (notifications : ConfigNotification) (state : Str) : List Entry :=
  ((notifications.email.filter fun e => wants e.type state).map Entry.email) ++
    (notifications.script.filter fun s => wants s.type state).map Entry.script

/-- Exactly the entries that ask for the state are delivered, each of them once, and the failed
scripts are counted. -/
structure Outcome.RespectsTypes (o : Outcome) (notifications : ConfigNotification) (state : Str) : Prop where
  delivered : o.attempts.map Attempt.entry = wantedEntries notifications state
  failedScripts : o.failedScripts = o.attempts.countP Attempt.isFailedScript

theorem wantedEntries_eq_all {notifications : ConfigNotification} {state : Str} :
    wantedEntries notifications state =
        notifications.email.map Entry.email ++ notifications.script.map Entry.script ↔
      (∀ e ∈ notifications.email, wants e.type state = true) ∧
        ∀ s ∈ notifications.script, wants s.type state = true := by
  rw [← List.filter_eq_self, ← List.filter_eq_self]
  constructor
  · intro h
    -- neither of the two filters drops anything, or there were fewer entries
    have hlength := congrArg List.length h
    simp only [wantedEntries, List.length_append, List.length_map] at hlength
    have hemail := List.length_filter_le (fun e => wants e.type state) notifications.email
    have hscript := List.length_filter_le (fun s => wants s.type state) notifications.script
    exact ⟨List.filter_sublist.eq_of_length (by omega), List.filter_sublist.eq_of_length (by omega)⟩
  · rintro ⟨hemail, hscript⟩
    rw [wantedEntries, hemail, hscript]

/-- The types are respected only where there is nothing to respect: every entry asks for the
state, or it is the test. -/
theorem execute_respectsTypes_iff (config : CfgTemplate) (job : Job) :
    (execute env config job).RespectsTypes config.notifications job.jobState ↔
      job.jobState = "test".toList ∨
        (∀ e ∈ config.notifications.email, stringInSlice job.jobState e.type = true) ∧
          ∀ s ∈ config.notifications.script, stringInSlice job.jobState s.type = true := by
  have hall : (execute env config job).RespectsTypes config.notifications job.jobState ↔
      wantedEntries config.notifications job.jobState =
        config.notifications.email.map Entry.email ++ config.notifications.script.map Entry.script := by
    constructor
    · intro h
      rw [← h.delivered, execute_entries]
    · intro h
      exact ⟨by rw [h, execute_entries], (exact_passes config job).failedScripts⟩
  rw [hall, wantedEntries_eq_all]
  by_cases htest : job.jobState = "test".toList
  · exact iff_of_true ⟨fun _ _ => wants_test htest, fun _ _ => wants_test htest⟩ (.inl htest)
  · simp only [wants_of_ne htest, htest, false_or]

end

def failureHook : CfgTemplate where
  dataDir := "/data".toList
  notifications := { script := [{ path := "/hook".toList }] }

def finishedJob : Job := ⟨"id".toList, "backup".toList, "finished".toList, "job".toList, [], []⟩

def quietEnv : Env := ⟨.plain, false, none, fun _ _ => none, fun _ _ => none, fun _ _ => none, fun _ _ => none⟩

theorem execute_ignoresTypes :
    ¬ (execute quietEnv failureHook finishedJob).RespectsTypes failureHook.notifications finishedJob.jobState := by
  intro h
  exact absurd h.delivered (by decide)

end CloudBackup.Notifications
