import CloudBackup.Backup.DryScan
import CloudBackup.Backup.Visits
import Mathlib.Data.List.TakeWhile

/-!
A dry run over HTTP. The goroutine of `dryRunBackupPaths` scans, and sends its reports over a
channel without a buffer; it holds the lock of the job's state while it waits there. The
handler writes a line for each report. If the client closes the connection, the handler cancels
the context again and again, and still takes what the goroutine sends until that says that it
is about to exit. Then the handler writes the numbers and closes both channels.
-/

namespace CloudBackup.Httpd.DryRun

open Database ObjectStore Backup Backup.DryScan Iteration UnixPath

/-! ### Steps -/

/-- Where `dryRunBackupPaths` is, with what it has still to do. -/
inductive Scanner
  | running (rest : List Signal)
  /-- At `ReportChan`, with the lock. -/
  | sending (report : ScanEvalItemReport) (rest : List Signal)
  /-- At `scanPathExit`. -/
  | exiting
  | done

/-- Where `handlerPostBackupDryRun` is. -/
inductive Server
  | selecting
  /-- It has received a message from `scanPathExit`. -/
  | exited
  /-- The last line is written. -/
  | closing
  | returned
  deriving DecidableEq

inductive Line
  | data (report : ScanEvalItemReport)
  /-- `Completed run`, with the numbers of examined files and directories, of excluded ones, and
  of errors. -/
  | completed (files directories excluded errors : ℕ)
  deriving DecidableEq

structure State where
  scanner : Scanner
  server : Server := .selecting
  statsCounters : ScanCounter → ℕ := fun _ => 0
  /-- The context of the request is done. -/
  gone : Bool := false
  /-- The context of the job is done. -/
  cancelled : Bool := false
  uuidFailed : Bool := false
  closed : Bool := false
  panicked : Bool := false
  lines : List Line := []

/-- `IncrementCounter`. -/
def increment (counters : ScanCounter → ℕ) (c : ScanCounter) : ScanCounter → ℕ := fun c' =>
  if c' = c then counters c' + 1 else counters c'

def lastLine (counters : ScanCounter → ℕ) : Line :=
  .completed (counters .examinedFiles) (counters .examinedDirectories) (counters .excluded)
    (counters .failedToExamine + counters .failedToEnumerate)

/-- A step of the goroutine or of the handler, or one that leaves both where they are. -/
inductive Kind
  | work
  | idle
  deriving DecidableEq

inductive Step : Kind → State → State → Prop
  | newV4 {s rest} (h : s.scanner = .running (.newV4 :: rest)) : Step .work s { s with scanner := .running rest }
  | noUuid {s rest} (h : s.scanner = .running (.newV4 :: rest)) :
      Step .work s { s with scanner := .exiting, uuidFailed := true }
  | proceed {s rest} (h : s.scanner = .running (.select :: rest)) (hctx : s.cancelled = false) :
      Step .work s { s with scanner := .running rest }
  | stop {s rest} (h : s.scanner = .running (.select :: rest)) (hctx : s.cancelled = true) :
      Step .work s { s with scanner := .exiting }
  | count {s c path rest} (h : s.scanner = .running (.incrementCounter c path :: rest)) :
      Step .work s { s with scanner := .running rest, statsCounters := increment s.statsCounters c }
  | send {s r rest} (h : s.scanner = .running (.send r :: rest)) : Step .work s { s with scanner := .sending r rest }
  | complete {s} (h : s.scanner = .running []) : Step .work s { s with scanner := .exiting }
  | receive {s r rest} (h : s.scanner = .sending r rest) (hserver : s.server = .selecting) (hopen : s.closed = false) :
      Step .work s { s with scanner := .running rest, lines := s.lines ++ [.data r] }
  | exit {s} (h : s.scanner = .exiting) (hserver : s.server = .selecting) (hopen : s.closed = false) :
      Step .work s { s with scanner := .done, server := .exited }
  /-- `GetStats` waits for the lock. -/
  | getStats {s} (hserver : s.server = .exited) (hlock : ∀ r rest, s.scanner ≠ .sending r rest) :
      Step .work s { s with server := .closing, lines := s.lines ++ [lastLine s.statsCounters] }
  | close {s} (hserver : s.server = .closing) : Step .work s { s with server := .returned, closed := true }
  | sendClosed {s r rest} (h : s.scanner = .sending r rest) (hclosed : s.closed = true) :
      Step .work s { s with panicked := true }
  | exitClosed {s} (h : s.scanner = .exiting) (hclosed : s.closed = true) : Step .work s { s with panicked := true }
  | leave {s} : Step .idle s { s with gone := true }
  | cancel {s} (hserver : s.server = .selecting) (hgone : s.gone = true) : Step .idle s { s with cancelled := true }

def State.start (signals : List Signal) : State := { scanner := .running signals }

/-- A dry run, with the kinds of its steps. The last one comes first. -/
inductive Runs (signals : List Signal) : List Kind → State → Prop
  | start : Runs signals [] (.start signals)
  | step {ks k s s'} (h : Runs signals ks s) (hstep : Step k s s') : Runs signals (k :: ks) s'

/-! ### What always holds -/

def told (signals : List Signal) : List Line := (reports signals).map .data

def tally (signals : List Signal) : ScanCounter → ℕ := fun c => counted c signals

inductive Placed (done rest : List Signal) (s : State) : Prop
  | running (hscanner : s.scanner = .running rest) (hserver : s.server = .selecting) (hopen : s.closed = false)
      (hlines : s.lines = told done)
  | sending {r left} (hscanner : s.scanner = .sending r left) (hrest : rest = .send r :: left)
      (hserver : s.server = .selecting) (hopen : s.closed = false) (hlines : s.lines = told done)
  | exiting (hscanner : s.scanner = .exiting) (hserver : s.server = .selecting) (hopen : s.closed = false)
      (hlines : s.lines = told done) (hrest : rest = [] ∨ s.cancelled = true ∨ s.uuidFailed = true)
  | exited (hscanner : s.scanner = .done) (hserver : s.server = .exited) (hopen : s.closed = false)
      (hlines : s.lines = told done) (hrest : rest = [] ∨ s.cancelled = true ∨ s.uuidFailed = true)
  | finished (hscanner : s.scanner = .done) (hserver : s.server = .closing ∨ s.server = .returned)
      (hlines : s.lines = told done ++ [lastLine (tally done)])
      (hrest : rest = [] ∨ s.cancelled = true ∨ s.uuidFailed = true)

structure Sound (signals : List Signal) (s : State) : Prop where
  placed : ∃ done rest, signals = done ++ rest ∧ s.statsCounters = tally done ∧ Placed done rest s
  gone : s.cancelled = true → s.gone = true
  calm : s.panicked = false

theorem told_concat_send (signals : List Signal) (r : ScanEvalItemReport) :
    told (signals ++ [.send r]) = told signals ++ [.data r] := by
  simp [told, reports, Signal.report?]

theorem told_concat_of_none (signals : List Signal) {x : Signal} (h : x.report? = none) :
    told (signals ++ [x]) = told signals := by
  simp [told, reports, h]

theorem tally_concat_count (signals : List Signal) (c : ScanCounter) (path : Str) :
    tally (signals ++ [.incrementCounter c path]) = increment (tally signals) c := by
  funext c'
  rw [tally, counted, List.countP_append, List.countP_singleton, increment]
  by_cases h : c' = c
  · simp [h, tally, counted]
  · simp [h, Ne.symm h, tally, counted]

theorem tally_concat_of_ne (signals : List Signal) {x : Signal} (h : ∀ c path, x ≠ .incrementCounter c path) :
    tally (signals ++ [x]) = tally signals := by
  funext c
  rw [tally, counted, List.countP_append]
  cases x with
  | incrementCounter c path => exact absurd rfl (h c path)
  | _ => rfl

section

variable {signals done rest left : List Signal} {s s' : State} {k : Kind}

theorem Placed.of_running (hp : Placed done rest s) (h : s.scanner = .running left) :
    rest = left ∧ s.server = .selecting ∧ s.closed = false ∧ s.lines = told done := by
  cases hp with
  | running hscanner hserver hopen hlines =>
      exact ⟨Scanner.running.inj (hscanner.symm.trans h), hserver, hopen, hlines⟩
  | sending hscanner | exiting hscanner | exited hscanner | finished hscanner => cases hscanner.symm.trans h

theorem Placed.of_sending (hp : Placed done rest s) {r : ScanEvalItemReport} (h : s.scanner = .sending r left) :
    rest = .send r :: left ∧ s.server = .selecting ∧ s.closed = false ∧ s.lines = told done := by
  cases hp with
  | sending hscanner hrest hserver hopen hlines =>
      obtain ⟨rfl, rfl⟩ := Scanner.sending.inj (hscanner.symm.trans h)
      exact ⟨hrest, hserver, hopen, hlines⟩
  | running hscanner | exiting hscanner | exited hscanner | finished hscanner => cases hscanner.symm.trans h

theorem Placed.of_exiting (hp : Placed done rest s) (h : s.scanner = .exiting) :
    s.server = .selecting ∧ s.closed = false ∧ s.lines = told done ∧
      (rest = [] ∨ s.cancelled = true ∨ s.uuidFailed = true) := by
  cases hp with
  | exiting _ hserver hopen hlines hrest => exact ⟨hserver, hopen, hlines, hrest⟩
  | running hscanner | sending hscanner | exited hscanner | finished hscanner => cases hscanner.symm.trans h

theorem Placed.of_exited (hp : Placed done rest s) (h : s.server = .exited) :
    s.scanner = .done ∧ s.closed = false ∧ s.lines = told done ∧
      (rest = [] ∨ s.cancelled = true ∨ s.uuidFailed = true) := by
  cases hp with
  | exited hscanner _ hopen hlines hrest => exact ⟨hscanner, hopen, hlines, hrest⟩
  | running _ hserver | sending _ _ hserver | exiting _ hserver => cases hserver.symm.trans h
  | finished _ hserver => rcases hserver with hserver | hserver <;> cases hserver.symm.trans h

theorem Placed.of_closing (hp : Placed done rest s) (h : s.server = .closing) :
    s.scanner = .done ∧ s.lines = told done ++ [lastLine (tally done)] ∧
      (rest = [] ∨ s.cancelled = true ∨ s.uuidFailed = true) := by
  cases hp with
  | finished hscanner _ hlines hrest => exact ⟨hscanner, hlines, hrest⟩
  | running _ hserver | sending _ _ hserver | exiting _ hserver | exited _ hserver => cases hserver.symm.trans h

/-- To be cancelled or not makes no difference to where the goroutine is. -/
theorem Placed.leave (hp : Placed done rest s) : Placed done rest { s with gone := true } := by
  cases hp with
  | running hscanner hserver hopen hlines => exact .running hscanner hserver hopen hlines
  | sending hscanner hrest hserver hopen hlines => exact .sending hscanner hrest hserver hopen hlines
  | exiting hscanner hserver hopen hlines hrest => exact .exiting hscanner hserver hopen hlines hrest
  | exited hscanner hserver hopen hlines hrest => exact .exited hscanner hserver hopen hlines hrest
  | finished hscanner hserver hlines hrest => exact .finished hscanner hserver hlines hrest

theorem Placed.cancel (hp : Placed done rest s) : Placed done rest { s with cancelled := true } := by
  cases hp with
  | running hscanner hserver hopen hlines => exact .running hscanner hserver hopen hlines
  | sending hscanner hrest hserver hopen hlines => exact .sending hscanner hrest hserver hopen hlines
  | exiting hscanner hserver hopen hlines hrest => exact .exiting hscanner hserver hopen hlines (.inr (.inl rfl))
  | exited hscanner hserver hopen hlines hrest => exact .exited hscanner hserver hopen hlines (.inr (.inl rfl))
  | finished hscanner hserver hlines hrest => exact .finished hscanner hserver hlines (.inr (.inl rfl))

/-- The goroutine has done one more thing, and sent nothing. -/
theorem Placed.pass (hp : Placed done rest s) {x : Signal} (h : s.scanner = .running (x :: left))
    (hreport : x.report? = none) (counters : ScanCounter → ℕ) : rest = x :: left ∧
      Placed (done ++ [x]) left { s with scanner := .running left, statsCounters := counters } := by
  obtain ⟨hrest, hserver, hopen, hlines⟩ := hp.of_running h
  exact ⟨hrest, .running rfl hserver hopen (by rw [told_concat_of_none done hreport]; exact hlines)⟩

theorem Sound.step (h : Sound signals s) (hstep : Step k s s') : Sound signals s' := by
  obtain ⟨⟨done, rest, rfl, hcounters, hp⟩, hgone, hcalm⟩ := h
  cases hstep with
  | @newV4 s left h | @proceed s left h =>
      obtain ⟨rfl, hp'⟩ := hp.pass h rfl s.statsCounters
      exact ⟨⟨_, _, List.append_cons _ _ _, hcounters.trans (tally_concat_of_ne done (by simp)).symm, hp'⟩,
        hgone, hcalm⟩
  | @count s c path left h =>
      obtain ⟨rfl, hp'⟩ := hp.pass h rfl (increment s.statsCounters c)
      refine ⟨⟨_, _, List.append_cons _ _ _, ?_, hp'⟩, hgone, hcalm⟩
      rw [tally_concat_count, hcounters]
  | noUuid h =>
      obtain ⟨rfl, hserver, hopen, hlines⟩ := hp.of_running h
      exact ⟨⟨done, _, rfl, hcounters, .exiting rfl hserver hopen hlines (.inr (.inr rfl))⟩, hgone, hcalm⟩
  | stop h hctx =>
      obtain ⟨rfl, hserver, hopen, hlines⟩ := hp.of_running h
      exact ⟨⟨done, _, rfl, hcounters, .exiting rfl hserver hopen hlines (.inr (.inl hctx))⟩, hgone, hcalm⟩
  | send h =>
      obtain ⟨rfl, hserver, hopen, hlines⟩ := hp.of_running h
      exact ⟨⟨done, _, rfl, hcounters, .sending rfl rfl hserver hopen hlines⟩, hgone, hcalm⟩
  | complete h =>
      obtain ⟨rfl, hserver, hopen, hlines⟩ := hp.of_running h
      exact ⟨⟨done, _, rfl, hcounters, .exiting rfl hserver hopen hlines (.inl rfl)⟩, hgone, hcalm⟩
  | @receive s r left h =>
      obtain ⟨rfl, hserver, hopen, hlines⟩ := hp.of_sending h
      refine ⟨⟨_, _, List.append_cons _ _ _, hcounters.trans (tally_concat_of_ne done (by simp)).symm, ?_⟩,
        hgone, hcalm⟩
      exact .running rfl hserver hopen (by rw [told_concat_send, hlines])
  | exit h =>
      obtain ⟨-, hopen, hlines, hrest⟩ := hp.of_exiting h
      exact ⟨⟨done, rest, rfl, hcounters, .exited rfl rfl hopen hlines hrest⟩, hgone, hcalm⟩
  | getStats hserver =>
      obtain ⟨hscanner, hopen, hlines, hrest⟩ := hp.of_exited hserver
      refine ⟨⟨done, rest, rfl, hcounters, .finished hscanner (.inl rfl) ?_ hrest⟩, hgone, hcalm⟩
      rw [hlines, hcounters]
  | close hserver =>
      obtain ⟨hscanner, hlines, hrest⟩ := hp.of_closing hserver
      exact ⟨⟨done, rest, rfl, hcounters, .finished hscanner (.inr rfl) hlines hrest⟩, hgone, hcalm⟩
  | sendClosed h hclosed =>
      obtain ⟨-, -, hopen, -⟩ := hp.of_sending h
      exact absurd (hclosed.symm.trans hopen) (by decide)
  | exitClosed h hclosed =>
      obtain ⟨-, hopen, -⟩ := hp.of_exiting h
      exact absurd (hclosed.symm.trans hopen) (by decide)
  | leave => exact ⟨⟨done, rest, rfl, hcounters, hp.leave⟩, fun _ => rfl, hcalm⟩
  | cancel _ hg => exact ⟨⟨done, rest, rfl, hcounters, hp.cancel⟩, fun _ => hg, hcalm⟩

theorem Runs.sound {ks : List Kind} (h : Runs signals ks s) : Sound signals s := by
  induction h with
  | start => exact ⟨⟨[], signals, rfl, rfl, .running rfl rfl rfl rfl⟩, nofun, rfl⟩
  | step _ hstep ih => exact ih.step hstep

/-! ### The end -/

def Scanner.remaining : Scanner → ℕ
  | .running rest => 2 * rest.length + 2
  | .sending _ rest => 2 * rest.length + 3
  | .exiting => 1
  | .done => 0

def Server.remaining : Server → ℕ
  | .selecting => 3
  | .exited => 2
  | .closing => 1
  | .returned => 0

def State.remaining (s : State) : ℕ := s.scanner.remaining + s.server.remaining

theorem Sound.remaining_step (h : Sound signals s) (hstep : Step k s s') :
    s'.remaining + [k].count .work ≤ s.remaining := by
  obtain ⟨⟨done, rest, -, -, hp⟩, -, -⟩ := h
  cases hstep with
  | newV4 h | noUuid h | proceed h | stop h | count h | send h | complete h | receive h =>
      simp only [State.remaining, Scanner.remaining, h, List.length_cons, List.count_singleton_self]
      omega
  | exit h hserver =>
      simp only [State.remaining, Scanner.remaining, Server.remaining, h, hserver, List.count_singleton_self]
      omega
  | getStats hserver | close hserver =>
      simp only [State.remaining, Server.remaining, hserver, List.count_singleton_self]
      omega
  | sendClosed h hclosed =>
      obtain ⟨-, -, hopen, -⟩ := hp.of_sending h
      exact absurd (hclosed.symm.trans hopen) (by decide)
  | exitClosed h hclosed =>
      obtain ⟨-, hopen, -⟩ := hp.of_exiting h
      exact absurd (hclosed.symm.trans hopen) (by decide)
  | leave | cancel => exact le_rfl

/-- Both have come to their end, or one of them can go on. -/
theorem Sound.progress (h : Sound signals s) :
    (s.scanner = .done ∧ s.server = .returned) ∨ ∃ s', Step .work s s' := by
  obtain ⟨⟨done, rest, -, -, hp⟩, -, -⟩ := h
  cases hp with
  | running hscanner =>
      refine .inr ?_
      cases rest with
      | nil => exact ⟨_, .complete hscanner⟩
      | cons x left =>
          cases x with
          | newV4 => exact ⟨_, .newV4 hscanner⟩
          | select =>
              cases hctx : s.cancelled with
              | false => exact ⟨_, .proceed hscanner hctx⟩
              | true => exact ⟨_, .stop hscanner hctx⟩
          | incrementCounter => exact ⟨_, .count hscanner⟩
          | send => exact ⟨_, .send hscanner⟩
  | sending hscanner _ hserver hopen => exact .inr ⟨_, .receive hscanner hserver hopen⟩
  | exiting hscanner hserver hopen => exact .inr ⟨_, .exit hscanner hserver hopen⟩
  | exited hscanner hserver => exact .inr ⟨_, .getStats hserver (by simp [hscanner])⟩
  | finished hscanner hserver =>
      rcases hserver with hserver | hserver
      · exact .inr ⟨_, .close hserver⟩
      · exact .inl ⟨hscanner, hserver⟩

theorem Runs.remaining {ks : List Kind} (h : Runs signals ks s) :
    s.remaining + ks.count .work ≤ 2 * signals.length + 5 := by
  induction h with
  | start => exact le_rfl
  | step hruns hstep ih =>
      have hleft := hruns.sound.remaining_step hstep
      rw [List.count_cons]
      rw [List.count_singleton] at hleft
      omega

/-- Neither side ever waits for the other for good, whenever the client leaves: nothing is sent
on a closed channel, the work is bounded, and as long as not both have come to their end there
is some that can be done. -/
theorem dryRun_finishes {ks : List Kind} (h : Runs signals ks s) : s.panicked = false ∧
    ks.count .work ≤ 2 * signals.length + 5 ∧
      ((s.scanner = .done ∧ s.server = .returned) ∨ ∃ s', Step .work s s') :=
  ⟨h.sound.calm, by have hleft := h.remaining; omega, h.sound.progress⟩

/-- What the client has been told when the handler has returned. -/
theorem lines_of_returned {ks : List Kind} (h : Runs signals ks s) (hreturned : s.server = .returned) :
    ∃ done rest, signals = done ++ rest ∧ s.lines = told done ++ [lastLine (tally done)] ∧
      (s.gone = false → s.uuidFailed = false → rest = []) := by
  obtain ⟨⟨done, rest, hsplit, -, hp⟩, hgone, -⟩ := h.sound
  cases hp with
  | finished _ _ hlines hrest =>
      refine ⟨done, rest, hsplit, hlines, fun hstay huuid => ?_⟩
      rcases hrest with hrest | hcancelled | hfailed
      · exact hrest
      · exact absurd ((hgone hcancelled).symm.trans hstay) (by decide)
      · exact absurd (hfailed.symm.trans huuid) (by decide)
  | running _ hserver | sending _ _ hserver | exiting _ hserver | exited _ hserver =>
      cases hserver.symm.trans hreturned

end

/-! ### What the client is told -/

section

variable {pathMatch : Str → Str → Option Bool} {cfg : ConfigBackup} {dereference : Bool} {v : Volume}
  {texts : ErrorTexts}

/-- The client has stayed until the handler has returned, and every UUID was made. -/
structure Complete (pathMatch : Str → Str → Option Bool) (cfg : ConfigBackup) (dereference : Bool) (v : Volume)
    (texts : ErrorTexts) (s : State) : Prop where
  runs : ∃ ks, Runs (dryRunBackupPaths pathMatch cfg dereference v texts cfg.paths) ks s
  returned : s.server = .returned
  stays : s.gone = false
  uuids : s.uuidFailed = false

theorem Complete.lines {s : State} (h : Complete pathMatch cfg dereference v texts s) :
    s.lines = told (dryRunBackupPaths pathMatch cfg dereference v texts cfg.paths) ++
      [lastLine (tally (dryRunBackupPaths pathMatch cfg dereference v texts cfg.paths))] := by
  obtain ⟨⟨ks, hruns⟩, hreturned, hstays, huuids⟩ := h
  obtain ⟨done, rest, hsplit, hlines, hrest⟩ := lines_of_returned hruns hreturned
  rw [hsplit, hrest hstays huuids, List.append_nil]
  exact hlines

/-- The numbers in the last line of a dry run that is complete are those of the files and the
directories that a scan hands to `Do`, of the reports of something excluded and of those of an
error; one more error has no report if there is a path that cannot be examined. Each directory
is reported once for itself and once for each directory in it that is entered. -/
theorem dryRun_numbers (hlegible : Legible pathMatch cfg texts) (hpaths : ∀ path ∈ cfg.paths, path ≠ []) {s : State}
    (h : Complete pathMatch cfg dereference v texts s) : ∃ (rs : List ScanEvalItemReport) (excluded errors : ℕ),
      s.lines = rs.map .data ++
        [.completed (handedAs (· = .file) (met pathMatch cfg dereference v cfg.paths)).length
          (handedAs (· = .dir) (met pathMatch cfg dereference v cfg.paths)).length excluded errors] ∧
      excluded = rs.countP (·.excluded) ∧
      errors = rs.countP (·.error ≠ []) + endsEarly v dereference cfg.paths ∧
      rs.countP (·.type = .directory) + topDirectories v dereference cfg.paths =
        2 * (handedAs (· = .dir) (met pathMatch cfg dereference v cfg.paths)).length := by
  have htallied : Tallied (-topDirectories v dereference cfg.paths) (endsEarly v dereference cfg.paths)
      (dryRunBackupPaths pathMatch cfg dereference v texts cfg.paths) :=
    tallied_dryRunBackupPaths hlegible hpaths
  refine ⟨reports (dryRunBackupPaths pathMatch cfg dereference v texts cfg.paths), _, _, ?_, rfl, rfl, ?_⟩
  · rw [h.lines, lastLine]
    simp only [tally, told, counted_examinedFiles hpaths, counted_examinedDirectories hpaths]
    rw [htallied.excluded, htallied.errors]
  · have hdirectories := htallied.directories
    rw [counted_examinedDirectories hpaths] at hdirectories
    omega

theorem Complete.mem_lines {s : State} (h : Complete pathMatch cfg dereference v texts s) {r : ScanEvalItemReport} :
    .data r ∈ s.lines ↔ r ∈ reports (dryRunBackupPaths pathMatch cfg dereference v texts cfg.paths) := by
  rw [h.lines, told, lastLine]
  simp

/-- If a scan goes through, then all the paths can be examined. -/
theorem mem_met_of_scan (hclean : ∀ path ∈ cfg.paths, clean path = path) {C : Cloud} {jobUuid : Str}
    {env : Surroundings} {r r' : Scanning}
    (hscan : forEach (scanRoot C pathMatch cfg dereference v jobUuid env) cfg.paths r = .next r') {path : Str}
    {stat : OnDisk} : ⟨path, some stat⟩ ∈ met pathMatch cfg dereference v cfg.paths ↔
      Seen pathMatch cfg dereference v path stat := by
  have hexaminable : examinable v dereference cfg.paths = cfg.paths := by
    rw [examinable, List.takeWhile_eq_self_iff]
    intro root hroot
    obtain ⟨t, t', -, hnext⟩ := comesTo_of_next hscan hroot
    rcases @scanRoot_cases C pathMatch cfg dereference v jobUuid env root t with ⟨halt, hstop⟩ | ⟨t'', hbegins⟩
    · rw [hstop] at hnext
      cases hnext
    · obtain ⟨-, -, stat, hexamined, -⟩ := hbegins
      rw [hclean root hroot] at hexamined
      rw [hexamined, Option.isSome_some]
  rw [met, hexaminable, List.mem_flatMap]
  refine exists_congr fun root => and_congr_right fun hroot => ?_
  rw [sightsFrom, hclean root hroot]

/-- A dry run that is complete names what a backup of the same disk is about: a scan that goes
through calls `Do` for exactly the paths in the reports of a file or a directory, and finds the
same there. -/
theorem dryRun_agrees (hclean : ∀ path ∈ cfg.paths, clean path = path) {s : State}
    (h : Complete pathMatch cfg dereference v texts s) {C : Cloud} {jobUuid : Str} {env : Surroundings}
    {r r' : Scanning} (hscan : forEach (scanRoot C pathMatch cfg dereference v jobUuid env) cfg.paths r = .next r')
    (path : Str) :
    ((∃ x, .data x ∈ s.lines ∧ x.type = .file ∧ x.name = path) ↔
      ∃ it w, Visits pathMatch cfg dereference v C jobUuid env r it w ∧ it.path = path ∧ it.disk.fileType ≠ .dir) ∧
    ((∃ x, .data x ∈ s.lines ∧ x.type = .directory ∧ x.name = path) ↔
      ∃ it w, Visits pathMatch cfg dereference v C jobUuid env r it w ∧ it.path = path ∧ it.disk.fileType = .dir) := by
  have hpaths : ∀ path ∈ cfg.paths, path ≠ [] := fun path hpath => hclean path hpath ▸ clean_ne_nil path
  have hvisits : ∀ p : FileType → Bool, path ∈ handedAs p (met pathMatch cfg dereference v cfg.paths) ↔
      ∃ it w, Visits pathMatch cfg dereference v C jobUuid env r it w ∧ it.path = path ∧
        p it.disk.fileType = true := by
    intro p
    rw [mem_handedAs]
    constructor
    · rintro ⟨stat, hp, hmem⟩
      obtain ⟨it, w, hvisit, hpath, rfl, -⟩ := visits_of_seen hscan ((mem_met_of_scan hclean hscan).mp hmem)
      exact ⟨it, w, hvisit, hpath, hp⟩
    · rintro ⟨it, w, hvisit, rfl, hp⟩
      exact ⟨it.disk, hp, (mem_met_of_scan hclean hscan).mpr hvisit.seen⟩
  simp only [h.mem_lines]
  constructor
  · rw [← mem_namesReported, namesReported_file hpaths, hvisits]
    simp
  · rw [← mem_namesReported, mem_namesReported_directory hpaths, hvisits]
    simp

end

/-! ### A dry run that nobody disturbs -/

section

variable {signals rest : List Signal} {s : State} {ks : List Kind}

/-- Nobody has left, and the goroutine is between two of its signals. -/
structure Undisturbed (rest : List Signal) (s : State) : Prop where
  scanner : s.scanner = .running rest
  server : s.server = .selecting
  gone : s.gone = false
  cancelled : s.cancelled = false
  uuids : s.uuidFailed = false
  isOpen : s.closed = false

theorem Runs.undisturbed (h : Runs signals ks s) (hs : Undisturbed rest s) : ∃ ks' s', Runs signals ks' s' ∧
    s'.server = .returned ∧ s'.gone = false ∧ s'.uuidFailed = false := by
  induction rest generalizing ks s with
  | nil =>
      obtain ⟨hscanner, hserver, hgone, -, huuids, hopen⟩ := hs
      have hexit := (h.step (.complete hscanner)).step (.exit rfl hserver hopen)
      have hstats := hexit.step (.getStats rfl (by simp))
      exact ⟨_, _, hstats.step (.close rfl), rfl, hgone, huuids⟩
  | cons x rest ih =>
      obtain ⟨hscanner, hserver, hgone, hcancelled, huuids, hopen⟩ := hs
      cases x with
      | newV4 => exact ih (h.step (.newV4 hscanner)) ⟨rfl, hserver, hgone, hcancelled, huuids, hopen⟩
      | select => exact ih (h.step (.proceed hscanner hcancelled)) ⟨rfl, hserver, hgone, hcancelled, huuids, hopen⟩
      | incrementCounter => exact ih (h.step (.count hscanner)) ⟨rfl, hserver, hgone, hcancelled, huuids, hopen⟩
      | send =>
          have hreceived := (h.step (.send hscanner)).step (.receive rfl hserver hopen)
          exact ih hreceived ⟨rfl, hserver, hgone, hcancelled, huuids, hopen⟩

theorem exists_complete (pathMatch : Str → Str → Option Bool) (cfg : ConfigBackup) (dereference : Bool) (v : Volume)
    (texts : ErrorTexts) : ∃ s, Complete pathMatch cfg dereference v texts s := by
  obtain ⟨ks, s, hruns, hreturned, hgone, huuids⟩ := Runs.undisturbed
    (@Runs.start (dryRunBackupPaths pathMatch cfg dereference v texts cfg.paths)) ⟨rfl, rfl, rfl, rfl, rfl, rfl⟩
  exact ⟨s, ⟨ks, hruns⟩, hreturned, hgone, huuids⟩

end

def sampleStat (path : Str) : Option OnDisk :=
  if path = "/d".toList ∨ path = "/d/s".toList then some { smallFile 1 1 with fileType := .dir }
  else if path = "/d/a".toList ∨ path = "/d/b".toList then some (smallFile 1 1)
  else none

theorem sampleStat_tooLong {path : Str} (h : 5 ≤ path.length) : sampleStat path = none := by
  have hne : ∀ p : Str, p.length < 5 → path ≠ p := fun p hp heq => absurd h (by rw [heq]; omega)
  rw [sampleStat, if_neg (not_or.mpr ⟨hne _ (by decide), hne _ (by decide)⟩),
    if_neg (not_or.mpr ⟨hne _ (by decide), hne _ (by decide)⟩)]

def sampleVolume : Volume where
  stat := sampleStat
  lstat := sampleStat
  readDirNames path := if path = "/d".toList then some ["a".toList, "b".toList, "s".toList] else none
  pathMax := 5
  isName := by
    intro dir names h
    rw [Option.ite_none_right_eq_some] at h
    obtain rfl := Option.some.inj h.2
    decide
  nodup := by
    intro dir names h
    rw [Option.ite_none_right_eq_some] at h
    obtain rfl := Option.some.inj h.2
    decide
  tooLong _ h := ⟨sampleStat_tooLong h, sampleStat_tooLong h⟩

def sampleConfig : ConfigBackup := { plainConfig with paths := ["/d".toList], exclusions := ["/d/b".toList] }

def sampleTexts : ErrorTexts := ⟨fun _ => "examine".toList, fun _ => "enumerate".toList, fun _ => "pattern".toList⟩

def sampleMatch (expr path : Str) : Option Bool := some (expr = path)

theorem dryRun_numbers_sample : ∃ s, Complete sampleMatch sampleConfig false sampleVolume sampleTexts s ∧
    ∃ (rs : List ScanEvalItemReport) (excluded errors : ℕ), s.lines = rs.map .data ++ [.completed 1 2 excluded errors] ∧
      excluded = rs.countP (·.excluded) ∧ errors = rs.countP (·.error ≠ []) + 0 ∧
      rs.countP (·.type = .directory) + 1 = 2 * 2 := by
  obtain ⟨s, hs⟩ := exists_complete sampleMatch sampleConfig false sampleVolume sampleTexts
  have hlegible : Legible sampleMatch sampleConfig sampleTexts := by
    have hexamine : "examine".toList ≠ [] := by decide
    have henumerate : "enumerate".toList ≠ [] := by decide
    have hpattern : "pattern".toList ≠ [] := by decide
    have hexpr : ∀ expr ∈ sampleConfig.exclusions, expr ≠ [] := by decide
    exact ⟨fun _ => hexamine, fun _ => henumerate, fun _ => hpattern, fun expr hmem _ _ => hexpr expr hmem⟩
  refine ⟨s, hs, ?_⟩
  have hfiles : (handedAs (· = .file)
      (met sampleMatch sampleConfig false sampleVolume sampleConfig.paths)).length = 1 := by
    decide
  have hdirs : (handedAs (· = .dir)
      (met sampleMatch sampleConfig false sampleVolume sampleConfig.paths)).length = 2 := by
    decide
  have hall := dryRun_numbers hlegible (by decide) hs
  rwa [hfiles, hdirs] at hall

def sampleSurroundings : Surroundings :=
  ⟨fun _ _ => false, fun _ => true, fun _ => smoothItem "" (smallFile 1 1) []⟩

theorem dryRun_agrees_sample : ∃ s, Complete sampleMatch sampleConfig false sampleVolume sampleTexts s ∧
    ((∃ x, .data x ∈ s.lines ∧ x.type = .file ∧ x.name = "/d/a".toList) ↔
      ∃ it w, Visits sampleMatch sampleConfig false sampleVolume plainCloud "job".toList sampleSurroundings
        ⟨World.empty, [], 0⟩ it w ∧ it.path = "/d/a".toList ∧ it.disk.fileType ≠ .dir) := by
  obtain ⟨s, hs⟩ := exists_complete sampleMatch sampleConfig false sampleVolume sampleTexts
  have hscan : ∃ r', forEach (scanRoot plainCloud sampleMatch sampleConfig false sampleVolume "job".toList
      sampleSurroundings) sampleConfig.paths ⟨World.empty, [], 0⟩ = .next r' :=
    ⟨_, rfl⟩
  obtain ⟨r', hscan⟩ := hscan
  exact ⟨s, hs, (dryRun_agrees (by decide) hs hscan "/d/a".toList).1⟩

def leftState : State :=
  { State.start [] with
    scanner := .sending ⟨"/d".toList, .directory, false, [], []⟩ [.select]
    gone := true
    cancelled := true }

theorem dryRun_finishes_left : leftState.panicked = false ∧
    [Kind.idle, .idle, .work].count .work ≤
      2 * [Signal.send ⟨"/d".toList, .directory, false, [], []⟩, .select].length + 5 ∧
      ((leftState.scanner = .done ∧ leftState.server = .returned) ∨ ∃ s', Step .work leftState s') :=
  dryRun_finishes (((Runs.start.step (.send rfl)).step .leave).step (.cancel rfl rfl))

end CloudBackup.Httpd.DryRun
