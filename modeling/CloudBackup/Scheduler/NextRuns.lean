import CloudBackup.Scheduler.Commands
import CloudBackup.Scheduler.Reload

/-!
`nextRunByName`, the next run of each backup as the cron manager has it in its cache. The times
themselves are in the entries of cron, which moves them on whenever it fires. So the cache has to
be filled again after each firing that moves the soonest time of a backup. But `fireBackup` does
so only if the backup was started.

A refresh reads the entries and stores its result later. The manager and the firings do this
side by side, and nothing keeps a result from being stored over a newer one.
-/

namespace CloudBackup.Scheduler.NextRuns

open Config

/-! ### The entries -/

/-- `cron.Entry`. It was registered with the expression `schedule`, and its job is `fireBackup`
for `jobName`. The zero time stands for no next time. -/
structure Entry where
  id : ℕ
  schedule : Str
  jobName : Str
  next : ℤ
  deriving DecidableEq, Repr

section

-- `Schedule.Next` of an expression
variable (scheduleNext : Str → ℤ → ℤ)

def Entry.advance (now : ℤ) (e : Entry) : Entry := { e with next := scheduleNext e.schedule now }

def Entry.isDue (now : ℤ) (e : Entry) : Bool := e.next ≠ 0 && e.next ≤ now

/-- When the timer of cron goes off, all entries that are due fire and move on. The entries are
sorted by time before, which is left out. -/
def wakeEntries (now : ℤ) (entries : List Entry) : List Entry :=
  entries.map fun e => if e.isDue now then e.advance scheduleNext now else e

def firedNames (now : ℤ) (entries : List Entry) : List Str := (entries.filter (Entry.isDue now)).map Entry.jobName

end

/-- `AddFunc` to a cron with `count` entries, which was not started. -/
def newEntry (count : ℕ) (e : CronEntry) : Entry := ⟨count + 1, e.expr, e.jobName, 0⟩

/-- The least next time over the entries of a backup, and the zero time if there is none. -/
def soonest (entries : List Entry) (name : Str) : ℤ :=
  ((entries.filter (·.jobName = name)).map Entry.next).min?.getD 0

/-! ### A firing -/

inductive Delivery
  | delivered
  | cancelled
  | timedOut
  deriving DecidableEq, Repr

inductive Answer
  | received (resp : ResponseBackupCommand)
  | cancelled
  | timedOut
  deriving DecidableEq, Repr

/-- What a firing meets: if the context is cancelled at its begin, the id it gets, and what becomes
of its command. -/
structure Circumstances where
  cancelled : Bool
  cmdId : Option Str
  delivery : Delivery
  answer : Answer
  deriving DecidableEq, Repr

inductive Exit
  | cancelled
  | noId
  | notDelivered
  | refused (message : Str)
  | started (backupJobId : Str)
  | noResponse
  deriving DecidableEq, Repr

def fireBackup (c : Circumstances) : Exit :=
  if c.cancelled then .cancelled
  else
    match c.cmdId with
    | none => .noId
    | some _ =>
        match c.delivery with
        | .cancelled => .cancelled
        | .timedOut => .notDelivered
        | .delivered =>
            match c.answer with
            | .received resp => if resp.err then .refused resp.message else .started resp.backupJobId
            | .cancelled => .cancelled
            | .timedOut => .noResponse

def Exit.refreshes : Exit → Bool
  | .started _ => true
  | _ => false

/-! ### refreshNextRuns -/

def refreshPass (jobNameByEntry : ℕ → Option Str) (updated : Str → Option ℤ) (e : Entry) : Str → Option ℤ :=
  match jobNameByEntry e.id with
  | none => updated
  | some name =>
      match updated name with
      | none => Function.update updated name (some e.next)
      | some existing => if e.next < existing then Function.update updated name (some e.next) else updated

/-- A refresh that has read the entries: those it has still to look at, and `updated`. -/
structure Refresh where
  ofManager : Bool
  rest : List Entry
  updated : Str → Option ℤ

/-- What a refresh comes to if the names stay as they are. -/
def Refresh.result (jobNameByEntry : ℕ → Option Str) (r : Refresh) : Str → Option ℤ :=
  r.rest.foldl (refreshPass jobNameByEntry) r.updated

/-! ### The cron manager -/

inductive Manager
  /-- `Stop` has been called, or there was no cron to stop. The firings may still go on. -/
  | stopped
  /-- There is a new cron, with the names of the old one. -/
  | renewed
  | registering (rest : List CronEntry)
  /-- An entry was added and is still to get its name. -/
  | naming (id : ℕ) (jobName : Str) (rest : List CronEntry)
  | started
  | refreshing
  /-- It waits for the next notification. -/
  | idle
  | exited
  deriving DecidableEq

def Manager.rebuilding : Manager → Bool
  | .refreshing | .idle | .exited => false
  | _ => true

/-- The manager and its cron. `firing` has the names of the firings that wait for what becomes
of them, `refreshing` the refreshes in the order in which they have read the entries, and
`lastRead` is what the last of them has read. -/
structure State where
  entries : List Entry
  running : Bool
  jobNameByEntry : ℕ → Option Str
  nextRunByName : Str → Option ℤ
  manager : Manager
  firing : List Str
  refreshing : List Refresh
  lastRead : List Entry

def State.start : State := ⟨[], false, fun _ => none, fun _ => none, .stopped, [], [], []⟩

def State.nextRunFor (s : State) (name : Str) : ℤ := (s.nextRunByName name).getD 0

/-- `m.c.Entries()`. -/
def State.read (s : State) (ofManager : Bool) : State :=
  { s with refreshing := s.refreshing ++ [⟨ofManager, s.entries, fun _ => none⟩], lastRead := s.entries }

inductive Act
  | reload
  | renew
  | clear
  | addFunc
  | nameEntry
  | start
  | refresh
  | wake
  /-- A firing returns without a refresh. -/
  | leave (c : Circumstances)
  | begin (c : Circumstances)
  | look
  /-- A refresh stores its result, and so many have read the entries before it and have not. -/
  | store (earlier : ℕ)
  | exit

section

variable (parseSchedule : Str → Bool) (scheduleNext : Str → ℤ → ℤ)

inductive Step : State → Act → State → Prop
  | reload {s} (h : s.manager = .idle) : Step s .reload { s with running := false, manager := .stopped }
  | renew {s} (h : s.manager = .stopped) : Step s .renew { s with entries := [], manager := .renewed }
  | clear {s} (cfgCopy : CfgTemplate) (h : s.manager = .renewed) :
      Step s .clear
        { s with jobNameByEntry := fun _ => none, manager := .registering (rebuild parseSchedule cfgCopy) }
  | addFunc {s e rest} (h : s.manager = .registering (e :: rest)) :
      Step s .addFunc
        { s with entries := s.entries ++ [newEntry s.entries.length e],
                 manager := .naming (s.entries.length + 1) e.jobName rest }
  | nameEntry {s id jobName rest} (h : s.manager = .naming id jobName rest) :
      Step s .nameEntry
        { s with jobNameByEntry := Function.update s.jobNameByEntry id (some jobName), manager := .registering rest }
  | start {s} (now : ℤ) (h : s.manager = .registering []) :
      Step s .start
        { s with entries := s.entries.map (Entry.advance scheduleNext now), running := true, manager := .started }
  | refresh {s} (h : s.manager = .started) : Step s .refresh { s.read true with manager := .refreshing }
  | wake {s} (now : ℤ) (h : s.running = true) :
      Step s .wake
        { s with entries := wakeEntries scheduleNext now s.entries,
                 firing := s.firing ++ firedNames now s.entries }
  | leave {s l jobName r} (c : Circumstances) (h : s.firing = l ++ jobName :: r)
      (hexit : (fireBackup c).refreshes = false) : Step s (.leave c) { s with firing := l ++ r }
  | begin {s l jobName r} (c : Circumstances) (h : s.firing = l ++ jobName :: r)
      (hexit : (fireBackup c).refreshes = true) : Step s (.begin c) { s.read false with firing := l ++ r }
  | look {s l ofManager e rest updated r} (h : s.refreshing = l ++ ⟨ofManager, e :: rest, updated⟩ :: r) :
      Step s .look
        { s with refreshing := l ++ ⟨ofManager, rest, refreshPass s.jobNameByEntry updated e⟩ :: r }
  | store {s l ofManager updated r} (h : s.refreshing = l ++ ⟨ofManager, [], updated⟩ :: r) :
      Step s (.store l.length)
        { s with nextRunByName := updated, refreshing := l ++ r,
                 manager := if ofManager then .idle else s.manager }
  | exit {s} (h : s.manager = .idle) : Step s .exit { s with running := false, manager := .exited }

end

/-- No rebuild and no firing is in progress. -/
structure State.Quiet (s : State) : Prop where
  firing : s.firing = []
  refreshing : s.refreshing = []
  manager : s.manager = .idle ∨ s.manager = .exited

def State.Coherent (s : State) : Prop := ∀ name, s.nextRunFor name = soonest s.entries name

/-! ### When it is kept -/

/-- No backup has another soonest time than when the entries were last read. -/
def State.Unmoved (s : State) : Prop := ∀ name, soonest s.entries name = soonest s.lastRead name

/-- A firing that returns without a refresh finds the soonest times as they were last read, unless
another firing or a rebuild goes on that has not read them yet. And the results are stored in
the order in which the entries were read. -/
def Act.Permitted (s : State) : Act → Prop
  | .leave _ => 2 ≤ s.firing.length ∨ s.manager.rebuilding = true ∨ s.Unmoved
  | .store earlier => earlier = 0
  | _ => True

section

variable (parseSchedule : Str → Bool) (scheduleNext : Str → ℤ → ℤ)

def Reachable : State → Prop :=
  Relation.ReflTransGen (fun s s' => ∃ a, Step parseSchedule scheduleNext s a s') State.start

/-- What a run leads to in which each step is permitted. -/
def PermittedReachable : State → Prop :=
  Relation.ReflTransGen (fun s s' => ∃ a, Act.Permitted s a ∧ Step parseSchedule scheduleNext s a s') State.start

end

/-! ### What a refresh comes to -/

def readAll (jobNameByEntry : ℕ → Option Str) (entries : List Entry) : Str → Option ℤ :=
  entries.foldl (refreshPass jobNameByEntry) fun _ => none

def Named (jobNameByEntry : ℕ → Option Str) (entries : List Entry) : Prop :=
  ∀ e ∈ entries, jobNameByEntry e.id = some e.jobName

theorem refreshPass_named {jobNameByEntry : ℕ → Option Str} {e : Entry} (updated : Str → Option ℤ)
    (hnamed : jobNameByEntry e.id = some e.jobName) :
    refreshPass jobNameByEntry updated e =
      Function.update updated e.jobName (some ((updated e.jobName).elim e.next (min · e.next))) := by
  simp only [refreshPass, hnamed]
  cases hupdated : updated e.jobName with
  | none => rfl
  | some existing =>
      by_cases hlt : e.next < existing
      · simp [hlt, min_eq_right hlt.le]
      · have hsame : Function.update updated e.jobName (some existing) = updated := by
          rw [← hupdated, Function.update_eq_self]
        simp [hlt, min_eq_left (not_lt.mp hlt), hsame]

theorem foldl_refreshPass {jobNameByEntry : ℕ → Option Str} {entries : List Entry}
    (hnamed : Named jobNameByEntry entries) (updated : Str → Option ℤ) (name : Str) :
    entries.foldl (refreshPass jobNameByEntry) updated name =
      ((updated name).toList ++ (entries.filter (·.jobName = name)).map Entry.next).min? := by
  induction entries generalizing updated with
  | nil => cases h : updated name <;> simp [h]
  | cons e entries ih =>
      have he := hnamed e List.mem_cons_self
      rw [List.foldl_cons, ih fun e' he' => hnamed e' (List.mem_cons_of_mem _ he')]
      rw [refreshPass_named updated he]
      by_cases hname : e.jobName = name
      · subst hname
        rw [Function.update_self, List.filter_cons_of_pos (by simp)]
        cases updated e.jobName <;> rfl
      · rw [Function.update_of_ne (Ne.symm hname), List.filter_cons_of_neg (by simpa using hname)]

theorem readAll_getD {jobNameByEntry : ℕ → Option Str} {entries : List Entry}
    (hnamed : Named jobNameByEntry entries) (name : Str) :
    (readAll jobNameByEntry entries name).getD 0 = soonest entries name := by
  rw [readAll, foldl_refreshPass hnamed, soonest]
  rfl

/-! ### What every permitted step keeps -/

/-- The names with the one that is just to be given. -/
def State.names (s : State) : ℕ → Option Str :=
  match s.manager with
  | .naming id jobName _ => Function.update s.jobNameByEntry id (some jobName)
  | _ => s.jobNameByEntry

/-- The ids go up with the entries, and each entry has its name or is just to get it. -/
structure Registered (s : State) : Prop where
  bounded : ∀ e ∈ s.entries, e.id ≤ s.entries.length
  named : Named s.names s.entries
  renewed : s.manager = .renewed → s.entries = []

def Manager.refreshes : Manager → ℕ
  | .refreshing => 1
  | _ => 0

def State.promised (s : State) : Str → Option ℤ :=
  (s.refreshing.map (Refresh.result s.jobNameByEntry)).getLast?.getD s.nextRunByName

/-- Outside of a rebuild, the cache will be what was read last, and nobody but a firing has moved
an entry since. -/
structure Sound (s : State) : Prop where
  registered : Registered s
  lastNamed : s.manager.rebuilding = false → Named s.jobNameByEntry s.lastRead
  promised : s.manager.rebuilding = false → s.promised = readAll s.jobNameByEntry s.lastRead
  unmoved : s.firing = [] → s.manager.rebuilding = false → s.Unmoved
  owner : (s.refreshing.map Refresh.ofManager).count true = s.manager.refreshes

theorem Sound.start : Sound State.start where
  registered := ⟨by simp [State.start], by simp [State.start, Named], fun _ => rfl⟩
  lastNamed := fun h => by cases h
  promised := fun h => by cases h
  unmoved := fun _ h => by cases h
  owner := rfl

section

variable {s s' : State}

theorem State.names_of_not_rebuilding (h : s.manager.rebuilding = false) : s.names = s.jobNameByEntry := by
  rw [State.names]
  cases hmanager : s.manager with
  | naming id jobName rest => simp [hmanager, Manager.rebuilding] at h
  | _ => rfl

theorem Registered.map_entries (h : Registered s) {f : Entry → Entry} (hid : ∀ e, (f e).id = e.id)
    (hname : ∀ e, (f e).jobName = e.jobName) (hentries : s'.entries = s.entries.map f) (hnames : s'.names = s.names)
    (hrenewed : s'.manager = .renewed → s.manager = .renewed) : Registered s' where
  bounded := fun e' he' => by
    rw [hentries] at he' ⊢
    obtain ⟨e, he, rfl⟩ := List.mem_map.mp he'
    rw [hid, List.length_map]
    exact h.bounded e he
  named := fun e' he' => by
    rw [hentries] at he'
    obtain ⟨e, he, rfl⟩ := List.mem_map.mp he'
    rw [hnames, hid, hname]
    exact h.named e he
  renewed := fun hmanager => by rw [hentries, h.renewed (hrenewed hmanager), List.map_nil]

theorem Registered.congr (h : Registered s) (hentries : s'.entries = s.entries) (hnames : s'.names = s.names)
    (hrenewed : s'.manager = .renewed → s.manager = .renewed) : Registered s' :=
  h.map_entries (f := id) (fun _ => rfl) (fun _ => rfl) (by rw [hentries, List.map_id]) hnames hrenewed

variable {parseSchedule : Str → Bool} {scheduleNext : Str → ℤ → ℤ} {a : Act}

theorem entry_fire_id (now : ℤ) (e : Entry) :
    (if e.isDue now then e.advance scheduleNext now else e).id = e.id := by
  split <;> rfl

theorem entry_fire_jobName (now : ℤ) (e : Entry) :
    (if e.isDue now then e.advance scheduleNext now else e).jobName = e.jobName := by
  split <;> rfl

theorem Registered.step (h : Registered s) (howner : ∀ r ∈ s.refreshing, r.ofManager = true → s.manager = .refreshing)
    (hstep : Step parseSchedule scheduleNext s a s') : Registered s' := by
  cases hstep with
  | reload hmanager => exact h.congr rfl (by simp [State.names, hmanager]) (fun hr => by cases hr)
  | renew hmanager => exact ⟨by simp, by simp [Named], fun _ => rfl⟩
  | clear cfgCopy hmanager =>
      have hnone : s.entries = [] := h.renewed hmanager
      exact ⟨by simp [hnone], by simp [hnone, Named], fun hr => by cases hr⟩
  | @addFunc e rest hmanager =>
      have hnames : s.names = s.jobNameByEntry := by simp [State.names, hmanager]
      refine ⟨fun e' he' => ?_, fun e' he' => ?_, fun hr => by cases hr⟩
      · rw [List.length_append, List.length_singleton]
        rcases List.mem_append.mp he' with hold | hnew
        · exact (h.bounded e' hold).trans (Nat.le_succ _)
        · rw [List.mem_singleton.mp hnew]
          exact le_rfl
      · rcases List.mem_append.mp he' with hold | hnew
        · have hne : e'.id ≠ s.entries.length + 1 := (Nat.lt_succ_of_le (h.bounded e' hold)).ne
          have := h.named e' hold
          rw [hnames] at this
          simpa [State.names, Function.update_of_ne hne] using this
        · rw [List.mem_singleton.mp hnew]
          simp [State.names, newEntry]
  | nameEntry hmanager => exact h.congr rfl (by simp [State.names, hmanager]) (fun hr => by cases hr)
  | start now hmanager =>
      exact h.map_entries (f := Entry.advance scheduleNext now) (fun _ => rfl) (fun _ => rfl) rfl
        (by simp [State.names, hmanager]) (fun hr => by cases hr)
  | refresh hmanager => exact h.congr rfl (by simp [State.names, State.read, hmanager]) (fun hr => by cases hr)
  | wake now hrunning => exact h.map_entries (entry_fire_id now) (entry_fire_jobName now) rfl rfl id
  | leave c hfiring hexit => exact h.congr rfl rfl id
  | begin c hfiring hexit => exact h.congr rfl rfl id
  | look hrefreshing => exact h.congr rfl rfl id
  | @store l ofManager updated r hrefreshing =>
      cases ofManager with
      | false => exact h.congr rfl rfl id
      | true =>
          have hmanager : s.manager = .refreshing := howner ⟨true, [], updated⟩ (by simp [hrefreshing]) rfl
          exact h.congr rfl (by simp [State.names, hmanager]) (fun hr => by cases hr)
  | exit hmanager => exact h.congr rfl (by simp [State.names, hmanager]) (fun hr => by cases hr)

theorem Sound.manager_eq (h : Sound s) {r : Refresh} (hr : r ∈ s.refreshing) (howner : r.ofManager = true) :
    s.manager = .refreshing := by
  have hmem : true ∈ s.refreshing.map Refresh.ofManager := howner ▸ List.mem_map_of_mem hr
  have hpos : 0 < s.manager.refreshes := h.owner ▸ List.count_pos_iff.mpr hmem
  cases hmanager : s.manager with
  | refreshing => rfl
  | _ => simp [hmanager, Manager.refreshes] at hpos

theorem wakeEntries_of_none_due {now : ℤ} {entries : List Entry} (h : firedNames now entries = []) :
    wakeEntries scheduleNext now entries = entries := by
  have hdue : ∀ e ∈ entries, e.isDue now ≠ true := List.filter_eq_nil_iff.mp (List.map_eq_nil_iff.mp h)
  calc
    wakeEntries scheduleNext now entries = entries.map id := List.map_congr_left fun e he => if_neg (hdue e he)
    _ = entries := List.map_id entries

theorem promised_read (s : State) (ofManager : Bool) :
    (s.read ofManager).promised = readAll s.jobNameByEntry s.entries := by
  simp [State.promised, State.read, Refresh.result, readAll]

/-- To look at an entry changes nothing of what a refresh comes to. -/
theorem promised_look {l r : List Refresh} {ofManager : Bool} {e : Entry} {rest : List Entry}
    {updated : Str → Option ℤ} (h : s.refreshing = l ++ ⟨ofManager, e :: rest, updated⟩ :: r) :
    State.promised
        { s with refreshing := l ++ ⟨ofManager, rest, refreshPass s.jobNameByEntry updated e⟩ :: r } = s.promised := by
  rw [State.promised, State.promised, h, List.map_append, List.map_append]
  rfl

/-- The first refresh may store its result: the last one comes after it, or is the one that stores. -/
theorem promised_store {r : List Refresh} {ofManager : Bool} {updated : Str → Option ℤ}
    (h : s.refreshing = [] ++ ⟨ofManager, [], updated⟩ :: r) :
    (r.map (Refresh.result s.jobNameByEntry)).getLast?.getD updated = s.promised := by
  rw [State.promised, h, List.nil_append, List.map_cons, List.getLast?_cons, Option.getD_some]
  rfl

theorem Manager.refreshes_of_rebuilding {m : Manager} (h : m.rebuilding = true) : m.refreshes = 0 := by
  cases m <;> first | rfl | cases h

theorem Sound.of_rebuilding (h : Registered s) (hmanager : s.manager.rebuilding = true)
    (hnone : (s.refreshing.map Refresh.ofManager).count true = 0) : Sound s := by
  refine ⟨h, fun hr => ?_, fun hr => ?_, fun _ hr => ?_, hnone.trans (Manager.refreshes_of_rebuilding hmanager).symm⟩
  · simp [hmanager] at hr
  · simp [hmanager] at hr
  · simp [hmanager] at hr

theorem Sound.step (h : Sound s) (hpermitted : a.Permitted s) (hstep : Step parseSchedule scheduleNext s a s') :
    Sound s' := by
  have hregistered : Registered s' := h.registered.step (fun r => h.manager_eq) hstep
  have hnamed : s.manager.rebuilding = false → Named s.jobNameByEntry s.entries := fun hmanager =>
    State.names_of_not_rebuilding hmanager ▸ h.registered.named
  cases hstep with
  | reload hmanager => exact .of_rebuilding hregistered rfl (h.owner.trans (by rw [hmanager]; rfl))
  | renew hmanager => exact .of_rebuilding hregistered rfl (h.owner.trans (by rw [hmanager]; rfl))
  | clear cfgCopy hmanager => exact .of_rebuilding hregistered rfl (h.owner.trans (by rw [hmanager]; rfl))
  | addFunc hmanager => exact .of_rebuilding hregistered rfl (h.owner.trans (by rw [hmanager]; rfl))
  | nameEntry hmanager => exact .of_rebuilding hregistered rfl (h.owner.trans (by rw [hmanager]; rfl))
  | start now hmanager => exact .of_rebuilding hregistered rfl (h.owner.trans (by rw [hmanager]; rfl))
  -- the entries are read when all of them are there, with their names
  | refresh hmanager =>
      have hnames : s.names = s.jobNameByEntry := by simp [State.names, hmanager]
      refine ⟨hregistered, fun _ => hnames ▸ h.registered.named, fun _ => promised_read s true, fun _ _ _ => rfl, ?_⟩
      have hnone := h.owner
      simpa [State.read, hmanager, Manager.refreshes] using hnone
  -- who moves an entry is a firing from then on
  | wake now hrunning =>
      refine ⟨hregistered, h.lastNamed, h.promised, fun hfiring hmanager => ?_, h.owner⟩
      obtain ⟨hfiring, hnone⟩ := List.append_eq_nil_iff.mp hfiring
      have hsame : wakeEntries scheduleNext now s.entries = s.entries := wakeEntries_of_none_due hnone
      intro name
      exact (congrArg (soonest · name) hsame).trans (h.unmoved hfiring hmanager name)
  | leave c hfiring hexit =>
      refine ⟨hregistered, h.lastNamed, h.promised, fun hnone hmanager => ?_, h.owner⟩
      obtain ⟨rfl, rfl⟩ := List.append_eq_nil_iff.mp hnone
      rcases hpermitted with hother | hrebuilding | hunmoved
      · simp [hfiring] at hother
      · rw [hmanager] at hrebuilding
        cases hrebuilding
      · exact hunmoved
  | begin c hfiring hexit =>
      refine ⟨hregistered, hnamed, fun _ => promised_read s false, fun _ _ _ => rfl, ?_⟩
      simpa [State.read] using h.owner
  | look hrefreshing =>
      refine ⟨hregistered, h.lastNamed, fun hmanager => ?_, h.unmoved, ?_⟩
      · exact (promised_look hrefreshing).trans (h.promised hmanager)
      · simpa [hrefreshing] using h.owner
  | @store l ofManager updated r hrefreshing =>
      obtain rfl : l = [] := List.length_eq_zero_iff.mp hpermitted
      have hpromised := promised_store hrefreshing
      cases ofManager with
      | false =>
          refine ⟨hregistered, h.lastNamed, fun hmanager => hpromised.trans (h.promised hmanager), h.unmoved, ?_⟩
          simpa [hrefreshing] using h.owner
      | true =>
          have hmanager : s.manager = .refreshing := h.manager_eq (r := ⟨true, [], updated⟩) (by simp [hrefreshing]) rfl
          have hdone : s.manager.rebuilding = false := by
            rw [hmanager]
            rfl
          refine ⟨hregistered, fun _ => h.lastNamed hdone, fun _ => hpromised.trans (h.promised hdone),
            fun hfiring _ => h.unmoved hfiring hdone, ?_⟩
          simpa [hrefreshing, hmanager, Manager.refreshes] using h.owner
  | exit hmanager =>
      refine ⟨hregistered, fun _ => h.lastNamed (by rw [hmanager]; rfl), fun _ => h.promised (by rw [hmanager]; rfl),
        fun hfiring _ => h.unmoved hfiring (by rw [hmanager]; rfl), ?_⟩
      exact h.owner.trans (by rw [hmanager]; rfl)

end

/-! ### Whole runs -/

theorem PermittedReachable.next {parseSchedule : Str → Bool} {scheduleNext : Str → ℤ → ℤ} {s s' : State} {a : Act}
    (h : PermittedReachable parseSchedule scheduleNext s) (hstep : Step parseSchedule scheduleNext s a s')
    (hpermitted : a.Permitted s) : PermittedReachable parseSchedule scheduleNext s' :=
  h.tail ⟨a, hpermitted, hstep⟩

theorem PermittedReachable.reachable {parseSchedule : Str → Bool} {scheduleNext : Str → ℤ → ℤ} {s : State}
    (h : PermittedReachable parseSchedule scheduleNext s) : Reachable parseSchedule scheduleNext s := by
  induction h with
  | refl => exact .refl
  | tail _ hstep ih =>
      obtain ⟨a, -, hstep⟩ := hstep
      exact ih.tail ⟨a, hstep⟩

theorem sound_of_permittedReachable {parseSchedule : Str → Bool} {scheduleNext : Str → ℤ → ℤ} {s : State}
    (h : PermittedReachable parseSchedule scheduleNext s) : Sound s := by
  induction h with
  | refl => exact .start
  | tail _ hstep ih =>
      obtain ⟨a, hpermitted, hstep⟩ := hstep
      exact ih.step hpermitted hstep

theorem State.Quiet.not_rebuilding {s : State} (h : s.Quiet) : s.manager.rebuilding = false := by
  rcases h.manager with hidle | hexited
  · rw [hidle]
    rfl
  · rw [hexited]
    rfl

/-- Where no refresh is in progress, the cache has what was read last. -/
theorem Sound.nextRunFor_eq {s : State} (h : Sound s) (hrefreshing : s.refreshing = [])
    (hmanager : s.manager.rebuilding = false) (name : Str) : s.nextRunFor name = soonest s.lastRead name := by
  have hcache : s.nextRunByName = readAll s.jobNameByEntry s.lastRead := by
    rw [← h.promised hmanager, State.promised, hrefreshing]
    rfl
  rw [State.nextRunFor, hcache, readAll_getD (h.lastNamed hmanager)]

/-- The cache has the soonest times whenever nothing is in progress. A firing that returns without
a refresh, as the last thing in progress, leaves it so only if it was permitted to. -/
theorem nextRunFor_coherent {parseSchedule : Str → Bool} {scheduleNext : Str → ℤ → ℤ} {s : State}
    (h : PermittedReachable parseSchedule scheduleNext s) :
    (s.Quiet → s.Coherent) ∧
      ∀ c s', Step parseSchedule scheduleNext s (.leave c) s' → s'.Quiet →
        (s'.Coherent ↔ (Act.leave c).Permitted s) := by
  have hsound := sound_of_permittedReachable h
  constructor
  · intro hquiet name
    rw [hsound.nextRunFor_eq hquiet.refreshing hquiet.not_rebuilding]
    exact (hsound.unmoved hquiet.firing hquiet.not_rebuilding name).symm
  · intro c s' hstep hquiet
    cases hstep with
    | @leave l jobName r c hfiring hexit =>
        have hcache := hsound.nextRunFor_eq hquiet.refreshing hquiet.not_rebuilding
        have hlast : s.firing = [jobName] := by
          obtain ⟨rfl, rfl⟩ := List.append_eq_nil_iff.mp hquiet.firing
          exact hfiring
        constructor
        · intro hcoherent
          exact .inr (.inr fun name => (hcoherent name).symm.trans (hcache name))
        · rintro (hother | hrebuilding | hunmoved)
          · simp [hlast] at hother
          · exact absurd hrebuilding (by simp [hquiet.not_rebuilding])
          · exact fun name => (hcache name).trans (hunmoved name).symm

/-! ### A firing that is refused -/

def hourlyNext (_ : Str) (now : ℤ) : ℤ := (now / 3600 + 1) * 3600

def hourlyConfig : CfgTemplate where
  dataDir := "/data".toList
  backup := [{ name := "home".toList, schedule := ["@hourly".toList] }]

def home : Str := "home".toList

def fired : State where
  entries := [⟨1, "@hourly".toList, home, 7200⟩]
  running := true
  jobNameByEntry := Function.update (fun _ => none) 1 (some home)
  nextRunByName := Function.update (fun _ => none) home (some 3600)
  manager := .idle
  firing := [home]
  refreshing := []
  lastRead := [⟨1, "@hourly".toList, home, 3600⟩]

theorem permittedReachable_fired : PermittedReachable (fun _ => true) hourlyNext fired := by
  have hentries : rebuild (fun _ => true) hourlyConfig = [⟨"@hourly".toList, home⟩] := by decide
  have hstart : PermittedReachable (fun _ => true) hourlyNext State.start := .refl
  have hrenewed := hstart.next (.renew rfl) trivial
  have hcleared := hrenewed.next (.clear hourlyConfig rfl) trivial
  have hadded := hcleared.next (.addFunc (congrArg Manager.registering hentries)) trivial
  have hnamed := hadded.next (.nameEntry rfl) trivial
  have hstarted := hnamed.next (.start 600 rfl) trivial
  have hread := hstarted.next (.refresh rfl) trivial
  have hlooked := hread.next (.look (l := []) rfl) trivial
  have hstored := hlooked.next (.store (l := []) rfl) rfl
  exact hstored.next (.wake 3600 rfl) trivial

def stillActive : Circumstances :=
  ⟨false, some "7".toList, .delivered, .received ⟨"7".toList, [], home, true, errText .jobAlreadyRunning⟩⟩

def refused : State := { fired with firing := [] }

theorem step_refused : Step (fun _ => true) hourlyNext fired (.leave stillActive) refused :=
  .leave (l := []) (r := []) stillActive rfl rfl

theorem quiet_refused : refused.Quiet := ⟨rfl, rfl, .inl rfl⟩

/-- The refusal is not permitted, so the cache is not coherent after it. -/
theorem nextRunFor_coherent_refused : ¬ refused.Coherent := fun hcoherent => by
  rcases ((nextRunFor_coherent permittedReachable_fired).2 _ _ step_refused quiet_refused).mp hcoherent with
    hother | hrebuilding | hunmoved
  · exact absurd hother (by decide)
  · cases hrebuilding
  · exact absurd (hunmoved home) (by decide)

/-- After the refusal the next run is shown as 1:00, and cron fires at 2:00. -/
theorem nextRunFor_stale : ¬ ∀ (parseSchedule : Str → Bool) (scheduleNext : Str → ℤ → ℤ) (s : State),
    Reachable parseSchedule scheduleNext s → s.Quiet → s.Coherent := by
  intro h
  have hcoherent := h _ _ _ (permittedReachable_fired.reachable.tail ⟨_, step_refused⟩) quiet_refused
  exact absurd (hcoherent home) (by decide)

end CloudBackup.Scheduler.NextRuns
