import CloudBackup.Httpd.PutConfig

/-!
How a new configuration reaches cron. A handler saves it and sends a notification, which says
nothing but that there was a save. `WaitForEvent` and the event loop of the scheduler pass it
on, through channels of their own, and the last channel may be full: then it is dropped. The
cron manager takes a notification and builds its entries again, from the configuration as it
is at that time.

A notification is dropped only where four others wait, and one of these is taken after the
save. So what counts is that the copy is taken after the notification.
-/

namespace CloudBackup.Scheduler

open Database Config Httpd Threads

/-! ### The entries of cron -/

structure CronEntry where
  expr : Str
  jobName : Str
  deriving DecidableEq, Repr

def trimSpace (s : Str) : Str := ((s.dropWhile isSpace).reverse.dropWhile isSpace).reverse

section

variable (parseSchedule : Str → Bool)

/-- A pass of the inner loop of `rebuild`. `AddFunc` fails if the expression is not parsed. -/
def addFunc (jobName : Str) (entries : List CronEntry) (expr : Str) : List CronEntry :=
  if trimSpace expr = [] then entries
  else if parseSchedule (trimSpace expr) then entries ++ [⟨trimSpace expr, jobName⟩]
  else entries

def rebuild (cfgCopy : CfgTemplate) : List CronEntry :=
  cfgCopy.backup.foldl (fun entries backup => backup.schedule.foldl (addFunc parseSchedule backup.name) entries) []

end

/-! ### The steps -/

/-- Where `cronManager.run` is. -/
inductive CronManager
  /-- It has taken a notification, or has just begun, and has not yet copied the configuration. -/
  | rebuilding
  | registering (cfgCopy : CfgTemplate)
  /-- It waits for the next notification. -/
  | idle
  | exited
  deriving DecidableEq

inductive EventLoop
  | waiting
  /-- It has received a notification, and has neither passed it on nor dropped it. -/
  | reloading
  | exited
  deriving DecidableEq, Repr

/-- `config` is the configuration saved last, `saved` counts the handlers that are between
their save and their send, and `holding` says that `WaitForEvent` has received a notification
and not yet sent it. The other numbers are the notifications in the channels. -/
structure Reload where
  config : CfgTemplate
  saved : ℕ
  fromHttpd : ℕ
  holding : Bool
  toScheduler : ℕ
  eventProcessor : EventLoop
  toCron : ℕ
  cancelled : Bool
  cron : CronManager
  entries : List CronEntry

namespace Reload

/-- The daemon has loaded its configuration, and nothing was registered. -/
def start (config : CfgTemplate) : Reload :=
  ⟨config, 0, 0, false, 0, .waiting, 0, false, .rebuilding, []⟩

variable (parseSchedule : Str → Bool)

inductive Step : Reload → Reload → Prop
  | save {s} (c : CfgTemplate) : Step s { s with config := c, saved := s.saved + 1 }
  | send {s n} (h : s.saved = n + 1) (hroom : s.fromHttpd < 50) :
      Step s { s with saved := n, fromHttpd := s.fromHttpd + 1 }
  | receive {s n} (h : s.fromHttpd = n + 1) (hfree : s.holding = false) :
      Step s { s with fromHttpd := n, holding := true }
  | forward {s} (h : s.holding = true) (hroom : s.toScheduler < 50) :
      Step s { s with holding := false, toScheduler := s.toScheduler + 1 }
  | reload {s n} (h : s.toScheduler = n + 1) (hwaits : s.eventProcessor = .waiting) :
      Step s { s with toScheduler := n, eventProcessor := .reloading }
  | pass {s} (h : s.eventProcessor = .reloading) (hroom : s.toCron < 4) :
      Step s { s with eventProcessor := .waiting, toCron := s.toCron + 1 }
  | drop {s} (h : s.eventProcessor = .reloading) (hfull : ¬ s.toCron < 4) :
      Step s { s with eventProcessor := .waiting }
  | shutdown {s} (h : s.eventProcessor = .waiting) :
      Step s { s with eventProcessor := .exited, cancelled := true }
  | take {s n} (h : s.toCron = n + 1) (hidle : s.cron = .idle) :
      Step s { s with toCron := n, cron := .rebuilding }
  | copy {s} (h : s.cron = .rebuilding) : Step s { s with cron := .registering s.config, entries := [] }
  | register {s c} (h : s.cron = .registering c) :
      Step s { s with cron := .idle, entries := rebuild parseSchedule c }
  | exit {s} (h : s.cron = .idle) (hdone : s.cancelled = true) : Step s { s with cron := .exited }

def Reachable (config : CfgTemplate) : Reload → Prop :=
  Relation.ReflTransGen (Step parseSchedule) (start config)

/-- All three channels are empty, no handler is between its save and its send, and the cron
manager is idle. -/
structure Quiet (s : Reload) : Prop where
  saved : s.saved = 0
  fromHttpd : s.fromHttpd = 0
  toScheduler : s.toScheduler = 0
  toCron : s.toCron = 0
  cron : s.cron = .idle

/-- Nobody has a notification in hand, on its way from one channel to the next. -/
structure EmptyHanded (s : Reload) : Prop where
  waitForEvent : s.holding = false
  eventProcessor : s.eventProcessor ≠ .reloading

/-! ### What is on its way -/

def inFlight (s : Reload) : ℕ :=
  s.saved + s.fromHttpd + s.holding.toNat + s.toScheduler + (if s.eventProcessor = .reloading then 1 else 0) + s.toCron

/-- The cron manager has the configuration saved last, or will copy it. -/
def Current (s : Reload) : Prop :=
  (∀ c, s.cron = .registering c → c = s.config) ∧ (s.cron = .idle → s.entries = rebuild parseSchedule s.config)

variable {parseSchedule}

theorem current_of_rebuilding {s : Reload} (h : s.cron = .rebuilding) : Current parseSchedule s := by
  constructor
  · intro c hc
    simp [h] at hc
  · intro hidle
    simp [h] at hidle

/-- Where nothing is on its way, the cron manager is not behind. -/
theorem step_current {s s' : Reload} (h : Step parseSchedule s s')
    (hs : s.inFlight = 0 → Current parseSchedule s) : s'.inFlight = 0 → Current parseSchedule s' := by
  intro hnone
  cases h with
  | save c => simp [inFlight] at hnone
  | send h hroom => simp [inFlight] at hnone
  | receive h hfree => simp [inFlight] at hnone
  | forward h hroom => simp [inFlight] at hnone
  | reload h hwaits => simp [inFlight] at hnone
  | pass h hroom => simp [inFlight] at hnone
  -- four others are on their way
  | drop h hfull =>
      simp [inFlight] at hnone
      omega
  | shutdown h =>
      refine hs ?_
      simpa [inFlight, h] using hnone
  -- a copy is to be taken, whatever was saved in the meantime
  | take h hidle => exact current_of_rebuilding rfl
  | copy h =>
      constructor
      · intro c hc
        exact (CronManager.registering.inj hc).symm
      · intro hidle
        cases hidle
  | @register c h =>
      have hcopy : c = s.config := (hs hnone).1 c h
      constructor
      · intro c' hc'
        cases hc'
      · intro hidle
        rw [hcopy]
  | exit h hdone =>
      constructor
      · intro c hc
        cases hc
      · intro hidle
        cases hidle

theorem reachable_current {config : CfgTemplate} {s : Reload} (h : Reachable parseSchedule config s) :
    s.inFlight = 0 → Current parseSchedule s := by
  induction h with
  | refl =>
      intro _
      exact current_of_rebuilding rfl
  | tail _ hstep ih => exact step_current hstep ih

theorem Quiet.inFlight_eq_zero {s : Reload} (h : Quiet s) (hempty : EmptyHanded s) : s.inFlight = 0 := by
  rw [inFlight, h.saved, h.fromHttpd, hempty.waitForEvent, h.toScheduler, if_neg hempty.eventProcessor, h.toCron]
  rfl

/-- No reload is lost, however many notifications were dropped. -/
theorem entries_of_quiet {config : CfgTemplate} {s : Reload} (h : Reachable parseSchedule config s)
    (hquiet : Quiet s) (hempty : EmptyHanded s) : s.entries = rebuild parseSchedule s.config :=
  (reachable_current h (hquiet.inFlight_eq_zero hempty)).2 hquiet.cron

/-! ### One save -/

def onlyDaily (expr : Str) : Bool := expr = "@daily".toList

def dailyConfig : CfgTemplate :=
  { emptyConfig with backup := [{ name := "home".toList, schedule := [" @daily".toList] }] }

def received : Reload := ⟨dailyConfig, 0, 0, true, 0, .waiting, 0, false, .idle, []⟩

theorem reachable_received : Reachable onlyDaily emptyConfig received := by
  have hcopy : Reachable onlyDaily emptyConfig _ := .tail .refl (.copy rfl)
  have hidle := hcopy.tail (.register rfl)
  have hsaved := hidle.tail (.save dailyConfig)
  have hsent := hsaved.tail (.send rfl (by decide))
  exact hsent.tail (.receive rfl rfl)

def rebuilt : Reload :=
  ⟨dailyConfig, 0, 0, false, 0, .waiting, 0, false, .idle, rebuild onlyDaily dailyConfig⟩

theorem reachable_rebuilt : Reachable onlyDaily emptyConfig rebuilt := by
  have hforwarded := reachable_received.tail (.forward rfl (by decide))
  have hreloading := hforwarded.tail (.reload rfl rfl)
  have hpassed := hreloading.tail (.pass rfl (by decide))
  have htaken := hpassed.tail (.take rfl rfl)
  have hcopy := htaken.tail (.copy rfl)
  exact hcopy.tail (.register rfl)

theorem entries_of_quiet_rebuilt : Quiet rebuilt ∧ EmptyHanded rebuilt ∧ rebuilt.config = dailyConfig ∧
    rebuilt.entries = [⟨"@daily".toList, "home".toList⟩] := by
  have hquiet : Quiet rebuilt := ⟨rfl, rfl, rfl, rfl, rfl⟩
  have hempty : EmptyHanded rebuilt := ⟨rfl, by decide⟩
  refine ⟨hquiet, hempty, rfl, ?_⟩
  rw [entries_of_quiet reachable_rebuilt hquiet hempty]
  decide

/-- The channels are empty, and the only notification is in the hands of `WaitForEvent`. -/
theorem not_entries_of_quiet : ¬ ∀ (parseSchedule : Str → Bool) (config : CfgTemplate) (s : Reload),
    Reachable parseSchedule config s → Quiet s → s.entries = rebuild parseSchedule s.config := by
  intro h
  have hentries := h onlyDaily emptyConfig received reachable_received ⟨rfl, rfl, rfl, rfl, rfl⟩
  revert hentries
  decide

/-! ### The handlers -/

structure Clear (s : Reload) : Prop where
  fromHttpd : s.fromHttpd = 0
  holding : s.holding = false
  toScheduler : s.toScheduler = 0
  eventProcessor : s.eventProcessor = .waiting

theorem Clear.sent {s : Reload} (h : Clear s) {n : ℕ} (hsaved : s.saved = n + 1) :
    ∃ s', Relation.ReflTransGen (Step parseSchedule) s s' ∧ Clear s' ∧ s'.config = s.config ∧ s'.saved = n := by
  have hsend : Relation.ReflTransGen (Step parseSchedule) s _ := .single (.send hsaved (by simp [h.fromHttpd]))
  have hheld := hsend.tail (.receive rfl h.holding)
  have hforwarded := hheld.tail (.forward rfl (by simp [h.toScheduler]))
  have hreloading := hforwarded.tail (.reload rfl h.eventProcessor)
  by_cases hroom : s.toCron < 4
  · exact ⟨_, hreloading.tail (.pass rfl hroom), ⟨h.fromHttpd, rfl, h.toScheduler, rfl⟩, rfl, rfl⟩
  · exact ⟨_, hreloading.tail (.drop rfl hroom), ⟨h.fromHttpd, rfl, h.toScheduler, rfl⟩, rfl, rfl⟩

end Reload

def isNotifying : Handler → Bool
  | .notifying => true
  | _ => false

/-- The handlers, as cron sees them: by the configuration they have saved last and by how many of
them have not yet sent. -/
structure Shows (s : Reload) (p : Pool Store Handler) : Prop where
  config : s.config = p.shared.memory
  saved : s.saved = p.threads.countP (isNotifying · = true)

theorem isNotifying_after (e : Fault) : isNotifying (.after e) = false := by
  cases e <;> rfl

/-- A step of a handler is a save, a send, or neither. -/
theorem act_cases {env : Env} {s s' : Store} {t t' : Handler} (h : Act env s t s' t') :
    (s'.memory = s.memory ∧ isNotifying t = false ∧ isNotifying t' = false) ∨
      (isNotifying t = false ∧ isNotifying t' = true) ∨
      (s'.memory = s.memory ∧ isNotifying t = true ∧ isNotifying t' = false) := by
  cases h with
  | replace => exact .inr (.inl ⟨rfl, rfl⟩)
  | notify => exact .inr (.inr ⟨rfl, rfl, rfl⟩)
  | refuse h => exact .inl ⟨rfl, rfl, isNotifying_after _⟩
  | noFill h => exact .inl ⟨rfl, rfl, isNotifying_after _⟩
  | refuseBackup h => exact .inl ⟨rfl, rfl, isNotifying_after _⟩
  | noEdit h => exact .inl ⟨rfl, rfl, isNotifying_after _⟩
  | _ => exact .inl ⟨rfl, rfl, rfl⟩

theorem Shows.step {env : Env} {guard : Pool Store Handler → Handler → Prop} {parseSchedule : Str → Bool}
    {p p' : Pool Store Handler} {s : Reload} (hs : Shows s p) (hclear : s.Clear)
    (h : Threads.Step IsRequest (Act env) guard p p') :
    ∃ s', Relation.ReflTransGen (Reload.Step parseSchedule) s s' ∧ s'.Clear ∧ Shows s' p' := by
  obtain ⟨hconfig, hsaved⟩ := hs
  cases h with
  | spawn hfresh =>
      refine ⟨s, .refl, hclear, hconfig, ?_⟩
      obtain ⟨c, rfl⟩ | ⟨b, rfl⟩ := hfresh
      · rw [hsaved, Multiset.countP_cons_of_neg _ (by simp [isNotifying])]
      · rw [hsaved, Multiset.countP_cons_of_neg _ (by simp [isNotifying])]
  | @act _ _ _ _ rest hguard h =>
      obtain ⟨hmemory, ht, ht'⟩ | ⟨ht, ht'⟩ | ⟨hmemory, ht, ht'⟩ := act_cases h
      · refine ⟨s, .refl, hclear, hconfig.trans hmemory.symm, ?_⟩
        simpa [Multiset.countP_cons, ht, ht'] using hsaved
      · refine ⟨_, .single (.save _), ⟨hclear.1, hclear.2, hclear.3, hclear.4⟩, rfl, ?_⟩
        simpa [Multiset.countP_cons, ht, ht'] using hsaved
      · have hone : s.saved = rest.countP (isNotifying · = true) + 1 := by
          simpa [Multiset.countP_cons, ht] using hsaved
        obtain ⟨s', hsteps, hclear', hconfig', hsaved'⟩ := hclear.sent hone
        refine ⟨s', hsteps, hclear', hconfig'.trans (hconfig.trans hmemory.symm), ?_⟩
        simp [ht', hsaved']

/-- Whatever the handlers do, it is a run with their saves and their sends in it. -/
theorem shows_of_reachable {env : Env} {guard : Pool Store Handler → Handler → Prop} {parseSchedule : Str → Bool}
    {st : Store} {p : Pool Store Handler} (h : Threads.Reachable IsRequest (Act env) guard st p) :
    ∃ s, Reload.Reachable parseSchedule st.memory s ∧ s.Clear ∧ Shows s p := by
  induction h with
  | refl => exact ⟨.start st.memory, .refl, ⟨rfl, rfl, rfl, rfl⟩, rfl, rfl⟩
  | tail _ hstep ih =>
      obtain ⟨s, hs, hclear, hshows⟩ := ih
      obtain ⟨s', hsteps, hclear', hshows'⟩ := hshows.step hclear hstep
      exact ⟨s', hs.trans hsteps, hclear', hshows'⟩

end CloudBackup.Scheduler
