import CloudBackup.Database.Tables
import CloudBackup.Library.Slices
import Mathlib.Logic.Relation

/-!
Clients that watch a job. Jobs send messages into one channel; the multiplexer takes them out
and puts each of them into the channels of those clients that watch its job. A client is a
handler of an HTTP request: it adds itself to the list of consumers, receives what is in its
channel, and in the end removes itself and closes the channel.

The list is guarded by a lock. The multiplexer holds it while it goes through the list, and a
handler while it adds or removes itself, which is one step here. The steps are those at which
another part of the program can come in between.
-/

namespace CloudBackup.Watcher

open Slices

/-! ### Messages -/

/-- What a message is about and a consumer waits for. -/
structure Job where
  jobType : Str
  jobName : Str
  jobId : Str
  deriving DecidableEq, Repr

structure WatchMessage where
  job : Job
  path : Str
  percentDone : ℕ
  error : Str
  jobCompleted : Bool
  jobAborted : Bool
  jobFailed : Bool
  deriving DecidableEq, Repr

def WatchMessage.isLast (m : WatchMessage) : Bool := m.jobCompleted || m.jobAborted || m.jobFailed

def jobFinished (job : Job) (jobCancelled jobFailed : Bool) : WatchMessage :=
  ⟨job, [], 100, [], !jobFailed && !jobCancelled, jobCancelled, jobFailed⟩

structure WatchConsumer where
  job : Job
  uuid : Str
  currentPath : Str
  deriving DecidableEq, Repr

/-- What the rate limiter of a consumer says: there is a token and it can be taken (or the
context is cancelled meanwhile), there is one and it cannot be taken, there is none. -/
inductive Limiter
  | passes
  | fails
  | refuses
  deriving DecidableEq, Repr

def clientSendAllowed (limiter : Limiter) (client : WatchConsumer) (msg : WatchMessage) : Bool × WatchConsumer :=
  if client.currentPath = [] || msg.error ≠ [] then
    (true, if client.currentPath = [] then { client with currentPath := msg.path } else client)
  else if client.currentPath = msg.path then
    match limiter with
    | .passes => (true, client)
    | .fails => (false, client)
    | .refuses => (msg.percentDone = 100, client)
  else (true, { client with currentPath := msg.path })

/-! ### The parts of the program -/

inductive Phase
  /-- The channel is made. -/
  | created
  | watching
  /-- It has left its loop, for whatever reason. -/
  | leaving
  | removed
  /-- `AddConsumer` has returned an error. -/
  | refused
  | closed
  | panicked
  deriving DecidableEq, Repr

structure Client where
  phase : Phase
  job : Job
  commChan : List WatchMessage
  cancelled : Bool
  deriving DecidableEq, Repr

/-- Where the multiplexer is. A number is the place in the list of consumers. -/
inductive Loop
  | starting
  | waiting
  | received (msg : WatchMessage)
  | sending (msg : WatchMessage) (k : ℕ)
  /-- The channel was full. -/
  | full (msg : WatchMessage) (k : ℕ)
  /-- One message was taken out of the channel to make room. -/
  | retry (msg : WatchMessage) (k : ℕ)
  | stopping
  | stopped
  | telling (k : ℕ)
  | exited
  /-- It has sent to a closed channel, or found `nil` in the list. -/
  | panicked
  deriving DecidableEq, Repr

def Loop.holdsLock : Loop → Bool
  | .sending _ _ => true
  | .full _ _ => true
  | .retry _ _ => true
  | .telling _ => true
  | _ => false

def watcherChanSize : ℕ := 1000

def commChanSize : ℕ := 500

/-- `WatchMultiplexer`, with the handlers by the uuids of their clients. -/
structure System where
  msgs : List WatchMessage
  ctxDone : Bool
  running : Bool
  consumers : List (Option WatchConsumer)
  loop : Loop
  clients : Str → Client

namespace System

/-- Nothing has begun. Each handler knows the job it is asked for. -/
def start (jobs : Str → Job) : System := ⟨[], false, false, [], .starting, fun u => ⟨.created, jobs u, [], false⟩⟩

def setClient (s : System) (u : Str) (c : Client) : System :=
  { s with clients := fun v => if v = u then c else s.clients v }

def setPhase (s : System) (u : Str) (phase : Phase) : System := s.setClient u { s.clients u with phase }

def setChan (s : System) (u : Str) (commChan : List WatchMessage) : System :=
  s.setClient u { s.clients u with commChan }

def sendMsgToWatcher (s : System) (msg : WatchMessage) : System :=
  if s.msgs.length < watcherChanSize then { s with msgs := s.msgs ++ [msg] } else s

def addConsumer (s : System) (u : Str) : System :=
  if s.running then { s.setPhase u .watching with consumers := s.consumers ++ [some ⟨(s.clients u).job, u, []⟩] }
  else s.setPhase u .refused

/-- `RemoveConsumer`. The loop stops at the first entry with the uuid, or at `nil`. -/
def removeConsumer (s : System) (u : Str) : System :=
  match s.consumers.findIdx? (fun entry => entry.all (·.uuid = u)) with
  | none => s.setPhase u .removed
  | some k =>
      match s.consumers[k]? with
      | some (some _) => { s.setPhase u .removed with consumers := swapRemove none k s.consumers }
      | _ => s.setPhase u .panicked

/-! ### Steps -/

inductive Produce : System → System → Prop
  | progress {s msg} (h : msg.isLast = false) : Produce s (s.sendMsgToWatcher msg)
  | finished {s} (job : Job) (jobCancelled jobFailed : Bool) :
      Produce s (s.sendMsgToWatcher (jobFinished job jobCancelled jobFailed))
  | stop {s} : Produce s { s with ctxDone := true }

inductive Handle (u : Str) : System → System → Prop
  | add {s} (h : (s.clients u).phase = .created) (hfree : s.loop.holdsLock = false) : Handle u s (s.addConsumer u)
  | shutdown {s} (h : (s.clients u).phase = .watching) (hdone : (s.clients u).cancelled = true) :
      Handle u s (s.setPhase u .leaving)
  | disconnect {s} (h : (s.clients u).phase = .watching) : Handle u s (s.setPhase u .leaving)
  | receive {s msg rest} (h : (s.clients u).phase = .watching) (hchan : (s.clients u).commChan = msg :: rest)
      (hlast : msg.isLast = false) : Handle u s (s.setChan u rest)
  | receiveLast {s msg rest} (h : (s.clients u).phase = .watching) (hchan : (s.clients u).commChan = msg :: rest)
      (hlast : msg.isLast = true) : Handle u s ((s.setChan u rest).setPhase u .leaving)
  | remove {s} (h : (s.clients u).phase = .leaving) (hfree : s.loop.holdsLock = false) :
      Handle u s (s.removeConsumer u)
  | close {s} (h : (s.clients u).phase = .removed ∨ (s.clients u).phase = .refused) :
      Handle u s (s.setPhase u .closed)

def At (s : System) (k : ℕ) (c : WatchConsumer) : Prop := s.consumers[k]? = some (some c)

def setEntry (s : System) (k : ℕ) (c : WatchConsumer) : System := { s with consumers := s.consumers.set k (some c) }

def goTo (s : System) (loop : Loop) : System := { s with loop }

/-- The channel of the consumer is closed. -/
def IsClosed (s : System) (c : WatchConsumer) : Prop := (s.clients c.uuid).phase = .closed

/-- The multiplexer: `Start`, `sendMsgToClients` and `tellClientsToExit`. -/
inductive Multiplex : System → System → Prop
  | start {s} (h : s.loop = .starting) : Multiplex s { s with running := true, loop := .waiting }
  | receive {s msg rest} (h : s.loop = .waiting) (hmsgs : s.msgs = msg :: rest) :
      Multiplex s { s with msgs := rest, loop := .received msg }
  | lock {s msg} (h : s.loop = .received msg) : Multiplex s (s.goTo (.sending msg 0))
  | unlock {s msg k} (h : s.loop = .sending msg k) (hk : s.consumers.length ≤ k) : Multiplex s (s.goTo .waiting)
  | skip {s msg k c} (h : s.loop = .sending msg k) (hk : s.At k c) (hjob : msg.job ≠ c.job) :
      Multiplex s (s.goTo (.sending msg (k + 1)))
  | forbidden {s msg k c limiter} (h : s.loop = .sending msg k) (hk : s.At k c) (hjob : msg.job = c.job)
      (hsend : (clientSendAllowed limiter c msg).1 = false) :
      Multiplex s ((s.setEntry k (clientSendAllowed limiter c msg).2).goTo (.sending msg (k + 1)))
  | send {s msg k c limiter} (h : s.loop = .sending msg k) (hk : s.At k c) (hjob : msg.job = c.job)
      (hsend : (clientSendAllowed limiter c msg).1 = true) (hopen : ¬ s.IsClosed c)
      (hroom : (s.clients c.uuid).commChan.length < commChanSize) :
      Multiplex s (((s.setEntry k (clientSendAllowed limiter c msg).2).setChan c.uuid
        ((s.clients c.uuid).commChan ++ [msg])).goTo (.sending msg (k + 1)))
  | sendFull {s msg k c limiter} (h : s.loop = .sending msg k) (hk : s.At k c) (hjob : msg.job = c.job)
      (hsend : (clientSendAllowed limiter c msg).1 = true) (hopen : ¬ s.IsClosed c)
      (hfull : ¬ (s.clients c.uuid).commChan.length < commChanSize) :
      Multiplex s ((s.setEntry k (clientSendAllowed limiter c msg).2).goTo (.full msg k))
  | sendClosed {s msg k c limiter} (h : s.loop = .sending msg k) (hk : s.At k c) (hjob : msg.job = c.job)
      (hsend : (clientSendAllowed limiter c msg).1 = true) (hclosed : s.IsClosed c) :
      Multiplex s (s.goTo .panicked)
  | sendNil {s msg k} (h : s.loop = .sending msg k) (hk : s.consumers[k]? = some none) : Multiplex s (s.goTo .panicked)
  | makeRoom {s msg k c old rest} (h : s.loop = .full msg k) (hk : s.At k c)
      (hchan : (s.clients c.uuid).commChan = old :: rest) : Multiplex s ((s.setChan c.uuid rest).goTo (.retry msg k))
  /-- The handler has taken all messages meanwhile. -/
  | drained {s msg k c} (h : s.loop = .full msg k) (hk : s.At k c) (hchan : (s.clients c.uuid).commChan = [])
      (hopen : ¬ s.IsClosed c) : Multiplex s (s.goTo (.sending msg (k + 1)))
  /-- A closed channel always has something to receive. -/
  | drainedClosed {s msg k c} (h : s.loop = .full msg k) (hk : s.At k c) (hchan : (s.clients c.uuid).commChan = [])
      (hclosed : s.IsClosed c) : Multiplex s (s.goTo (.retry msg k))
  | resend {s msg k c} (h : s.loop = .retry msg k) (hk : s.At k c) (hopen : ¬ s.IsClosed c)
      (hroom : (s.clients c.uuid).commChan.length < commChanSize) :
      Multiplex s ((s.setChan c.uuid ((s.clients c.uuid).commChan ++ [msg])).goTo (.sending msg (k + 1)))
  | discard {s msg k c} (h : s.loop = .retry msg k) (hk : s.At k c) (hopen : ¬ s.IsClosed c)
      (hfull : ¬ (s.clients c.uuid).commChan.length < commChanSize) : Multiplex s (s.goTo (.sending msg (k + 1)))
  | resendClosed {s msg k c} (h : s.loop = .retry msg k) (hk : s.At k c) (hclosed : s.IsClosed c) :
      Multiplex s (s.goTo .panicked)
  | stop {s} (h : s.loop = .waiting) (hdone : s.ctxDone = true) : Multiplex s (s.goTo .stopping)
  | notRunning {s} (h : s.loop = .stopping) : Multiplex s { s with running := false, loop := .stopped }
  | lockToTell {s} (h : s.loop = .stopped) : Multiplex s (s.goTo (.telling 0))
  | tell {s k c} (h : s.loop = .telling k) (hk : s.At k c) :
      Multiplex s ((s.setClient c.uuid { s.clients c.uuid with cancelled := true }).goTo (.telling (k + 1)))
  | tellNil {s k} (h : s.loop = .telling k) (hk : s.consumers[k]? = some none) : Multiplex s (s.goTo .panicked)
  | exit {s k} (h : s.loop = .telling k) (hk : s.consumers.length ≤ k) : Multiplex s (s.goTo .exited)

/-- A step of any part. The guard narrows down the steps of the multiplexer. -/
inductive Step (guard : System → Prop) : System → System → Prop
  | produce {s s'} (h : Produce s s') : Step guard s s'
  | handle {s s'} (u : Str) (h : Handle u s s') : Step guard s s'
  | multiplex {s s'} (hguard : guard s) (h : Multiplex s s') : Step guard s s'

def Reachable (jobs : Str → Job) : System → Prop := Relation.ReflTransGen (Step fun _ => True) (start jobs)

end System

end CloudBackup.Watcher
