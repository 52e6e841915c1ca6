import CodeFactory.Sched.Launcher

/-!
# The loop of the scheduler

`tpciserv.c`: what is done with a descriptor that is ready. A step of the scheduler is a part of its start, or the body of the loop of
`sched_processEvents` for one descriptor; the order of the descriptors is left open.
-/

namespace CodeFactory.Sched

open Oal Msg

def tcmMsgAppLaunched : BitVec 32 := 0x10000001

def tcmMsgRegisterEventInterest : BitVec 32 := 0x10000004

def tcmMsgUnregisterEventInterest : BitVec 32 := 0x10000005

def tcmMsgBounced : BitVec 32 := 0x10000006

def tcmMsgStartApp : BitVec 32 := 0x10000007

def tcmMsgStopApp : BitVec 32 := 0x10000008

def tcmMsgRestartApp : BitVec 32 := 0x10000009

def tcmMsgIsAppRunning : BitVec 32 := 0x1000000A

/-- `TCMRET_SUCCESS` as a number. -/
def tcmretSuccess : BitVec 32 := 0

/-- `TCMRET_OBJECT_NOT_FOUND` as a number. -/
def tcmretObjectNotFound : BitVec 32 := 13

/-- The string that stands in the data of a message. -/
def dataString (data : List UInt8) : List UInt8 := data.takeWhile (· ≠ 0)

/-- The message as `processMsgSimpleFooter` sends it back. -/
def response (msg : TcmMsg) (rv : BitVec 32) : TcmMsg :=
  { msg with src := msg.dst, dst := msg.src, request := false, response := true, data := [], wordData := rv }

/-- The registration has other match data than the event. -/
def matchFails (info : EvtInterestInfo) (msg : TcmMsg) : Bool :=
  match info.matchData with
  | none => false
  | some d => msg.data.isEmpty || d != dataString msg.data

/-- The copy of an event message that is sent to an application. -/
def eventCopy (msg : TcmMsg) (target : DlsInfo) : TcmMsg := { msg with dst := target.eid }

namespace Scheduler

def processMsgSimpleFooter (s : Scheduler) (p : Nat) (rv : BitVec 32) (msg : TcmMsg) : Outcome Scheduler :=
  (s.info p).map fun dInfo => s.tcmMsgSendBySocket dInfo.commFd (response msg rv)

/-- The destination of a message does not run, for `flags_bounceIfNotRunning`. -/
def notRunningFor (dst : Option (Nat × DlsInfo)) : Bool :=
  match dst with
  | none => true
  | some (_, dInfo) => dInfo.state = .notRunning || dInfo.state = .terminateRequested

/-- The answer to a message that bounces goes to the record of its source, which may be absent. -/
def bounce (s : Scheduler) (msg : TcmMsg) : Outcome Scheduler :=
  if msg.event then .done s
  else (follow (getExistingDlsInfo s msg.src)).bind fun src => s.processMsgSimpleFooter src.1 tcmMsgBounced msg

/-- The end of `sched_routeMessage`. -/
def routeTo (T : EntityTable) (k : Kernel) (s : Scheduler) (msg : TcmMsg) : Outcome Scheduler :=
  match getDlsInfo T k s msg.dst with
  | (s, none) => .done s
  | (s, some p) => s.sendMessageByAppState k p msg

def schedRouteMessage (T : EntityTable) (k : Kernel) (s : Scheduler) (msg : TcmMsg) : Outcome Scheduler :=
  if msg.bounceIfNotRunning ∧ notRunningFor (getExistingDlsInfo s msg.dst) then s.bounce msg else s.routeTo T k msg

/-- A round of the loop of `sched_distributeEventMessage`, for an event that comes from the application of `src`. -/
def distributeRound (T : EntityTable) (k : Kernel) (src : Nat) (msg : TcmMsg) (s : Scheduler) (info : EvtInterestInfo) :
    Outcome Scheduler :=
  match getDlsInfo T k s info.eid with
  | (s, none) => .done s
  | (s, some p) =>
    if p = src then .done s
    else if matchFails info msg then .done s
    else (s.info p).bind fun target => s.sendMessageByAppState k p (eventCopy msg target)

def schedDistributeEventMessage (T : EntityTable) (k : Kernel) (s : Scheduler) (src : Nat) (msg : TcmMsg) : Outcome Scheduler :=
  (s.info src).bind fun _ =>
    (interestFindByType s.evtInterests msg.type).bind fun
      | none => .done s
      | some ev => Outcome.foldl (distributeRound T k src msg) s ev.evtInfos

/-- The end of `sched_processRegisterEventInterest`: the response, then the count, which must not become negative. -/
def finishRegister (s : Scheduler) (p : Nat) (delta : Int) (msg : TcmMsg) : Outcome Scheduler :=
  (s.processMsgSimpleFooter p tcmretSuccess msg).bind fun s =>
    (s.info p).map fun dInfo =>
      let num := dInfo.numEventInterestRequested + delta
      let s := s.setInfo p { dInfo with numEventInterestRequested := num }
      if 0 ≤ num then s else { s with aborted := true }

def schedProcessRegisterEventInterest (s : Scheduler) (p : Nat) (msg : TcmMsg) (positive : Bool) : Outcome Scheduler :=
  (s.info p).bind fun _ =>
    if positive then
      let matchData := if msg.data = [] then none else some (dataString msg.data)
      (interestRegister s.evtInterests msg.wordData msg.src matchData).bind fun r =>
        { s with evtInterests := r.2 }.finishRegister p (if r.1 = TcmRet.success then 1 else 0) msg
    else
      (interestUnregister s.evtInterests msg.wordData msg.src).bind fun r =>
        { s with evtInterests := r.2 }.finishRegister p (if r.1 = TcmRet.success then -1 else 0) msg

/-- The record that `startApp` starts. -/
def startTarget (T : EntityTable) (k : Kernel) (s : Scheduler) (eInfo : TcmEntityInfo) (eid : BitVec 32) : Scheduler × Option Nat :=
  if eInfo.multiple then getNewDlsInfo T k s eid else getDlsInfo T k s eid

/-- `startApp`: the process id of the application. -/
def startApp (T : EntityTable) (k : Kernel) (s : Scheduler) (eid : BitVec 32) : Outcome (Int × Scheduler) :=
  match tcmEidGetEntityInfo T eid with
  | none => .done (tcmInvalidPid, s)
  | some eInfo =>
    match startTarget T k s eInfo eid with
    | (s, none) => .done (tcmInvalidPid, s)
    | (s, some p) => (s.info p).bind fun dInfo =>
      if dInfo.state = .notRunning then
        (s.launchApp k p).bind fun s => (s.info p).map fun dInfo => (dInfo.pid, s)
      else .done (tcmInvalidPid, s)

def stopApp (T : EntityTable) (k : Kernel) (s : Scheduler) (specificEid : BitVec 32) : Outcome Scheduler :=
  match tcmEidGetEntityInfo T (genericEid specificEid) with
  | none => .done s
  | some _ =>
    match getExistingDlsInfo s specificEid with
    | none => .done s
    | some (p, dInfo) => if dInfo.state = .notRunning then .done s else s.terminateApp k p

def schedProcessStartAppMsg (T : EntityTable) (k : Kernel) (s : Scheduler) (p : Nat) (msg : TcmMsg) : Outcome Scheduler :=
  (s.startApp T k msg.wordData).bind fun r => r.2.processMsgSimpleFooter p (BitVec.ofInt 32 r.1) msg

def schedProcessStopAppMsg (T : EntityTable) (k : Kernel) (s : Scheduler) (p : Nat) (msg : TcmMsg) : Outcome Scheduler :=
  (s.stopApp T k msg.wordData).bind fun s => s.processMsgSimpleFooter p tcmretSuccess msg

def schedProcessRestartAppMsg (T : EntityTable) (k : Kernel) (s : Scheduler) (p : Nat) (msg : TcmMsg) : Outcome Scheduler :=
  (s.stopApp T k msg.wordData).bind fun s =>
    (s.startApp T k (genericEid msg.wordData)).bind fun r => r.2.processMsgSimpleFooter p (BitVec.ofInt 32 r.1) msg

def schedProcessIsAppRuning (s : Scheduler) (p : Nat) (msg : TcmMsg) : Outcome Scheduler :=
  let rv := match getExistingDlsInfo s msg.wordData with
    | some (_, dInfo) => if dInfo.state = .running then tcmretSuccess else tcmretObjectNotFound
    | none => tcmretObjectNotFound
  s.processMsgSimpleFooter p rv msg

/-- The messages to the scheduler that are no events. -/
def processRequest (T : EntityTable) (k : Kernel) (s : Scheduler) (p : Nat) (msg : TcmMsg) : Outcome Scheduler :=
  if msg.type = tcmMsgRegisterEventInterest then s.schedProcessRegisterEventInterest p msg true
  else if msg.type = tcmMsgUnregisterEventInterest then s.schedProcessRegisterEventInterest p msg false
  else if msg.type = tcmMsgStartApp then s.schedProcessStartAppMsg T k p msg
  else if msg.type = tcmMsgStopApp then s.schedProcessStopAppMsg T k p msg
  else if msg.type = tcmMsgRestartApp then s.schedProcessRestartAppMsg T k p msg
  else if msg.type = tcmMsgIsAppRunning then s.schedProcessIsAppRuning p msg
  else .done s

/-- `sched_processMessage`, for a message that comes from the application of `p`. -/
def schedProcessMessage (T : EntityTable) (k : Kernel) (s : Scheduler) (p : Nat) (msg : TcmMsg) : Outcome Scheduler :=
  if msg.requeue then (s.info p).map fun dInfo => s.tcmMsgSendBySocket dInfo.commFd { msg with requeue := false }
  else if msg.dst = idSched then
    if msg.event then s.schedDistributeEventMessage T k p msg else s.processRequest T k p msg
  else s.schedRouteMessage T k msg

/-- `processLaunchConfirmation`, on a record that has just got its connection: the queued messages are written, from the head of the
queue on. -/
def processLaunchConfirmation (s : Scheduler) (p : Nat) (dInfo : DlsInfo) : Scheduler :=
  dInfo.msgQueue.foldl (fun s msg => s.deliver p dInfo msg)
    ((s.setInfo p { dInfo with state := .running, msgQueue := [] }).fdSet dInfo.commFd)

/-- A connection that has been accepted and brings a launch message: the record of its source gets it. -/
def attach (T : EntityTable) (k : Kernel) (s : Scheduler) (fd : Int) (src : BitVec 32) : Outcome Scheduler :=
  match getDlsInfo T k s src with
  | (s, none) => .done (s.close fd)
  | (s, some p) => (s.info p).map fun dInfo => s.processLaunchConfirmation p { dInfo with commFd := fd }

/-- The part of the loop for the descriptor that listens. No message: none comes in time. -/
def acceptConnection (T : EntityTable) (k : Kernel) (s : Scheduler) (launchMsg : Option TcmMsg) : Outcome Scheduler :=
  match s.newFd k with
  | none => .done s.ask
  | some fd =>
    let s := { s.ask with openFds := insert fd s.openFds }
    match launchMsg with
    | none => .done (s.close fd)
    | some msg => if msg.type ≠ tcmMsgAppLaunched ∨ msg.dst ≠ idSched then .done (s.close fd) else s.attach T k fd msg.src

/-- What `tcmMsg_receiveBySocket` gives. -/
inductive Received where
  | message (msg : TcmMsg)
  | disconnected
  | failed
  deriving DecidableEq, Repr

/-- The part of the loop for a server descriptor. -/
def serverPart (k : Kernel) (s : Scheduler) (fd : Int) : Outcome Scheduler :=
  match getDlsInfoByServerFd s fd with
  | none => .done s
  | some (p, dInfo) => if dInfo.state = .notRunning then s.launchApp k p else .done s

/-- The part of the loop for a connection. -/
def commPart (T : EntityTable) (k : Kernel) (s : Scheduler) (fd : Int) (received : Received) : Outcome Scheduler :=
  match getDlsInfoByCommFd s fd with
  | none => .done s
  | some (p, _) =>
    match received with
    | .message msg => s.schedProcessMessage T k p msg
    | .disconnected => s.collectApp k p
    | .failed => .done s

/-- The part of the loop for the descriptor that listens. -/
def listenPart (T : EntityTable) (k : Kernel) (s : Scheduler) (fd : Int) (launchMsg : Option TcmMsg) : Outcome Scheduler :=
  if fd = s.ipcListenFd then s.acceptConnection T k launchMsg else .done s

/-- The body of the loop of `sched_processEvents`, for a descriptor that is ready. -/
def processFd (T : EntityTable) (k : Kernel) (s : Scheduler) (fd : Int) (received : Received) (launchMsg : Option TcmMsg) :
    Outcome Scheduler :=
  (s.serverPart k fd).bind fun s => (s.commPart T k fd received).bind fun s =>
    if s.aborted then .done s else s.listenPart T k fd launchMsg

/-- A step of the scheduler: a part of its start, or a part of the body of its loop. -/
inductive Act where
  | initDls (stage : Nat)
  | appLauncher (stage : Nat)
  | server (fd : Int)
  | comm (fd : Int) (received : Received)
  | listen (fd : Int) (launchMsg : Option TcmMsg)

/-- `init_launcher`, up to its call of `initDls`: the first descriptors of the process are its standard files. -/
def start (listenFd : Int) : Scheduler where
  dlsInfos := Pool.empty
  readFdsMaster := {listenFd}
  ipcListenFd := listenFd
  evtInterests := []
  openFds := {0, 1, 2, listenFd}
  asked := 0
  written := []
  handed := []
  delivered := []
  aborted := false

/-- What a step comes to. -/
def act (T : EntityTable) (k : Kernel) (s : Scheduler) : Act → Outcome Scheduler
  | .initDls stage => .done (Sched.initDls T k stage s T).2
  | .appLauncher stage => s.appLauncher k stage
  | .server fd => s.serverPart k fd
  | .comm fd received => s.commPart T k fd received
  | .listen fd launchMsg => s.listenPart T k fd launchMsg

/-- The state that a step leads to, if it has a result. -/
def next (T : EntityTable) (k : Kernel) (s : Scheduler) (a : Act) : Scheduler :=
  match s.act T k a with
  | .done t => t
  | _ => s

/-- A kernel that gives descriptors from 7 on, and the process id 300. -/
def plainKernel : Kernel where
  fd n := some (7 + n)
  spawn _ := some 300
  collect _ := none

/-- The launch message of an application. -/
def hello (src : BitVec 32) : TcmMsg := { emptyMsgHeader with type := tcmMsgAppLaunched, src := src, dst := idSched }

/-- An application that is started by somebody else. -/
def askerTable : EntityTable := [⟨11, [], 0, true⟩]

/-- The application has connected. -/
def askerConnected : Scheduler := next askerTable plainKernel (Scheduler.start 3) (.listen 3 (some (hello 11)))

/-- A request of the application to the scheduler. -/
def askerRequest (type wordData : BitVec 32) : TcmMsg :=
  { emptyMsgHeader with type := type, src := 11, dst := idSched, request := true, wordData := wordData }

/-- The descriptor that a step is for is one, and the process is there. -/
def Ready (s : Scheduler) (a : Act) : Prop :=
  s.aborted = false ∧ match a with
    | .initDls _ | .appLauncher _ => True
    | .server fd | .comm fd _ | .listen fd _ => 0 ≤ fd

/-- A step that has a result. It is not asked whether `select` would give the descriptor. -/
def step (T : EntityTable) : Step Scheduler (Kernel × Act) := fun s a t => s.Ready a.2 ∧ s.act T a.1 a.2 = .done t

variable {T : EntityTable} {k : Kernel} {s t : Scheduler}

/-- The loop of `sched_processEvents` over what is ready. -/
def processReady (T : EntityTable) (s : Scheduler) : List (Kernel × Int × Received × Option TcmMsg) → Outcome Scheduler
  | [] => .done s
  | (k, fd, received, launchMsg) :: ready =>
    (s.processFd T k fd received launchMsg).bind fun s => if s.aborted then .done s else s.processReady T ready

theorem serverPart_aborted {fd : Int} (h : s.serverPart k fd = .done t) : t.aborted = s.aborted := by
  unfold serverPart at h
  split at h
  · cases h
    rfl
  split at h
  · obtain ⟨d, -, ht⟩ := Outcome.map_eq_done.1 h
    rw [← ht, launch]
    split
    · rfl
    · exact (apply_ite Scheduler.aborted ..).trans (ite_self _)
  · cases h
    rfl

/-- **The loop goes by steps**: whatever is ready and whatever comes in, what it leads to is what a run leads to. -/
theorem processReady_run {ready : List (Kernel × Int × Received × Option TcmMsg)} (hs : s.aborted = false) (hready : ∀ x ∈ ready, 0 ≤ x.2.1)
    (h : s.processReady T ready = .done t) : ∃ tr, Run (step T) s tr t := by
  induction ready generalizing s with
  | nil =>
    cases h
    exact ⟨[], .nil⟩
  | cons x ready ih =>
    obtain ⟨hfd, hready⟩ := List.forall_mem_cons.1 hready
    obtain ⟨s₃, hround, h⟩ := Outcome.bind_eq_done.1 h
    obtain ⟨s₁, hserver, hround⟩ := Outcome.bind_eq_done.1 hround
    obtain ⟨s₂, hcomm, hlisten⟩ := Outcome.bind_eq_done.1 hround
    have hfirst : step T s (x.1, .server x.2.1) s₁ := ⟨⟨hs, hfd⟩, hserver⟩
    have hsecond : step T s₁ (x.1, .comm x.2.1 x.2.2.1) s₂ := ⟨⟨(serverPart_aborted hserver).trans hs, hfd⟩, hcomm⟩
    by_cases hgone : s₂.aborted
    · rw [if_pos hgone] at hlisten
      cases hlisten
      rw [if_pos hgone] at h
      cases h
      exact ⟨_, .cons hfirst (.single hsecond)⟩
    rw [if_neg hgone] at hlisten
    have hthird : step T s₂ (x.1, .listen x.2.1 x.2.2.2) s₃ := ⟨⟨eq_false_of_ne_true hgone, hfd⟩, hlisten⟩
    split at h
    · cases h
      exact ⟨_, .cons hfirst (.cons hsecond (.single hthird))⟩
    · next hgone =>
      obtain ⟨tr, htr⟩ := ih (eq_false_of_ne_true hgone) hready h
      exact ⟨_, .cons hfirst (.cons hsecond (.cons hthird htr))⟩

theorem processReady_run_asker : ∃ tr, Run (step askerTable) (start 3) tr askerConnected :=
  processReady_run rfl (by decide)
    (show (start 3).processReady askerTable [(plainKernel, 3, .failed, some (hello 11))] = .done askerConnected from rfl)

end Scheduler

end CodeFactory.Sched
