import CodeFactory.Sched.Interest

/-!
# Starting applications and their exit

`launcher.c`, and of `tpciserv.c` what is done when an application exits. Following a pointer to a record that is not in the list is
undefined. The processes are taken to get the signals that are sent to them.
-/

namespace CodeFactory.Sched

open Oal Msg

def tcmMsgSystemBoot : BitVec 32 := 0x10000002

namespace Scheduler

/-- The record of an address. -/
def info (s : Scheduler) (p : Nat) : Outcome DlsInfo := follow (s.dlsInfos.get? p)

/-- The record as `launchApp` leaves it, when `prctl_spawnProcess` has answered. -/
def launchedInfo (dInfo : DlsInfo) (spawned : Option Int) : DlsInfo :=
  let dInfo := { dInfo with
    state := if dInfo.eInfo.has appcfgMessagingCapable then .launched else .running
    pid := spawned.getD tcmInvalidPid }
  match spawned with
  | none => dInfo
  | some pid =>
    if dInfo.eInfo.multiple then { dInfo with specificEid := makeSpecificEid (BitVec.ofInt 32 pid) dInfo.eInfo.eid } else dInfo

/-- The body of `launchApp`, on the record of `p`. -/
def launch (k : Kernel) (s : Scheduler) (p : Nat) (dInfo : DlsInfo) : Scheduler :=
  if dInfo.eInfo.path = [] then s
  else
    let s := s.ask.setInfo p (launchedInfo dInfo (k.spawn s.asked))
    if dInfo.eInfo.monitored then s.fdClr dInfo.serverFd else s

def launchApp (k : Kernel) (s : Scheduler) (p : Nat) : Outcome Scheduler := (s.info p).map fun dInfo => s.launch k p dInfo

/-- `queuemsg`: the message goes to the head of the queue. -/
def queuemsg (s : Scheduler) (p : Nat) (dInfo : DlsInfo) (msg : TcmMsg) : Scheduler :=
  s.setInfo p { dInfo with msgQueue := msg :: dInfo.msgQueue }

/-- The message is handed over for the application of the record. -/
def hand (s : Scheduler) (p : Nat) (dInfo : DlsInfo) (msg : TcmMsg) : Scheduler :=
  if dInfo.eInfo.launchable then { s with handed := s.handed ++ [(p, msg)] } else s

/-- A message that was handed over is written to the connection. -/
def deliver (s : Scheduler) (p : Nat) (dInfo : DlsInfo) (msg : TcmMsg) : Scheduler :=
  let s := s.tcmMsgSendBySocket dInfo.commFd msg
  if dInfo.eInfo.launchable ∧ dInfo.commFd ≠ tcmInvalidFd then { s with delivered := s.delivered ++ [(p, msg)] } else s

/-- `sendMessageByAppState` up to its call of `launchApp`. -/
def takeMessage (s : Scheduler) (p : Nat) (dInfo : DlsInfo) (msg : TcmMsg) : Scheduler :=
  match dInfo.state with
  | .notRunning | .launched => (s.hand p dInfo msg).queuemsg p dInfo msg
  | .running => (s.hand p dInfo msg).deliver p dInfo msg
  | .terminateRequested => s.hand p dInfo msg

def sendMessageByAppState (k : Kernel) (s : Scheduler) (p : Nat) (msg : TcmMsg) : Outcome Scheduler :=
  (s.info p).bind fun dInfo =>
    if dInfo.state = .notRunning then (s.takeMessage p dInfo msg).launchApp k p else .done (s.takeMessage p dInfo msg)

/-- The message that `app_launcher` sends to an application. -/
def bootMsg (eInfo : TcmEntityInfo) : TcmMsg :=
  { emptyMsgHeader with type := tcmMsgSystemBoot, src := idSched, dst := eInfo.eid, event := true }

/-- The applications that `app_launcher` starts. -/
def appLauncherWants (stage : Nat) (eInfo : TcmEntityInfo) : Bool :=
  stage = 1 && eInfo.has appcfgLaunchInStage1 || stage = 2 && eInfo.has appcfgLaunchOnBoot

/-- The end of a round of `app_launcher`: an application that is not running by now is launched. -/
def launchUnlessRunning (k : Kernel) (s : Scheduler) (p : Nat) : Outcome Scheduler :=
  (s.info p).bind fun dInfo =>
    if dInfo.state = .notRunning ∨ dInfo.state = .terminateRequested then s.launchApp k p else .done s

/-- A round of `app_launcher`. -/
def appLauncherRound (k : Kernel) (stage : Nat) (s : Scheduler) (p : Nat) : Outcome Scheduler :=
  (s.info p).bind fun dInfo =>
    if appLauncherWants stage dInfo.eInfo then
      (if dInfo.eInfo.has appcfgMessagingCapable then s.sendMessageByAppState k p (bootMsg dInfo.eInfo) else .done s).bind
        fun s => s.launchUnlessRunning k p
    else .done s

def appLauncher (k : Kernel) (stage : Nat) (s : Scheduler) : Outcome Scheduler :=
  Outcome.foldl (appLauncherRound k stage) s (s.dlsInfos.entries.map Prod.fst)

/-! ## Exit -/

/-- The signals after which `collectApp` starts an application again. -/
def isCrash (signal : ExitSignal) : Bool :=
  match signal with
  | .sigill | .sigabrt | .sigfpe | .sigsegv | .sigpipe | .sigbus | .sigxcpu | .sigxfsz => true
  | .none | .other => false

/-- The first part of `collectApp`: the queue is freed and the connection closed. -/
def disconnect (s : Scheduler) (p : Nat) (dInfo : DlsInfo) : Scheduler :=
  let s := if dInfo.commFd = tcmInvalidFd then s else (s.fdClr dInfo.commFd).close dInfo.commFd
  s.setInfo p { dInfo with msgQueue := [], commFd := tcmInvalidFd }

/-- The test of the end of `collectApp`: the record is freed. -/
def isFreed (dInfo : DlsInfo) : Bool :=
  !dInfo.eInfo.monitored &&
    (dInfo.eInfo.multiple || (dInfo.numDelayedMsgRequested = 0 && dInfo.numEventInterestRequested = 0))

/-- The end of `collectApp`: the server descriptor is monitored again, and the record is freed or made ready for a new start. -/
def retire (s : Scheduler) (p : Nat) (dInfo : DlsInfo) : Outcome Scheduler :=
  let s := if dInfo.eInfo.monitored then s.fdSet dInfo.serverFd else s
  if isFreed dInfo then
    (interestUnregisterAll s.evtInterests dInfo.eid).map fun evs =>
      { s with evtInterests := evs, dlsInfos := s.dlsInfos.remove p }
  else .done (s.setInfo p { dInfo with state := .notRunning, pid := tcmInvalidPid, specificEid := 0 })

/-- What `prctl_collectProcess` leads to: the application is started again after a crash. A process that cannot be collected is
killed and asked for once more, which changes nothing. -/
def relaunches (dInfo : DlsInfo) (collected : Option ExitSignal) : Bool :=
  match collected with
  | none => false
  | some signal => isCrash signal && dInfo.eInfo.has appcfgAutoRelaunch

/-- `collectApp` behind its first part. -/
def collectProcess (k : Kernel) (s : Scheduler) (p : Nat) (dInfo : DlsInfo) : Outcome Scheduler :=
  if dInfo.pid = tcmInvalidPid then s.retire p dInfo
  else if relaunches dInfo (k.collect s.asked) then s.ask.launchApp k p
  else if (k.collect s.asked).isNone then s.ask.ask.retire p dInfo
  else s.ask.retire p dInfo

def collectApp (k : Kernel) (s : Scheduler) (p : Nat) : Outcome Scheduler :=
  (s.info p).bind fun dInfo =>
    (s.disconnect p dInfo).collectProcess k p { dInfo with msgQueue := [], commFd := tcmInvalidFd }

/-- `terminateApp`; the console gets no signal, and is collected like the others. -/
def terminateApp (k : Kernel) (s : Scheduler) (p : Nat) : Outcome Scheduler :=
  (s.info p).bind fun dInfo => if dInfo.state = .notRunning then .done s else s.collectApp k p

end Scheduler

end CodeFactory.Sched
