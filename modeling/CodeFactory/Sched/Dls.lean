import CodeFactory.Lib.Outcome
import CodeFactory.Lib.Pool
import CodeFactory.Msg.TcmMsg
import Mathlib.Data.Finset.Basic

/-!
# The applications that the scheduler knows

`dls.c` and the entity ids of `tcm_eid.h`: the records of the applications, how they are looked up and made. The table of the
entities is a parameter, as is what the kernel answers. Memory is taken to be there, and `maxFd` is taken to be what it is meant to
be, the greatest descriptor that is monitored. The command line that an application is started with stays out.
-/

namespace CodeFactory.Sched

open Oal Msg

/-! ## Entity ids -/

def eidEidMask : BitVec 32 := 0x0000ffff

def genericEid (e : BitVec 32) : BitVec 32 := e &&& eidEidMask

def pidInEid (e : BitVec 32) : BitVec 32 := (e &&& eidEidMask) >>> 16

def makeSpecificEid (p e : BitVec 32) : BitVec 32 := (p <<< 16) ||| (e &&& eidEidMask)

def idConsole : BitVec 32 := 4

def idSched : BitVec 32 := 5

def appcfgServer : BitVec 16 := 0x01

def appcfgLaunchInStage1 : BitVec 16 := 0x04

def appcfgLaunchOnBoot : BitVec 16 := 0x08

def appcfgMessagingCapable : BitVec 16 := 0x40

def appcfgMultipleInstances : BitVec 16 := 0x80

def appcfgAutoRelaunch : BitVec 16 := 0x200

def tcmInvalidFd : Int := -1

def tcmInvalidPid : Int := 0

structure TcmEntityInfo where
  eid : BitVec 32
  path : List Char
  flags : BitVec 16
  featureCompiled : Bool
  deriving DecidableEq, Repr

namespace TcmEntityInfo

/-- `flags & flag`. -/
def has (e : TcmEntityInfo) (flag : BitVec 16) : Bool := e.flags &&& flag != 0

/-- The application can have multiple instances. -/
def multiple (e : TcmEntityInfo) : Bool := e.has appcfgMultipleInstances

/-- A server or the console: its server descriptor is monitored while it is not running. -/
def monitored (e : TcmEntityInfo) : Bool := e.has appcfgServer || e.eid == idConsole

/-- There is a program to start, and it will connect to the scheduler. -/
def launchable (e : TcmEntityInfo) : Bool := !e.path.isEmpty && e.has appcfgMessagingCapable

end TcmEntityInfo

/-- `entityInfoArray`. -/
abbrev EntityTable := List TcmEntityInfo

def tcmEidGetEntityInfo (T : EntityTable) (eid : BitVec 32) : Option TcmEntityInfo := T.find? fun e => e.eid = eid

/-! ## The state -/

inductive DlsState where
  | notRunning
  | launched
  | running
  | terminateRequested
  deriving DecidableEq, Repr

structure DlsInfo where
  eInfo : TcmEntityInfo
  state : DlsState
  serverFd : Int
  commFd : Int
  pid : Int
  specificEid : BitVec 32
  numDelayedMsgRequested : Int
  numEventInterestRequested : Int
  msgQueue : List TcmMsg
  deriving DecidableEq, Repr

/-- The id that messages to the application carry. -/
def DlsInfo.eid (dInfo : DlsInfo) : BitVec 32 := if dInfo.eInfo.multiple then dInfo.specificEid else dInfo.eInfo.eid

structure EvtInterestInfo where
  eid : BitVec 32
  matchData : Option (List UInt8)
  deriving DecidableEq, Repr

structure EvtInterest where
  type : BitVec 32
  evtInfos : List EvtInterestInfo
  deriving DecidableEq, Repr

/-- The global variables of the scheduler, and what it has done. -/
structure Scheduler where
  dlsInfos : Pool DlsInfo
  readFdsMaster : Finset Int
  ipcListenFd : Int
  evtInterests : List EvtInterest
  /-- The descriptors that the process has open. -/
  openFds : Finset Int
  /-- How many questions the kernel has been asked. -/
  asked : Nat
  /-- What was written, and to which descriptor. -/
  written : List (Int × TcmMsg)
  /-- The messages that were handed to a record of a launchable application, with the address of the record. -/
  handed : List (Nat × TcmMsg)
  /-- Those of them that were written to the connection of the record. -/
  delivered : List (Nat × TcmMsg)
  /-- An assertion has failed, and the process is gone. -/
  aborted : Bool

/-- The signal that ended a process. -/
inductive ExitSignal where
  | none
  | sigill
  | sigabrt
  | sigfpe
  | sigsegv
  | sigpipe
  | sigbus
  | sigxcpu
  | sigxfsz
  | other
  deriving DecidableEq, Repr

/-- What the kernel answers to its questions, by their number. -/
structure Kernel where
  /-- A new descriptor, of a socket or of a connection that is accepted. -/
  fd : Nat → Option Int
  /-- `prctl_spawnProcess`: the process id that `fork` gives, -1 included. -/
  spawn : Nat → Option Int
  /-- `prctl_collectProcess`: the signal that ended the process. -/
  collect : Nat → Option ExitSignal

namespace Scheduler

/-- A question has been asked. -/
def ask (s : Scheduler) : Scheduler := { s with asked := s.asked + 1 }

/-- The descriptor that the kernel gives. It is not open; any other answer counts as an error. -/
def newFd (k : Kernel) (s : Scheduler) : Option Int :=
  (k.fd s.asked).filter fun fd => 0 ≤ fd ∧ fd ∉ s.openFds

/-- The state in which `FD_SET` is done. -/
def fdSet (s : Scheduler) (fd : Int) : Scheduler := { s with readFdsMaster := insert fd s.readFdsMaster }

/-- The state in which `FD_CLR` is done. -/
def fdClr (s : Scheduler) (fd : Int) : Scheduler := { s with readFdsMaster := s.readFdsMaster.erase fd }

def close (s : Scheduler) (fd : Int) : Scheduler := { s with openFds := s.openFds.erase fd }

/-- A record is changed. -/
def setInfo (s : Scheduler) (p : Nat) (dInfo : DlsInfo) : Scheduler := { s with dlsInfos := s.dlsInfos.set p dInfo }

/-- `dlist_prepend` to the list of the records, which puts a record at its end. -/
def linkInfo (s : Scheduler) (dInfo : DlsInfo) : Scheduler := { s with dlsInfos := s.dlsInfos.append dInfo }

/-- `tcmMsg_sendBySocket`. A message that is written to a connection is taken to be written in full. -/
def tcmMsgSendBySocket (s : Scheduler) (fd : Int) (msg : TcmMsg) : Scheduler :=
  if fd = tcmInvalidFd then s else { s with written := s.written ++ [(fd, msg)] }

end Scheduler

/-! ## `dls.c` -/

/-- The record that `insertDlsInfoEntry` fills in, before it has a server descriptor. -/
def newDlsInfo (eInfo : TcmEntityInfo) (eid : BitVec 32) : DlsInfo where
  eInfo := eInfo
  state := .notRunning
  serverFd := tcmInvalidFd
  commFd := tcmInvalidFd
  pid := tcmInvalidPid
  -- the id of an instance that was not launched from here is kept
  specificEid := if eInfo.multiple ∧ 0 < pidInEid eid then eid else 0
  numDelayedMsgRequested := 0
  numEventInterestRequested := 0
  msgQueue := []

/-- `insertDlsInfoEntry`: the address of the new record. -/
def insertDlsInfoEntry (T : EntityTable) (k : Kernel) (s : Scheduler) (eid : BitVec 32) : Scheduler × Option Nat :=
  match tcmEidGetEntityInfo T (genericEid eid) with
  | none => (s, none)
  | some eInfo =>
    let dInfo := newDlsInfo eInfo eid
    if eid = idConsole then ((s.fdSet 0).linkInfo { dInfo with serverFd := 0 }, some s.dlsInfos.mark)
    -- `dInfo->eInfo->flags && APPCFG_SERVER`
    else if eInfo.flags ≠ 0 ∧ appcfgServer ≠ 0 then
      match s.newFd k with
      | none => (s.ask, none)
      | some fd =>
        let s := { s.ask with openFds := insert fd s.openFds }
        ((s.fdSet fd).linkInfo { dInfo with serverFd := fd }, some s.dlsInfos.mark)
    else (s.linkInfo dInfo, some s.dlsInfos.mark)

def getExistingDlsInfo (s : Scheduler) (eid : BitVec 32) : Option (Nat × DlsInfo) :=
  s.dlsInfos.first fun dInfo => if dInfo.eInfo.multiple then dInfo.specificEid = eid else dInfo.eInfo.eid = eid

def getDlsInfoByServerFd (s : Scheduler) (fd : Int) : Option (Nat × DlsInfo) := s.dlsInfos.first fun dInfo => dInfo.serverFd = fd

def getDlsInfoByCommFd (s : Scheduler) (fd : Int) : Option (Nat × DlsInfo) := s.dlsInfos.first fun dInfo => dInfo.commFd = fd

def getNewDlsInfo (T : EntityTable) (k : Kernel) (s : Scheduler) (eid : BitVec 32) : Scheduler × Option Nat :=
  insertDlsInfoEntry T k s eid

def getDlsInfo (T : EntityTable) (k : Kernel) (s : Scheduler) (eid : BitVec 32) : Scheduler × Option Nat :=
  match getExistingDlsInfo s eid with
  | some (p, _) => (s, some p)
  | none => getNewDlsInfo T k s eid

/-- The entities of the table that `initDls` makes a record for. -/
def initDlsWants (stage : Nat) (eInfo : TcmEntityInfo) : Bool :=
  eInfo.featureCompiled &&
    if stage = 1 then eInfo.has appcfgLaunchInStage1
    else eInfo.has (appcfgLaunchOnBoot ||| appcfgServer) || eInfo.eid == idConsole

/-- One round of the loops of `initDls`: in the first stage it does not look whether there is a record. -/
def initDlsEntry (T : EntityTable) (k : Kernel) (stage : Nat) (s : Scheduler) (eInfo : TcmEntityInfo) : Scheduler × Option Nat :=
  if stage = 1 then insertDlsInfoEntry T k s eInfo.eid else getDlsInfo T k s eInfo.eid

/-- `initDls`. It ends when a record cannot be made. -/
def initDls (T : EntityTable) (k : Kernel) (stage : Nat) : Scheduler → List TcmEntityInfo → TcmRet × Scheduler
  | s, [] => (.success, s)
  | s, eInfo :: rest =>
    if initDlsWants stage eInfo then
      match initDlsEntry T k stage s eInfo with
      | (s, none) => (.internalError, s)
      | (s, some _) => initDls T k stage s rest
    else initDls T k stage s rest

end CodeFactory.Sched
