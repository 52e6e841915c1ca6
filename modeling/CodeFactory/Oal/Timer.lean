import CodeFactory.Lib.Outcome
import CodeFactory.Lib.Run
import CodeFactory.Oal.TcmRet
import CodeFactory.Oal.Timestamp
import Mathlib.Data.List.Sort
import Mathlib.Data.List.Range

/-!
# Timer events

`timer.c`: the list of events that a process waits for, in the order of their expiry, and the loop that runs the handlers of
those that have expired. A handler may use the same interface again, the loop included, so a state of the process has one
frame for each call of `tcmTmr_executeExpiredEvents` that has not returned.
-/

namespace CodeFactory.Oal

def tcmEventTimerNameLength : Nat := 32

/-- `tcmTimerEvent`. The last two are the model's own: the time the event was set for, in nanoseconds, and the number of
events that were set before it. -/
structure TcmTimerEvent where
  expireTms : TcmTimestamp
  func : Nat
  ctxData : Nat
  name : List Char
  due : Nat
  serial : Nat
  deriving DecidableEq, Repr

structure TcmTimerHandle where
  events : List TcmTimerEvent
  numEvents : BitVec 32
  deriving DecidableEq, Repr

namespace TcmTimerEvent

/-- The handler and its context: what an event is looked up by. -/
def key (e : TcmTimerEvent) : Nat × Nat := (e.func, e.ctxData)

/-- Earlier expiry, or the same expiry and set earlier. -/
def Before (a b : TcmTimerEvent) : Prop := a.due < b.due ∨ a.due = b.due ∧ a.serial < b.serial

instance (a b : TcmTimerEvent) : Decidable (a.Before b) := inferInstanceAs (Decidable (_ ∨ _ ∧ _))

/-- `IS_EARLIER_THAN` of the timestamps of two events. -/
def Earlier (a b : TcmTimerEvent) : Prop := a.expireTms.IsEarlierThan b.expireTms

instance (a b : TcmTimerEvent) : Decidable (a.Earlier b) := inferInstanceAs (Decidable (a.expireTms.IsEarlierThan _))

/-- The timestamp an event is sorted by is the time it was set for. -/
def Stored (e : TcmTimerEvent) : Prop := e.expireTms.Valid ∧ e.expireTms.nanos = e.due

end TcmTimerEvent

open TcmTimerEvent

def tcmTmrIsEventPresent (handle : TcmTimerHandle) (func ctxData : Nat) : Bool :=
  handle.events.any fun e => e.key == (func, ctxData)

/-- `strlen(name) >= TCM_EVENT_TIMER_NAME_LENGTH`, of a name that is given. -/
def nameTooLong : Option (List Char) → Bool
  | some name => tcmEventTimerNameLength ≤ name.length
  | none => false

/-- The event that `tcmTmr_set` fills in. -/
def newTimerEvent (func ctxData : Nat) (ms : BitVec 32) (name : Option (List Char)) (nowTms : TcmTimestamp) (serial : Nat) :
    TcmTimerEvent :=
  ⟨nowTms.addMilliSeconds ms, func, ctxData, name.getD [], nowTms.nanosAfter ms, serial⟩

/-- The insertion of `tcmTmr_set`: before the first event that expires later. The count decides whether the list is looked
at; a count other than zero for an empty list is a null pointer that is followed. -/
def enqueue (handle : TcmTimerHandle) (newEvent : TcmTimerEvent) : Outcome TcmTimerHandle :=
  if handle.numEvents = 0 then .done ⟨[newEvent], handle.numEvents + 1⟩
  else match handle.events with
    | [] => .undefined
    | e :: es => .done ⟨(e :: es).orderedInsert Earlier newEvent, handle.numEvents + 1⟩

/-- `tcmTmr_set`, with the time on the clock and whether there is memory for an event. -/
def tcmTmrSet (handle : TcmTimerHandle) (func ctxData : Nat) (ms : BitVec 32) (name : Option (List Char))
    (nowTms : TcmTimestamp) (allocated : Bool) (serial : Nat) : TcmRet × Outcome TcmTimerHandle :=
  if tcmTmrIsEventPresent handle func ctxData then (.invalidArguments, .done handle)
  else if nameTooLong name then (.invalidArguments, .done handle)
  else if !allocated then (.resourceExceeded, .done handle)
  else (.success, enqueue handle (newTimerEvent func ctxData ms name nowTms serial))

/-- `tcmTmr_cancel`: the first event of the handler and the context is taken out of the list, if there is one. -/
def tcmTmrCancel (handle : TcmTimerHandle) (func ctxData : Nat) : Option TcmTimerEvent × TcmTimerHandle :=
  match handle.events.find? fun e => e.key == (func, ctxData) with
  | none => (none, handle)
  | some e => (some e, ⟨handle.events.eraseP fun e => e.key == (func, ctxData), handle.numEvents - 1⟩)

def tcmTmrGetTimeToNextEvent (handle : TcmTimerHandle) (nowTms : TcmTimestamp) : TcmRet × BitVec 32 :=
  match handle.events with
  | [] => (.noMoreInstances, maxUint32)
  | currEvent :: _ =>
    if currEvent.expireTms.IsEarlierThan nowTms then (.success, 0)
    else (.success, currEvent.expireTms.deltaInMilliSeconds nowTms)

/-- The test of the loop of `tcmTmr_executeExpiredEvents`, with the first event taken out of the list when it has expired. -/
def takeExpired (handle : TcmTimerHandle) (nowTms : TcmTimestamp) : Option (TcmTimerEvent × TcmTimerHandle) :=
  match handle.events with
  | [] => none
  | currEvent :: rest =>
    if currEvent.expireTms.IsEarlierThan nowTms then some (currEvent, ⟨rest, handle.numEvents - 1⟩) else none

/-- A call of `tcmTmr_executeExpiredEvents` that has not returned: its time, and whether it is inside a handler. -/
structure ExecuteCall where
  nowTms : TcmTimestamp
  inHandler : Bool
  deriving DecidableEq, Repr

/-- A call of `tcmTmr_executeExpiredEvents` that has returned: its time, and how many events had been set by then. -/
structure ReturnedCall where
  nowTms : TcmTimestamp
  numSet : Nat
  deriving DecidableEq, Repr

/-- A handler that was run: its event, the time of the call that ran it, and the calls that had returned before. -/
structure Firing where
  event : TcmTimerEvent
  nowTms : TcmTimestamp
  returned : List ReturnedCall
  deriving DecidableEq, Repr

/-- A process and its timer handle: the last time read from the clock, the calls of `tcmTmr_executeExpiredEvents` that have
not returned (the innermost first), and what has become of the events that were set. -/
structure TimerState where
  handle : TcmTimerHandle
  clock : TcmTimestamp
  calls : List ExecuteCall
  numSet : Nat
  cancelled : List TcmTimerEvent
  fired : List Firing
  returned : List ReturnedCall
  /-- A null pointer has been followed. -/
  failed : Bool
  deriving DecidableEq, Repr

/-- What happens next: a call from the process or from the handler that is running, the test of the loop of the innermost
call, or the end of its handler. -/
inductive TimerAct where
  | set (func ctxData : Nat) (ms : BitVec 32) (name : Option (List Char)) (nowTms : TcmTimestamp) (allocated : Bool)
  | cancel (func ctxData : Nat)
  | getTimeToNextEvent (nowTms : TcmTimestamp)
  | executeExpiredEvents (nowTms : TcmTimestamp)
  | loopTest
  | handlerReturns
  deriving DecidableEq, Repr

namespace TimerState

/-- `tcmTmr_init`, at a time of the clock. -/
def init (clock : TcmTimestamp) : TimerState := ⟨⟨[], 0⟩, clock, [], 0, [], [], [], false⟩

/-- A call can be made: no call of `tcmTmr_executeExpiredEvents` is going on, or the innermost one is inside a handler. -/
def CanCall (s : TimerState) : Bool :=
  match s.calls with
  | [] => true
  | c :: _ => c.inHandler

/-- The clock can show this time next. -/
def Later (s : TimerState) (nowTms : TcmTimestamp) : Prop := nowTms.Valid ∧ s.clock.nanos ≤ nowTms.nanos

instance (s : TimerState) (nowTms : TcmTimestamp) : Decidable (s.Later nowTms) := inferInstanceAs (Decidable (_ ∧ _))

/-- The state after `tcmTmr_set`. -/
def afterSet (s : TimerState) (nowTms : TcmTimestamp) : TcmRet × Outcome TcmTimerHandle → TimerState
  | (.success, .done handle) => { s with handle := handle, clock := nowTms, numSet := s.numSet + 1 }
  | (_, .done _) => { s with clock := nowTms }
  | (_, _) => { s with clock := nowTms, failed := true }

/-- The state after `tcmTmr_cancel`. -/
def afterCancel (s : TimerState) : Option TcmTimerEvent × TcmTimerHandle → TimerState
  | (none, _) => s
  | (some e, handle) => { s with handle := handle, cancelled := s.cancelled ++ [e] }

/-- The state after the test of the loop of a call: inside the handler of the event that was taken, or without the call. -/
def afterTest (s : TimerState) (c : ExecuteCall) (rest : List ExecuteCall) : Option (TcmTimerEvent × TcmTimerHandle) → TimerState
  | some (e, handle) =>
    { s with handle := handle, calls := ⟨c.nowTms, true⟩ :: rest, fired := s.fired ++ [⟨e, c.nowTms, s.returned⟩] }
  | none => { s with calls := rest, returned := s.returned ++ [⟨c.nowTms, s.numSet⟩] }

/-- One step of the process. -/
def step (s : TimerState) : TimerAct → Option TimerState
  | .set func ctxData ms name nowTms allocated =>
    if s.CanCall ∧ s.Later nowTms then
      some (s.afterSet nowTms (tcmTmrSet s.handle func ctxData ms name nowTms allocated s.numSet))
    else none
  | .cancel func ctxData => if s.CanCall then some (s.afterCancel (tcmTmrCancel s.handle func ctxData)) else none
  | .getTimeToNextEvent nowTms => if s.CanCall ∧ s.Later nowTms then some { s with clock := nowTms } else none
  | .executeExpiredEvents nowTms =>
    if s.CanCall ∧ s.Later nowTms then some { s with clock := nowTms, calls := ⟨nowTms, false⟩ :: s.calls } else none
  | .loopTest =>
    match s.calls with
    | ⟨nowTms, false⟩ :: rest => some (s.afterTest ⟨nowTms, false⟩ rest (takeExpired s.handle nowTms))
    | _ => none
  | .handlerReturns =>
    match s.calls with
    | ⟨nowTms, true⟩ :: rest => some { s with calls := ⟨nowTms, false⟩ :: rest }
    | _ => none

end TimerState

end CodeFactory.Oal
