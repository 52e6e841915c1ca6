import CodeFactory.Lib.Outcome
import CodeFactory.Lib.Run

/-!
# The message queue of the home server

The thread that waits in `select` appends what it reads to `gehomeMsgQueue` and counts it in `remoteMsgReadyFlag`; the thread of
`startMpcThraedFunc` counts it down, takes the first message of the queue and handles it. The queue and the count have a mutex
each, and the two threads pass them in opposite orders.
-/

namespace CodeFactory.Ehcc.Mq

/-- A message as `ehRead` gives it, in the order of the host; the value has as many octets as its length says. -/
structure HomeMessage where
  protocolVersion : UInt16
  payloadLen : UInt16
  reserve : List UInt8
  eventType : UInt16
  value : List UInt8
  reserve_length : reserve.length = 16
  value_length : value.length < 65536
  deriving DecidableEq, Repr

/-- `checkHomeMsg`: the version of the protocol is one, and the payload is the event type, the length and the value. -/
def checkHomeMsg (msg : HomeMessage) : Bool := msg.protocolVersion = 1 && msg.payloadLen.toNat = msg.value.length + 4

/-- `homeMsgCtrlBlock`, without its `next`: a queue is the list of its blocks. -/
structure CtrlBlock where
  sequenceID : UInt32
  msg : HomeMessage
  connfd : Int
  deriving DecidableEq, Repr

/-- What `strcpy` leaves in the sixteen zero octets of a new block: the octets before the first zero one. -/
def strcpyReserve (reserve : List UInt8) : List UInt8 :=
  reserve.takeWhile (· ≠ 0) ++ List.replicate (16 - (reserve.takeWhile (· ≠ 0)).length) 0

theorem strcpyReserve_length {reserve : List UInt8} (h : reserve.length = 16) : (strcpyReserve reserve).length = 16 := by
  have hle := (List.takeWhile_sublist (p := (· ≠ 0)) (l := reserve)).length_le
  rw [strcpyReserve, List.length_append, List.length_replicate]
  omega

/-- The message as it stands in a new block. -/
def HomeMessage.copied (msg : HomeMessage) : HomeMessage :=
  { msg with
    payloadLen := UInt16.ofNat (4 + msg.value.length)
    reserve := strcpyReserve msg.reserve
    reserve_length := strcpyReserve_length msg.reserve_length }

/-- `convertHomeMsgToCtrlBlock` and `createHomeMsgBlock`. The `reserve` of the message is copied as a string: when none of its
octets is zero, `strcpy` goes on behind the field in both, up to the `next` of the block and beyond. -/
def createHomeMsgBlock (seqNum : UInt32) (msg : HomeMessage) (connfd : Int) : Outcome CtrlBlock :=
  if 0 ∈ msg.reserve then .done { sequenceID := seqNum, msg := msg.copied, connfd := connfd } else .undefined

/-- `cloneEhMsg`, which gives nothing for no message and for one of another version of the protocol. -/
def cloneEhMsg : Option CtrlBlock → Outcome (Option CtrlBlock)
  | none => .done none
  | some ehMsg =>
    if ehMsg.msg.protocolVersion ≠ 1 then .done none
    else if 0 ∈ ehMsg.msg.reserve then .done (some { ehMsg with msg := ehMsg.msg.copied })
    else .undefined

def putEhMsgToQueue (msgQueue : List CtrlBlock) (msg : CtrlBlock) : List CtrlBlock := msgQueue ++ [msg]

/-- `deleteEhMsgFromQueueBySeqID`: the first message of the number goes. The first message of the queue is read before anything
is said about whether there is one. -/
def deleteEhMsgFromQueueBySeqID (msgQueue : List CtrlBlock) (msgSeqID : UInt32) : Outcome (List CtrlBlock) :=
  match msgQueue with
  | [] => .undefined
  | head :: rest =>
    if head.sequenceID = msgSeqID then .done rest
    else .done (head :: rest.eraseP fun m => m.sequenceID = msgSeqID)

def updateSeqNumber (num : UInt32) : UInt32 := if num = 4294967295 then 0 else num + 1

/-- The two threads. -/
inductive Thread where
  | select | worker
  deriving DecidableEq, Repr

/-- Where the loop of `waitforRemoteMsgbySelect` stands, from a message that it has accepted. -/
inductive SelectPc where
  /-- It waits for a message. -/
  | reading
  /-- It takes the next sequence number. -/
  | numbering (msg : HomeMessage) (connfd : Int)
  /-- It makes the block, with the number that the counter now has. -/
  | creating (msg : HomeMessage) (connfd : Int)
  | lockingQueue (msg : CtrlBlock)
  | putting (msg : CtrlBlock)
  | unlockingQueue
  | lockingFlag
  | signalling
  | raising
  | unlockingFlag
  deriving DecidableEq, Repr

/-- Where the loop of `startMpcThraedFunc` stands. -/
inductive WorkerPc where
  | lockingFlag
  /-- It reads the flag. -/
  | testing
  /-- It is in `pthread_cond_wait`, without the mutex. -/
  | waiting
  /-- It is to leave `pthread_cond_wait`, when it gets the mutex. -/
  | woken
  | lowering
  | unlockingFlag
  | lockingQueue
  | cloning
  | deleting (msg : CtrlBlock)
  | unlockingQueue (msg : Option CtrlBlock)
  | handling (msg : CtrlBlock)
  deriving DecidableEq, Repr

/-- The state of the two threads. For the statements it is also kept which messages were received and accepted, which blocks were
appended and which were handled. -/
structure MsgQueue where
  gehomeMsgQueue : List CtrlBlock
  remoteMsgReadyFlag : Int
  homeMsgQueueMutex : Option Thread
  remoteMsgMutex : Option Thread
  seqNum : UInt32
  select : SelectPc
  worker : WorkerPc
  /-- Something was done that C gives no meaning to. -/
  undefined : Bool
  received : List (HomeMessage × Int)
  appended : List CtrlBlock
  handled : List CtrlBlock
  deriving DecidableEq, Repr

/-- What can happen. -/
inductive Action where
  /-- A message comes. -/
  | receive (msg : HomeMessage) (connfd : Int)
  | select
  | worker
  /-- `pthread_cond_wait` returns for no reason. -/
  | wakeUp
  /-- Another thread draws sequence numbers. -/
  | elsewhere (seqNum : UInt32)
  deriving DecidableEq, Repr

namespace MsgQueue

variable (s : MsgQueue)

/-- A step of the `select` thread. -/
def stepSelect : Option MsgQueue :=
  match s.select with
  | .reading => none
  | .numbering msg connfd => some { s with seqNum := updateSeqNumber s.seqNum, select := .creating msg connfd }
  | .creating msg connfd =>
    match createHomeMsgBlock s.seqNum msg connfd with
    | .done block => some { s with select := .lockingQueue block }
    | _ => some { s with undefined := true }
  | .lockingQueue block =>
    if s.homeMsgQueueMutex = none then some { s with homeMsgQueueMutex := some .select, select := .putting block } else none
  | .putting block =>
    some { s with
      gehomeMsgQueue := putEhMsgToQueue s.gehomeMsgQueue block
      appended := s.appended ++ [block]
      select := .unlockingQueue }
  | .unlockingQueue => some { s with homeMsgQueueMutex := none, select := .lockingFlag }
  | .lockingFlag => if s.remoteMsgMutex = none then some { s with remoteMsgMutex := some .select, select := .signalling } else none
  | .signalling => some { s with worker := if s.worker = .waiting then .woken else s.worker, select := .raising }
  | .raising => some { s with remoteMsgReadyFlag := s.remoteMsgReadyFlag + 1, select := .unlockingFlag }
  | .unlockingFlag => some { s with remoteMsgMutex := none, select := .reading }

/-- A step of the thread of `startMpcThraedFunc`. -/
def stepWorker : Option MsgQueue :=
  match s.worker with
  | .lockingFlag => if s.remoteMsgMutex = none then some { s with remoteMsgMutex := some .worker, worker := .testing } else none
  | .testing =>
    if s.remoteMsgReadyFlag = 0 then some { s with remoteMsgMutex := none, worker := .waiting }
    else some { s with worker := .lowering }
  | .waiting => none
  | .woken => if s.remoteMsgMutex = none then some { s with remoteMsgMutex := some .worker, worker := .testing } else none
  | .lowering => some { s with remoteMsgReadyFlag := s.remoteMsgReadyFlag - 1, worker := .unlockingFlag }
  | .unlockingFlag => some { s with remoteMsgMutex := none, worker := .lockingQueue }
  | .lockingQueue =>
    if s.homeMsgQueueMutex = none then some { s with homeMsgQueueMutex := some .worker, worker := .cloning } else none
  | .cloning =>
    match cloneEhMsg s.gehomeMsgQueue.head? with
    | .done (some msg) => some { s with worker := .deleting msg }
    | .done none => some { s with worker := .unlockingQueue none }
    | _ => some { s with undefined := true }
  | .deleting msg =>
    match deleteEhMsgFromQueueBySeqID s.gehomeMsgQueue msg.sequenceID with
    | .done queue => some { s with gehomeMsgQueue := queue, worker := .unlockingQueue (some msg) }
    | _ => some { s with undefined := true }
  | .unlockingQueue none => some { s with homeMsgQueueMutex := none, worker := .lockingFlag }
  | .unlockingQueue (some msg) => some { s with homeMsgQueueMutex := none, worker := .handling msg }
  | .handling msg => some { s with handled := s.handled ++ [msg], worker := .lockingFlag }

/-- A step of the system; there is none after something undefined. -/
def step (a : Action) : Option MsgQueue :=
  if s.undefined then none
  else
    match a with
    | .receive msg connfd =>
      if s.select = .reading then
        if checkHomeMsg msg then
          some { s with select := .numbering msg connfd, received := s.received ++ [(msg, connfd)] }
        else some s
      else none
    | .select => s.stepSelect
    | .worker => s.stepWorker
    | .wakeUp => if s.worker = .waiting then some { s with worker := .woken } else none
    | .elsewhere seqNum => some { s with seqNum := seqNum }

/-- The state in which the two threads start. -/
def start : MsgQueue where
  gehomeMsgQueue := []
  remoteMsgReadyFlag := 0
  homeMsgQueueMutex := none
  remoteMsgMutex := none
  seqNum := 0
  select := .reading
  worker := .lockingFlag
  undefined := false
  received := []
  appended := []
  handled := []

end MsgQueue

end CodeFactory.Ehcc.Mq
