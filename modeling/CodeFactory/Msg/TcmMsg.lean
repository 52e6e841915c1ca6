import CodeFactory.Lib.Run
import CodeFactory.Oal.TcmRet

/-!
# Messages between the scheduler and an application

`oal_msg.c` and `tcm_msg.c`: an application sends a request over its socket and reads messages from the socket until one comes
that it takes for the reply. The others are put back into a queue of its handle and sent to the scheduler again when the
waiting is over, for the scheduler to deliver them once more.
-/

namespace CodeFactory.Msg

open Oal

/-- `tcmMsgHeader` and the data behind it, whose length is `dataLength`. The last field is the model's own: the call of
`sendAndGetReply` whose request the message is the response to, if it is one. -/
structure TcmMsg where
  type : BitVec 32
  src : BitVec 32
  dst : BitVec 32
  event : Bool
  request : Bool
  response : Bool
  requeue : Bool
  bounceIfNotRunning : Bool
  seqNum : BitVec 16
  wordData : BitVec 32
  data : List UInt8
  answers : Option Nat
  deriving DecidableEq, Repr

def emptyMsgHeader : TcmMsg := ⟨0, 0, 0, false, false, false, false, false, 0, 0, [], none⟩

def sizeofTcmMsgHeader : Nat := 28

/-- What `write` does with a message. -/
inductive Written where
  | full
  | brokenPipe
  | failed
  | partly
  deriving DecidableEq, Repr

def oalMsgSend : Written → TcmRet
  | .full => .success
  | .brokenPipe => .disconnected
  | .failed | .partly => .internalError

/-- One round of reading the data of a message: nothing to be read within the timeout, an error or the end of the stream,
or the number of bytes that are read. -/
inductive BodyRead where
  | notAvailable
  | failed
  | bytes (rc : Nat)
  deriving DecidableEq, Repr

/-- The loop of `oalMsg_receive` over the data of a message, from what remains of it. Without a timeout it does not ask
whether there is something to be read. No result: it goes on waiting. -/
def receiveData (timed : Bool) : Nat → List BodyRead → Option TcmRet
  | 0, _ => some .success
  | _ + 1, [] => none
  | n + 1, .notAvailable :: reads => if timed then some .timedOut else receiveData timed (n + 1) reads
  | _ + 1, .failed :: _ => some .internalError
  | n + 1, .bytes rc :: reads => if rc = 0 then some .internalError else receiveData timed (n + 1 - rc) reads

/-- What a call of `oalMsg_receive` comes upon. -/
inductive Receive where
  /-- Nothing arrives within the timeout. -/
  | notAvailable
  /-- There is no memory for a header. -/
  | noMemory
  /-- The connection is broken. -/
  | disconnected
  /-- The header cannot be read. -/
  | failed
  /-- A message arrives and a part of its header is read. -/
  | shortHeader (msg : TcmMsg)
  /-- The header of a message is read; whether there is memory for the data, and the rounds in which it is read. -/
  | header (msg : TcmMsg) (memory : Bool) (reads : List BodyRead)
  deriving DecidableEq, Repr

/-- The message that has arrived, read in full or not. -/
def Receive.arrived : Receive → Option TcmMsg
  | .shortHeader msg | .header msg _ _ => some msg
  | .notAvailable | .noMemory | .disconnected | .failed => none

def oalMsgReceive (timeout : Option (BitVec 32)) : Receive → Option (TcmRet × Option TcmMsg)
  | .notAvailable => if timeout.isSome then some (.timedOut, none) else none
  | .noMemory => some (.internalError, none)
  | .disconnected => some (.disconnected, none)
  | .failed | .shortHeader _ => some (.internalError, none)
  | .header msg memory reads =>
    if msg.data = [] then some (.success, some msg)
    else if memory then
      match receiveData timeout.isSome msg.data.length reads with
      | none => none
      | some .success => some (.success, some msg)
      | some ret => some (ret, none)
    else some (.disconnected, none)

def tcmMsgPutBack (putBackQueue : List TcmMsg) (msg : TcmMsg) : List TcmMsg := putBackQueue ++ [msg]

/-- The message as `tcmMsg_requeuePutBacks` sends it. -/
def TcmMsg.requeued (msg : TcmMsg) : TcmMsg := { msg with requeue := true }

/-- The argument `replyBuf` of `sendAndGetReplyBuf`: the bytes there are at `*replyBuf`, and whether `replyBuf` itself is the
address of allocated memory. -/
structure ReplyBuf where
  room : Nat
  allocated : Bool
  deriving DecidableEq, Repr

/-- `memcpy` to `*replyBuf` and `free(replyBuf)` are defined. -/
def ReplyBuf.Takes (b : ReplyBuf) (msg : TcmMsg) : Prop := sizeofTcmMsgHeader + msg.data.length ≤ b.room ∧ b.allocated = true

instance (b : ReplyBuf) (msg : TcmMsg) : Decidable (b.Takes msg) := inferInstanceAs (Decidable (_ ∧ _))

/-- What a call has waited for: a message that it takes for the reply, or an error. -/
inductive CallEnd where
  | reply (msg : TcmMsg)
  | error (ret : TcmRet)
  deriving DecidableEq, Repr

/-- The value that `sendAndGetReply` returns of a reply. -/
def CallEnd.value : CallEnd → Option (BitVec 32)
  | .reply msg => some msg.wordData
  | .error _ => none

/-- A call of `sendAndGetReply`, or of `sendAndGetReplyBuf` with its buffer, that has sent its request. -/
structure Call where
  number : Nat
  sentType : BitVec 32
  timeout : Option (BitVec 32)
  replyBuf : Option ReplyBuf
  /-- None while it waits; then it sends the messages in the queue again. -/
  ended : Option CallEnd
  deriving DecidableEq, Repr

/-- An application, and what it has done so far. -/
structure Process where
  putBackQueue : List TcmMsg
  call : Option Call
  numCalls : Nat
  /-- The calls that have returned, by number. -/
  returned : List (Nat × CallEnd)
  /-- The messages that have arrived and were not the response to the request of the call that was waiting. -/
  unrelated : List TcmMsg
  /-- The messages that were sent to the scheduler again. -/
  handedBack : List TcmMsg
  /-- Memory was written or freed that must not be. -/
  failed : Bool
  deriving DecidableEq, Repr

/-- What happens next: a call, a message or an error while it waits, or a round of `tcmMsg_requeuePutBacks`. -/
inductive MsgAct where
  | sendAndGetReply (type : BitVec 32) (timeout : Option (BitVec 32)) (replyBuf : Option ReplyBuf) (sent : Written)
  | receive (r : Receive)
  | requeue (sent : Written)
  deriving DecidableEq, Repr

namespace Process

/-- After `tcmMsg_init`. -/
def init : Process := ⟨[], none, 0, [], [], [], false⟩

/-- The message is not the response to the request of the call; a response has the type of its request. -/
def Unrelated (c : Call) (msg : TcmMsg) : Prop := ¬(msg.answers = some c.number ∧ msg.type = c.sentType)

instance (c : Call) (msg : TcmMsg) : Decidable (Unrelated c msg) := inferInstanceAs (Decidable (¬(_ ∧ _)))

/-- The message that has arrived is noted when it is unrelated to the call. -/
def note (s : Process) (c : Call) (arrived : Option TcmMsg) : Process :=
  { s with unrelated := s.unrelated ++ arrived.toList.filter fun msg => Unrelated c msg }

/-- A message of the type of the request ends the waiting. With a buffer the reply is copied there, and the buffer is freed. -/
def takeReply (s : Process) (c : Call) (msg : TcmMsg) : Process :=
  match c.replyBuf with
  | none => { s with call := some { c with ended := some (.reply msg) } }
  | some b => if b.Takes msg then { s with call := some { c with ended := some (.reply msg) } } else { s with failed := true }

/-- One round of the loop of `sendAndGetReply` and `sendAndGetReplyBuf`, with the result of `oalMsg_receive`. -/
def afterReceive (s : Process) (c : Call) : TcmRet × Option TcmMsg → Process
  | (.success, some msg) =>
    if msg.type = c.sentType then s.takeReply c msg
    else { s with
      putBackQueue := tcmMsgPutBack s.putBackQueue msg
      call := some { c with timeout := c.timeout.map fun t => t / 3 } }
  | (ret, _) => { s with call := some { c with ended := some (.error ret) } }

/-- One round of `tcmMsg_requeuePutBacks`, whose result nobody looks at; with nothing in the queue the call returns. -/
def afterRequeue (s : Process) (c : Call) (e : CallEnd) (sent : Written) : Process :=
  match s.putBackQueue with
  | [] => { s with call := none, returned := s.returned ++ [(c.number, e)] }
  | msg :: rest =>
    { s with
      putBackQueue := rest
      handedBack := if oalMsgSend sent = .success then s.handedBack ++ [msg.requeued] else s.handedBack }

/-- One step of the application. -/
def step (s : Process) : MsgAct → Option Process
  | .sendAndGetReply type timeout replyBuf sent =>
    match s.call, s.failed with
    | none, false =>
      if oalMsgSend sent = .success then
        some { s with call := some ⟨s.numCalls, type, timeout, replyBuf, none⟩, numCalls := s.numCalls + 1 }
      else some { s with numCalls := s.numCalls + 1, returned := s.returned ++ [(s.numCalls, .error (oalMsgSend sent))] }
    | _, _ => none
  | .receive r =>
    match s.call, s.failed with
    | some c, false =>
      match c.ended, oalMsgReceive c.timeout r with
      | none, some result => some ((s.note c r.arrived).afterReceive c result)
      | _, _ => none
    | _, _ => none
  | .requeue sent =>
    match s.call, s.failed with
    | some c, false =>
      match c.ended with
      | some e => some (s.afterRequeue c e sent)
      | none => none
    | _, _ => none

variable {s t : Process}

/-- What a call does at its start: it waits for the reply to its request, or returns with the error of sending it. -/
theorem step_sendAndGetReply {type : BitVec 32} {timeout : Option (BitVec 32)} {replyBuf : Option ReplyBuf} {sent : Written}
    (h : s.step (.sendAndGetReply type timeout replyBuf sent) = some t) :
    s.call = none ∧ s.failed = false ∧
      (t = { s with call := some ⟨s.numCalls, type, timeout, replyBuf, none⟩, numCalls := s.numCalls + 1 } ∨
        ∃ ret, t = { s with numCalls := s.numCalls + 1, returned := s.returned ++ [(s.numCalls, .error ret)] }) := by
  simp only [step] at h
  split at h
  · rename_i hcall hfailed
    refine ⟨hcall, hfailed, ?_⟩
    split at h
    · exact Or.inl (Option.some.inj h).symm
    · exact Or.inr ⟨_, (Option.some.inj h).symm⟩
  · cases h

/-- What a call does while it waits. -/
theorem step_receive {r : Receive} (h : s.step (.receive r) = some t) :
    ∃ c result, s.call = some c ∧ s.failed = false ∧ c.ended = none ∧ oalMsgReceive c.timeout r = some result ∧
      t = (s.note c r.arrived).afterReceive c result := by
  simp only [step] at h
  split at h
  · rename_i c hcall hfailed
    split at h
    · rename_i result hended hresult
      exact ⟨c, result, hcall, hfailed, hended, hresult, (Option.some.inj h).symm⟩
    · cases h
  · cases h

/-- What a call does when it has waited. -/
theorem step_requeue {sent : Written} (h : s.step (.requeue sent) = some t) :
    ∃ c e, s.call = some c ∧ s.failed = false ∧ c.ended = some e ∧ t = s.afterRequeue c e sent := by
  simp only [step] at h
  split at h
  · rename_i c hcall hfailed
    split at h
    · rename_i e hended
      exact ⟨c, e, hcall, hfailed, hended, (Option.some.inj h).symm⟩
    · cases h
  · cases h

/-- A message that is received has arrived. -/
theorem arrived_of_received {timeout : Option (BitVec 32)} {r : Receive} {ret : TcmRet} {msg : TcmMsg}
    (h : oalMsgReceive timeout r = some (ret, some msg)) : r.arrived = some msg ∧ ret = .success := by
  cases r with
  | header m memory reads =>
    simp only [oalMsgReceive] at h
    split at h
    · cases h
      exact ⟨rfl, rfl⟩
    · split at h
      · split at h
        · cases h
        · cases h
          exact ⟨rfl, rfl⟩
        · cases h
      · cases h
  | notAvailable =>
    simp only [oalMsgReceive] at h
    split at h <;> cases h
  | noMemory | disconnected | failed | shortHeader m => cases h

end Process

end CodeFactory.Msg
