import CodeFactory.Lib.Run

/-!
# The control flow of `main_session`

The session thread of `mainloop.c`, as the points it passes and the outcomes that take it from one to the next. What it builds
into an Inform, and what the other threads do meanwhile, is added by the modules that need it; here is only where each
outcome leads, and what happens to `gRetryTimes` on the way.
-/

namespace CodeFactory.Core

/-- `EventCodeType`, in the order in which `update_inform_content` tests the codes. -/
inductive EventCode where
  | bootstrap | boot | periodic | scheduled | valueChange | kicked | connectionRequest | diagnostics | transferComplete
  | mReboot | requestDownload
  deriving DecidableEq, Repr

/-- The codes `update_inform_content` tests, first to last. -/
def EventCode.all : List EventCode :=
  [.bootstrap, .boot, .periodic, .scheduled, .valueChange, .kicked, .connectionRequest, .diagnostics, .transferComplete,
    .mReboot, .requestDownload]

theorem EventCode.mem_all (e : EventCode) : e ∈ EventCode.all := by
  cases e <;> decide

def maxRetryTimes : Nat := 11

/-- The answers to an Inform `main_session` takes before it starts over, when it cannot parse them. -/
def maxAnswers : Nat := 3

/-- Where the session thread stands in `main_session`. The points from `transferCode` to `parameterList` are inside
`update_inform_content`. -/
inductive Point where
  /-- Step 0: waiting in `wait_wake_up_main_session`. -/
  | waiting
  /-- `sessionhead_tag`, in the loop that opens the connection. -/
  | head
  /-- Before `update_transfer_eventcode`. -/
  | transferCode
  /-- Before `update_mreboot_eventcode`. -/
  | mrebootCode
  /-- Before the tests of `gEventCode` for the codes `rest`. -/
  | testCode (rest : List EventCode)
  /-- Before `get_inform_parameter_list`. -/
  | parameterList
  /-- Step 3, before `generate_soap_packet`. -/
  | generate
  /-- Step 4, before `send_packet_to_acs_server`. -/
  | send
  /-- Step 5, with the `i`-th answer to the Inform at hand. -/
  | response (i : Nat)
  /-- Step 5, with the InformResponse at hand and `reset_event_code` still to come. -/
  | acknowledged
  /-- Steps 6 to 8: TransferComplete, RequestDownload and the requests of the server. -/
  | serve
  /-- `sessiontail_tag`. -/
  | tail
  /-- `main_session` has returned: a `break` after a failed RequestDownload leaves its endless loop. -/
  | ended
  deriving DecidableEq, Repr

/-- What the session thread meets at a point. -/
inductive SessionAct where
  /-- The semaphore is posted; `update_request_download_eventCode` finds a valid request or not. -/
  | wakeUp (requestDownload : Bool)
  /-- `init_main_session_socket`. -/
  | connect (ok : Bool)
  /-- The connection loop ends with no retry left. -/
  | giveUp
  /-- `update_transfer_eventcode`, with the command key of the last result file it finds. -/
  | transferCode (commandKey : Option String)
  /-- `update_mreboot_eventcode`, with the command key of the file it finds. -/
  | mrebootCode (commandKey : Option String)
  /-- One test of `gEventCode`. -/
  | testCode
  /-- `get_inform_parameter_list`, which succeeds or runs out of memory. -/
  | parameterList (ok : Bool)
  /-- `generate_soap_packet`. -/
  | generate (ok : Bool)
  /-- `send_packet_to_acs_server` with the Inform. -/
  | send (ok : Bool)
  /-- `handle_soap_packet` finds an InformResponse. -/
  | informResponse
  /-- `handle_soap_packet` finds a packet it cannot parse; a fault is sent back, which succeeds or not. -/
  | parserError (answered : Bool)
  /-- `handle_soap_packet` finds anything else. -/
  | otherResponse
  /-- `reset_event_code`. -/
  | reset
  /-- Steps 6 to 8 fail in a way that starts the session over, with the `gRetryTimes` the reconnection after a firmware upgrade
  may have left. -/
  | serveFailed (gRetryTimes : Nat)
  /-- A failed RequestDownload leaves `main_session`. -/
  | serveBroken
  /-- Steps 6 to 8 are done. -/
  | serveDone
  /-- The tail; the URL of the server was changed by the requests or not. -/
  | finish (urlChanged : Bool)
  deriving DecidableEq, Repr

/-- The control state of the session thread. -/
structure Control where
  point : Point
  gRetryTimes : Nat
  deriving DecidableEq, Repr

/-- Before the first session. -/
def Control.init : Control := ⟨.waiting, 0⟩

/-- Where `main_session` goes from a point, by what it meets there. Nothing is possible that the point does not lead to. -/
def mainSession (c : Control) : SessionAct → Option Control
  | .wakeUp _ => if c.point = .waiting then some ⟨.head, 0⟩ else none
  | .connect ok =>
    if c.point = .head ∧ c.gRetryTimes < maxRetryTimes then
      some (if ok then { c with point := .transferCode } else { c with gRetryTimes := c.gRetryTimes + 1 })
    else none
  | .giveUp => if c.point = .head ∧ maxRetryTimes ≤ c.gRetryTimes then some { c with point := .tail } else none
  | .transferCode _ => if c.point = .transferCode then some { c with point := .mrebootCode } else none
  | .mrebootCode _ => if c.point = .mrebootCode then some { c with point := .testCode EventCode.all } else none
  | .testCode =>
    match c.point with
    | .testCode (_ :: e :: rest) => some { c with point := .testCode (e :: rest) }
    | .testCode [_] => some { c with point := .parameterList }
    | _ => none
  -- `update_inform_content` returns TCMAGENT_OK whatever `get_inform_parameter_list` returned
  | .parameterList _ => if c.point = .parameterList then some { c with point := .generate } else none
  | .generate ok =>
    if c.point = .generate then some { c with point := if ok then .send else .head } else none
  | .send ok =>
    if c.point = .send then
      some (if ok then { c with point := .response 0 } else ⟨.head, c.gRetryTimes + 1⟩)
    else none
  | .informResponse =>
    match c.point with
    | .response _ => some ⟨.acknowledged, 0⟩
    | _ => none
  | .parserError answered =>
    match c.point with
    | .response i =>
      some { c with point := if answered ∧ i + 1 < maxAnswers then .response (i + 1) else .head }
    | _ => none
  | .otherResponse =>
    match c.point with
    | .response _ => some { c with point := .head }
    | _ => none
  | .reset => if c.point = .acknowledged then some { c with point := .serve } else none
  | .serveFailed gRetryTimes =>
    if c.point = .serve ∧ gRetryTimes ≤ maxRetryTimes then some ⟨.head, gRetryTimes⟩ else none
  | .serveBroken => if c.point = .serve then some { c with point := .ended } else none
  | .serveDone => if c.point = .serve then some { c with point := .tail } else none
  | .finish _ => if c.point = .tail then some { c with point := .waiting } else none

end CodeFactory.Core
