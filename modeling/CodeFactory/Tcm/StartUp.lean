import CodeFactory.Tcm.Values

/-!
# The synchronisation at the start

`build_tcmAgent_parameters` of `tcmAgent.c`: for each entry of the match table it puts messages for what the configuration holds, and
sends what it has put when the next message would not go in. The queue to the agent takes what is sent.
-/

namespace CodeFactory.Tcm

open Tr69

/-- What `config_api_read_parameter` and `config_api_read_table_parameter` read. -/
structure Configuration where
  readParameter : AppID → Int → Option Text
  readTableParameter : AppID → Nat → Int → Option Text

/-- The messages that have been sent, and those in the buffer with their length. -/
structure Sender where
  sent : List (List Msg)
  buf : List Msg
  totalLen : Nat
  deriving DecidableEq, Repr

def maxSendMsgLen : Nat := 8192

def judgeMsgTotalLength (usedLength : Nat) (name value : Text) : Bool :=
  usedLength + 4 + 4 + name.length + 1 + 4 + value.length + 1 < maxSendMsgLen

namespace Sender

/-- `notify_tcmAgent`, and an empty buffer. -/
def notify (s : Sender) : Sender := ⟨s.sent ++ [s.buf], [], 0⟩

/-- Room for the next message. -/
def makeRoom (s : Sender) (name value : Text) : Sender :=
  if judgeMsgTotalLength s.totalLen name value then s else s.notify

/-- `put_object` and `put_single_node`. The length stands in front of the messages, in four octets of the buffer. -/
def put (s : Sender) (m : Msg) : Outcome Sender :=
  if 4 + (s.totalLen + m.length) ≤ maxSendMsgLen then .done ⟨s.sent, s.buf ++ [m], s.totalLen + m.length⟩ else .undefined

end Sender

/-- What `build_tcmAgent_parameters` comes to: it goes on, or returns with an error and what has been sent. -/
abbrev Progress := Outcome (Except (List (List Msg)) Sender)

/-- A message that is put; the name and the value are those that `judge_msg_total_length` is given. -/
structure Put where
  name : Text
  value : Text
  msg : Msg
  deriving DecidableEq, Repr

/-- Make room and put the message. -/
def Put.run (p : Put) (s : Sender) : Progress := ((s.makeRoom p.name p.value).put p.msg).map .ok

variable (N : ParaNumbers) (c : Configuration)

/-- Put the value of a parameter, if it has the type of the entry. The length is judged by the name of the entry, and a value that may
be another one than is put. -/
def putValue (e : MatchParameter) (name judged result : Text) (s : Sender) : Progress :=
  let s := s.makeRoom e.name judged
  match nodeValue stringToNum e.type result with
  | some value => (s.put (.setValue name value)).map .ok
  | none => .done (.error s.sent)

def addDefaultObject (e : MatchParameter) (s : Sender) : Progress :=
  if e.IsDefaultObject then Put.run ⟨e.name, [], .addObject e.name⟩ s else .done (.ok s)

/-- The objects of the rows that are there. -/
def addInstanceObjects (e : MatchParameter) (s : Sender) : Progress :=
  if e.IsInstance then
    Outcome.forEach (fun k s =>
      if (c.readTableParameter e.conflibAppID k 1).isNone then .done (.ok s)
      else
        match constructInstanceName e.name k with
        | none => .done (.error s.sent)
        | some instanceName => Put.run ⟨e.name, [], .addObject instanceName⟩ s) (List.range' 1 e.maxNumInstance) s
  else .done (.ok s)

/-- The value of a parameter that does not belong to a table. -/
def setPlainValue (e : MatchParameter) (s : Sender) : Progress :=
  if e.IsPlain then
    match c.readParameter e.conflibAppID (N.ofParID e.conflibParID) with
    | none => .done (.ok s)
    | some result => putValue e e.name result (plainText N e result) s
  else .done (.ok s)

/-- The values of a column, row by row. -/
def setColumnValues (e : MatchParameter) (s : Sender) : Progress :=
  if e.IsColumn then
    Outcome.forEach (fun k s =>
      match c.readTableParameter e.conflibAppID k (N.ofParID e.conflibParID) with
      | none => .done (.ok s)
      | some result =>
        (columnText N e result).bind fun result =>
          match getInstanceParName e.name k with
          | none => .done (.error s.sent)
          | some instanceParName => putValue e instanceParName result result s) (List.range e.maxNumInstance) s
  else .done (.ok s)

/-- A round of the loop over the match table. -/
def buildEntry (e : MatchParameter) (s : Sender) : Progress :=
  (((addDefaultObject e s).andThen (addInstanceObjects c e)).andThen (setPlainValue N c e)).andThen (setColumnValues N c e)

/-- The address for connection requests. -/
def urlText (wanIp : Text) : Text :=
  ['h', 't', 't', 'p', ':', '/', '/'] ++ wanIp ++ [':', '5', '0', '0', '0', '6', '/', 'c', 'r', 'q']

/-- The message with the address; `url` has 32 characters. -/
def putConnectionRequestURL (wanIp : Option Text) (s : Sender) : Outcome Sender :=
  match wanIp with
  | none => .done s
  | some wanIp =>
    let url := urlText wanIp
    if 32 ≤ url.length then .undefined
    else
      (s.makeRoom connectionRequestURL.toList url).put (.setValue connectionRequestURL.toList (.text url))

/-- What `build_tcmAgent_parameters` returns, and the packets that it has sent. -/
structure Built where
  ret : Int
  sent : List (List Msg)
  deriving DecidableEq, Repr

/-- `build_tcmAgent_parameters`; the address of the interface is what `tcmCB_get_wan_ipaddress` gives, if it succeeds. -/
def buildTcmAgentParameters (wanIp : Option Text) : Outcome Built :=
  (Outcome.forEach (buildEntry N c) gMatchParameters ⟨[], [], 0⟩).bind fun
    | .error sent => .done ⟨-1, sent⟩
    | .ok s => (putConnectionRequestURL wanIp s).map fun s => ⟨0, s.notify.sent ++ [[.initEnd]]⟩

end CodeFactory.Tcm
