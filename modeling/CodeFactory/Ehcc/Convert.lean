import CodeFactory.Ehcc.MsgQueue
import CodeFactory.Ehcc.Read
import CodeFactory.Lib.Machine

/-!
# Messages and their blocks

`cvtNtoHEndian` and `cvtHtoNEndian` of `ehSslSocket.c`, `checkHomeMsg`, `convertHomeMsgToCtrlBlock`, `createHomeMsgBlock` and
`createHomeMsgBuf` of `ehMq.c`, on the octets of the memory. The memory that is allocated is taken to be there. A pointer is what can be
read from it on.
-/

namespace CodeFactory.Ehcc.Conversion

open Oal

/-! ## Messages in memory -/

/-- The two octets in memory of a number of the host. -/
def hostPair (littleEndian : Bool) (n : Nat) : UInt8 × UInt8 :=
  if littleEndian then (UInt8.ofNat (n % 256), UInt8.ofNat (n / 256)) else (UInt8.ofNat (n / 256), UInt8.ofNat (n % 256))

/-- A message in memory, with its value behind it. -/
structure RawMessage where
  protocolVersion : UInt8 × UInt8
  payloadLen : UInt8 × UInt8
  reserve : List UInt8
  eventType : UInt8 × UInt8
  valueLen : UInt8 × UInt8
  value : List UInt8
  reserve_length : reserve.length = 16

namespace RawMessage

def octets (r : RawMessage) : List UInt8 :=
  ([r.protocolVersion.1, r.protocolVersion.2, r.payloadLen.1, r.payloadLen.2] ++ r.reserve) ++
    ([r.eventType.1, r.eventType.2, r.valueLen.1, r.valueLen.2] ++ r.value)

end RawMessage

def offSetPayloadLen : Nat := 0x02

def offSetReserve : Nat := 0x04

def offSetEventType : Nat := 0x14

def offSetValue : Nat := 0x18

def homeMsgProtocolVersion : Nat := 1

/-- A field is put in the other order. -/
def swap16 (littleEndian : Bool) (msg : List UInt8) (off : Nat) : List UInt8 :=
  store16 littleEndian msg off (htons littleEndian (load16 littleEndian msg off))

def cvtNtoHEndian (littleEndian : Bool) (msg : List UInt8) : List UInt8 :=
  let msg := swap16 littleEndian msg 0
  let msg := swap16 littleEndian msg offSetPayloadLen
  swap16 littleEndian msg offSetEventType

def cvtHtoNEndian (littleEndian : Bool) (msg : List UInt8) : List UInt8 :=
  swap16 littleEndian (cvtNtoHEndian littleEndian msg) offSetValueLen

/-- `checkHomeMsg`. (`checkHomeMsgType` accepts every type.) -/
def checkHomeMsg (littleEndian : Bool) (msg : List UInt8) : TcmRet :=
  if load16 littleEndian msg 0 ≠ homeMsgProtocolVersion then .failure
  else if load16 littleEndian msg offSetPayloadLen ≠ load16 littleEndian msg offSetValueLen + 4 then .failure
  else .success

/-- `createHomeMsgBuf`, with the buffer and its length. The reserve field is not written. -/
def createHomeMsgBuf (littleEndian : Bool) (msgProVer msgEventType msgValueLen : Nat) (msgValue : List UInt8) :
    TcmRet × Option (List UInt8 × Nat) :=
  if msgProVer ≠ homeMsgProtocolVersion then (.failure, none)
  else
    let buf := List.replicate (sizeofHomeMessage + msgValueLen) 0
    let buf := overwrite buf 0 (List.replicate offSetValueLen 0)
    let buf := store16 littleEndian buf 0 msgProVer
    let buf := store16 littleEndian buf offSetEventType msgEventType
    let buf := overwrite buf offSetValue (msgValue.take msgValueLen)
    let buf := store16 littleEndian buf offSetPayloadLen ((offSetValue - offSetEventType + msgValueLen) % 65536)
    let buf := store16 littleEndian buf offSetValueLen msgValueLen
    (.success, some (buf, (offSetValue + msgValueLen) % 65536))

/-- What `ehWrite` writes. -/
def ehWriteOctets (littleEndian : Bool) (wtBuf : List UInt8) : List UInt8 :=
  wtBuf.take (sizeofHomeMessage + htons littleEndian (load16 littleEndian wtBuf offSetValueLen))

/-- The block that `ehRead` makes of the octets of a message. -/
def receivedBlock (littleEndian : Bool) (octets : List UInt8) : List UInt8 :=
  hostHeader littleEndian (octets.take sizeofHomeMessage) ++ octets.drop sizeofHomeMessage

/-! ## Control blocks -/

/-- The offset of `tmPoint` in a `homeMsgCtrlBlock`. -/
def offSetTmPoint : DataModel → Nat
  | .ilp32 => 4
  | .lp64 => 8

/-- `sizeof(struct timeval)`. -/
def sizeofTimeval : DataModel → Nat
  | .ilp32 => 8
  | .lp64 => 16

/-- The offset of `msg`. -/
def offSetMsg : DataModel → Nat
  | .ilp32 => 12
  | .lp64 => 24

/-- The offset of `connfd`. -/
def offSetConnfd : DataModel → Nat
  | .ilp32 => 36
  | .lp64 => 48

/-- The offset of `ssl`. -/
def offSetSsl : DataModel → Nat
  | .ilp32 => 40
  | .lp64 => 56

/-- The offset of `next`. -/
def offSetNext : DataModel → Nat
  | .ilp32 => 44
  | .lp64 => 64

/-- `sizeof(homeMsgCtrlBlock)`. -/
def sizeofCtrlBlock : DataModel → Nat
  | .ilp32 => 48
  | .lp64 => 72

/-- What a block has besides its message, as it is in memory. -/
structure BlockStamp (m : DataModel) where
  sequenceID : List UInt8
  tmPoint : List UInt8
  connfd : List UInt8
  ssl : List UInt8
  sequenceID_length : sequenceID.length = 4
  tmPoint_length : tmPoint.length = sizeofTimeval m
  connfd_length : connfd.length = 4
  ssl_length : ssl.length = m.sizeofPointer

/-- `strcpy` to an offset of a buffer. -/
def strcpyTo (buf : List UInt8) (off : Nat) (src : List UInt8) : Outcome (List UInt8) :=
  if 0 ∈ src then writeAt buf off (src.takeWhile (· ≠ 0) ++ [0]) else .undefined

/-- `memcpy` of `n` octets to an offset of a buffer. -/
def memcpyTo (buf : List UInt8) (off : Nat) (src : List UInt8) (n : Nat) : Outcome (List UInt8) :=
  if n ≤ src.length then writeAt buf off (src.take n) else .undefined

/-- `createHomeMsgBlock`, of a message with a reserve field and a value. -/
def createHomeMsgBlock (m : DataModel) (littleEndian : Bool) (stamp : BlockStamp m) (msgProVer : Nat) (msgReserve : List UInt8)
    (msgEventType msgValueLen : Nat) (msgValue : List UInt8) : Outcome (List UInt8) :=
  let buf := List.replicate (sizeofCtrlBlock m + msgValueLen) 0
  let buf := overwrite buf 0 stamp.sequenceID
  let buf := overwrite buf (offSetTmPoint m) stamp.tmPoint
  let buf := store16 littleEndian buf (offSetMsg m) msgProVer
  let buf := store16 littleEndian buf (offSetMsg m + offSetPayloadLen) ((4 + msgValueLen) % 65536)
  (strcpyTo buf (offSetMsg m + offSetReserve) msgReserve).bind fun buf =>
    let buf := store16 littleEndian buf (offSetMsg m + offSetEventType) msgEventType
    (memcpyTo buf (sizeofCtrlBlock m) msgValue msgValueLen).map fun buf =>
      let buf := store16 littleEndian buf (offSetMsg m + offSetValueLen) msgValueLen
      let buf := overwrite buf (offSetConnfd m) stamp.connfd
      overwrite buf (offSetSsl m) stamp.ssl

/-- `convertHomeMsgToCtrlBlock`. The reserve field is copied as a string from the message in memory. -/
def convertHomeMsgToCtrlBlock (m : DataModel) (littleEndian : Bool) (stamp : BlockStamp m) (msg : List UInt8) :
    Outcome (TcmRet × Option (List UInt8)) :=
  (createHomeMsgBlock m littleEndian stamp (load16 littleEndian msg 0) (msg.drop offSetReserve) (load16 littleEndian msg offSetEventType)
    (load16 littleEndian msg offSetValueLen) (msg.drop sizeofHomeMessage)).map fun block => (.success, some block)

/-- What `waitforRemoteMsgbySelect` does with a message from `ehRead`: the byte order, the check and the block. -/
def acceptHomeMsg (m : DataModel) (littleEndian : Bool) (stamp : BlockStamp m) (msg : List UInt8) : Outcome (TcmRet × Option (List UInt8)) :=
  let msg := cvtNtoHEndian littleEndian msg
  if checkHomeMsg littleEndian msg ≠ .success then .done (.failure, none) else convertHomeMsgToCtrlBlock m littleEndian stamp msg

/-! ## What the conversions have to do -/

/-- A message that a device sends. -/
structure DeviceMessage where
  reserve : List UInt8
  eventType : UInt16
  value : List UInt8
  reserve_length : reserve.length = 16
  value_length : value.length ≤ 65531

def DeviceMessage.sent (msg : DeviceMessage) : RawMessage where
  protocolVersion := hostPair false homeMsgProtocolVersion
  payloadLen := hostPair false (msg.value.length + 4)
  reserve := msg.reserve
  eventType := hostPair false msg.eventType.toNat
  valueLen := hostPair false msg.value.length
  value := msg.value
  reserve_length := msg.reserve_length

/-- A block holds a message: all is as it was sent, and no other block is linked to it. -/
structure BlockHolds (m : DataModel) (littleEndian : Bool) (block : List UInt8) (msg : DeviceMessage) : Prop where
  length : block.length = sizeofCtrlBlock m + msg.value.length
  protocolVersion : load16 littleEndian block (offSetMsg m) = homeMsgProtocolVersion
  eventType : load16 littleEndian block (offSetMsg m + offSetEventType) = msg.eventType.toNat
  valueLen : load16 littleEndian block (offSetMsg m + offSetValueLen) = msg.value.length
  value : slice block (sizeofCtrlBlock m) msg.value.length = msg.value
  reserve : slice block (offSetMsg m + offSetReserve) 16 = msg.reserve
  next : slice block (offSetNext m) m.sizeofPointer = List.replicate m.sizeofPointer 0

/-- A message that is received is put into a block that holds it. -/
def ConvertsRight (m : DataModel) (littleEndian : Bool) (msg : DeviceMessage) : Prop :=
  ∀ stamp : BlockStamp m, ∃ block,
    acceptHomeMsg m littleEndian stamp (receivedBlock littleEndian msg.sent.octets) = .done (.success, some block) ∧
      BlockHolds m littleEndian block msg

/-- A message that is built on one host, and sent, gives a block with its type and value on another one. -/
def RoundTrips (m : DataModel) (littleEndian littleEndian' : Bool) (msg : DeviceMessage) : Prop :=
  ∃ buf len, createHomeMsgBuf littleEndian homeMsgProtocolVersion msg.eventType.toNat msg.value.length msg.value = (.success, some (buf, len)) ∧
    ∀ stamp : BlockStamp m, ∃ block,
      acceptHomeMsg m littleEndian' stamp
        (receivedBlock littleEndian' (ehWriteOctets littleEndian (cvtHtoNEndian littleEndian buf))) = .done (.success, some block) ∧
      load16 littleEndian' block (offSetMsg m + offSetEventType) = msg.eventType.toNat ∧
      load16 littleEndian' block (offSetMsg m + offSetValueLen) = msg.value.length ∧
      slice block (sizeofCtrlBlock m) msg.value.length = msg.value

/-! ## Fields -/

variable {m : DataModel} {littleEndian : Bool} {n : Nat}

theorem hostOctets_eq (littleEndian : Bool) (n : Nat) :
    hostOctets littleEndian n = [(hostPair littleEndian n).1, (hostPair littleEndian n).2] := by
  cases littleEndian <;> rfl

theorem hostNumber_hostPair (h : n < 65536) : hostNumber littleEndian (hostPair littleEndian n).1 (hostPair littleEndian n).2 = n := by
  have hoctets : hostNumber littleEndian ((hostOctets littleEndian n).getD 0 0) ((hostOctets littleEndian n).getD 1 0) = n :=
    hostNumber_hostOctets h
  rw [hostOctets_eq] at hoctets
  exact hoctets

/-- Two octets in the other order. -/
def swapPair (littleEndian : Bool) (p : UInt8 × UInt8) : UInt8 × UInt8 :=
  hostPair littleEndian (htons littleEndian (hostNumber littleEndian p.1 p.2))

theorem swapPair_network (h : n < 65536) : swapPair littleEndian (hostPair false n) = hostPair littleEndian n := by
  rw [swapPair, htons_hostNumber, hostNumber_hostPair h]

theorem swapPair_host (h : n < 65536) : swapPair littleEndian (hostPair littleEndian n) = hostPair false n := by
  have hoctets := hostOctets_htons littleEndian h
  rw [hostOctets_eq] at hoctets
  obtain ⟨hfirst, hsecond⟩ := List.cons_eq_cons.1 hoctets
  rw [swapPair, hostNumber_hostPair h]
  exact Prod.ext hfirst (List.cons_eq_cons.1 hsecond).1

namespace RawMessage

variable (r : RawMessage)

theorem length_front : ([r.protocolVersion.1, r.protocolVersion.2, r.payloadLen.1, r.payloadLen.2] ++ r.reserve).length = 20 := by
  simp [r.reserve_length]

@[simp] theorem length_octets : r.octets.length = sizeofHomeMessage + r.value.length := by
  rw [octets, List.length_append, length_front, List.length_append, sizeofHomeMessage]
  simp only [List.length_cons, List.length_nil]
  omega

theorem load16_protocolVersion : load16 littleEndian r.octets 0 = hostNumber littleEndian r.protocolVersion.1 r.protocolVersion.2 := rfl

theorem load16_payloadLen :
    load16 littleEndian r.octets offSetPayloadLen = hostNumber littleEndian r.payloadLen.1 r.payloadLen.2 := rfl

theorem load16_eventType : load16 littleEndian r.octets offSetEventType = hostNumber littleEndian r.eventType.1 r.eventType.2 := by
  have hfront := r.length_front
  rw [octets, load16_append_right (by rw [hfront]; decide), hfront]
  rfl

theorem load16_valueLen : load16 littleEndian r.octets offSetValueLen = hostNumber littleEndian r.valueLen.1 r.valueLen.2 := by
  have hfront := r.length_front
  rw [octets, load16_append_right (by rw [hfront]; decide), hfront]
  rfl

theorem store16_protocolVersion (n : Nat) :
    store16 littleEndian r.octets 0 n = { r with protocolVersion := hostPair littleEndian n }.octets := by
  rw [store16, hostOctets_eq]
  rfl

theorem store16_payloadLen (n : Nat) :
    store16 littleEndian r.octets offSetPayloadLen n = { r with payloadLen := hostPair littleEndian n }.octets := by
  rw [store16, hostOctets_eq]
  rfl

theorem store16_eventType (n : Nat) :
    store16 littleEndian r.octets offSetEventType n = { r with eventType := hostPair littleEndian n }.octets := by
  have hfront := r.length_front
  rw [store16, hostOctets_eq, octets, overwrite_append_right (by rw [hfront]; decide), hfront]
  rfl

theorem store16_valueLen (n : Nat) :
    store16 littleEndian r.octets offSetValueLen n = { r with valueLen := hostPair littleEndian n }.octets := by
  have hfront := r.length_front
  rw [store16, hostOctets_eq, octets, overwrite_append_right (by rw [hfront]; decide), hfront]
  rfl

theorem swap16_protocolVersion :
    swap16 littleEndian r.octets 0 = { r with protocolVersion := swapPair littleEndian r.protocolVersion }.octets := by
  rw [swap16, load16_protocolVersion, store16_protocolVersion]
  rfl

theorem swap16_payloadLen :
    swap16 littleEndian r.octets offSetPayloadLen = { r with payloadLen := swapPair littleEndian r.payloadLen }.octets := by
  rw [swap16, load16_payloadLen, store16_payloadLen]
  rfl

theorem swap16_eventType :
    swap16 littleEndian r.octets offSetEventType = { r with eventType := swapPair littleEndian r.eventType }.octets := by
  rw [swap16, load16_eventType, store16_eventType]
  rfl

theorem swap16_valueLen :
    swap16 littleEndian r.octets offSetValueLen = { r with valueLen := swapPair littleEndian r.valueLen }.octets := by
  rw [swap16, load16_valueLen, store16_valueLen]
  rfl

theorem octets_eq : r.octets = r.octets.take sizeofHomeMessage ++ r.value := by
  have hheader : (([r.protocolVersion.1, r.protocolVersion.2, r.payloadLen.1, r.payloadLen.2] ++ r.reserve) ++
      [r.eventType.1, r.eventType.2, r.valueLen.1, r.valueLen.2]).length = sizeofHomeMessage := by
    rw [List.length_append, length_front]
    rfl
  rw [octets, ← List.append_assoc, List.take_left' hheader]

theorem drop_octets : r.octets.drop sizeofHomeMessage = r.value := by
  have h := r.octets_eq
  conv_lhs => rw [h]
  rw [List.drop_left']
  rw [List.length_take, length_octets]
  omega

theorem length_header : (r.octets.take sizeofHomeMessage).length = sizeofHomeMessage := by
  rw [List.length_take, length_octets]
  omega

theorem overwrite_value (bs : List UInt8) : overwrite r.octets offSetValue bs = { r with value := overwrite r.value 0 bs }.octets := by
  have hheader : (([r.protocolVersion.1, r.protocolVersion.2, r.payloadLen.1, r.payloadLen.2] ++ r.reserve) ++
      [r.eventType.1, r.eventType.2, r.valueLen.1, r.valueLen.2]).length = offSetValue := by
    rw [List.length_append, length_front]
    rfl
  rw [octets, octets, ← List.append_assoc, ← List.append_assoc, overwrite_append_right (Nat.le_of_eq hheader), hheader, Nat.sub_self]

def zeros (n : Nat) : RawMessage :=
  ⟨(0, 0), (0, 0), List.replicate 16 0, (0, 0), (0, 0), List.replicate n 0, List.length_replicate⟩

theorem octets_zeros (n : Nat) : (zeros n).octets = List.replicate (sizeofHomeMessage + n) 0 := by
  rw [← List.replicate_append_replicate]
  rfl

theorem drop_reserve :
    r.octets.drop offSetReserve = r.reserve ++ ([r.eventType.1, r.eventType.2, r.valueLen.1, r.valueLen.2] ++ r.value) := rfl

end RawMessage

/-- The message as the host has it when the byte order is right. -/
def DeviceMessage.host (littleEndian : Bool) (msg : DeviceMessage) : RawMessage where
  protocolVersion := hostPair littleEndian homeMsgProtocolVersion
  payloadLen := hostPair littleEndian (msg.value.length + 4)
  reserve := msg.reserve
  eventType := hostPair littleEndian msg.eventType.toNat
  valueLen := hostPair littleEndian msg.value.length
  value := msg.value
  reserve_length := msg.reserve_length

variable (msg : DeviceMessage)

theorem announced_sent : announced (msg.sent.octets.take sizeofHomeMessage) = msg.value.length := by
  have hlength := msg.value_length
  have hload : load16 false (msg.sent.octets.take sizeofHomeMessage ++ msg.sent.value) offSetValueLen = _ :=
    load16_header msg.sent.length_header msg.sent.value
  rw [← RawMessage.octets_eq, RawMessage.load16_valueLen] at hload
  exact hload.symm.trans (hostNumber_hostPair (by omega))

/-- What is received has the length of the value in the order of the host. -/
theorem receivedBlock_sent :
    receivedBlock littleEndian msg.sent.octets = { msg.sent with valueLen := hostPair littleEndian msg.value.length }.octets := by
  have hlength : (hostHeader littleEndian (msg.sent.octets.take sizeofHomeMessage)) ++ msg.sent.value =
      store16 littleEndian msg.sent.octets offSetValueLen msg.value.length := by
    rw [hostHeader, announced_sent, store16, store16]
    conv_rhs => rw [msg.sent.octets_eq]
    rw [overwrite_append_left]
    rw [length_hostOctets, RawMessage.length_header]
    decide
  rw [receivedBlock, RawMessage.drop_octets, hlength, RawMessage.store16_valueLen]

/-- The byte order of what is received. -/
theorem cvtNtoHEndian_received : cvtNtoHEndian littleEndian (receivedBlock littleEndian msg.sent.octets) = (msg.host littleEndian).octets := by
  have hlength := msg.value_length
  have htype := msg.eventType.toNat_lt
  rw [receivedBlock_sent, cvtNtoHEndian, RawMessage.swap16_protocolVersion, RawMessage.swap16_payloadLen, RawMessage.swap16_eventType]
  simp only [DeviceMessage.sent]
  rw [swapPair_network (by decide), swapPair_network (by omega), swapPair_network (by omega)]
  rfl

theorem cvtHtoNEndian_host : cvtHtoNEndian littleEndian (msg.host littleEndian).octets = msg.sent.octets := by
  have hlength := msg.value_length
  have htype := msg.eventType.toNat_lt
  rw [cvtHtoNEndian, cvtNtoHEndian, RawMessage.swap16_protocolVersion, RawMessage.swap16_payloadLen, RawMessage.swap16_eventType,
    RawMessage.swap16_valueLen]
  simp only [DeviceMessage.host]
  rw [swapPair_host (by decide), swapPair_host (by omega), swapPair_host (by omega), swapPair_host (by omega)]
  rfl

theorem load16_host_protocolVersion : load16 littleEndian (msg.host littleEndian).octets 0 = homeMsgProtocolVersion :=
  hostNumber_hostPair (by decide)

theorem load16_host_payloadLen : load16 littleEndian (msg.host littleEndian).octets offSetPayloadLen = msg.value.length + 4 := by
  have hlength := msg.value_length
  exact hostNumber_hostPair (by omega)

theorem load16_host_eventType : load16 littleEndian (msg.host littleEndian).octets offSetEventType = msg.eventType.toNat := by
  rw [RawMessage.load16_eventType]
  exact hostNumber_hostPair msg.eventType.toNat_lt

theorem load16_host_valueLen : load16 littleEndian (msg.host littleEndian).octets offSetValueLen = msg.value.length := by
  have hlength := msg.value_length
  rw [RawMessage.load16_valueLen]
  exact hostNumber_hostPair (by omega)

theorem checkHomeMsg_host : checkHomeMsg littleEndian (msg.host littleEndian).octets = .success := by
  rw [checkHomeMsg, load16_host_protocolVersion, load16_host_payloadLen, load16_host_valueLen, if_neg (not_not_intro rfl),
    if_neg (not_not_intro rfl)]

/-! ## Blocks -/

/-- The octets of the message in the memory of the host, from the reserve field on. -/
def DeviceMessage.fromReserve (littleEndian : Bool) (msg : DeviceMessage) : List UInt8 :=
  (msg.host littleEndian).octets.drop offSetReserve

theorem acceptHomeMsg_received (stamp : BlockStamp m) :
    acceptHomeMsg m littleEndian stamp (receivedBlock littleEndian msg.sent.octets) =
      (createHomeMsgBlock m littleEndian stamp homeMsgProtocolVersion (msg.fromReserve littleEndian) msg.eventType.toNat msg.value.length
        msg.value).map fun block => (.success, some block) := by
  have hvalue : (msg.host littleEndian).octets.drop sizeofHomeMessage = msg.value := RawMessage.drop_octets _
  rw [acceptHomeMsg, cvtNtoHEndian_received, checkHomeMsg_host, if_neg (not_not_intro rfl), convertHomeMsgToCtrlBlock,
    load16_host_protocolVersion, load16_host_eventType, load16_host_valueLen, hvalue, DeviceMessage.fromReserve]

/-- The string that is copied. -/
def copied (src : List UInt8) : List UInt8 := src.takeWhile (· ≠ 0)

/-- The writes in front of the copy of the reserve field. -/
def writesBefore (littleEndian : Bool) (stamp : BlockStamp m) (msgProVer msgValueLen : Nat) : List (Nat × List UInt8) :=
  [(0, stamp.sequenceID), (offSetTmPoint m, stamp.tmPoint), (offSetMsg m, hostOctets littleEndian msgProVer),
    (offSetMsg m + offSetPayloadLen, hostOctets littleEndian ((4 + msgValueLen) % 65536))]

/-- The writes behind the copy of the value. -/
def writesAfter (littleEndian : Bool) (stamp : BlockStamp m) (msgValueLen : Nat) : List (Nat × List UInt8) :=
  [(offSetMsg m + offSetValueLen, hostOctets littleEndian msgValueLen), (offSetConnfd m, stamp.connfd), (offSetSsl m, stamp.ssl)]

/-- All writes to a block. -/
def blockWrites (littleEndian : Bool) (stamp : BlockStamp m) (msgProVer : Nat) (src : List UInt8) (msgEventType msgValueLen : Nat)
    (value : List UInt8) : List (Nat × List UInt8) :=
  writesBefore littleEndian stamp msgProVer msgValueLen ++ (offSetMsg m + offSetReserve, copied src ++ [0]) ::
    (offSetMsg m + offSetEventType, hostOctets littleEndian msgEventType) :: (sizeofCtrlBlock m, value) ::
      writesAfter littleEndian stamp msgValueLen

theorem layout (m : DataModel) : 4 ≤ offSetTmPoint m ∧ offSetTmPoint m + sizeofTimeval m = offSetMsg m ∧
    offSetMsg m + 24 = offSetConnfd m ∧ offSetConnfd m + 4 ≤ offSetSsl m ∧ offSetSsl m + m.sizeofPointer = offSetNext m ∧
    offSetNext m + m.sizeofPointer = sizeofCtrlBlock m := by
  cases m <;> decide

section Blocks

variable {stamp : BlockStamp m} {ver type : Nat} {src value : List UInt8}

theorem length_copied_lt (h : 0 ∈ src) : (copied src).length < src.length := by
  have hsplit := congrArg List.length (List.takeWhile_append_dropWhile (p := (· ≠ (0 : UInt8))) (l := src))
  have hne : src.dropWhile (· ≠ 0) ≠ [] := by
    intro hnil
    have hzero := List.dropWhile_eq_nil_iff.1 hnil 0 h
    simp at hzero
  have hpos := List.length_pos_iff.2 hne
  rw [List.length_append] at hsplit
  rw [copied]
  omega

theorem allFit_blockWrites (hzero : 0 ∈ src) (hsrc : src.length = 20 + value.length) :
    AllFit (sizeofCtrlBlock m + value.length) (blockWrites littleEndian stamp ver src type value.length value) := by
  have hcopied := length_copied_lt hzero
  have hlayout := layout m
  simp only [AllFit, blockWrites, writesBefore, writesAfter, List.cons_append, List.nil_append, List.forall_mem_cons, length_hostOctets,
    stamp.sequenceID_length, stamp.tmPoint_length, stamp.connfd_length, stamp.ssl_length, List.length_append, List.length_singleton,
    offSetPayloadLen, offSetReserve, offSetEventType, offSetValueLen]
  refine ⟨?_, ?_, ?_, ?_, ?_, ?_, ?_, ?_, ?_, ?_, List.forall_mem_nil _⟩ <;> omega

/-- The block as it is made. -/
def block (m : DataModel) (littleEndian : Bool) (stamp : BlockStamp m) (ver : Nat) (src : List UInt8) (type : Nat) (value : List UInt8) :
    List UInt8 :=
  writes (List.replicate (sizeofCtrlBlock m + value.length) 0) (blockWrites littleEndian stamp ver src type value.length value)

/-- Making a block is making these writes to zeros. -/
theorem createHomeMsgBlock_eq (hzero : 0 ∈ src) (hsrc : src.length = 20 + value.length) :
    createHomeMsgBlock m littleEndian stamp ver src type value.length value =
      .done (block m littleEndian stamp ver src type value) := by
  have hfits : AllFit (sizeofCtrlBlock m + value.length) (blockWrites littleEndian stamp ver src type value.length value) :=
    allFit_blockWrites hzero hsrc
  have hbefore : AllFit (List.replicate (sizeofCtrlBlock m + value.length) (0 : UInt8)).length
      (writesBefore littleEndian stamp ver value.length) := by
    intro w hw
    rw [List.length_replicate]
    exact hfits w (List.mem_append_left _ hw)
  have hlength := length_writes hbefore
  rw [List.length_replicate] at hlength
  have hcopy := hfits (offSetMsg m + offSetReserve, copied src ++ [0]) (by simp [blockWrites])
  have htype := hfits (offSetMsg m + offSetEventType, hostOctets littleEndian type) (by simp [blockWrites])
  have hrun : createHomeMsgBlock m littleEndian stamp ver src type value.length value =
      (strcpyTo (writes (List.replicate (sizeofCtrlBlock m + value.length) 0) (writesBefore littleEndian stamp ver value.length))
        (offSetMsg m + offSetReserve) src).bind fun buf =>
        (memcpyTo (store16 littleEndian buf (offSetMsg m + offSetEventType) type) (sizeofCtrlBlock m) value value.length).map fun buf =>
          writes buf (writesAfter littleEndian stamp value.length) := rfl
  have hcopied : (overwrite (writes (List.replicate (sizeofCtrlBlock m + value.length) 0) (writesBefore littleEndian stamp ver value.length))
      (offSetMsg m + offSetReserve) (copied src ++ [0])).length = sizeofCtrlBlock m + value.length := by
    rw [length_overwrite (by rwa [hlength]), hlength]
  have hstored : (store16 littleEndian (overwrite (writes (List.replicate (sizeofCtrlBlock m + value.length) 0)
      (writesBefore littleEndian stamp ver value.length)) (offSetMsg m + offSetReserve) (copied src ++ [0]))
      (offSetMsg m + offSetEventType) type).length = sizeofCtrlBlock m + value.length := by
    rw [store16, length_overwrite (by rwa [hcopied]), hcopied]
  rw [hrun, strcpyTo, if_pos hzero, ← copied, writeAt_of_le (by rwa [hlength]), Outcome.bind_done, memcpyTo, if_pos le_rfl, List.take_length,
    writeAt_of_le (by rw [hstored]), block, blockWrites, writes_append]
  rfl

/-- Where no null is found behind the reserve field, the copy of it does not end in the message. -/
theorem createHomeMsgBlock_of_notMem (hzero : 0 ∉ src) (n : Nat) :
    createHomeMsgBlock m littleEndian stamp ver src type n value = .undefined := by
  rw [createHomeMsgBlock, strcpyTo, if_neg hzero]
  rfl

/-- What a write has written to a block is there, if no later one touches it. -/
theorem slice_block (hzero : 0 ∈ src) (hsrc : src.length = 20 + value.length) {ws vs : List (Nat × List UInt8)} {w : Nat × List UInt8}
    (hw : blockWrites littleEndian stamp ver src type value.length value = ws ++ w :: vs) (h : Untouched w.1 w.2.length vs) :
    slice (writes (List.replicate (sizeofCtrlBlock m + value.length) 0)
      (blockWrites littleEndian stamp ver src type value.length value)) w.1 w.2.length = w.2 := by
  have hfits : AllFit (List.replicate (sizeofCtrlBlock m + value.length) (0 : UInt8)).length (ws ++ w :: vs) := by
    rw [List.length_replicate, ← hw]
    exact allFit_blockWrites hzero hsrc
  have hws : AllFit (List.replicate (sizeofCtrlBlock m + value.length) (0 : UInt8)).length ws :=
    fun v hv => hfits v (List.mem_append_left _ hv)
  rw [hw, slice_writes_last hfits h, slice_overwrite_self _ rfl]
  rw [length_writes hws]
  exact hfits w (by simp)

theorem load16_of_slice {buf : List UInt8} {off : Nat} (h : slice buf off 2 = hostOctets littleEndian n) (hn : n < 65536) :
    load16 littleEndian buf off = n := by
  have hfirst := getD_slice (n := 2) (i := 0) (by decide) buf off (0 : UInt8)
  have hsecond := getD_slice (n := 2) (i := 1) (by decide) buf off (0 : UInt8)
  rw [h, Nat.add_zero] at hfirst
  rw [h] at hsecond
  rw [load16, ← hfirst, ← hsecond, hostNumber_hostOctets hn]

theorem value_block (hzero : 0 ∈ src) (hsrc : src.length = 20 + value.length) :
    slice (block m littleEndian stamp ver src type value) (sizeofCtrlBlock m) value.length = value := by
  have hlayout := layout m
  have hsplit : blockWrites littleEndian stamp ver src type value.length value =
      (writesBefore littleEndian stamp ver value.length ++ [(offSetMsg m + offSetReserve, copied src ++ [0]),
        (offSetMsg m + offSetEventType, hostOctets littleEndian type)]) ++
      (sizeofCtrlBlock m, value) :: writesAfter littleEndian stamp value.length := by simp [blockWrites]
  refine slice_block hzero hsrc hsplit ?_
  simp only [Untouched, writesAfter, List.forall_mem_cons, length_hostOctets, stamp.connfd_length, stamp.ssl_length, offSetValueLen]
  refine ⟨?_, ?_, ?_, List.forall_mem_nil _⟩ <;> omega

/-- A number that is written to a block is read from it, if all later writes are behind it. -/
theorem load16_block (hzero : 0 ∈ src) (hsrc : src.length = 20 + value.length) {off : Nat} {ws vs : List (Nat × List UInt8)}
    (hsplit : blockWrites littleEndian stamp ver src type value.length value = ws ++ (off, hostOctets littleEndian n) :: vs)
    (hvs : ∀ w ∈ vs, off + 2 ≤ w.1) (hn : n < 65536) : load16 littleEndian (block m littleEndian stamp ver src type value) off = n := by
  have htwo := length_hostOctets littleEndian n
  have huntouched : Untouched off (hostOctets littleEndian n).length vs := by
    intro w hw
    rw [htwo]
    exact .inl (hvs w hw)
  have hslice := slice_block hzero hsrc hsplit huntouched
  dsimp only at hslice
  rw [htwo] at hslice
  exact load16_of_slice hslice hn

theorem eventType_block (hzero : 0 ∈ src) (hsrc : src.length = 20 + value.length) (htype : type < 65536) :
    load16 littleEndian (block m littleEndian stamp ver src type value) (offSetMsg m + offSetEventType) = type := by
  have hlayout := layout m
  have hsplit : blockWrites littleEndian stamp ver src type value.length value =
      (writesBefore littleEndian stamp ver value.length ++ [(offSetMsg m + offSetReserve, copied src ++ [0])]) ++
      (offSetMsg m + offSetEventType, hostOctets littleEndian type) :: (sizeofCtrlBlock m, value) ::
        writesAfter littleEndian stamp value.length := by simp [blockWrites]
  refine load16_block hzero hsrc hsplit ?_ htype
  simp only [writesAfter, List.forall_mem_cons, offSetEventType, offSetValueLen]
  refine ⟨?_, ?_, ?_, ?_, List.forall_mem_nil _⟩ <;> omega

theorem valueLen_block (hzero : 0 ∈ src) (hsrc : src.length = 20 + value.length) (hlength : value.length < 65536) :
    load16 littleEndian (block m littleEndian stamp ver src type value) (offSetMsg m + offSetValueLen) = value.length := by
  have hlayout := layout m
  have hsplit : blockWrites littleEndian stamp ver src type value.length value =
      (writesBefore littleEndian stamp ver value.length ++ [(offSetMsg m + offSetReserve, copied src ++ [0]),
        (offSetMsg m + offSetEventType, hostOctets littleEndian type), (sizeofCtrlBlock m, value)]) ++
      (offSetMsg m + offSetValueLen, hostOctets littleEndian value.length) ::
        [(offSetConnfd m, stamp.connfd), (offSetSsl m, stamp.ssl)] := by simp [blockWrites, writesAfter]
  refine load16_block hzero hsrc hsplit ?_ hlength
  simp only [List.forall_mem_cons, offSetValueLen]
  refine ⟨?_, ?_, List.forall_mem_nil _⟩ <;> omega

theorem protocolVersion_block (hzero : 0 ∈ src) (hsrc : src.length = 20 + value.length) (hver : ver < 65536) :
    load16 littleEndian (block m littleEndian stamp ver src type value) (offSetMsg m) = ver := by
  have hlayout := layout m
  have hsplit : blockWrites littleEndian stamp ver src type value.length value =
      [(0, stamp.sequenceID), (offSetTmPoint m, stamp.tmPoint)] ++ (offSetMsg m, hostOctets littleEndian ver) ::
        ((offSetMsg m + offSetPayloadLen, hostOctets littleEndian ((4 + value.length) % 65536)) ::
          (offSetMsg m + offSetReserve, copied src ++ [0]) :: (offSetMsg m + offSetEventType, hostOctets littleEndian type) ::
            (sizeofCtrlBlock m, value) :: writesAfter littleEndian stamp value.length) := by simp [blockWrites, writesBefore]
  refine load16_block hzero hsrc hsplit ?_ hver
  simp only [writesAfter, List.forall_mem_cons, offSetPayloadLen, offSetReserve, offSetEventType, offSetValueLen]
  refine ⟨?_, ?_, ?_, ?_, ?_, ?_, ?_, List.forall_mem_nil _⟩ <;> omega

theorem length_block (hzero : 0 ∈ src) (hsrc : src.length = 20 + value.length) :
    (block m littleEndian stamp ver src type value).length = sizeofCtrlBlock m + value.length := by
  rw [block, length_writes, List.length_replicate]
  rw [List.length_replicate]
  exact allFit_blockWrites hzero hsrc

/-- From the reserve field on, a part of the block that only the copy of this field can touch has what the copy leaves there, and zeros. -/
theorem slice_copied (hzero : 0 ∈ src) (hsrc : src.length = 20 + value.length) {k j : Nat}
    (hk : k + j ≤ 16 ∨ offSetMsg m + offSetReserve + k = offSetNext m ∧ j = m.sizeofPointer) :
    slice (block m littleEndian stamp ver src type value) (offSetMsg m + offSetReserve + k) j =
      ((copied src).drop k).take j ++ List.replicate (j - ((copied src).length - k)) 0 := by
  have hfits : AllFit (List.replicate (sizeofCtrlBlock m + value.length) (0 : UInt8)).length
      (blockWrites littleEndian stamp ver src type value.length value) := by
    rw [List.length_replicate]
    exact allFit_blockWrites hzero hsrc
  have hcopy := hfits (offSetMsg m + offSetReserve, copied src ++ [0]) (by simp [blockWrites])
  have hbefore : AllFit (List.replicate (sizeofCtrlBlock m + value.length) (0 : UInt8)).length
      (writesBefore littleEndian stamp ver value.length) := fun w hw => hfits w (List.mem_append_left _ hw)
  have hlayout := layout m
  have hbuf : (writes (List.replicate (sizeofCtrlBlock m + value.length) (0 : UInt8))
      (writesBefore littleEndian stamp ver value.length)).length = sizeofCtrlBlock m + value.length := by
    rw [length_writes hbefore, List.length_replicate]
  -- nothing has been written from the reserve field on
  have hzeros : (writes (List.replicate (sizeofCtrlBlock m + value.length) (0 : UInt8))
      (writesBefore littleEndian stamp ver value.length)).drop (offSetMsg m + offSetReserve) =
        List.replicate (sizeofCtrlBlock m + value.length - (offSetMsg m + offSetReserve)) 0 := by
    have huntouched : Untouched (offSetMsg m + offSetReserve) (sizeofCtrlBlock m + value.length - (offSetMsg m + offSetReserve))
        (writesBefore littleEndian stamp ver value.length) := by
      simp only [Untouched, writesBefore, List.forall_mem_cons, length_hostOctets, stamp.sequenceID_length, stamp.tmPoint_length,
        offSetPayloadLen, offSetReserve]
      refine ⟨?_, ?_, ?_, ?_, List.forall_mem_nil _⟩ <;> omega
    have hreserve : offSetMsg m + offSetReserve ≤ sizeofCtrlBlock m := by
      rw [offSetReserve]
      omega
    have hslice := slice_writes hbefore huntouched
    rwa [slice, List.take_of_length_le (by rw [List.length_drop, hbuf]), slice_replicate (by omega)] at hslice
  dsimp only at hcopy
  rw [List.length_replicate, List.length_append, List.length_singleton] at hcopy
  have hreserve : offSetReserve = 4 := rfl
  have hleft : ((writes (List.replicate (sizeofCtrlBlock m + value.length) (0 : UInt8))
      (writesBefore littleEndian stamp ver value.length)).take (offSetMsg m + offSetReserve)).length = offSetMsg m + offSetReserve := by
    rw [List.length_take, hbuf]
    omega
  have hroom : ∀ M, List.replicate (M + 1) (0 : UInt8) = [0] ++ List.replicate M 0 := fun M => List.replicate_succ
  rw [block, blockWrites, slice_writes_last (w := (offSetMsg m + offSetReserve, copied src ++ [0])) hfits]
  · dsimp only
    rw [slice, overwrite, List.append_assoc, ← List.drop_drop, List.drop_left' hleft, List.length_append, List.length_singleton,
      ← List.drop_drop, hzeros, List.drop_replicate, List.append_assoc, ← hroom, List.drop_append, List.take_append, List.drop_replicate,
      List.take_replicate, List.length_drop]
    congr 2
    obtain hk | ⟨hk, rfl⟩ := hk <;> omega
  · simp only [Untouched, writesAfter, List.forall_mem_cons, length_hostOctets, stamp.connfd_length, stamp.ssl_length, offSetReserve,
      offSetEventType, offSetValueLen]
    rw [hreserve] at hk
    obtain hk | ⟨hk, rfl⟩ := hk
    · refine ⟨?_, ?_, ?_, ?_, ?_, List.forall_mem_nil _⟩ <;> omega
    · refine ⟨?_, ?_, ?_, ?_, ?_, List.forall_mem_nil _⟩ <;> omega

/-- The reserve field of a block has what the copy of a string leaves in it. -/
theorem reserve_block (hzero : 0 ∈ src) (hsrc : src.length = 20 + value.length) {reserve rest : List UInt8}
    (hreserve : reserve.length = 16) (heq : src = reserve ++ rest) :
    slice (block m littleEndian stamp ver src type value) (offSetMsg m + offSetReserve) 16 = Mq.strcpyReserve reserve := by
  have hslice : slice (block m littleEndian stamp ver src type value) (offSetMsg m + offSetReserve + 0) 16 = _ :=
    slice_copied hzero hsrc (.inl (by decide))
  rw [Nat.add_zero, List.drop_zero, Nat.sub_zero] at hslice
  rw [hslice, Mq.strcpyReserve, copied, heq, List.takeWhile_append]
  by_cases hlength : (reserve.takeWhile (· ≠ 0)).length = reserve.length
  · have hall : reserve.takeWhile (· ≠ 0) = reserve := (List.takeWhile_prefix _).eq_of_length hlength
    have hnone : 16 - (reserve.length + (rest.takeWhile (· ≠ 0)).length) = 0 := by omega
    rw [if_pos hlength, hall, List.take_left' hreserve, List.length_append, hnone, hreserve]
  · rw [if_neg hlength, List.take_of_length_le]
    rw [← hreserve]
    exact (List.takeWhile_prefix _).length_le

/-- No other block is linked to a block if and only if the copy of the reserve field does not go farther than to `next`. -/
theorem next_block_iff (hzero : 0 ∈ src) (hsrc : src.length = 20 + value.length) :
    slice (block m littleEndian stamp ver src type value) (offSetNext m) m.sizeofPointer = List.replicate m.sizeofPointer 0 ↔
      (copied src).length ≤ offSetNext m - (offSetMsg m + offSetReserve) := by
  have hlayout := layout m
  have hreserve : offSetReserve = 4 := rfl
  have hpos := m.sizeofPointer_pos
  have hplace : offSetMsg m + offSetReserve + (offSetNext m - (offSetMsg m + offSetReserve)) = offSetNext m := by omega
  have hslice : slice (block m littleEndian stamp ver src type value) (offSetMsg m + offSetReserve + (offSetNext m - (offSetMsg m + offSetReserve)))
      m.sizeofPointer = _ := slice_copied hzero hsrc (.inr ⟨hplace, rfl⟩)
  rw [hplace] at hslice
  rw [hslice]
  constructor
  · intro h
    by_contra hlong
    obtain ⟨c, r, hdrop⟩ := List.exists_cons_of_ne_nil (l := (copied src).drop (offSetNext m - (offSetMsg m + offSetReserve)))
      (by rw [← List.length_pos_iff, List.length_drop]; omega)
    have hc : c ≠ 0 := by
      have hmem : c ∈ copied src := List.mem_of_mem_drop (hdrop ▸ List.mem_cons_self)
      simpa using List.mem_takeWhile_imp hmem
    obtain ⟨k, hk⟩ : ∃ k, m.sizeofPointer = k + 1 := ⟨m.sizeofPointer - 1, by omega⟩
    rw [hdrop, hk, List.take_succ_cons, List.replicate_succ, List.cons_append] at h
    exact hc (List.cons_eq_cons.1 h).1
  · intro hle
    rw [List.drop_of_length_le hle, List.take_nil, List.nil_append, Nat.sub_eq_zero_of_le hle, Nat.sub_zero]

end Blocks

/-! ## Conversions -/

/-- The reserve field of a message can be copied as a string: behind its first null there are only nulls, and from the reserve field on,
the message in the memory of the host has a null not farther away than `next` is in the block. -/
def CopiesRight (m : DataModel) (littleEndian : Bool) (msg : DeviceMessage) : Prop :=
  msg.reserve = Mq.strcpyReserve msg.reserve ∧
    0 ∈ (msg.fromReserve littleEndian).take (offSetNext m - (offSetMsg m + offSetReserve) + 1)

theorem length_fromReserve : (msg.fromReserve littleEndian).length = 20 + msg.value.length := by
  rw [DeviceMessage.fromReserve, List.length_drop, RawMessage.length_octets]
  exact Nat.sub_add_comm (by decide)

theorem mem_take_iff {src : List UInt8} {n : Nat} : 0 ∈ src.take (n + 1) ↔ 0 ∈ src ∧ (copied src).length ≤ n := by
  induction src generalizing n with
  | nil => simp
  | cons c src ih =>
    by_cases hc : c = 0
    · simp [hc, copied]
    · have hcopied : copied (c :: src) = c :: copied src := List.takeWhile_cons_of_pos (by simpa using hc)
      rw [List.take_succ_cons, List.mem_cons, List.mem_cons, hcopied, List.length_cons]
      cases n with
      | zero => simp [Ne.symm hc]
      | succ n =>
        rw [ih]
        simp [Ne.symm hc]

/-- Zeros for all that a block has besides its message. -/
def BlockStamp.zero (m : DataModel) : BlockStamp m where
  sequenceID := List.replicate 4 0
  tmPoint := List.replicate (sizeofTimeval m) 0
  connfd := List.replicate 4 0
  ssl := List.replicate m.sizeofPointer 0
  sequenceID_length := List.length_replicate
  tmPoint_length := List.length_replicate
  connfd_length := List.length_replicate
  ssl_length := List.length_replicate

/-- **A message is converted right** if and only if its reserve field can be copied as a string. -/
theorem convertsRight_iff : ConvertsRight m littleEndian msg ↔ CopiesRight m littleEndian msg := by
  have hsrc : (msg.fromReserve littleEndian).length = 20 + msg.value.length := length_fromReserve msg
  have hvalue := msg.value_length
  rw [ConvertsRight, CopiesRight, mem_take_iff]
  simp only [acceptHomeMsg_received]
  by_cases hzero : 0 ∈ msg.fromReserve littleEndian
  · have hreserve : ∀ stamp : BlockStamp m, slice (block m littleEndian stamp homeMsgProtocolVersion (msg.fromReserve littleEndian)
        msg.eventType.toNat msg.value) (offSetMsg m + offSetReserve) 16 = Mq.strcpyReserve msg.reserve :=
      fun stamp => reserve_block hzero hsrc msg.reserve_length rfl
    simp only [createHomeMsgBlock_eq hzero hsrc]
    constructor
    · intro h
      obtain ⟨b, hb, hholds⟩ := h (BlockStamp.zero m)
      obtain rfl : block .. = b := Option.some.inj (Prod.mk.inj (Outcome.done.inj hb)).2
      exact ⟨hholds.reserve.symm.trans (hreserve _), hzero, (next_block_iff hzero hsrc).1 hholds.next⟩
    · rintro ⟨hsame, -, hnext⟩ stamp
      exact ⟨_, rfl, {
        length := length_block hzero hsrc
        protocolVersion := protocolVersion_block hzero hsrc (by decide)
        eventType := eventType_block hzero hsrc msg.eventType.toNat_lt
        valueLen := valueLen_block hzero hsrc (by omega)
        value := value_block hzero hsrc
        reserve := (hreserve stamp).trans hsame.symm
        next := (next_block_iff hzero hsrc).2 hnext }⟩
  · simp only [createHomeMsgBlock_of_notMem hzero, hzero, false_and, and_false, iff_false]
    intro h
    obtain ⟨b, hb, -⟩ := h (BlockStamp.zero m)
    cases hb

/-- The message without its reserve field. -/
def DeviceMessage.blank (msg : DeviceMessage) : DeviceMessage :=
  { msg with reserve := List.replicate 16 0, reserve_length := List.length_replicate }

theorem copiesRight_blank : CopiesRight m littleEndian msg.blank := by
  refine ⟨rfl, ?_⟩
  rw [DeviceMessage.fromReserve, RawMessage.drop_reserve]
  exact List.mem_cons_self

/-- What is built is the message without a reserve field. -/
theorem createHomeMsgBuf_eq :
    createHomeMsgBuf littleEndian homeMsgProtocolVersion msg.eventType.toNat msg.value.length msg.value =
      (.success, some ((msg.blank.host littleEndian).octets, (offSetValue + msg.value.length) % 65536)) := by
  have hlength := msg.value_length
  have hpayload : (offSetValue - offSetEventType + msg.value.length) % 65536 = msg.value.length + 4 := by
    rw [offSetValue, offSetEventType]
    omega
  have hzeros : offSetValueLen ≤ sizeofHomeMessage + msg.value.length := by
    rw [offSetValueLen, sizeofHomeMessage]
    omega
  have hvalue : overwrite (List.replicate msg.value.length (0 : UInt8)) 0 msg.value = msg.value :=
    overwrite_all List.length_replicate.symm
  rw [createHomeMsgBuf, if_neg (not_not_intro rfl)]
  dsimp only
  rw [overwrite_replicate _ (by rwa [Nat.zero_add]), ← RawMessage.octets_zeros, RawMessage.store16_protocolVersion, RawMessage.store16_eventType,
    RawMessage.overwrite_value, RawMessage.store16_payloadLen, RawMessage.store16_valueLen, hpayload, List.take_length]
  simp only [RawMessage.zeros, hvalue]
  rfl

theorem ehWriteOctets_sent : ehWriteOctets littleEndian msg.sent.octets = msg.sent.octets := by
  have hlength := msg.value_length
  have hload : htons littleEndian (load16 littleEndian msg.sent.octets offSetValueLen) = msg.value.length := by
    rw [RawMessage.load16_valueLen, htons_hostNumber]
    exact hostNumber_hostPair (by omega)
  rw [ehWriteOctets, hload, List.take_of_length_le]
  rw [RawMessage.length_octets]
  rfl

/-- **What is built, sent and received** has its type and its value, whatever the byte orders of the two hosts. -/
theorem roundTrips (m : DataModel) (littleEndian littleEndian' : Bool) (msg : DeviceMessage) : RoundTrips m littleEndian littleEndian' msg := by
  refine ⟨_, _, createHomeMsgBuf_eq msg, fun stamp => ?_⟩
  rw [cvtHtoNEndian_host, ehWriteOctets_sent]
  obtain ⟨b, hb, hholds⟩ := (convertsRight_iff msg.blank).2 (copiesRight_blank msg) stamp
  exact ⟨b, hb, hholds.eventType, hholds.valueLen, hholds.value⟩

/-- **Messages are converted faithfully** if and only if the reserve field can be copied as a string. -/
theorem converts_and_roundTrips_iff (m : DataModel) (littleEndian littleEndian' : Bool) (msg : DeviceMessage) :
    (ConvertsRight m littleEndian msg ∧ RoundTrips m littleEndian littleEndian' msg) ↔ CopiesRight m littleEndian msg := by
  rw [convertsRight_iff]
  exact and_iff_left (roundTrips m littleEndian littleEndian' msg)

/-- A reserve field with an octet behind a null. -/
def gapped : DeviceMessage where
  reserve := [0, 0, 0, 7] ++ List.replicate 12 0
  eventType := 1
  value := []
  reserve_length := rfl
  value_length := by decide

/-- The octet behind the null is lost. -/
theorem not_converts : ¬∀ (m : DataModel) (littleEndian littleEndian' : Bool) (msg : DeviceMessage),
    ConvertsRight m littleEndian msg ∧ RoundTrips m littleEndian littleEndian' msg := by
  intro h
  obtain ⟨hreserve, -⟩ := (convertsRight_iff gapped).1 (h .ilp32 true true gapped).1
  revert hreserve
  decide

end CodeFactory.Ehcc.Conversion
