import CodeFactory.Lib.Run
import Mathlib.Data.Finset.Insert
import Mathlib.Data.Finset.Erase
import Mathlib.Logic.Function.Basic

/-!
# The home server

`ehcc`, the server that the indoor and outdoor devices of a home connect to, without SSL: the loop of `waitforRemoteMsgbySelect`, the
worker that takes messages from the queue, `keepAliveSync` on its timer, and the deletion of devices. Three threads take turns at one
state. A step is what one of them does under a lock, and the steps come in any order; what the select loop does between two
descriptors, and what a handler does, is one step. Of the messages those are followed that change this state. Failures of memory and
of the sockets (other than the end of a connection) are left out, as is a read in the middle of a message that never ends.
-/

namespace CodeFactory.Ehcc

/-- The characters of a configuration value. -/
abbrev Text := List Char

/-- What the generated headers of the configuration define: the size of the device tables and the numbers of the device sub types. -/
structure Constants where
  maxtableDevices : Nat
  subtypeOdpFront : Nat
  subtypeOdpBack : Nat
  subtypeIdp7Inch : Nat
  subtypeSmp : Nat

/-- A connection: the descriptor that it was accepted at, and how many were accepted before. -/
structure Connection where
  fd : Int
  serial : Nat
  deriving DecidableEq, Repr

/-- What a descriptor of the process is open for: the server socket, a client's connection, or what other parts of the program
opened. -/
inductive File where
  | server
  | client (c : Connection)
  | other
  deriving DecidableEq, Repr

inductive DeviceType where
  | idp | odp | smp
  deriving DecidableEq, Repr

inductive DeviceStatus where
  | initial | configured | pairing | connected | disconnected
  deriving DecidableEq, Repr

/-- A row of the unit table. -/
structure DeviceInfo where
  mac : Text
  userName : Text
  passWord : Text
  type : DeviceType
  subType : Nat
  status : DeviceStatus
  pairFailedTimes : Int
  deriving DecidableEq, Repr

/-- A message as `ehRead` gives it, in the order of the host: of `reserve` the octet with the device number; and the octets from
its value on, those behind the value being what happens to lie there. -/
structure HomeMessage where
  protocolVersion : Nat
  payloadLen : Nat
  number : UInt8
  eventType : Nat
  valueLen : Nat
  octets : Nat → UInt8

/-- The types of message that are followed here. -/
inductive HomeMsgType where
  | idpToMfcbRegister | odpToMfcbRegister | odpToMfcbQueryAccountInfo | idpToMfcbTokenOperation | toMfcbKeepAlive
  | idpToMfcbOpenDoor | ackMfcbToOdpOpenDoor | other
  deriving DecidableEq, Repr

/-- The numbers of the types; the keep-alives of indoor and outdoor devices have one number. -/
def HomeMsgType.ofCode : Nat → HomeMsgType
  | 0x1000 => .idpToMfcbRegister
  | 0x1081 => .odpToMfcbRegister
  | 0x1080 => .odpToMfcbQueryAccountInfo
  | 0x1010 => .idpToMfcbTokenOperation
  | 0x100F => .toMfcbKeepAlive
  | 0x1001 => .idpToMfcbOpenDoor
  | 0x5082 => .ackMfcbToOdpOpenDoor
  | _ => .other

def HomeMessage.type (msg : HomeMessage) : HomeMsgType := .ofCode msg.eventType

/-- A message in the queue: the descriptor it was read from. For the statements it is also kept which connection that was, and
which device the message was taken to be from. -/
structure CtrlBlock where
  connfd : Int
  msg : HomeMessage
  source : Option Connection
  device : Nat

/-- An open-door request that waits for an acknowledgement (`EhTransMsgMap`): where the acknowledgement goes. For the statements the
request is kept with it: the connection that made it, and the door. -/
structure TransMsgMap where
  connfd : Int
  source : Option Connection
  door : Nat
  deriving DecidableEq, Repr

structure KeepAliveInfo where
  connfd : Int
  flag : Int
  deriving DecidableEq, Repr

/-- `gTokenStatus`. -/
inductive TokenStatus where
  | free | busy
  deriving DecidableEq, Repr

/-- The state that the threads share, the part of the select loop that is not done yet, and what has happened. -/
structure Server where
  /-- What each descriptor is open for. -/
  files : Int → Option File
  /-- How many connections have been accepted. -/
  accepted : Nat
  gehServerFd : Int
  readFdsMaster : Finset Int
  gehMaxFd : Int
  /-- The descriptors of `g_devArray`. -/
  devArray : Nat → Int
  /-- The rows of the unit table in the configuration. -/
  units : Nat → Option DeviceInfo
  keepAliveInfo : Nat → KeepAliveInfo
  gTokenStatus : TokenStatus
  gTokenOwern : Int
  msgQueue : List CtrlBlock
  transMsgMapQueue : List TransMsgMap
  /-- The descriptors of `readFdsMasterTmp` that the loop has still to look at. -/
  ready : List Int
  /-- The select loop has closed this descriptor and has still to release the token. -/
  releasing : Option Int
  /-- `keepAliveSync` has released the token for this entry and has still to close its descriptor. -/
  expiring : Option Nat
  /-- What was open at the descriptor at each call of `close`. -/
  closes : List (Option File)
  /-- The connections that were granted the token and have neither released it nor been closed. -/
  holders : List Connection
  /-- The connections that registered with exactly the user name and the password of a device, and the device. -/
  registered : List (Connection × Nat)
  /-- The open-door requests that were handled: who made it, and the door. -/
  requested : List (Option Connection × Nat)
  /-- The acknowledgements that were sent to a connection: to which, and the door. -/
  relayed : List (Option Connection × Nat)

def zeroFd : Int := -1

namespace Server

variable (K : Constants) (s : Server)

/-! ## Descriptors -/

/-- The connection that is open at a descriptor. -/
def clientAt (fd : Int) : Option Connection :=
  match s.files fd with
  | some (.client c) => some c
  | _ => none

theorem clientAt_iff {fd : Int} {c : Connection} : s.clientAt fd = some c ↔ s.files fd = some (.client c) := by
  unfold clientAt
  split
  · rename_i c' h
    rw [h, Option.some.injEq, Option.some.injEq, File.client.injEq]
  · rename_i h
    exact ⟨fun hc => (nomatch hc), fun hc => absurd hc (h c)⟩

/-- The descriptor that the kernel gives next is the lowest that is not open. -/
def Lowest (fd : Nat) : Prop := s.files fd = none ∧ ∀ g < fd, s.files g ≠ none

instance (fd : Nat) : Decidable (s.Lowest fd) := inferInstanceAs (Decidable (_ ∧ _))

/-- A descriptor is opened. -/
def opens (fd : Int) (file : File) : Server := { s with files := Function.update s.files fd (some file) }

/-- `close`. A connection that is closed holds the token no longer. -/
def close (fd : Int) : Server :=
  { s with
    files := Function.update s.files fd none
    closes := s.closes ++ [s.files fd]
    holders := s.holders.filter fun c => s.files fd ≠ some (.client c) }

/-- `FD_SET` and `UPDATE_MAXFD`. -/
def watch (fd : Int) : Server :=
  { s with
    readFdsMaster := insert fd s.readFdsMaster
    gehMaxFd := if fd > s.gehMaxFd then fd else s.gehMaxFd }

/-- `FD_CLR` and `close`. -/
def clearAndClose (fd : Int) : Server := { s.close fd with readFdsMaster := s.readFdsMaster.erase fd }

/-- `FD_CLR` and `close`, and the maximum is one less when it was this descriptor. -/
def drop (fd : Int) : Server :=
  { s.clearAndClose fd with gehMaxFd := if fd = s.gehMaxFd then s.gehMaxFd - 1 else s.gehMaxFd }

/-- An entry of `g_devArray` is set. -/
def bind (i : Nat) (fd : Int) : Server := { s with devArray := Function.update s.devArray i fd }

/-- The connection at a descriptor is one of the parts of the state. -/
theorem clientAt_congr {s t : Server} (hfiles : t.files = s.files) (fd : Int) : t.clientAt fd = s.clientAt fd := by
  rw [clientAt, clientAt, hfiles]

/-- After a descriptor is opened. -/
theorem clientAt_opens (fd fd' : Int) (file : File) :
    (s.opens fd file).clientAt fd' =
      if fd' = fd then (match file with | .client c => some c | _ => none) else s.clientAt fd' := by
  by_cases h : fd' = fd
  · rw [if_pos h, clientAt, opens]
    dsimp only
    rw [h, Function.update_self]
    cases file <;> rfl
  · rw [if_neg h, clientAt, clientAt, opens]
    dsimp only
    rw [Function.update_of_ne h]

theorem clientAt_close (fd fd' : Int) : (s.close fd).clientAt fd' = if fd' = fd then none else s.clientAt fd' := by
  by_cases h : fd' = fd
  · rw [if_pos h, clientAt, close]
    dsimp only
    rw [h, Function.update_self]
  · rw [if_neg h, clientAt, clientAt, close]
    dsimp only
    rw [Function.update_of_ne h]

/-! ## Devices -/

/-- `getDeviceIndexByFd`; the rows are counted from zero here. -/
def getDeviceIndexByFd (fd : Int) : Option Nat := (List.range K.maxtableDevices).find? fun i => s.devArray i = fd

/-- `getDeviceInfoByDeviceIndex` for the row that `getDeviceIndexByFd` finds. -/
def getDeviceByFd (fd : Int) : Option (Nat × DeviceInfo) :=
  (s.getDeviceIndexByFd K fd).bind fun i => (s.units i).map fun device => (i, device)

/-- The first row that has a property. -/
def findUnit (p : DeviceInfo → Bool) : Option (Nat × DeviceInfo) :=
  (List.range K.maxtableDevices).findSome? fun i =>
    (s.units i).bind fun device => if p device then some (i, device) else none

/-- `strcasecmp` gives `0`. -/
def sameNoCase (a b : Text) : Bool := a.map Char.toLower = b.map Char.toLower

/-- `getDeviceIndexByMac`. -/
def getDeviceByMac (mac : Text) : Option (Nat × DeviceInfo) := s.findUnit K fun device => sameNoCase device.mac mac

/-- `getDeviceIndexByNumber`. -/
def getDeviceByNumber (num : Text) : Option (Nat × DeviceInfo) := s.findUnit K fun device => sameNoCase device.userName num

/-- A row is written, when it is there. -/
def updateUnit (i : Nat) (f : DeviceInfo → DeviceInfo) : Server :=
  { s with units := Function.update s.units i ((s.units i).map f) }

def updateStatusByDeviceIndex (status : DeviceStatus) (i : Nat) : Server := s.updateUnit i fun device => { device with status }

def updateSubTypeByDeviceIndex (subType : Nat) (i : Nat) : Server := s.updateUnit i fun device => { device with subType }

def releaseTokenByFD (fd : Int) : Server :=
  if s.gTokenOwern = fd then { s with gTokenStatus := .free, gTokenOwern := 0 } else s

end Server

end CodeFactory.Ehcc
