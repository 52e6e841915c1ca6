import CodeFactory.Ehcc.Mpc

/-!
# The steps of the home server

What the three threads do, and what happens around them: the select loop accepts connections and reads messages, the worker handles
the first message of the queue, the timer looks after the keep-alives, the deletion of devices closes their connections, and other
parts of the program (or of the system) write rows of the unit table and open and close descriptors of their own.
-/

namespace CodeFactory.Ehcc

/-- What happens next. -/
inductive Action where
  /-- `select` returns these descriptors. -/
  | select (fds : List Int)
  /-- `accept` returns a descriptor; the peer has this hardware address, if one is found. -/
  | accept (fd : Nat) (mac : Option Text)
  /-- `accept` fails. -/
  | acceptFails
  /-- The next descriptor is read: a message, or the connection has ended. -/
  | receive (input : Option HomeMessage)
  /-- The select loop releases the token of the connection that it has just closed. -/
  | releaseToken
  /-- The worker handles the first message; `written` is for the status of a door. -/
  | handle (written : Bool)
  /-- `keepAliveSync` comes to an entry. -/
  | keepAliveSync (i : Nat)
  /-- `keepAliveSync` closes the connection of the entry that has had no keep-alive. -/
  | expire
  /-- `deleteUnitEvtAct`. -/
  | deleteUnit
  /-- A row of the unit table is written, added or deleted from elsewhere. -/
  | writeUnit (i : Nat) (device : Option DeviceInfo)
  /-- Another part of the program opens a descriptor. -/
  | openFile (fd : Nat)
  /-- Another part of the program closes a descriptor that it opened. -/
  | closeFile (fd : Int)

def gidpPairFailedTimes : Int := 3

def keepAlivePollingTime : Int := 2

def keepAliveCheckingTime : Int := 10

/-- The second step of `waitforRemoteMsgbySelect`: the messages that the status of the device lets through. A connected device may
send anything: the last condition asks that the type is not both registrations at once. -/
def passes (device : DeviceInfo) (type : HomeMsgType) : Bool :=
  if device.status = .pairing && type = .idpToMfcbRegister && device.pairFailedTimes < gidpPairFailedTimes then true
  else if device.status = .disconnected && type = .idpToMfcbRegister && device.pairFailedTimes < gidpPairFailedTimes then true
  else if device.status = .pairing && type = .odpToMfcbRegister && device.pairFailedTimes < gidpPairFailedTimes then true
  else if device.status = .disconnected && type = .odpToMfcbRegister && device.pairFailedTimes < gidpPairFailedTimes then true
  else if device.status = .pairing && type = .odpToMfcbQueryAccountInfo && device.pairFailedTimes < gidpPairFailedTimes then true
  else if device.status = .disconnected && type = .odpToMfcbQueryAccountInfo && device.pairFailedTimes < gidpPairFailedTimes then
    true
  else if device.status = .connected && (type ≠ .idpToMfcbRegister || type ≠ .odpToMfcbRegister) then true
  else false

/-- `checkHomeMsg`; the protocol version is one. -/
def checkHomeMsg (msg : HomeMessage) : Bool := msg.protocolVersion = 1 && msg.payloadLen = msg.valueLen + 4

/-- A number in decimal digits. -/
def decimal (number : UInt8) : Text := (toString number.toNat).toList

namespace Server

variable (K : Constants) (s : Server)

/-! ## The select loop -/

/-- A message is filtered, checked and put into the queue. -/
def deliver (fd : Int) (i : Nat) (device : DeviceInfo) (msg : HomeMessage) : Server :=
  if passes device msg.type && checkHomeMsg msg then
    { s with msgQueue := s.msgQueue ++ [⟨fd, msg, s.clientAt fd, i⟩] }
  else s

/-- A connection is accepted, and bound to the device that has its hardware address. A descriptor below three is not looked at any
more. -/
def acceptConnection (fd : Nat) (mac : Option Text) : Server :=
  let s := { s.opens fd (.client ⟨fd, s.accepted⟩) with accepted := s.accepted + 1 }
  if 3 > fd then s
  else
    match mac with
    | none => s.close fd
    | some mac =>
      match s.getDeviceByMac K mac with
      | some (i, _) => (s.watch fd).bind i fd
      | none => s.watch fd

/-- The connection of a device has ended. -/
def disconnect (fd : Int) (i : Nat) (device : DeviceInfo) : Server :=
  let s := (s.drop fd).bind i zeroFd
  let s := if device.status = .connected then s.updateStatusByDeviceIndex .disconnected i else s
  { s with releasing := some fd }

/-- A descriptor is read that is bound to no device: it is bound to the device that has the number in the message, or closed. -/
def bindByNumber (fd : Int) (msg : HomeMessage) : Server :=
  match s.getDeviceByNumber K (decimal msg.number) with
  | none => s.drop fd
  | some (i, device) => (s.bind i fd).deliver fd i device msg

/-- A descriptor is read. -/
def receive (fd : Int) (input : Option HomeMessage) : Server :=
  match s.getDeviceByFd K fd, input with
  | some (i, device), none => s.disconnect fd i device
  | some (i, device), some msg => s.deliver fd i device msg
  | none, none => s.drop fd
  | none, some msg => s.bindByNumber K fd msg

/-! ## The timer -/

/-- The entry's time goes on while it has a descriptor. -/
def poll (i : Nat) : Server :=
  let entry := s.keepAliveInfo i
  if entry.connfd > 0 then
    { s with keepAliveInfo := Function.update s.keepAliveInfo i { entry with flag := entry.flag + keepAlivePollingTime } }
  else s

/-- `keepAliveSync`, up to the token that it releases. -/
def keepAliveSync (i : Nat) : Server :=
  let s := s.poll i
  if (s.keepAliveInfo i).flag > keepAliveCheckingTime then
    { s.releaseTokenByFD (s.keepAliveInfo i).connfd with expiring := some i }
  else s

/-- `keepAliveSync`, behind the token: the connection is closed when it is a device's. -/
def expire (i : Nat) : Server :=
  let fd := (s.keepAliveInfo i).connfd
  let s :=
    match s.getDeviceByFd K fd with
    | some (j, _) => ((s.drop fd).bind j zeroFd).updateStatusByDeviceIndex .disconnected j
    | none => s
  { s with keepAliveInfo := Function.update s.keepAliveInfo i ⟨-1, -1⟩, expiring := none }

/-! ## Deleted devices -/

def getEhMaxFd : Int :=
  (List.range K.maxtableDevices).foldl
    (fun fdtmp i => if s.devArray i ≠ zeroFd then (if fdtmp > s.devArray i then fdtmp else s.devArray i) else fdtmp) s.gehServerFd

def zeroIndexDevice (i : Nat) : Server :=
  let s := if s.devArray i ≠ zeroFd then s.clearAndClose (s.devArray i) else s
  let s := s.bind i zeroFd
  { s with gehMaxFd := s.getEhMaxFd K }

def updateIndexDeviceArrayDeleteFromDb : Server :=
  (List.range K.maxtableDevices).foldl (fun s i => if s.units i = none then s.zeroIndexDevice K i else s) s

/-! ## All the steps -/

/-- The select loop goes on to its next descriptor: it is not about to release a token. -/
def next : Option (Int × Server) :=
  match s.ready, s.releasing with
  | fd :: ready, none => some (fd, { s with ready })
  | _, _ => none

/-- One step. `select` fails while a watched descriptor is not open; the descriptors it returns are looked at in their order. -/
def step : Action → Option Server
  | .select fds =>
    if s.ready = [] ∧ s.releasing = none ∧ fds.Pairwise (· < ·) ∧ (∀ fd ∈ fds, fd ∈ s.readFdsMaster ∧ fd ≤ s.gehMaxFd) ∧
        ∀ fd ∈ s.readFdsMaster, fd ≤ s.gehMaxFd → s.files fd ≠ none then
      some { s with ready := fds }
    else none
  | .accept fd mac =>
    match s.next with
    | some (actualFd, s) => if actualFd = s.gehServerFd ∧ s.Lowest fd then some (s.acceptConnection K fd mac) else none
    | none => none
  | .acceptFails =>
    match s.next with
    | some (actualFd, s) => if actualFd = s.gehServerFd then some s else none
    | none => none
  | .receive input =>
    match s.next with
    | some (actualFd, s) =>
      if actualFd ≠ s.gehServerFd ∧ (input.isSome → s.files actualFd ≠ none) then some (s.receive K actualFd input) else none
    | none => none
  | .releaseToken =>
    match s.releasing with
    | some fd => some { s.releaseTokenByFD fd with releasing := none }
    | none => none
  | .handle written =>
    match s.msgQueue with
    | m :: msgQueue => some ({ s with msgQueue }.handleMsg K m written)
    | [] => none
  | .keepAliveSync i => if s.expiring = none ∧ i < K.maxtableDevices then some (s.keepAliveSync i) else none
  | .expire =>
    match s.expiring with
    | some i => some (s.expire K i)
    | none => none
  | .deleteUnit => some (s.updateIndexDeviceArrayDeleteFromDb K)
  | .writeUnit i device => some { s with units := Function.update s.units i device }
  | .openFile fd => if s.Lowest fd then some (s.opens fd .other) else none
  | .closeFile fd => if s.files fd = some .other then some { s with files := Function.update s.files fd none } else none

/-! ## What a step can do -/

variable {K s} {t : Server}

/-- The select loop goes on: its next descriptor is the first of those that are left. -/
theorem next_eq {fd : Int} (h : s.next = some (fd, t)) :
    s.ready.head? = some fd ∧ s.releasing = none ∧ t = { s with ready := s.ready.tail } := by
  unfold next at h
  split at h
  · rename_i hready hreleasing
    cases h
    rw [hready]
    exact ⟨rfl, hreleasing, rfl⟩
  · cases h

/-- What each action finds, and what it leads to. -/
def Leads (K : Constants) (s : Server) : Action → Server → Prop
  | .select fds, t => s.ready = [] ∧ s.releasing = none ∧ t = { s with ready := fds }
  | .accept fd mac, t => s.ready.head? = some s.gehServerFd ∧ s.releasing = none ∧ s.Lowest fd ∧
      t = { s with ready := s.ready.tail }.acceptConnection K fd mac
  | .acceptFails, t => t = { s with ready := s.ready.tail }
  | .receive input, t => ∃ fd, s.ready.head? = some fd ∧ s.releasing = none ∧ fd ≠ s.gehServerFd ∧
      (input.isSome → s.files fd ≠ none) ∧ t = { s with ready := s.ready.tail }.receive K fd input
  | .releaseToken, t => ∃ fd, s.releasing = some fd ∧ t = { s.releaseTokenByFD fd with releasing := none }
  | .handle written, t => ∃ m msgQueue, s.msgQueue = m :: msgQueue ∧ t = { s with msgQueue }.handleMsg K m written
  | .keepAliveSync i, t => s.expiring = none ∧ t = s.keepAliveSync i
  | .expire, t => ∃ i, s.expiring = some i ∧ t = s.expire K i
  | .deleteUnit, t => t = s.updateIndexDeviceArrayDeleteFromDb K
  | .writeUnit i device, t => t = { s with units := Function.update s.units i device }
  | .openFile fd, t => s.Lowest fd ∧ t = s.opens fd .other
  | .closeFile fd, t => s.files fd = some .other ∧ t = { s with files := Function.update s.files fd none }

/-- **The steps, one by one.** -/
theorem leads_of_step {a : Action} (h : s.step K a = some t) : s.Leads K a t := by
  cases a with
  | select fds =>
    simp only [step] at h
    split at h
    · rename_i hc
      cases h
      exact ⟨hc.1, hc.2.1, rfl⟩
    · cases h
  | accept fd mac =>
    simp only [step] at h
    split at h
    · rename_i actualFd s' hnext
      obtain ⟨hhead, hreleasing, rfl⟩ := next_eq hnext
      split at h
      · rename_i hc
        cases h
        exact ⟨hc.1 ▸ hhead, hreleasing, hc.2, rfl⟩
      · cases h
    · cases h
  | acceptFails =>
    simp only [step] at h
    split at h
    · rename_i actualFd s' hnext
      obtain ⟨-, -, rfl⟩ := next_eq hnext
      split at h
      · cases h
        rfl
      · cases h
    · cases h
  | receive input =>
    simp only [step] at h
    split at h
    · rename_i actualFd s' hnext
      obtain ⟨hhead, hreleasing, rfl⟩ := next_eq hnext
      split at h
      · rename_i hc
        cases h
        exact ⟨actualFd, hhead, hreleasing, hc.1, hc.2, rfl⟩
      · cases h
    · cases h
  | releaseToken =>
    simp only [step] at h
    split at h
    · rename_i fd hreleasing
      cases h
      exact ⟨fd, hreleasing, rfl⟩
    · cases h
  | handle written =>
    simp only [step] at h
    split at h
    · rename_i m msgQueue hqueue
      cases h
      exact ⟨m, msgQueue, hqueue, rfl⟩
    · cases h
  | keepAliveSync i =>
    simp only [step] at h
    split at h
    · rename_i hc
      cases h
      exact ⟨hc.1, rfl⟩
    · cases h
  | expire =>
    simp only [step] at h
    split at h
    · rename_i i hexpiring
      cases h
      exact ⟨i, hexpiring, rfl⟩
    · cases h
  | deleteUnit =>
    cases h
    rfl
  | writeUnit i device =>
    cases h
    rfl
  | openFile fd =>
    simp only [step] at h
    split at h
    · rename_i hlow
      cases h
      exact ⟨hlow, rfl⟩
    · cases h
  | closeFile fd =>
    simp only [step] at h
    split at h
    · rename_i hother
      cases h
      exact ⟨hother, rfl⟩
    · cases h

theorem releaseTokenByFD_eq (s : Server) (fd : Int) :
    ∃ gTokenStatus gTokenOwern, s.releaseTokenByFD fd = { s with gTokenStatus, gTokenOwern } := by
  unfold releaseTokenByFD
  split
  · exact ⟨_, _, rfl⟩
  · exact ⟨s.gTokenStatus, s.gTokenOwern, rfl⟩

theorem poll_eq (s : Server) (i : Nat) : ∃ keepAliveInfo, s.poll i = { s with keepAliveInfo } := by
  unfold poll
  extract_lets entry
  split
  · exact ⟨_, rfl⟩
  · exact ⟨s.keepAliveInfo, rfl⟩

/-- Looking at a keep-alive entry changes the entry and the token, and where the timer is. -/
theorem keepAliveSync_eq (s : Server) (i : Nat) : ∃ keepAliveInfo gTokenStatus gTokenOwern expiring,
    s.keepAliveSync i = { s with keepAliveInfo, gTokenStatus, gTokenOwern, expiring } := by
  obtain ⟨keepAliveInfo, hpoll⟩ := s.poll_eq i
  unfold keepAliveSync
  rw [hpoll]
  dsimp only
  split
  · obtain ⟨gTokenStatus, gTokenOwern, hrelease⟩ :=
      { s with keepAliveInfo }.releaseTokenByFD_eq (keepAliveInfo i).connfd
    exact ⟨keepAliveInfo, gTokenStatus, gTokenOwern, some i, congrArg (fun u : Server => { u with expiring := some i }) hrelease⟩
  · exact ⟨keepAliveInfo, s.gTokenStatus, s.gTokenOwern, s.expiring, rfl⟩

end Server

/-- `clarifyDBDeviceStatus`: devices that were not paired are deleted, and none is connected yet. -/
def clarifyDBDeviceStatus (device : DeviceInfo) : Option DeviceInfo :=
  if device.status = .initial || device.status = .configured then none
  else if device.status = .connected then some { device with status := .disconnected }
  else some device

/-- The state when the select loop begins: the descriptors in `opened` are open, the server socket is there and watched, every entry
of `g_devArray` is still zero, and `units` are the rows of the unit table that the server was started with. -/
def Server.start (opened : Finset Int) (gehServerFd : Nat) (units : Nat → Option DeviceInfo) : Server where
  files fd := if fd = gehServerFd then some .server else if fd ∈ opened then some .other else none
  accepted := 0
  gehServerFd := gehServerFd
  readFdsMaster := {(gehServerFd : Int)}
  gehMaxFd := gehServerFd
  devArray _ := 0
  units i := (units i).bind clarifyDBDeviceStatus
  keepAliveInfo _ := ⟨-1, -1⟩
  gTokenStatus := .free
  gTokenOwern := 0
  msgQueue := []
  transMsgMapQueue := []
  ready := []
  releasing := none
  expiring := none
  closes := []
  holders := []
  registered := []
  requested := []
  relayed := []

/-- The steps of the home server. -/
abbrev Server.steps (K : Constants) : Step Server Action := Step.ofOption fun s a => s.step K a

/-! ## A small home -/

/-- A home with so many devices at most. -/
def smallTables (maxtableDevices : Nat) : Constants := ⟨maxtableDevices, 1, 2, 3, 5⟩

/-- A device that was paired before; its account is one digit. -/
def pairedDevice (mac account : Char) (type : DeviceType) (subType : Nat) : DeviceInfo :=
  ⟨[mac], [account], ['p'], type, subType, .disconnected, 0⟩

/-- A message from the device with a number. -/
def messageOf (number : UInt8) (eventType : Nat) (value : List UInt8) : HomeMessage :=
  ⟨1, value.length + 4, number, eventType, value.length, fun k => value.getD k 0⟩

/-- The registration of the device with this digit for its account and its number. -/
def idpRegistration (number account : UInt8) : HomeMessage := messageOf number 0x1000 [1, account, 1, 112, 1]

/-- The start of a server with these rows in its unit table; the server socket is behind the three descriptors that every process
has. -/
def Server.startWith (devices : List DeviceInfo) : Server := .start {0, 1, 2} 3 fun i => devices[i]?

/-- What is played from there. -/
def Server.played (maxtableDevices : Nat) (devices : List DeviceInfo) (actions : List Action) : List (Transition Server Action) :=
  (play (fun s a => s.step (smallTables maxtableDevices) a) (.startWith devices) actions).1

theorem Server.run_played (maxtableDevices : Nat) (devices : List DeviceInfo) (actions : List Action) :
    ∃ s, Run (steps (smallTables maxtableDevices)) (.startWith devices) (Server.played maxtableDevices devices actions) s :=
  ⟨_, Run.ofPlay _ _ _⟩

end CodeFactory.Ehcc
