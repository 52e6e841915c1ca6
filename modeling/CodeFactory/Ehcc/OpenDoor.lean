import CodeFactory.Ehcc.Descriptors

/-!
# Open-door requests and their acknowledgements

A request is listed before its door is looked at, and it stays listed when its door is wrong, has no outdoor device or cannot be
reached. An acknowledgement takes the first request of the list, whatever its door, and goes to the descriptor of that request,
whoever has it now. So the acknowledgements reach the right requesters as long as each meets a request for its own door at the head of
the list, with its descriptor not given to another connection since.
-/

namespace CodeFactory.Ehcc

namespace Server

variable {K : Constants} {s t : Server}

/-- The requests that are still listed: who made each, and for which door. -/
def pending (s : Server) : List (Option Connection × Nat) := s.transMsgMapQueue.map fun e => (e.source, e.door)

/-- Each acknowledgement that was sent to a connection answers a request that was made on it for that door, and no request is
answered twice: there are not more of them than of the requests, for each connection and each door. -/
def Matched (s : Server) : Prop := ∀ x, s.relayed.count x ≤ s.requested.count x

/-- The requests that are listed are among those that were made and are not answered. -/
def Tallied (s : Server) : Prop := ∀ x, s.relayed.count x + s.pending.count x ≤ s.requested.count x

theorem Tallied.matched (h : s.Tallied) : s.Matched := fun x => Nat.le_of_add_right_le (h x)

theorem Tallied.of_eq (h : s.Tallied) (hqueue : t.transMsgMapQueue = s.transMsgMapQueue) (hrequested : t.requested = s.requested)
    (hrelayed : t.relayed = s.relayed) : t.Tallied := by
  intro x
  rw [hrelayed, hrequested, pending, hqueue]
  exact h x

/-! ## Requests and acknowledgements -/

/-- A request is made, and listed if its descriptor allows. -/
theorem Tallied.openDoor (h : s.Tallied) (m : CtrlBlock) : (s.handleIDPToMFCBOpenDoor m).Tallied := by
  intro x
  have hx := h x
  unfold handleIDPToMFCBOpenDoor installTransMsgMap request
  split
  · change s.relayed.count x + s.pending.count x ≤ (s.requested ++ [(m.source, (m.msg.octets 0).toNat)]).count x
    rw [List.count_append]
    omega
  · change s.relayed.count x + (List.map _ (s.transMsgMapQueue ++ [_])).count x ≤
      (s.requested ++ [(m.source, (m.msg.octets 0).toNat)]).count x
    rw [List.map_append, List.count_append, List.count_append, List.map_singleton]
    change s.relayed.count x + (s.pending.count x + [(m.source, (m.msg.octets 0).toNat)].count x) ≤
      s.requested.count x + [(m.source, (m.msg.octets 0).toNat)].count x
    omega

/-- An acknowledgement for a door may be relayed: the first request of the list is for this door, and its descriptor is not that of
another connection. -/
def Answerable (s : Server) (door : Nat) : Prop :=
  ∀ e queue, s.transMsgMapQueue = e :: queue → ∀ c, s.clientAt e.connfd = some c → e.source = some c ∧ e.door = door

/-- An acknowledgement takes the first request from the list, and answers it if it reaches anybody. -/
theorem Tallied.doTransMsgAct (h : s.Tallied) {door : Nat} (hdoor : s.Answerable door) : (s.doTransMsgAct door).Tallied := by
  unfold Server.doTransMsgAct
  split
  · exact h
  · rename_i e queue hqueue
    intro x
    have hx := h x
    rw [pending, hqueue, List.map_cons, List.count_cons] at hx
    cases hopen : s.clientAt e.connfd with
    | none =>
      change s.relayed.count x + (queue.map fun e => (e.source, e.door)).count x ≤ s.requested.count x
      omega
    | some c =>
      obtain ⟨hsource, hdoor⟩ := hdoor e queue hqueue c hopen
      rw [hsource, hdoor] at hx
      change (s.relayed ++ [(some c, door)]).count x + (queue.map fun e => (e.source, e.door)).count x ≤ s.requested.count x
      rw [List.count_append, List.count_singleton]
      omega

/-- What is asked of a message that is handled: the acknowledgement of an outdoor device may be relayed. -/
def Relayable (K : Constants) (s : Server) (m : CtrlBlock) : Prop :=
  m.msg.type = .ackMfcbToOdpOpenDoor → ∀ i device, s.getDeviceByFd K m.connfd = some (i, device) → s.Answerable device.subType

/-- Handling a message keeps the tally. -/
theorem Tallied.handleMsg (h : s.Tallied) {m : CtrlBlock} (hm : Relayable K s m) (written : Bool) :
    (s.handleMsg K m written).Tallied := by
  unfold Server.handleMsg
  split
  · obtain ⟨_, _, heq⟩ := s.processIDPToMFCBPair_eq K m
    exact heq ▸ h.of_eq rfl rfl rfl
  · obtain ⟨_, _, heq⟩ := s.processODPToMFCBPair_eq K m
    exact heq ▸ h.of_eq rfl rfl rfl
  · obtain ⟨_, heq⟩ := s.processODPToMFCBQueryAccountInfo_eq K m
    exact heq ▸ h.of_eq rfl rfl rfl
  · obtain ⟨_, _, _, heq⟩ := s.processIDPToMFCBTokenOperation_eq m
    exact heq ▸ h.of_eq rfl rfl rfl
  · obtain ⟨_, heq⟩ := s.updateKeepAliveStatus_eq K m.connfd
    exact heq ▸ h.of_eq rfl rfl rfl
  · exact h.openDoor m
  · rename_i htype
    unfold handleMFCBToODPOpenDoorAck
    split
    · exact h
    · split
      · exact h
      · rename_i i device hdevice
        split
        · exact h.doTransMsgAct (hm htype i device hdevice)
        · exact h
  · exact h

/-! ## Everything else -/

/-- Accepting a connection leaves the requests. -/
theorem Tallied.acceptConnection (h : s.Tallied) (fd : Nat) (mac : Option Text) : (s.acceptConnection K fd mac).Tallied := by
  unfold Server.acceptConnection
  extract_lets s'
  split
  · exact h.of_eq rfl rfl rfl
  · split
    · exact h.of_eq rfl rfl rfl
    · split
      · exact h.of_eq rfl rfl rfl
      · exact h.of_eq rfl rfl rfl

theorem Tallied.deliver (h : s.Tallied) (fd : Int) (i : Nat) (device : DeviceInfo) (msg : HomeMessage) :
    (s.deliver fd i device msg).Tallied := by
  unfold Server.deliver
  split
  · exact h.of_eq rfl rfl rfl
  · exact h

/-- Reading a descriptor leaves the requests, also those of a connection that has ended. -/
theorem Tallied.receive (h : s.Tallied) (fd : Int) (input : Option HomeMessage) : (s.receive K fd input).Tallied := by
  unfold Server.receive
  split
  · unfold disconnect
    split
    · exact h.of_eq rfl rfl rfl
    · exact h.of_eq rfl rfl rfl
  · exact h.deliver fd _ _ _
  · exact h.of_eq rfl rfl rfl
  · unfold bindByNumber
    split
    · exact h.of_eq rfl rfl rfl
    · rename_i i device _
      have hbind : (s.bind i fd).Tallied := h.of_eq rfl rfl rfl
      exact hbind.deliver fd i device _

/-- A keep-alive that is over leaves the requests. -/
theorem Tallied.expire (h : s.Tallied) (i : Nat) : (s.expire K i).Tallied := by
  unfold Server.expire
  extract_lets fd s'
  have hs' : s'.Tallied := by
    cases hdevice : s.getDeviceByFd K fd with
    | none =>
      rw [show s' = s by simp only [s', hdevice]]
      exact h
    | some d =>
      rw [show s' = ((s.drop fd).bind d.1 zeroFd).updateStatusByDeviceIndex .disconnected d.1 by simp only [s', hdevice]]
      exact h.of_eq rfl rfl rfl
  exact hs'.of_eq rfl rfl rfl

/-! ## Every step, and every run -/

/-- What each step has to meet: when an acknowledgement is handled, the first request of the list is for its door, and the
descriptor of this request is still that of its connection, or of none. -/
def InTurn (K : Constants) (s : Server) : Action → Prop
  | .handle _ => ∀ m, s.msgQueue.head? = some m → Relayable K s m
  | _ => True

/-- **One step** keeps the tally. -/
theorem step_tallied (h : s.Tallied) {a : Action} (hc : s.InTurn K a) (hstep : s.step K a = some t) : t.Tallied := by
  have hleads := leads_of_step hstep
  cases a with
  | select fds =>
    obtain ⟨-, -, rfl⟩ := hleads
    exact h.of_eq rfl rfl rfl
  | accept fd mac =>
    obtain ⟨-, -, -, rfl⟩ := hleads
    have h' : { s with ready := s.ready.tail }.Tallied := h.of_eq rfl rfl rfl
    exact h'.acceptConnection fd mac
  | acceptFails =>
    obtain rfl := hleads
    exact h.of_eq rfl rfl rfl
  | receive input =>
    obtain ⟨fd, -, -, -, -, rfl⟩ := hleads
    have h' : { s with ready := s.ready.tail }.Tallied := h.of_eq rfl rfl rfl
    exact h'.receive fd input
  | releaseToken =>
    obtain ⟨fd, -, rfl⟩ := hleads
    obtain ⟨_, _, heq⟩ := s.releaseTokenByFD_eq fd
    exact heq ▸ h.of_eq rfl rfl rfl
  | handle written =>
    obtain ⟨m, msgQueue, hqueue, rfl⟩ := hleads
    have h' : { s with msgQueue }.Tallied := h.of_eq rfl rfl rfl
    have hm : Relayable K { s with msgQueue } m := hc m (by rw [hqueue]; rfl)
    exact h'.handleMsg hm written
  | keepAliveSync i =>
    obtain ⟨-, rfl⟩ := hleads
    obtain ⟨_, _, _, _, heq⟩ := s.keepAliveSync_eq i
    exact heq ▸ h.of_eq rfl rfl rfl
  | expire =>
    obtain ⟨i, -, rfl⟩ := hleads
    exact h.expire i
  | deleteUnit =>
    obtain rfl := hleads
    obtain ⟨_, _, _, _, _, _, heq⟩ := zeroRows_eq (K := K) s (List.range K.maxtableDevices)
    change (zeroRows K s (List.range K.maxtableDevices)).Tallied
    exact heq ▸ h.of_eq rfl rfl rfl
  | writeUnit i device =>
    obtain rfl := hleads
    exact h.of_eq rfl rfl rfl
  | openFile fd =>
    obtain ⟨-, rfl⟩ := hleads
    exact h.of_eq rfl rfl rfl
  | closeFile fd =>
    obtain ⟨-, rfl⟩ := hleads
    exact h.of_eq rfl rfl rfl

/-- **Acknowledgements reach the right requesters.** In every run from the start whose steps all meet their condition, each
acknowledgement that reached a connection answers a request of that connection for that door, and none is answered twice. -/
theorem acknowledgements_matched (opened : Finset Int) (gehServerFd : Nat) (units : Nat → Option DeviceInfo)
    {tr : List (Transition Server Action)} (hrun : Run (steps K) (start opened gehServerFd units) tr s)
    (hmeets : Meets (fun s a => s.InTurn K a) tr) : Always (fun _ _ t => t.Matched) tr :=
  Run.always (I := Tallied) (fun _ => Nat.le_refl _)
    (fun _ _ _ h hc hstep => ⟨step_tallied h hc hstep, (step_tallied h hc hstep).matched⟩) hrun hmeets

/-- An indoor device and the outdoor device of the back door. -/
def twoDevices : List DeviceInfo := [pairedDevice 'm' '5' .idp 3, pairedDevice 'o' '7' .odp 2]

/-- They connect and register. The indoor device asks for the back door, and the back door answers. -/
def relayedAnswer : List Action :=
  [.select [3], .accept 4 (some ['m']), .select [3], .accept 5 (some ['o']), .select [4, 5], .receive (some (idpRegistration 5 53)),
    .receive (some (messageOf 7 0x1081 [1, 55, 1, 112])), .handle true, .handle true, .select [4],
    .receive (some (messageOf 5 0x1001 [2])), .handle true, .select [5], .receive (some (messageOf 7 0x5082 [1, 0])), .handle true]

/-- The acknowledgement reaches the connection that asked. -/
theorem acknowledgements_matched_example :
    Always (fun _ _ t => t.Matched) (played 2 twoDevices relayedAnswer) ∧
      ∃ x ∈ played 2 twoDevices relayedAnswer, x.2.2.relayed = [(some ⟨4, 0⟩, 2)] ∧ x.2.2.requested = [(some ⟨4, 0⟩, 2)] := by
  obtain ⟨s, hrun⟩ := run_played 2 twoDevices relayedAnswer
  have hturn : ∀ x ∈ played 2 twoDevices relayedAnswer, ∀ m ∈ x.1.msgQueue.head?, m.msg.type = .ackMfcbToOdpOpenDoor →
      ∀ found ∈ x.1.getDeviceByFd (smallTables 2) m.connfd, ∀ e ∈ x.1.transMsgMapQueue.head?, ∀ c ∈ x.1.clientAt e.connfd,
        e.source = some c ∧ e.door = found.2.subType := by
    decide +kernel
  refine ⟨acknowledgements_matched {0, 1, 2} 3 _ hrun fun x hx => ?_, by decide +kernel⟩
  have hx := hturn x hx
  rcases x with ⟨s, a, t⟩
  cases a with
  | handle written =>
    intro m hm htype i device hdevice e queue hqueue c hc
    exact hx m hm htype (i, device) hdevice e (by rw [show s.transMsgMapQueue = e :: queue from hqueue]; rfl) c hc
  | _ => trivial

/-- Two indoor devices and the outdoor device of the back door. -/
def threeDevices : List DeviceInfo :=
  [pairedDevice 'm' '5' .idp 3, pairedDevice 'n' '6' .idp 3, pairedDevice 'o' '7' .odp 2]

/-- They connect and register. The first asks for the front door, which has no outdoor device, the second for the back door, and the
back door answers. -/
def crossedAnswer : List Action :=
  [.select [3], .accept 4 (some ['m']), .select [3], .accept 5 (some ['n']), .select [3], .accept 6 (some ['o']),
    .select [4, 5, 6], .receive (some (idpRegistration 5 53)), .receive (some (idpRegistration 6 54)),
    .receive (some (messageOf 7 0x1081 [1, 55, 1, 112])), .handle true, .handle true, .handle true,
    .select [4, 5], .receive (some (messageOf 5 0x1001 [1])), .receive (some (messageOf 6 0x1001 [2])), .handle true, .handle true,
    .select [6], .receive (some (messageOf 7 0x5082 [1, 0])), .handle true]

/-- The first device gets the acknowledgement of a door that it never asked for. -/
theorem acknowledgement_crossed :
    ∃ tr s, Run (steps (smallTables 3)) (startWith threeDevices) tr s ∧ ¬Always (fun _ _ t => t.Matched) tr := by
  obtain ⟨s, hrun⟩ := run_played 3 threeDevices crossedAnswer
  refine ⟨_, s, hrun, fun h => ?_⟩
  have hcrossed : ∃ x ∈ played 3 threeDevices crossedAnswer,
      x.2.2.relayed.count (some ⟨4, 0⟩, 2) = 1 ∧ x.2.2.requested.count (some ⟨4, 0⟩, 2) = 0 := by
    decide +kernel
  obtain ⟨x, hx, hrelayed, hrequested⟩ := hcrossed
  have hle := h x hx (some ⟨4, 0⟩, 2)
  rw [hrelayed, hrequested] at hle
  exact absurd hle (by decide)

end Server

end CodeFactory.Ehcc
