import CodeFactory.Ehcc.Descriptors

/-!
# Who the home server listens to

A device that is connected may send any message, and what is read from a descriptor is taken to be from the device whose entry of
`g_devArray` has that descriptor. So the messages are those of registered connections as long as the entry of a connected device names
the connection that registered. An entry is written when a connection is accepted from a known hardware address and when the first
message of an unbound connection names a device; neither asks whether the device is connected already.
-/

namespace CodeFactory.Ehcc

namespace Server

variable {K : Constants} {s t : Server}

/-- A device is connected. -/
def Connected (s : Server) (i : Nat) : Prop := ∃ device, s.units i = some device ∧ device.status = .connected

/-- A message that only a registered connection may send: neither a registration nor a query for an account. -/
def Privileged (m : CtrlBlock) : Prop :=
  m.msg.type ≠ .idpToMfcbRegister ∧ m.msg.type ≠ .odpToMfcbRegister ∧ m.msg.type ≠ .odpToMfcbQueryAccountInfo

/-- A message came from a connection that registered with the user name and the password of the device it is taken to be from. -/
def Entitled (s : Server) (m : CtrlBlock) : Prop := ∃ c, m.source = some c ∧ (c, m.device) ∈ s.registered

/-- What is asked of a step: a privileged message is handled only when its connection is entitled to it, and the entry of a device
that is connected names no connection that it did not name before. -/
structure Served (s : Server) (a : Action) (t : Server) : Prop where
  entitled : ∀ written m, a = .handle written → s.msgQueue.head? = some m → Privileged m → s.Entitled m
  kept : ∀ i, s.Connected i → ∀ c, t.clientAt (t.devArray i) = some c → s.clientAt (s.devArray i) = some c

/-- What is true all the time: no connection is at `ZERO_FD`; the connection that the entry of a connected device names has
registered; and the privileged messages in the queue are from connections that are entitled to them. -/
structure Enrolled (s : Server) : Prop where
  zero : s.clientAt zeroFd = none
  connected : ∀ i, s.Connected i → ∀ c, s.clientAt (s.devArray i) = some c → (c, i) ∈ s.registered
  queue : ∀ m ∈ s.msgQueue, Privileged m → s.Entitled m

/-- A step connects no device and puts no new connection into the entry of a connected one. -/
structure Keeps (s t : Server) : Prop where
  connected : ∀ i, t.Connected i → s.Connected i
  entries : ∀ i, s.Connected i → ∀ c, t.clientAt (t.devArray i) = some c → s.clientAt (s.devArray i) = some c

/-! ## What keeps the entries -/

theorem getDeviceByFd_eq_some {fd : Int} {i : Nat} {device : DeviceInfo} (h : s.getDeviceByFd K fd = some (i, device)) :
    s.devArray i = fd ∧ s.units i = some device := by
  unfold getDeviceByFd at h
  obtain ⟨j, hj, hrow⟩ := Option.bind_eq_some_iff.1 h
  obtain ⟨device', hdevice, heq⟩ := Option.map_eq_some_iff.1 hrow
  cases heq
  unfold getDeviceIndexByFd at hj
  have hentry := List.find?_some hj
  exact ⟨of_decide_eq_true hentry, hdevice⟩

theorem findUnit_eq_some {p : DeviceInfo → Bool} {i : Nat} {device : DeviceInfo} (h : s.findUnit K p = some (i, device)) :
    s.units i = some device := by
  obtain ⟨j, -, hj⟩ := List.exists_of_findSome?_eq_some h
  obtain ⟨device', hdevice, hp⟩ := Option.bind_eq_some_iff.1 hj
  split at hp
  · cases hp
    exact hdevice
  · cases hp

/-- Nothing that matters is changed. -/
theorem Keeps.of_eq (hunits : t.units = s.units) (hfiles : t.files = s.files) (hdev : t.devArray = s.devArray) : Keeps s t :=
  ⟨fun i ⟨device, hrow, hstatus⟩ => ⟨device, hunits ▸ hrow, hstatus⟩,
    fun i _ c hc => by rwa [hdev, clientAt_congr hfiles] at hc⟩

/-- Connections are closed, entries are emptied and devices are disconnected. -/
theorem Keeps.of_less (hzero : s.clientAt zeroFd = none) (hunits : ∀ i, t.Connected i → s.Connected i)
    (hfiles : ∀ fd c, t.clientAt fd = some c → s.clientAt fd = some c)
    (hdev : ∀ i, t.devArray i = s.devArray i ∨ t.devArray i = zeroFd) : Keeps s t := by
  refine ⟨hunits, fun i _ c hc => ?_⟩
  have hold := hfiles _ c hc
  rcases hdev i with heq | hempty
  · rwa [heq] at hold
  · rw [hempty, hzero] at hold
    cases hold

theorem Entitled.mono {m : CtrlBlock} (h : s.Entitled m) (hreg : ∀ x ∈ s.registered, x ∈ t.registered) : t.Entitled m := by
  obtain ⟨c, hc, hmem⟩ := h
  exact ⟨c, hc, hreg _ hmem⟩

theorem Enrolled.of_keeps (h : s.Enrolled) (hk : Keeps s t) (hzero : t.clientAt zeroFd = none)
    (hreg : ∀ x ∈ s.registered, x ∈ t.registered)
    (hqueue : ∀ m ∈ t.msgQueue, m ∈ s.msgQueue ∨ (Privileged m → t.Entitled m)) : t.Enrolled := by
  refine ⟨hzero, fun i hi c hc => ?_, fun m hm hpriv => ?_⟩
  · have hold := hk.connected i hi
    exact hreg _ (h.connected i hold c (hk.entries i hold c hc))
  · rcases hqueue m hm with hold | hnew
    · exact (h.queue m hold hpriv).mono hreg
    · exact hnew hpriv

/-- The status of one row is set to another than connected. -/
theorem connected_updateStatus {status : DeviceStatus} {i j : Nat}
    (h : (s.updateStatusByDeviceIndex status i).Connected j) (hstatus : status ≠ .connected) : s.Connected j := by
  obtain ⟨device, hrow, hconn⟩ := h
  change Function.update s.units i _ j = _ at hrow
  by_cases hj : j = i
  · subst hj
    rw [Function.update_self] at hrow
    obtain ⟨old, -, rfl⟩ := Option.map_eq_some_iff.1 hrow
    exact absurd hconn hstatus
  · rw [Function.update_of_ne hj] at hrow
    exact ⟨device, hrow, hconn⟩

theorem clientAt_of_close {fd fd' : Int} {c : Connection} (h : (s.close fd).clientAt fd' = some c) : s.clientAt fd' = some c := by
  rw [clientAt_close] at h
  split at h
  · cases h
  · exact h

/-- An entry is written. -/
theorem bind_devArray (i : Nat) (fd : Int) (j : Nat) : (s.bind i fd).devArray j = if j = i then fd else s.devArray j :=
  Function.update_apply _ _ _ _

/-- An entry is emptied. -/
theorem bind_zeroFd (i j : Nat) : (s.bind i zeroFd).devArray j = s.devArray j ∨ (s.bind i zeroFd).devArray j = zeroFd := by
  rw [bind_devArray]
  split
  · exact .inr rfl
  · exact .inl rfl

theorem clientAt_zeroFd_of_less (hzero : s.clientAt zeroFd = none) (hfiles : ∀ fd c, t.clientAt fd = some c → s.clientAt fd = some c) :
    t.clientAt zeroFd = none := by
  cases hc : t.clientAt zeroFd with
  | none => rfl
  | some c =>
    have hold := hfiles zeroFd c hc
    rw [hzero] at hold
    cases hold

/-! ## Accepting and reading -/

/-- The condition on a descriptor that is accepted: no connected device's entry holds its number still, and the hardware address is
not a connected device's. -/
def Unclaimed (K : Constants) (s : Server) (fd : Nat) (mac : Option Text) : Prop :=
  (∀ i, s.Connected i → s.devArray i ≠ fd) ∧
    (3 ≤ fd → ∀ text i device, mac = some text → s.getDeviceByMac K text = some (i, device) → device.status ≠ .connected)

theorem Keeps.of_opens {fd : Int} {file : File} (hstale : ∀ i, s.Connected i → s.devArray i ≠ fd)
    (hunits : t.units = s.units) (hfiles : ∀ fd' c, fd' ≠ fd → t.clientAt fd' = some c → (s.opens fd file).clientAt fd' = some c)
    (hdev : ∀ i, s.Connected i → t.devArray i = s.devArray i) : Keeps s t := by
  refine ⟨fun i ⟨device, hrow, hstatus⟩ => ⟨device, hunits ▸ hrow, hstatus⟩, fun i hi c hc => ?_⟩
  rw [hdev i hi] at hc
  have hopen := hfiles _ c (hstale i hi) hc
  rwa [clientAt_opens, if_neg (hstale i hi)] at hopen

/-- Accepting a connection takes no entry from a connected device. -/
theorem acceptConnection_keeps {fd : Nat} {mac : Option Text} (hfree : Unclaimed K s fd mac) :
    Keeps s (s.acceptConnection K fd mac) := by
  obtain ⟨hstale, hmac⟩ := hfree
  unfold acceptConnection
  extract_lets s'
  split
  · exact Keeps.of_opens hstale rfl (fun _ _ _ hc => hc) fun _ _ => rfl
  · rename_i hhigh
    split
    · exact Keeps.of_opens hstale rfl (fun _ _ _ hc => clientAt_of_close (s := s') hc) fun _ _ => rfl
    · rename_i text
      split
      · rename_i i device hfound
        refine Keeps.of_opens hstale rfl (fun _ _ _ hc => hc) fun j hj => ?_
        change (s.bind i fd).devArray j = _
        rw [bind_devArray, if_neg]
        rintro rfl
        -- the device that has the hardware address is not connected
        obtain ⟨device', hrow, hstatus⟩ := hj
        have hrow' : s.units j = some device := findUnit_eq_some hfound
        obtain rfl := Option.some.inj (hrow.symm.trans hrow')
        exact hmac (Nat.not_lt.1 hhigh) text j device' rfl hfound hstatus
      · exact Keeps.of_opens hstale rfl (fun _ _ _ hc => hc) fun _ _ => rfl

/-- What a new connection changes besides. -/
theorem acceptConnection_rest (hzero : s.clientAt zeroFd = none) (fd : Nat) (mac : Option Text) :
    (s.acceptConnection K fd mac).clientAt zeroFd = none ∧ (s.acceptConnection K fd mac).registered = s.registered ∧
      (s.acceptConnection K fd mac).msgQueue = s.msgQueue := by
  have hopen : (s.opens fd (.client ⟨fd, s.accepted⟩)).clientAt zeroFd = none := by
    rw [clientAt_opens, if_neg]
    · exact hzero
    · unfold zeroFd
      omega
  unfold acceptConnection
  extract_lets s'
  have hs' : s'.clientAt zeroFd = none := hopen
  split
  · exact ⟨hs', rfl, rfl⟩
  · split
    · exact ⟨clientAt_zeroFd_of_less hs' fun _ _ => clientAt_of_close, rfl, rfl⟩
    · split
      · exact ⟨hs', rfl, rfl⟩
      · exact ⟨hs', rfl, rfl⟩

theorem connected_of_passes {device : DeviceInfo} {m : CtrlBlock} (h : passes device m.msg.type = true) (hm : Privileged m) :
    device.status = .connected := by
  unfold passes at h
  obtain ⟨hidp, hodp, hquery⟩ := hm
  by_contra hstatus
  simp only [hidp, hodp, hquery, hstatus, decide_false, Bool.and_false, Bool.false_and, Bool.false_eq_true, if_false] at h

/-- The condition on a message that is read: it comes from an open connection, and a descriptor that is bound to no device is not
bound to one that is connected. -/
def Proper (K : Constants) (s : Server) (fd : Int) (msg : HomeMessage) : Prop :=
  (∃ c, s.clientAt fd = some c) ∧
    (s.getDeviceByFd K fd = none → ∀ i device, s.getDeviceByNumber K (decimal msg.number) = some (i, device) →
      device.status ≠ .connected)

/-- What is in the queue when a message of a device has been delivered. -/
theorem mem_deliver {fd : Int} {i : Nat} {device : DeviceInfo} {msg : HomeMessage} {m : CtrlBlock}
    (h : m ∈ (s.deliver fd i device msg).msgQueue) :
    m ∈ s.msgQueue ∨ m = ⟨fd, msg, s.clientAt fd, i⟩ ∧ passes device msg.type = true := by
  unfold deliver at h
  split at h
  · rename_i hpass
    rcases List.mem_append.1 h with hold | hnew
    · exact .inl hold
    · exact .inr ⟨List.mem_singleton.1 hnew, (Bool.and_eq_true_iff.1 hpass).1⟩
  · exact .inl h

theorem deliver_eq (s : Server) (fd : Int) (i : Nat) (device : DeviceInfo) (msg : HomeMessage) :
    ∃ msgQueue, s.deliver fd i device msg = { s with msgQueue } := by
  unfold deliver
  split
  · exact ⟨_, rfl⟩
  · exact ⟨s.msgQueue, rfl⟩

theorem Enrolled.drop (h : s.Enrolled) (fd : Int) : (s.drop fd).Enrolled ∧ Keeps s (s.drop fd) := by
  have hless : ∀ fd' c, (s.drop fd).clientAt fd' = some c → s.clientAt fd' = some c := by
    intro fd' c hc
    have hclosed : (s.close fd).clientAt fd' = some c := hc
    exact clientAt_of_close hclosed
  have hk : Keeps s (s.drop fd) := Keeps.of_less h.zero (fun _ hi => hi) hless fun _ => .inl rfl
  exact ⟨h.of_keeps hk (clientAt_zeroFd_of_less h.zero hless) (fun _ hx => hx) fun _ hm => .inl hm, hk⟩

/-- The end of a device's connection keeps all true. -/
theorem Enrolled.disconnect (h : s.Enrolled) (fd : Int) (i : Nat) (device : DeviceInfo) :
    (s.disconnect fd i device).Enrolled ∧ Keeps s (s.disconnect fd i device) := by
  have hless : ∀ fd' c, (s.disconnect fd i device).clientAt fd' = some c → s.clientAt fd' = some c := by
    intro fd' c hc
    have hclosed : (s.close fd).clientAt fd' = some c := by
      rw [← hc]
      unfold Server.disconnect
      split <;> rfl
    exact clientAt_of_close hclosed
  have hk : Keeps s (s.disconnect fd i device) := by
    refine Keeps.of_less h.zero (fun j hj => ?_) hless fun j => ?_
    · unfold Server.disconnect at hj
      split at hj
      · exact connected_updateStatus (s := (s.drop fd).bind i zeroFd) hj (by decide)
      · exact hj
    · refine (bind_zeroFd (s := s) i j).imp (fun heq => ?_) fun heq => ?_
      all_goals
        rw [← heq]
        unfold Server.disconnect
        split <;> rfl
  refine ⟨h.of_keeps hk (clientAt_zeroFd_of_less h.zero hless) (fun x hx => ?_) fun m hm => .inl ?_, hk⟩
  · unfold Server.disconnect
    split <;> exact hx
  · unfold Server.disconnect at hm
    split at hm <;> exact hm

/-- A message of a device is delivered. -/
theorem Enrolled.deliver (h : s.Enrolled) {fd : Int} {i : Nat} {device : DeviceInfo} {msg : HomeMessage}
    (hentitled : device.status = .connected → s.Entitled ⟨fd, msg, s.clientAt fd, i⟩) :
    (s.deliver fd i device msg).Enrolled := by
  have hmem : ∀ m ∈ (s.deliver fd i device msg).msgQueue,
      m ∈ s.msgQueue ∨ m = ⟨fd, msg, s.clientAt fd, i⟩ ∧ passes device msg.type = true := fun _ => mem_deliver
  obtain ⟨msgQueue, heq⟩ := s.deliver_eq fd i device msg
  rw [heq] at hmem ⊢
  refine h.of_keeps (Keeps.of_eq rfl rfl rfl) h.zero (fun _ hx => hx) fun m hm => (hmem m hm).imp_right ?_
  rintro ⟨rfl, hpass⟩ hpriv
  exact hentitled (connected_of_passes hpass hpriv)

theorem Enrolled.bind (h : s.Enrolled) {i : Nat} (hi : ¬s.Connected i) (fd : Int) :
    (s.bind i fd).Enrolled ∧ Keeps s (s.bind i fd) := by
  have hk : Keeps s (s.bind i fd) := by
    refine ⟨fun _ hj => hj, fun j hj c hc => ?_⟩
    have hne : j ≠ i := fun heq => hi (heq ▸ hj)
    rw [bind_devArray, if_neg hne] at hc
    exact hc
  exact ⟨h.of_keeps hk h.zero (fun _ hx => hx) fun _ hm => .inl hm, hk⟩

theorem Keeps.deliver (hk : Keeps s t) (fd : Int) (i : Nat) (device : DeviceInfo) (msg : HomeMessage) :
    Keeps s (t.deliver fd i device msg) := by
  obtain ⟨msgQueue, heq⟩ := t.deliver_eq fd i device msg
  rw [heq]
  exact ⟨hk.connected, hk.entries⟩

/-- **Reading a descriptor** keeps all true. -/
theorem Enrolled.receive (h : s.Enrolled) (fd : Int) (input : Option HomeMessage)
    (hproper : ∀ msg, input = some msg → Proper K s fd msg) :
    (s.receive K fd input).Enrolled ∧ Keeps s (s.receive K fd input) := by
  unfold Server.receive
  split
  · exact h.disconnect fd _ _
  · rename_i i device msg hdevice
    obtain ⟨hentry, hrow⟩ := getDeviceByFd_eq_some hdevice
    obtain ⟨⟨c, hopen⟩, -⟩ := hproper msg rfl
    refine ⟨h.deliver fun hstatus => ⟨c, hopen, ?_⟩, Keeps.deliver (Keeps.of_eq rfl rfl rfl) fd i device msg⟩
    exact h.connected i ⟨device, hrow, hstatus⟩ c (hentry ▸ hopen)
  · exact h.drop fd
  · rename_i msg hdevice
    obtain ⟨-, hfree⟩ := hproper msg rfl
    unfold bindByNumber
    split
    · exact h.drop fd
    · rename_i i device hnumber
      have hstatus := hfree hdevice i device hnumber
      have hi : ¬s.Connected i := by
        rintro ⟨device', hrow, hconn⟩
        obtain rfl := Option.some.inj (hrow.symm.trans (findUnit_eq_some hnumber))
        exact hstatus hconn
      obtain ⟨hb, hk⟩ := h.bind hi fd
      exact ⟨hb.deliver fun hconn => absurd hconn hstatus, hk.deliver fd i device msg⟩

/-! ## Handling -/

/-- The condition on a message that is handled. A registration is handled while its own connection is at its descriptor, or none; and
the account of an outdoor device that is found right without regard to case is right. -/
def Honest (K : Constants) (s : Server) (m : CtrlBlock) : Prop :=
  (m.msg.type = .idpToMfcbRegister ∨ m.msg.type = .odpToMfcbRegister → ∀ c, s.clientAt m.connfd = some c → m.source = some c) ∧
    (m.msg.type = .odpToMfcbRegister → ∀ i device, s.getDeviceByFd K m.connfd = some (i, device) →
      sameNoCase (username m.msg.octets) device.userName = true → sameNoCase (password m.msg.octets) device.passWord = true →
      exactAccount m device = true)

theorem mem_enrol {m : CtrlBlock} {i : Nat} {x : Connection × Nat} (h : x ∈ s.registered) : x ∈ (s.enrol m i).registered := by
  unfold enrol
  split
  · exact List.mem_append_left _ h
  · exact h

theorem enrol_self {m : CtrlBlock} {c : Connection} (h : m.source = some c) (i : Nat) : (c, i) ∈ (s.enrol m i).registered := by
  rw [enrol, h]
  exact List.mem_append_right _ (List.mem_singleton_self _)

/-- **A registration succeeds.** The device of the entry is connected now, and the connection that the entry names has registered,
since it is the one that the registration came from. -/
theorem Enrolled.enrol (h : s.Enrolled) {m : CtrlBlock} {i : Nat} (hentry : s.devArray i = m.connfd)
    (hown : ∀ c, s.clientAt m.connfd = some c → m.source = some c) (hunits : ∀ j, t.Connected j → j = i ∨ s.Connected j)
    (hfiles : t.files = s.files) (hdev : t.devArray = s.devArray) (hqueue : t.msgQueue = s.msgQueue)
    (hreg : t.registered = (s.enrol m i).registered) : t.Enrolled := by
  have hmono : ∀ x ∈ s.registered, x ∈ t.registered := fun x hx => hreg ▸ mem_enrol hx
  refine ⟨(clientAt_congr hfiles zeroFd).trans h.zero, fun j hj c hc => ?_, fun m' hm' hpriv => ?_⟩
  · rw [hdev, clientAt_congr hfiles] at hc
    by_cases hji : j = i
    · subst hji
      rw [hentry] at hc
      exact hreg ▸ enrol_self (hown c hc) j
    · rcases hunits j hj with heq | hold
      · exact absurd heq hji
      · exact hmono _ (h.connected j hold c hc)
  · exact (h.queue m' (hqueue ▸ hm') hpriv).mono hmono

/-- One row is written. -/
theorem connected_updateUnit {i j : Nat} {f : DeviceInfo → DeviceInfo} (h : (s.updateUnit i f).Connected j) :
    j = i ∨ s.Connected j := by
  by_cases hj : j = i
  · exact .inl hj
  · obtain ⟨device, hrow, hstatus⟩ := h
    change Function.update s.units i _ j = _ at hrow
    rw [Function.update_of_ne hj] at hrow
    exact .inr ⟨device, hrow, hstatus⟩

/-- The sub type of a row is written: its status stays. -/
theorem connected_updateSubType {subType i j : Nat} (h : (s.updateSubTypeByDeviceIndex subType i).Connected j) :
    s.Connected j := by
  obtain ⟨device, hrow, hstatus⟩ := h
  change Function.update s.units i _ j = _ at hrow
  by_cases hj : j = i
  · subst hj
    rw [Function.update_self] at hrow
    obtain ⟨old, hold, rfl⟩ := Option.map_eq_some_iff.1 hrow
    exact ⟨old, hold, hstatus⟩
  · rw [Function.update_of_ne hj] at hrow
    exact ⟨device, hrow, hstatus⟩

/-- The registration of an indoor device keeps all true. -/
theorem Enrolled.idpPair (h : s.Enrolled) {m : CtrlBlock} (hown : ∀ c, s.clientAt m.connfd = some c → m.source = some c) :
    (s.processIDPToMFCBPair K m).Enrolled := by
  unfold processIDPToMFCBPair
  split
  · exact h
  · split
    · exact h
    · rename_i i device hdevice
      obtain ⟨hentry, -⟩ := getDeviceByFd_eq_some hdevice
      split_ifs
      · exact h
      · exact h
      · obtain ⟨registered, heq⟩ := ((s.updateStatusByDeviceIndex .connected i).updateSubTypeByDeviceIndex
          (idpSubType K (m.msg.octets (accountEnd m.msg.octets))) i).enrol_eq m i
        refine h.enrol (m := m) (i := i) hentry hown (fun j hj => ?_) ?_ ?_ ?_ ?_
        · rw [heq] at hj
          exact connected_updateUnit (connected_updateSubType hj)
        · rw [heq]
          rfl
        · rw [heq]
          rfl
        · rw [heq]
          rfl
        · unfold Server.enrol
          split <;> rfl
      · exact h

/-- The registration of an outdoor device keeps all true. -/
theorem Enrolled.odpPair (h : s.Enrolled) {m : CtrlBlock} (hown : ∀ c, s.clientAt m.connfd = some c → m.source = some c)
    (hexact : ∀ i device, s.getDeviceByFd K m.connfd = some (i, device) →
      sameNoCase (username m.msg.octets) device.userName = true → sameNoCase (password m.msg.octets) device.passWord = true →
      exactAccount m device = true) : (s.processODPToMFCBPair K m).Enrolled := by
  unfold processODPToMFCBPair
  split
  · exact h
  · rename_i i device hdevice
    obtain ⟨hentry, -⟩ := getDeviceByFd_eq_some hdevice
    split_ifs with hname hpass haccount
    · exact h
    · exact h
    · obtain ⟨registered, heq⟩ := (s.updateStatusByDeviceIndex .connected i).enrol_eq m i
      refine h.enrol (m := m) (i := i) hentry hown (fun j hj => ?_) ?_ ?_ ?_ ?_
      · rw [heq] at hj
        exact connected_updateUnit hj
      · rw [heq]
        rfl
      · rw [heq]
        rfl
      · rw [heq]
        rfl
      · unfold Server.enrol
        split <;> rfl
    · exact absurd (hexact i device hdevice (eq_true_of_ne_false hname) (eq_true_of_ne_false hpass)) haccount

theorem Enrolled.of_eq (h : s.Enrolled) (hunits : t.units = s.units) (hfiles : t.files = s.files) (hdev : t.devArray = s.devArray)
    (hqueue : t.msgQueue = s.msgQueue) (hreg : t.registered = s.registered) : t.Enrolled :=
  h.of_keeps (Keeps.of_eq hunits hfiles hdev) ((clientAt_congr hfiles zeroFd).trans h.zero) (fun _ hx => hreg ▸ hx)
    fun _ hm => .inl (hqueue ▸ hm)

/-- The query for an account keeps all true. -/
theorem Enrolled.queryAccountInfo (h : s.Enrolled) (m : CtrlBlock) : (s.processODPToMFCBQueryAccountInfo K m).Enrolled := by
  unfold processODPToMFCBQueryAccountInfo
  extract_lets doorID
  split_ifs
  · exact h
  · split
    · exact h
    · rename_i i _ _
      have hk : Keeps s (s.updateSubTypeByDeviceIndex doorID i) := ⟨fun j hj => connected_updateSubType hj, fun _ _ _ hc => hc⟩
      exact h.of_keeps hk h.zero (fun _ hx => hx) fun _ hm => .inl hm
  · exact h

/-- **Handling a message** keeps all true. -/
theorem Enrolled.handleMsg (h : s.Enrolled) {m : CtrlBlock} (hm : Honest K s m) (written : Bool) :
    (s.handleMsg K m written).Enrolled := by
  obtain ⟨hown, hexact⟩ := hm
  unfold Server.handleMsg
  split
  · rename_i htype
    exact h.idpPair (hown (.inl htype))
  · rename_i htype
    exact h.odpPair (hown (.inr htype)) (hexact htype)
  · exact h.queryAccountInfo m
  · obtain ⟨_, _, _, heq⟩ := s.processIDPToMFCBTokenOperation_eq m
    exact heq ▸ h.of_eq rfl rfl rfl rfl rfl
  · obtain ⟨_, heq⟩ := s.updateKeepAliveStatus_eq K m.connfd
    exact heq ▸ h.of_eq rfl rfl rfl rfl rfl
  · obtain ⟨_, _, heq⟩ := s.handleIDPToMFCBOpenDoor_eq m
    exact heq ▸ h.of_eq rfl rfl rfl rfl rfl
  · obtain ⟨_, _, heq⟩ := s.handleMFCBToODPOpenDoorAck_eq K m written
    exact heq ▸ h.of_eq rfl rfl rfl rfl rfl
  · exact h

/-! ## Keep-alives and deletions -/

/-- A keep-alive that is over keeps all true. -/
theorem Enrolled.expire (h : s.Enrolled) (i : Nat) : (s.expire K i).Enrolled ∧ Keeps s (s.expire K i) := by
  unfold Server.expire
  extract_lets fd s'
  have hs' : s'.Enrolled ∧ Keeps s s' := by
    cases hdevice : s.getDeviceByFd K fd with
    | none =>
      rw [show s' = s by simp only [s', hdevice]]
      exact ⟨h, Keeps.of_eq rfl rfl rfl⟩
    | some d =>
      rw [show s' = ((s.drop fd).bind d.1 zeroFd).updateStatusByDeviceIndex .disconnected d.1 by simp only [s', hdevice]]
      have hless : ∀ fd' c, (s.close fd).clientAt fd' = some c → s.clientAt fd' = some c := fun _ _ => clientAt_of_close
      have hk : Keeps s (((s.drop fd).bind d.1 zeroFd).updateStatusByDeviceIndex .disconnected d.1) :=
        Keeps.of_less h.zero (fun j hj => connected_updateStatus (s := (s.drop fd).bind d.1 zeroFd) hj (by decide)) hless
          fun j => bind_zeroFd (s := s) d.1 j
      exact ⟨h.of_keeps hk (clientAt_zeroFd_of_less (t := s.close fd) h.zero hless) (fun _ hx => hx) fun _ hm => .inl hm, hk⟩
  exact ⟨hs'.1.of_eq rfl rfl rfl rfl rfl, hs'.2.connected, hs'.2.entries⟩

/-- The deletion of devices keeps all true. -/
theorem Enrolled.deleteUnit (h : s.Enrolled) :
    (s.updateIndexDeviceArrayDeleteFromDb K).Enrolled ∧ Keeps s (s.updateIndexDeviceArrayDeleteFromDb K) := by
  change (zeroRows K s (List.range K.maxtableDevices)).Enrolled ∧ Keeps s (zeroRows K s (List.range K.maxtableDevices))
  have hz := zeroRows_zeroed (K := K) (s := s) (List.nodup_range (n := K.maxtableDevices))
  obtain ⟨_, _, _, _, _, _, heq⟩ := zeroRows_eq (K := K) s (List.range K.maxtableDevices)
  have hqueue : (zeroRows K s (List.range K.maxtableDevices)).msgQueue = s.msgQueue := by rw [heq]
  have hreg : (zeroRows K s (List.range K.maxtableDevices)).registered = s.registered := by rw [heq]
  generalize zeroRows K s (List.range K.maxtableDevices) = t at hz hqueue hreg ⊢
  have hless : ∀ fd c, t.clientAt fd = some c → s.clientAt fd = some c := by
    intro fd c hc
    rw [clientAt_iff, hz.files] at hc
    split at hc
    · cases hc
    · exact s.clientAt_iff.2 hc
  have hk : Keeps s t := by
    refine Keeps.of_less h.zero (fun j ⟨device, hrow, hstatus⟩ => ⟨device, hz.units ▸ hrow, hstatus⟩) hless fun j => ?_
    rw [hz.dev]
    split
    · exact .inr rfl
    · exact .inl rfl
  exact ⟨h.of_keeps hk (clientAt_zeroFd_of_less h.zero hless) (fun _ hx => hreg ▸ hx) fun _ hm => .inl (hqueue ▸ hm), hk⟩

/-! ## Every step, and every run -/

/-- What each step has to meet: the entry of a connected device is not taken, a message is read from an open connection, a
registration is handled while its own connection is at its descriptor, and nobody else writes that a device is connected. -/
def Attested (K : Constants) (s : Server) : Action → Prop
  | .accept fd mac => Unclaimed K s fd mac
  | .receive input => ∀ fd msg, s.ready.head? = some fd → input = some msg → Proper K s fd msg
  | .handle _ => ∀ m, s.msgQueue.head? = some m → Honest K s m
  | .writeUnit i device => ∀ new, device = some new → new.status = .connected → s.Connected i
  | _ => True

theorem Served.of_keeps {a : Action} (ha : ∀ written, a ≠ .handle written) (hk : Keeps s t) : Served s a t :=
  ⟨fun written _ heq => absurd heq (ha written), hk.entries⟩

/-- **One step** keeps all true and does what is asked. -/
theorem step_served (h : s.Enrolled) {a : Action} (hc : s.Attested K a) (hstep : s.step K a = some t) :
    t.Enrolled ∧ Served s a t := by
  have hleads := leads_of_step hstep
  cases a with
  | select fds =>
    obtain ⟨-, -, rfl⟩ := hleads
    exact ⟨h.of_eq rfl rfl rfl rfl rfl, Served.of_keeps (fun _ => nofun) (Keeps.of_eq rfl rfl rfl)⟩
  | accept fd mac =>
    obtain ⟨-, -, -, rfl⟩ := hleads
    have hk : Keeps { s with ready := s.ready.tail } ({ s with ready := s.ready.tail }.acceptConnection K fd mac) :=
      acceptConnection_keeps hc
    have h' : { s with ready := s.ready.tail }.Enrolled := h.of_eq rfl rfl rfl rfl rfl
    obtain ⟨hzero, hreg, hqueue⟩ := acceptConnection_rest (K := K) h'.zero fd mac
    refine ⟨h'.of_keeps hk hzero (fun x hx => ?_) fun m hm => .inl ?_,
      Served.of_keeps (fun _ => nofun) ⟨hk.connected, hk.entries⟩⟩
    · rw [hreg]
      exact hx
    · rw [hqueue] at hm
      exact hm
  | acceptFails =>
    obtain rfl := hleads
    exact ⟨h.of_eq rfl rfl rfl rfl rfl, Served.of_keeps (fun _ => nofun) (Keeps.of_eq rfl rfl rfl)⟩
  | receive input =>
    obtain ⟨fd, hhead, -, -, -, rfl⟩ := hleads
    have h' : { s with ready := s.ready.tail }.Enrolled := h.of_eq rfl rfl rfl rfl rfl
    obtain ⟨ht, hk⟩ := h'.receive (K := K) fd input fun msg hinput => hc fd msg hhead hinput
    exact ⟨ht, Served.of_keeps (fun _ => nofun) ⟨hk.connected, hk.entries⟩⟩
  | releaseToken =>
    obtain ⟨fd, -, rfl⟩ := hleads
    obtain ⟨_, _, heq⟩ := s.releaseTokenByFD_eq fd
    rw [heq]
    exact ⟨h.of_eq rfl rfl rfl rfl rfl, Served.of_keeps (fun _ => nofun) (Keeps.of_eq rfl rfl rfl)⟩
  | handle written =>
    obtain ⟨m, msgQueue, hqueue, rfl⟩ := hleads
    have hm : s.msgQueue.head? = some m := by rw [hqueue]; rfl
    have h' : { s with msgQueue }.Enrolled :=
      h.of_keeps (Keeps.of_eq rfl rfl rfl) h.zero (fun _ hx => hx) fun m' hm' =>
        .inl (by rw [hqueue]; exact List.mem_cons_of_mem m hm')
    have honest : Honest K { s with msgQueue } m := hc m hm
    refine ⟨h'.handleMsg honest written, fun _ m' _ hm' hpriv => ?_, fun i _ c hopen => ?_⟩
    · obtain rfl := Option.some.inj (hm.symm.trans hm')
      exact h.queue m (by rw [hqueue]; exact List.mem_cons_self) hpriv
    · -- the worker writes neither the entries nor the descriptors
      obtain ⟨_, _, _, _, _, _, _, _, _, heq⟩ := { s with msgQueue }.handleMsg_eq K m written
      rw [heq] at hopen
      exact hopen
  | keepAliveSync i =>
    obtain ⟨-, rfl⟩ := hleads
    obtain ⟨_, _, _, _, heq⟩ := s.keepAliveSync_eq i
    rw [heq]
    exact ⟨h.of_eq rfl rfl rfl rfl rfl, Served.of_keeps (fun _ => nofun) (Keeps.of_eq rfl rfl rfl)⟩
  | expire =>
    obtain ⟨i, -, rfl⟩ := hleads
    obtain ⟨ht, hk⟩ := h.expire (K := K) i
    exact ⟨ht, Served.of_keeps (fun _ => nofun) hk⟩
  | deleteUnit =>
    obtain rfl := hleads
    obtain ⟨ht, hk⟩ := h.deleteUnit (K := K)
    exact ⟨ht, Served.of_keeps (fun _ => nofun) hk⟩
  | writeUnit i device =>
    obtain rfl := hleads
    have hk : Keeps s { s with units := Function.update s.units i device } := by
      refine ⟨fun j ⟨new, hrow, hstatus⟩ => ?_, fun _ _ _ hopen => hopen⟩
      by_cases hj : j = i
      · subst hj
        change Function.update s.units j device j = _ at hrow
        rw [Function.update_self] at hrow
        exact hc new hrow hstatus
      · change Function.update s.units i device j = _ at hrow
        rw [Function.update_of_ne hj] at hrow
        exact ⟨new, hrow, hstatus⟩
    exact ⟨h.of_keeps hk h.zero (fun _ hx => hx) fun _ hm => .inl hm, Served.of_keeps (fun _ => nofun) hk⟩
  | openFile fd =>
    obtain ⟨-, rfl⟩ := hleads
    have hless : ∀ fd' c, (s.opens fd .other).clientAt fd' = some c → s.clientAt fd' = some c := by
      intro fd' c hopen
      rw [clientAt_opens] at hopen
      split at hopen
      · cases hopen
      · exact hopen
    have hk : Keeps s (s.opens fd .other) := Keeps.of_less h.zero (fun _ hi => hi) hless fun _ => .inl rfl
    exact ⟨h.of_keeps hk (clientAt_zeroFd_of_less h.zero hless) (fun _ hx => hx) fun _ hm => .inl hm,
      Served.of_keeps (fun _ => nofun) hk⟩
  | closeFile fd =>
    obtain ⟨-, rfl⟩ := hleads
    have hless : ∀ fd' c, (s.close fd).clientAt fd' = some c → s.clientAt fd' = some c := fun _ _ => clientAt_of_close
    have hk : Keeps s { s with files := Function.update s.files fd none } :=
      Keeps.of_less h.zero (fun _ hi => hi) hless fun _ => .inl rfl
    exact ⟨h.of_keeps hk (clientAt_zeroFd_of_less (t := s.close fd) h.zero hless) (fun _ hx => hx) fun _ hm => .inl hm,
      Served.of_keeps (fun _ => nofun) hk⟩

/-- At the start no connection is open and nothing is queued. -/
theorem start_enrolled (opened : Finset Int) (gehServerFd : Nat) (units : Nat → Option DeviceInfo) :
    (start opened gehServerFd units).Enrolled := by
  have hnone : ∀ fd c, (start opened gehServerFd units).clientAt fd ≠ some c := by
    intro fd c hc
    rw [clientAt_iff] at hc
    change (if fd = gehServerFd then _ else if fd ∈ opened then _ else _) = _ at hc
    split_ifs at hc <;> cases hc
  refine ⟨?_, fun i _ c hc => absurd hc (hnone _ c), fun m hm => absurd hm List.not_mem_nil⟩
  cases hzero : (start opened gehServerFd units).clientAt zeroFd with
  | none => rfl
  | some c => exact absurd hzero (hnone _ c)

/-- **Only registered connections are served.** In every run from the start whose steps all meet their conditions, a privileged
message is handled only when its connection has registered with the account of the device it is taken to be from, and no new
connection takes over the entry of a device that is connected. -/
theorem registered_served (opened : Finset Int) (gehServerFd : Nat) (units : Nat → Option DeviceInfo)
    {tr : List (Transition Server Action)} (hrun : Run (steps K) (start opened gehServerFd units) tr s)
    (hmeets : Meets (fun s a => s.Attested K a) tr) : Always Served tr :=
  Run.always (start_enrolled opened gehServerFd units) (fun _ _ _ h hc hstep => step_served h hc hstep) hrun hmeets

/-- Nobody is connected at the start. -/
theorem start_not_connected (opened : Finset Int) (gehServerFd : Nat) (units : Nat → Option DeviceInfo) (i : Nat) :
    ¬(start opened gehServerFd units).Connected i := by
  rintro ⟨device, hrow, hstatus⟩
  obtain ⟨old, -, hclarify⟩ := Option.bind_eq_some_iff.1 hrow
  unfold clarifyDBDeviceStatus at hclarify
  split_ifs at hclarify with hnew hconn
  · cases hclarify
    cases hstatus
  · cases hclarify
    exact hconn hstatus

/-- It registers, and asks for the token. -/
def registration : List Action :=
  [.select [4], .receive (some (idpRegistration 5 53)), .handle true, .select [4], .receive (some (messageOf 5 0x1010 [1])), .handle true]

/-- A device that was paired connects and registers, and its request for the token is handled. -/
theorem registered_served_example :
    ∃ tr s, Run (steps (smallTables 2)) (startWith [pairedDevice 'm' '5' .idp 3]) tr s ∧ Always Served tr ∧
      s.registered = [(⟨4, 0⟩, 0)] ∧ s.holders = [⟨4, 0⟩] := by
  have hselect : steps (smallTables 2) (startWith [pairedDevice 'm' '5' .idp 3]) (.select [3])
      { startWith [pairedDevice 'm' '5' .idp 3] with ready := [3] } := by
    change Server.step _ _ _ = some _
    simp only [step]
    exact if_pos ⟨rfl, rfl, by decide, by decide, by decide⟩
  have haccept : steps (smallTables 2) { startWith [pairedDevice 'm' '5' .idp 3] with ready := [3] } (.accept 4 (some ['m']))
      ({ startWith [pairedDevice 'm' '5' .idp 3] with ready := [] }.acceptConnection (smallTables 2) 4 (some ['m'])) := by
    change Server.step _ _ _ = some _
    simp only [step, next]
    exact if_pos ⟨rfl, by decide⟩
  have hrest := Run.ofPlay (fun s a => s.step (smallTables 2) a)
    ({ startWith [pairedDevice 'm' '5' .idp 3] with ready := [] }.acceptConnection (smallTables 2) 4 (some ['m'])) registration
  have hrun := ((Run.nil.snoc hselect).snoc haccept).append hrest
  have hattested : ∀ x ∈ (play (fun s a => s.step (smallTables 2) a)
      ({ startWith [pairedDevice 'm' '5' .idp 3] with ready := [] }.acceptConnection (smallTables 2) 4 (some ['m'])) registration).1,
      (∀ fd ∈ x.1.ready.head?, x.1.clientAt fd ≠ none ∧ x.1.getDeviceByFd (smallTables 2) fd ≠ none) ∧
        ∀ m ∈ x.1.msgQueue.head?, m.msg.type ≠ .odpToMfcbRegister ∧ x.1.clientAt m.connfd = m.source := by
    decide +kernel
  have hactions : ∀ a ∈ registration, (∀ fd mac, a ≠ .accept fd mac) ∧ ∀ i device, a ≠ .writeUnit i device := by simp [registration]
  refine ⟨_, _, hrun, registered_served {0, 1, 2} 3 _ hrun fun x hx => ?_, by decide +kernel, by decide +kernel⟩
  rcases List.mem_append.1 hx with hx | hx
  · rcases List.mem_append.1 hx with hx | hx
    · rw [List.mem_singleton.1 hx]
      trivial
    · rw [List.mem_singleton.1 hx]
      exact ⟨fun i hi => absurd hi (start_not_connected {0, 1, 2} 3 _ i),
        fun _ text i device _ hfound hstatus => start_not_connected {0, 1, 2} 3 _ i ⟨device, findUnit_eq_some hfound, hstatus⟩⟩
  · obtain ⟨hreads, hhandles⟩ := hattested x hx
    obtain ⟨haccepts, hwrites⟩ := hactions _ (mem_of_mem_play hx)
    rcases x with ⟨s, a, t⟩
    cases a with
    | receive input =>
      intro fd msg hfd _
      obtain ⟨hopen, hbound⟩ := hreads fd hfd
      exact ⟨Option.ne_none_iff_exists'.1 hopen, fun hnone => absurd hnone hbound⟩
    | handle written =>
      intro m hm
      obtain ⟨htype, hopen⟩ := hhandles m hm
      exact ⟨fun _ c hc => hopen.symm.trans hc, fun ht => absurd ht htype⟩
    | accept fd mac => exact absurd rfl (haccepts fd mac)
    | writeUnit i device => exact absurd rfl (hwrites i device)
    | _ => trivial

/-- A device connects and registers; then somebody connects who has its hardware address, and asks for the token. -/
def takeover : List Action :=
  [.select [3], .accept 4 (some ['m']), .select [4], .receive (some (idpRegistration 5 53)), .handle true,
    .select [3], .accept 5 (some ['m']), .select [5], .receive (some (messageOf 5 0x1010 [1])), .handle true]

/-- The action handles a message. -/
def Action.handles : Action → Bool
  | .handle _ => true
  | _ => false

/-- The request for the token is handled, and its connection has never registered. -/
theorem unregistered_served :
    ∃ tr s, Run (steps (smallTables 2)) (startWith [pairedDevice 'm' '5' .idp 3]) tr s ∧ ¬Always Served tr := by
  obtain ⟨s, hrun⟩ := run_played 2 [pairedDevice 'm' '5' .idp 3] takeover
  refine ⟨_, s, hrun, fun h => ?_⟩
  have hhandled : ∃ x ∈ played 2 [pairedDevice 'm' '5' .idp 3] takeover,
      Action.handles x.2.1 = true ∧ x.1.registered = [(⟨4, 0⟩, 0)] ∧
        x.1.msgQueue.head?.map (fun m => (m.msg.type, m.source)) = some (.idpToMfcbTokenOperation, some ⟨5, 1⟩) := by
    decide +kernel
  obtain ⟨⟨s₁, a, t₁⟩, hx, ha, hreg, hm⟩ := hhandled
  obtain ⟨m, hhead, hm⟩ := Option.map_eq_some_iff.1 hm
  obtain ⟨htype, hsource⟩ := Prod.mk.inj hm
  cases a with
  | handle written =>
    have hpriv : Privileged m := by
      unfold Privileged
      rw [htype]
      decide
    obtain ⟨c, hc, hmem⟩ := (h _ hx).entitled written m rfl hhead hpriv
    obtain rfl := Option.some.inj (hc.symm.trans hsource)
    change _ ∈ s₁.registered at hmem
    rw [hreg] at hmem
    cases List.mem_singleton.1 hmem
  | _ => cases ha

end Server

end CodeFactory.Ehcc
