import CodeFactory.Ehcc.Registration

/-!
# One outdoor device for each door

An outdoor device asks for its account with the door it is to stand at, and `checkODPTypeExist` looks whether a paired device stands
there already. The door is written into its row then, the status only when it registers, and nothing asks again.
-/

namespace CodeFactory.Ehcc

/-- An outdoor device that is paired: connected or disconnected. -/
def DeviceInfo.PairedOutdoor (device : DeviceInfo) : Prop :=
  device.type = .odp ∧ (device.status = .connected ∨ device.status = .disconnected)

instance (device : DeviceInfo) : Decidable device.PairedOutdoor := inferInstanceAs (Decidable (_ ∧ _))

namespace Server

variable {K : Constants} {s t : Server}

/-- No two paired outdoor devices of the unit table stand at one door. -/
def OneEach (K : Constants) (s : Server) : Prop :=
  ∀ i j a b, i < K.maxtableDevices → j < K.maxtableDevices → s.units i = some a → s.units j = some b →
    a.PairedOutdoor → b.PairedOutdoor → a.subType = b.subType →
    (a.subType = K.subtypeOdpFront ∨ a.subType = K.subtypeOdpBack) → i = j

/-- The registration of an outdoor device succeeds: its row, and the device. -/
def odpAccepts (K : Constants) (s : Server) (m : CtrlBlock) : Option (Nat × DeviceInfo) :=
  (s.getDeviceByFd K m.connfd).filter fun x =>
    sameNoCase (username m.msg.octets) x.2.userName && sameNoCase (password m.msg.octets) x.2.passWord

/-- The registration of an indoor device succeeds. -/
def idpAccepts (K : Constants) (s : Server) (m : CtrlBlock) : Option (Nat × DeviceInfo) :=
  (s.getDeviceByFd K m.connfd).filter fun x =>
    m.connfd ≠ 0 && m.msg.valueLen ≠ 0 && accountEnd m.msg.octets + 1 = m.msg.valueLen && exactAccount m x.2

/-- When this is what is written to a row, and it is a paired outdoor device, `checkODPTypeExist` finds no other row with its door. -/
def Vacant (K : Constants) (s : Server) (i : Nat) (device : DeviceInfo) : Prop :=
  device.PairedOutdoor →
    ({ s with units := Function.update s.units i none } : Server).checkODPTypeExist K device.subType = false

instance (i : Nat) (device : DeviceInfo) : Decidable (s.Vacant K i device) := inferInstanceAs (Decidable (_ → _))

/-- The condition on a message that is handled: a registration that succeeds asks for the door again. -/
def AsksAgainFor (K : Constants) (s : Server) (m : CtrlBlock) : Prop :=
  (m.msg.type = .odpToMfcbRegister → ∀ x ∈ s.odpAccepts K m, s.Vacant K x.1 { x.2 with status := .connected }) ∧
  (m.msg.type = .idpToMfcbRegister → ∀ x ∈ s.idpAccepts K m,
    s.Vacant K x.1 { x.2 with status := .connected, subType := idpSubType K (m.msg.octets (accountEnd m.msg.octets)) })

instance (m : CtrlBlock) : Decidable (s.AsksAgainFor K m) := inferInstanceAs (Decidable (_ ∧ _))

/-- The condition on a step: the door is asked for again when a device is paired, be it by its registration, by the end of its
keep-alives or from elsewhere. -/
def AsksAgain (K : Constants) (s : Server) : Action → Prop
  | .handle _ => ∀ m ∈ s.msgQueue.head?, s.AsksAgainFor K m
  | .expire => ∀ i ∈ s.expiring, ∀ x ∈ s.getDeviceByFd K (s.keepAliveInfo i).connfd,
      s.Vacant K x.1 { x.2 with status := .disconnected }
  | .writeUnit i device => i < K.maxtableDevices → ∀ d ∈ device, s.Vacant K i d
  | _ => True

instance (a : Action) : Decidable (s.AsksAgain K a) :=
  match a with
  | .handle _ => inferInstanceAs (Decidable (∀ m ∈ s.msgQueue.head?, s.AsksAgainFor K m))
  | .expire => inferInstanceAs (Decidable (∀ i ∈ s.expiring, ∀ x ∈ s.getDeviceByFd K (s.keepAliveInfo i).connfd, _))
  | .writeUnit i device => inferInstanceAs (Decidable (i < K.maxtableDevices → ∀ d ∈ device, s.Vacant K i d))
  | .select _ | .accept .. | .acceptFails | .receive _ | .releaseToken | .keepAliveSync _ | .deleteUnit | .openFile _
  | .closeFile _ => isTrue trivial

/-! ## One row is written -/

/-- What `checkODPTypeExist` finds. -/
theorem checkODPTypeExist_iff {doorID : Nat} :
    s.checkODPTypeExist K doorID = true ↔ ∃ i < K.maxtableDevices, ∃ device, s.units i = some device ∧ device.PairedOutdoor ∧
      device.subType = doorID ∧ (doorID = K.subtypeOdpFront ∨ doorID = K.subtypeOdpBack) := by
  unfold checkODPTypeExist findUnit DeviceInfo.PairedOutdoor
  rw [List.findSome?_isSome_iff]
  constructor
  · rintro ⟨i, hi, hsome⟩
    obtain ⟨x, hx⟩ := Option.isSome_iff_exists.1 hsome
    obtain ⟨device, hdevice, hif⟩ := Option.bind_eq_some_iff.1 hx
    split at hif
    · rename_i hp
      simp only [Bool.and_eq_true, Bool.or_eq_true, decide_eq_true_eq] at hp
      obtain ⟨⟨htype, hstatus⟩, hdoor⟩ := hp
      exact ⟨i, List.mem_range.1 hi, device, hdevice, ⟨htype, hstatus⟩, by omega, by omega⟩
    · cases hif
  · rintro ⟨i, hi, device, hdevice, ⟨htype, hstatus⟩, hsub, hdoor⟩
    refine ⟨i, List.mem_range.2 hi, ?_⟩
    rw [hdevice, Option.bind_some, if_pos]
    · rfl
    · simp only [Bool.and_eq_true, Bool.or_eq_true, decide_eq_true_eq]
      exact ⟨⟨htype, hstatus⟩, by omega⟩

/-- No other row has the door. -/
theorem vacant_iff {i : Nat} {device : DeviceInfo} :
    s.Vacant K i device ↔ (device.PairedOutdoor → (device.subType = K.subtypeOdpFront ∨ device.subType = K.subtypeOdpBack) →
      ∀ j < K.maxtableDevices, j ≠ i → ∀ b, s.units j = some b → b.PairedOutdoor → b.subType ≠ device.subType) := by
  unfold Vacant
  rw [← Bool.not_eq_true, checkODPTypeExist_iff]
  constructor
  · rintro h hpaired hdoor j hj hne b hb hpb hsub
    exact h hpaired ⟨j, hj, b, (Function.update_of_ne hne _ _).trans hb, hpb, hsub, hdoor⟩
  · rintro h hpaired ⟨j, hj, b, hb, hpb, hsub, hdoor⟩
    change Function.update s.units i none j = some b at hb
    by_cases hne : j = i
    · subst hne
      rw [Function.update_self] at hb
      cases hb
    · rw [Function.update_of_ne hne] at hb
      exact h hpaired hdoor j hj hne b hb hpb hsub

/-- **One row is written.** There is still one device for each door exactly when no other row had the door. -/
theorem OneEach.update_iff (h : s.OneEach K) {i : Nat} {device : DeviceInfo} (hi : i < K.maxtableDevices)
    (hunits : t.units = Function.update s.units i (some device)) : t.OneEach K ↔ s.Vacant K i device := by
  rw [vacant_iff]
  constructor
  · intro ht hpaired hdoor j hj hne b hb hpb hsub
    refine hne (ht j i b device hj hi ?_ ?_ hpb hpaired hsub (hsub ▸ hdoor))
    · rw [hunits, Function.update_of_ne hne, hb]
    · rw [hunits, Function.update_self]
  · intro hvacant j k a b hj hk ha hb hpa hpb hsub hdoor
    rw [hunits, Function.update_apply] at ha hb
    split at ha
    · rename_i hji
      split at hb
      · rename_i hki
        exact hji.trans hki.symm
      · rename_i hki
        cases ha
        exact absurd hsub.symm (hvacant hpa hdoor k hk hki b hb hpb)
    · rename_i hji
      split at hb
      · cases hb
        exact absurd hsub (hvacant hpb (hsub ▸ hdoor) j hj hji a ha hpa)
      · exact h j k a b hj hk ha hb hpa hpb hsub hdoor

/-- The rows that are left are among those that were there. -/
theorem OneEach.of_less (h : s.OneEach K) (hunits : ∀ i < K.maxtableDevices, ∀ a, t.units i = some a → s.units i = some a) :
    t.OneEach K :=
  fun i j a b hi hj ha hb => h i j a b hi hj (hunits i hi a ha) (hunits j hj b hb)

/-- A device that stood at the door before leaves it to nobody else. -/
theorem OneEach.vacant (h : s.OneEach K) {i : Nat} {old device : DeviceInfo} (hi : i < K.maxtableDevices)
    (hold : s.units i = some old) (hpaired : device.PairedOutdoor → old.PairedOutdoor) (hsub : old.subType = device.subType) :
    s.Vacant K i device := by
  rw [vacant_iff]
  intro hp hdoor j hj hne b hb hpb heq
  exact hne (h j i b old hj hi hb hold hpb (hpaired hp) (heq.trans hsub.symm) (heq ▸ hdoor))

/-! ## Which row a step writes -/

theorem getDeviceByFd_lt {fd : Int} {i : Nat} {device : DeviceInfo} (h : s.getDeviceByFd K fd = some (i, device)) :
    i < K.maxtableDevices := by
  unfold getDeviceByFd at h
  obtain ⟨j, hj, hrow⟩ := Option.bind_eq_some_iff.1 h
  obtain ⟨_, _, heq⟩ := Option.map_eq_some_iff.1 hrow
  cases heq
  exact List.mem_range.1 (List.mem_of_find?_eq_some hj)

/-- A row that is there is written. -/
theorem updateUnit_units {i : Nat} {device : DeviceInfo} (f : DeviceInfo → DeviceInfo) (h : s.units i = some device) :
    (s.updateUnit i f).units = Function.update s.units i (some (f device)) := by
  unfold updateUnit
  rw [h, Option.map_some]

/-- What is kept of a registration is not in the table. -/
theorem enrol_units (m : CtrlBlock) (i : Nat) : (s.enrol m i).units = s.units := by
  obtain ⟨_, h⟩ := s.enrol_eq m i
  rw [h]

/-- The registration of an outdoor device connects the device that it succeeds for. -/
theorem processODPToMFCBPair_units (m : CtrlBlock) :
    (∃ x, s.odpAccepts K m = some x ∧ s.getDeviceByFd K m.connfd = some x ∧
      (s.processODPToMFCBPair K m).units = Function.update s.units x.1 (some { x.2 with status := .connected })) ∨
    s.odpAccepts K m = none ∧ (s.processODPToMFCBPair K m).units = s.units := by
  unfold odpAccepts processODPToMFCBPair
  cases hfound : s.getDeviceByFd K m.connfd with
  | none => exact .inr ⟨rfl, rfl⟩
  | some x =>
    obtain ⟨i, device⟩ := x
    have hupdate := updateUnit_units (fun d => { d with status := .connected }) (getDeviceByFd_eq_some hfound).2
    rw [Option.filter_some]
    dsimp only
    by_cases huser : sameNoCase (username m.msg.octets) device.userName = false
    · exact .inr ⟨by rw [huser]; rfl, by rw [if_pos huser]⟩
    · by_cases hpass : sameNoCase (password m.msg.octets) device.passWord = false
      · exact .inr ⟨by rw [hpass, Bool.and_false]; rfl, by rw [if_neg huser, if_pos hpass]⟩
      · refine .inl ⟨(i, device), ?_, rfl, ?_⟩
        · rw [if_pos]
          rw [Bool.not_eq_false] at huser hpass
          rw [huser, hpass]
          rfl
        · rw [if_neg huser, if_neg hpass]
          split
          · rw [enrol_units]
            exact hupdate
          · exact hupdate

/-- The registration of an indoor device connects the device that it succeeds for, and gives it the sub type. -/
theorem processIDPToMFCBPair_units (m : CtrlBlock) :
    (∃ x, s.idpAccepts K m = some x ∧ s.getDeviceByFd K m.connfd = some x ∧
      (s.processIDPToMFCBPair K m).units = Function.update s.units x.1 (some { x.2 with
        status := .connected, subType := idpSubType K (m.msg.octets (accountEnd m.msg.octets)) })) ∨
    s.idpAccepts K m = none ∧ (s.processIDPToMFCBPair K m).units = s.units := by
  unfold idpAccepts processIDPToMFCBPair
  cases hfound : s.getDeviceByFd K m.connfd with
  | none => exact .inr ⟨rfl, by split <;> rfl⟩
  | some x =>
    obtain ⟨i, device⟩ := x
    have hrow := (getDeviceByFd_eq_some hfound).2
    rw [Option.filter_some]
    dsimp only
    by_cases hfd : m.connfd = 0
    · exact .inr ⟨by simp [hfd], by rw [if_pos hfd]⟩
    · by_cases hlen : m.msg.valueLen = 0
      · exact .inr ⟨by simp [hlen], by rw [if_neg hfd, if_pos hlen]⟩
      · by_cases hend : accountEnd m.msg.octets + 1 ≠ m.msg.valueLen
        · exact .inr ⟨by simp [hend], by rw [if_neg hfd, if_neg hlen, if_pos hend]⟩
        · by_cases haccount : exactAccount m device = true
          · refine .inl ⟨(i, device), ?_, rfl, ?_⟩
            · rw [not_not] at hend
              simp [hfd, hlen, hend, haccount]
            · rw [if_neg hfd, if_neg hlen, if_neg hend, if_pos haccount, enrol_units]
              change Function.update (Function.update s.units i ((s.units i).map _)) i
                ((Function.update s.units i ((s.units i).map _) i).map _) = _
              rw [Function.update_self, Function.update_idem, hrow]
              rfl
          · rw [Bool.not_eq_true] at haccount
            exact .inr ⟨by simp [haccount], by rw [if_neg hfd, if_neg hlen, if_neg hend, haccount]; rfl⟩

/-- The query for an account writes the door into the row of the device, when no paired device stands there. -/
theorem processODPToMFCBQueryAccountInfo_units (m : CtrlBlock) :
    (∃ x, s.getDeviceByFd K m.connfd = some x ∧ s.checkODPTypeExist K (m.msg.octets 0).toNat = false ∧
      (s.processODPToMFCBQueryAccountInfo K m).units =
        Function.update s.units x.1 (some { x.2 with subType := (m.msg.octets 0).toNat })) ∨
    (s.processODPToMFCBQueryAccountInfo K m).units = s.units := by
  unfold processODPToMFCBQueryAccountInfo
  extract_lets doorID
  split
  · exact .inr rfl
  · rename_i hcheck
    split
    · cases hfound : s.getDeviceByFd K m.connfd with
      | none => exact .inr rfl
      | some x =>
        obtain ⟨i, device⟩ := x
        refine .inl ⟨(i, device), rfl, by simpa using hcheck, ?_⟩
        exact updateUnit_units (fun d => { d with subType := doorID }) (getDeviceByFd_eq_some hfound).2
    · exact .inr rfl

theorem acceptConnection_units (fd : Nat) (mac : Option Text) : (s.acceptConnection K fd mac).units = s.units := by
  unfold acceptConnection
  extract_lets s'
  split
  · rfl
  · split
    · rfl
    · split <;> rfl

/-- Reading writes at most that a device is not connected any more. -/
theorem receive_units (fd : Int) (input : Option HomeMessage) :
    (∃ i device, s.units i = some device ∧ i < K.maxtableDevices ∧ device.status = .connected ∧
      (s.receive K fd input).units = Function.update s.units i (some { device with status := .disconnected })) ∨
    (s.receive K fd input).units = s.units := by
  unfold receive
  split
  · rename_i i device hfound
    have hrow := (getDeviceByFd_eq_some hfound).2
    unfold disconnect
    split
    · rename_i hconnected
      refine .inl ⟨i, device, hrow, getDeviceByFd_lt hfound, hconnected, ?_⟩
      exact updateUnit_units (s := (s.drop fd).bind i zeroFd) (fun d => { d with status := .disconnected }) hrow
    · exact .inr rfl
  · rename_i i device msg _
    obtain ⟨_, h⟩ := s.deliver_eq fd i device msg
    exact .inr (by rw [h])
  · exact .inr rfl
  · rename_i msg _
    unfold bindByNumber
    split
    · exact .inr rfl
    · rename_i i device _
      obtain ⟨_, h⟩ := (s.bind i fd).deliver_eq fd i device msg
      exact .inr (by rw [h]; rfl)

/-- The end of the keep-alives of an entry disconnects the device that its descriptor finds. -/
theorem expire_units (i : Nat) :
    (∃ x, s.getDeviceByFd K (s.keepAliveInfo i).connfd = some x ∧
      (s.expire K i).units = Function.update s.units x.1 (some { x.2 with status := .disconnected })) ∨
    s.getDeviceByFd K (s.keepAliveInfo i).connfd = none ∧ (s.expire K i).units = s.units := by
  unfold expire
  extract_lets fd s'
  cases hfound : s.getDeviceByFd K fd with
  | none => exact .inr ⟨rfl, by simp only [s', hfound]⟩
  | some x =>
    obtain ⟨j, device⟩ := x
    have hrow := (getDeviceByFd_eq_some hfound).2
    refine .inl ⟨(j, device), rfl, ?_⟩
    simp only [s', hfound]
    exact updateUnit_units (s := (s.drop fd).bind j zeroFd) (fun d => { d with status := .disconnected }) hrow

/-- What `checkODPTypeExist` does not find it does not find without a row either. -/
theorem vacant_of_check {i : Nat} {device : DeviceInfo} (h : s.checkODPTypeExist K device.subType = false) :
    s.Vacant K i device := by
  rw [vacant_iff]
  intro _ hdoor j hj _ b hb hpb hsub
  have hfound : s.checkODPTypeExist K device.subType = true := checkODPTypeExist_iff.2 ⟨j, hj, b, hb, hpb, hsub, hdoor⟩
  rw [h] at hfound
  cases hfound

/-- Handling a message leaves one device for each door exactly when a registration asks for it again: the query has asked, and the
other messages write no row. -/
theorem OneEach.handleMsg_iff (h : s.OneEach K) (m : CtrlBlock) (written : Bool) :
    (s.handleMsg K m written).OneEach K ↔ s.AsksAgainFor K m := by
  have hkeep : ∀ {u : Server}, u.units = s.units → u.OneEach K :=
    fun hunits => h.of_less fun i _ a ha => by rwa [hunits] at ha
  unfold handleMsg AsksAgainFor
  split
  · rename_i htype
    rcases processIDPToMFCBPair_units (K := K) (s := s) m with ⟨x, haccepts, hfound, hunits⟩ | ⟨haccepts, hunits⟩
    · rw [h.update_iff (getDeviceByFd_lt hfound) hunits, haccepts]
      simp [htype]
    · rw [haccepts]
      exact iff_of_true (hkeep hunits) (by simp [htype])
  · rename_i htype
    rcases processODPToMFCBPair_units (K := K) (s := s) m with ⟨x, haccepts, hfound, hunits⟩ | ⟨haccepts, hunits⟩
    · rw [h.update_iff (getDeviceByFd_lt hfound) hunits, haccepts]
      simp [htype]
    · rw [haccepts]
      exact iff_of_true (hkeep hunits) (by simp [htype])
  · rename_i htype
    refine iff_of_true ?_ (by simp [htype])
    rcases processODPToMFCBQueryAccountInfo_units (K := K) (s := s) m with ⟨x, hfound, hcheck, hunits⟩ | hunits
    · exact (h.update_iff (getDeviceByFd_lt hfound) hunits).2 (vacant_of_check hcheck)
    · exact hkeep hunits
  · rename_i htype
    obtain ⟨_, _, _, heq⟩ := s.processIDPToMFCBTokenOperation_eq m
    exact iff_of_true (hkeep (by rw [heq])) (by simp [htype])
  · rename_i htype
    obtain ⟨_, heq⟩ := s.updateKeepAliveStatus_eq K m.connfd
    exact iff_of_true (hkeep (by rw [heq])) (by simp [htype])
  · rename_i htype
    obtain ⟨_, _, heq⟩ := s.handleIDPToMFCBOpenDoor_eq m
    exact iff_of_true (hkeep (by rw [heq])) (by simp [htype])
  · rename_i htype
    obtain ⟨_, _, heq⟩ := s.handleMFCBToODPOpenDoorAck_eq K m written
    exact iff_of_true (hkeep (by rw [heq])) (by simp [htype])
  · rename_i htype
    exact iff_of_true h (by simp [htype])

/-- **The step lemma.** A step leaves one device for each door exactly when the door is asked for again. -/
theorem OneEach.step_iff (h : s.OneEach K) {a : Action} (hs : s.step K a = some t) : t.OneEach K ↔ s.AsksAgain K a := by
  -- a step that writes no row meets the condition
  have hkeep : t.units = s.units → t.OneEach K := fun hunits => h.of_less fun i _ a ha => by rwa [hunits] at ha
  have hlead := leads_of_step hs
  cases a with
  | select fds =>
    obtain ⟨-, -, rfl⟩ := hlead
    exact iff_of_true h trivial
  | accept fd mac =>
    obtain ⟨-, -, -, rfl⟩ := hlead
    exact iff_of_true (hkeep (acceptConnection_units fd mac)) trivial
  | acceptFails =>
    obtain rfl := hlead
    exact iff_of_true h trivial
  | receive input =>
    obtain ⟨fd, -, -, -, -, rfl⟩ := hlead
    refine iff_of_true ?_ trivial
    rcases receive_units (K := K) (s := { s with ready := s.ready.tail }) fd input with
      ⟨i, device, hrow, hi, hconnected, hunits⟩ | hunits
    · exact (h.update_iff hi hunits).2 (h.vacant hi hrow (fun hp => ⟨hp.1, .inl hconnected⟩) rfl)
    · exact hkeep hunits
  | releaseToken =>
    obtain ⟨fd, -, rfl⟩ := hlead
    obtain ⟨_, _, hrelease⟩ := s.releaseTokenByFD_eq fd
    exact iff_of_true (hkeep (by rw [hrelease])) trivial
  | handle written =>
    obtain ⟨m, msgQueue, hqueue, rfl⟩ := hlead
    simp only [AsksAgain, hqueue, List.head?_cons, Option.mem_some_iff, forall_eq']
    exact OneEach.handleMsg_iff (s := { s with msgQueue }) h m written
  | keepAliveSync i =>
    obtain ⟨-, rfl⟩ := hlead
    obtain ⟨_, _, _, _, hsync⟩ := s.keepAliveSync_eq i
    exact iff_of_true (hkeep (by rw [hsync])) trivial
  | expire =>
    obtain ⟨i, hexpiring, rfl⟩ := hlead
    simp only [AsksAgain, hexpiring, Option.mem_some_iff, forall_eq']
    rcases expire_units (K := K) (s := s) i with ⟨x, hfound, hunits⟩ | ⟨hfound, hunits⟩
    · rw [h.update_iff (getDeviceByFd_lt hfound) hunits, hfound]
      simp
    · rw [hfound]
      exact iff_of_true (hkeep hunits) (by simp)
  | deleteUnit =>
    obtain rfl := hlead
    exact iff_of_true (hkeep (zeroRows_zeroed (List.nodup_range (n := K.maxtableDevices))).units) trivial
  | writeUnit i device =>
    obtain rfl := hlead
    simp only [AsksAgain]
    by_cases hi : i < K.maxtableDevices
    · cases device with
      | none =>
        refine iff_of_true (h.of_less fun j _ a ha => ?_) (by simp)
        change Function.update s.units i none j = some a at ha
        by_cases hj : j = i
        · subst hj
          rw [Function.update_self] at ha
          cases ha
        · rwa [Function.update_of_ne hj] at ha
      | some device =>
        rw [h.update_iff hi rfl]
        simp [hi]
    · refine iff_of_true (h.of_less fun j hj a ha => ?_) (fun hlt => absurd hlt hi)
      have hne : j ≠ i := fun heq => hi (heq ▸ hj)
      change Function.update s.units i device j = some a at ha
      rwa [Function.update_of_ne hne] at ha
  | openFile fd =>
    obtain ⟨-, rfl⟩ := hlead
    exact iff_of_true h trivial
  | closeFile fd =>
    obtain ⟨-, rfl⟩ := hlead
    exact iff_of_true h trivial

/-- **One outdoor device for each door.** From a table that has one, the table has one in every state of a run exactly when each step
that pairs a device asks for the door again. -/
theorem one_each_iff (opened : Finset Int) (gehServerFd : Nat) (units : Nat → Option DeviceInfo)
    (hunits : (start opened gehServerFd units).OneEach K) {tr : List (Transition Server Action)}
    (hrun : Run (steps K) (start opened gehServerFd units) tr s) :
    Always (fun _ _ t => t.OneEach K) tr ↔ Meets (fun s a => s.AsksAgain K a) tr :=
  Run.all_iff hunits (fun _ _ _ h hc hs => ⟨(h.step_iff hs).2 hc, (h.step_iff hs).2 hc⟩)
    (fun _ _ _ h hc hs ht => hc ((h.step_iff hs).1 ht)) hrun

/-- An outdoor device that is to be paired, as `generateAccountEvtAct` enters it: at the front door. -/
def newOutdoor (mac account : Char) : DeviceInfo := ⟨[mac], [account], ['p'], .odp, 1, .pairing, 0⟩

/-- The query for an account, for a door, and the registration of the outdoor device with this digit for its account. -/
def queryThenRegister (fd : Int) (account door : UInt8) : List Action :=
  [.select [fd], .receive (some (messageOf (account - 48) 0x1080 [door])), .handle true,
    .select [fd], .receive (some (messageOf (account - 48) 0x1081 [1, account, 1, 112])), .handle true]

/-- Two outdoor devices connect, and register one after the other, each at its door. -/
theorem one_each_example :
    ∃ tr s, Run (steps (smallTables 2)) (startWith [newOutdoor 'm' '5', newOutdoor 'n' '6']) tr s ∧ tr.length = 16 ∧
      Always (fun _ _ t => t.OneEach (smallTables 2)) tr := by
  obtain ⟨s, hrun⟩ := run_played 2 [newOutdoor 'm' '5', newOutdoor 'n' '6']
    ([.select [3], .accept 4 (some ['m']), .select [3], .accept 5 (some ['n'])] ++
      queryThenRegister 4 53 1 ++ queryThenRegister 5 54 2)
  refine ⟨_, s, hrun, by decide +kernel, (one_each_iff {0, 1, 2} 3 _ ?_ hrun).2 (by decide +kernel)⟩
  intro i j a b hi hj ha _ hpaired
  have hnone : ∀ i < 2, ∀ a, (startWith [newOutdoor 'm' '5', newOutdoor 'n' '6']).units i = some a → ¬a.PairedOutdoor := by
    decide +kernel
  exact absurd hpaired (hnone i hi a ha)

/-- Two outdoor devices connect and ask for the front door, one after the other; then they register. -/
def bothAsk : List Action :=
  [.select [3], .accept 4 (some ['m']), .select [3], .accept 5 (some ['n']),
    .select [4, 5], .receive (some (messageOf 5 0x1080 [1])), .receive (some (messageOf 6 0x1080 [1])), .handle true, .handle true,
    .select [4, 5], .receive (some (messageOf 5 0x1081 [1, 53, 1, 112])), .receive (some (messageOf 6 0x1081 [1, 54, 1, 112])),
    .handle true, .handle true]

/-- No device is paired before, and then two stand at the front door. -/
theorem two_at_one_door :
    (start {0, 1, 2} 3 fun i => [newOutdoor 'm' '5', newOutdoor 'n' '6'][i]?).OneEach (smallTables 2) ∧
      ∃ tr s, Run (steps (smallTables 2)) (startWith [newOutdoor 'm' '5', newOutdoor 'n' '6']) tr s ∧
        ¬Always (fun _ _ t => t.OneEach (smallTables 2)) tr := by
  constructor
  · intro i j a b hi hj ha _ hpaired
    have hnone : ∀ i < 2, ∀ a, (startWith [newOutdoor 'm' '5', newOutdoor 'n' '6']).units i = some a → ¬a.PairedOutdoor := by
      decide +kernel
    exact absurd hpaired (hnone i hi a ha)
  · obtain ⟨s, hrun⟩ := run_played 2 [newOutdoor 'm' '5', newOutdoor 'n' '6'] bothAsk
    refine ⟨_, s, hrun, fun h => ?_⟩
    have htwo : ∃ x ∈ played 2 [newOutdoor 'm' '5', newOutdoor 'n' '6'] bothAsk,
        x.2.2.units 0 = some { newOutdoor 'm' '5' with status := .connected } ∧
          x.2.2.units 1 = some { newOutdoor 'n' '6' with status := .connected } := by
      decide +kernel
    obtain ⟨x, hx, hfirst, hsecond⟩ := htwo
    have heq := h x hx 0 1 _ _ (by decide) (by decide) hfirst hsecond ⟨rfl, .inl rfl⟩ ⟨rfl, .inl rfl⟩ rfl (.inl rfl)
    cases heq

end Server

end CodeFactory.Ehcc
